import Lox.Proofs.Scopes.Footprint
import Lox.Proofs.Scopes.Simulation

/-!
# What a statement sees of its frames

A statement depends on the frames around it only through the values that the names in it resolve
to.  How many frames there are, over which of them the names are spread, and what else they hold
makes no difference to what the statement prints, how it ends, and what its names resolve to
afterwards.

While two such runs are under way, each of them has pushed the same scopes in front of those that
it began with.  The pushed scopes agree one by one; those that were there before agree as a whole.
-/

namespace Lox
namespace Scopes

/-! ## Stacks that are alike -/

/-- The stacks agree on the given names: in each of the innermost scopes, as many as given, and
around these in what is looked up. -/
inductive Alike (names : List String) : Nat → Scopes → Scopes → Prop
  | base {scopes scopes' : Scopes} (left : scopes ≠ []) (right : scopes' ≠ [])
      (lookup : ∀ name ∈ names, lookup? name scopes = lookup? name scopes') :
      Alike names 0 scopes scopes'
  | push {depth : Nat} {b b' : Bindings} {rest rest' : Scopes}
      (head : ∀ name ∈ names, b.get? name = b'.get? name) (tail : Alike names depth rest rest') :
      Alike names (depth + 1) (b :: rest) (b' :: rest')

namespace Alike
variable {names : List String} {depth : Nat} {scopes scopes' : Scopes}

theorem lookup?_eq (h : Alike names depth scopes scopes') {name : String} (hname : name ∈ names) :
    lookup? name scopes = lookup? name scopes' := by
  induction h with
  | base _ _ lookup => exact lookup name hname
  | push head _ ih => rw [lookup?_cons, lookup?_cons, head name hname, ih]

/-- A definition of any name on both sides leaves the stacks alike. -/
theorem define (h : Alike names depth scopes scopes') (name : String) (v : Value) :
    Alike names depth (Scopes.define name v scopes) (Scopes.define name v scopes') := by
  cases h with
  | base left right lookup =>
    refine .base (define_ne_nil left name v) (define_ne_nil right name v) fun other hother => ?_
    rw [lookup?_define left, lookup?_define right, lookup other hother]
  | push head tail =>
    refine .push (fun other hother => ?_) tail
    rw [Bindings.get?_insert, Bindings.get?_insert, head other hother]

/-- An assignment to one of the names fails on both sides, or leaves the stacks alike. -/
theorem assign? (h : Alike names depth scopes scopes') {name : String} (hname : name ∈ names)
    (v : Value) :
    (Scopes.assign? name v scopes = none ∧ Scopes.assign? name v scopes' = none) ∨
      ∃ scopes₁ scopes₁', Scopes.assign? name v scopes = some scopes₁ ∧
        Scopes.assign? name v scopes' = some scopes₁' ∧ Alike names depth scopes₁ scopes₁' := by
  induction h with
  | @base scopes scopes' left right lookup =>
    cases hassign : Scopes.assign? name v scopes with
    | none =>
      refine .inl ⟨rfl, (assign?_eq_none_iff name v scopes').2 ?_⟩
      rw [← lookup name hname]
      exact (assign?_eq_none_iff name v scopes).1 hassign
    | some scopes₁ =>
      cases hassign' : Scopes.assign? name v scopes' with
      | none =>
        have hnone := (assign?_eq_none_iff name v scopes').1 hassign'
        rw [← lookup name hname, ← assign?_eq_none_iff name v, hassign] at hnone
        cases hnone
      | some scopes₁' =>
        refine .inr ⟨scopes₁, scopes₁', rfl, rfl,
          .base (ne_nil_of_assign? hassign) (ne_nil_of_assign? hassign') fun other hother => ?_⟩
        rw [lookup?_of_assign? hassign, lookup?_of_assign? hassign', lookup other hother]
  | @push depth b b' rest rest' head tail ih =>
    cases hget : b.get? name with
    | some w =>
      have hget' : b'.get? name = some w := by rw [← head name hname, hget]
      refine .inr ⟨_, _, assign?_cons_of_some hget v rest, assign?_cons_of_some hget' v rest',
        .push (fun other hother => ?_) tail⟩
      rw [Bindings.get?_insert, Bindings.get?_insert, head other hother]
    | none =>
      have hget' : b'.get? name = none := by rw [← head name hname, hget]
      rw [assign?_cons_of_none hget, assign?_cons_of_none hget']
      rcases ih with ⟨hnone, hnone'⟩ | ⟨rest₁, rest₁', hsome, hsome', halike⟩
      · exact .inl ⟨by rw [hnone]; rfl, by rw [hnone']; rfl⟩
      · exact .inr ⟨b :: rest₁, b' :: rest₁', by rw [hsome]; rfl, by rw [hsome']; rfl,
          .push head halike⟩

theorem tail (h : Alike names (depth + 1) scopes scopes') :
    Alike names depth scopes.tail scopes'.tail := by
  cases h with
  | push _ tail => exact tail

end Alike

/-! ## Runs -/

variable {names : List String} {depth : Nat}

theorem lockstep_lookup {name : Lexeme} (hname : name.text ∈ names) :
    Lockstep (Alike names depth) (lookup name) (lookup name) := by
  intro scopes scopes' h
  simp only [lookup, h.lookup?_eq hname]
  cases lookup? name.text scopes' with
  | none => exact ⟨rfl, h⟩
  | some v => exact ⟨rfl, h⟩

theorem lockstep_assign {name : Lexeme} (hname : name.text ∈ names) (v : Value) :
    Lockstep (Alike names depth) (assign name v) (assign name v) := by
  intro scopes scopes' h
  rcases h.assign? hname v with ⟨hnone, hnone'⟩ | ⟨scopes₁, scopes₁', hsome, hsome', h₁⟩
  · simp only [assign, hnone, hnone']
    exact ⟨rfl, h⟩
  · simp only [assign, hsome, hsome']
    exact ⟨rfl, h₁⟩

/-- Runs that mention only the given names keep stacks alike. -/
theorem simulation_alike (names : List String) : Simulation names names id (Alike names) where
  lookup := lockstep_lookup
  assign := lockstep_assign
  define := fun _ _ v _ _ h => h.define _ v
  push := fun h => .push (fun _ _ => rfl) h
  pop := Alike.tail

/-- The stacks of scopes are alike, and the same was printed. -/
structure State.Alike (names : List String) (depth : Nat) (state state' : State) : Prop where
  scopes : Scopes.Alike names depth state.scopes state'.scopes
  printed_eq : state.printed = state'.printed

theorem State.related_alike :
    State.Related (Scopes.Alike names depth) = State.Alike names depth := by
  funext state state'
  exact propext ⟨fun h => ⟨h.scopes, h.printed_eq⟩, fun h => ⟨h.scopes, h.printed_eq⟩⟩

/-- From stacks that are alike for its names, a statement ends alike and leaves them alike. -/
theorem lockstep_exec {node : Node} (hnames : node.names ⊆ names) (fuel : Nat) :
    Lockstep (State.Alike names depth) (exec fuel node) (exec fuel node) := by
  rw [← State.related_alike]
  exact (simulation_alike names).exec_self hnames
    (fun _ => List.Subset.trans node.declared_subset_names hnames) fuel

end Scopes

/-! ## Frames -/

/-- A name resolves on the machine to what it is in the scopes that the machine shows. -/
theorem Machine.Shows.lookup?_eq {s₀ : Store} {f : Nat} (hf : f < s₀.size) {out₀ : Array String}
    {m : Machine} {state : Scopes.State} (h : m.Shows s₀ f out₀ state) (name : String) :
    m.store.lookup? f name = Scopes.lookup? name state.scopes := by
  rw [Store.lookup?_eq, h.store.scopes_of_lt hf]

namespace Node

/-- A name that a statement does not mention resolves from the active frame as before. -/
theorem lookup?_of_ends {m m' : Machine} (hm : m.active < m.store.size) {statement : Node}
    {outcome : Except Fault Unit} (h : Ends (Node.exec · statement) m outcome m') {name : String}
    (hname : name ∉ statement.names) :
    m'.store.lookup? m.active name = m.store.lookup? m.active name := by
  obtain ⟨state, -, hshows⟩ := ends_scopes hm h
  have hscopes := evolves_scopes hm h
  have hA : name ∉ statement.assigned := fun hmem => hname (statement.assigned_subset_names hmem)
  have hD : name ∉ statement.declared := fun hmem => hname (statement.declared_subset_names hmem)
  rw [hshows.lookup?_eq hm, ← hshows.store.scopes_eq, hscopes.lookup?_eq hA hD,
    Store.lookup?_eq, Store.scopes]

/-- Where the names of a statement resolve alike, what it does from one frame it does from the
other one. -/
theorem ends_of_alike {m₁ m₂ m₁' : Machine} (h₁ : m₁.active < m₁.store.size)
    (h₂ : m₂.active < m₂.store.size) {statement : Node} {outcome : Except Fault Unit}
    (halike : ∀ name ∈ statement.names,
      m₁.store.lookup? m₁.active name = m₂.store.lookup? m₂.active name)
    (h : Ends (Node.exec · statement) m₁ outcome m₁') :
    ∃ m₂' printed, Ends (Node.exec · statement) m₂ outcome m₂' ∧
      m₁'.console.out = m₁.console.out ++ printed ∧
      m₂'.console.out = m₂.console.out ++ printed ∧
      ∀ name ∈ statement.names,
        m₁'.store.lookup? m₁.active name = m₂'.store.lookup? m₂.active name := by
  obtain ⟨state₁, hstate₁, hshows₁⟩ := ends_scopes h₁ h
  have hscopes : Scopes.Alike statement.names 0 (m₁.store.scopes m₁.active)
      (m₂.store.scopes m₂.active) := by
    refine .base (m₁.store.scopes_ne_nil m₁.active) (m₂.store.scopes_ne_nil m₂.active) ?_
    intro name hname
    rw [← Store.lookup?_eq, ← Store.lookup?_eq, halike name hname]
  have hstates : Scopes.State.Alike statement.names 0 ⟨m₁.store.scopes m₁.active, #[]⟩
      ⟨m₂.store.scopes m₂.active, #[]⟩ := ⟨hscopes, rfl⟩
  obtain ⟨state₂, hstate₂, hstates'⟩ := hstate₁.of_lockstep
    (fun fuel => Scopes.lockstep_exec (List.Subset.refl _) fuel) hstates
  obtain ⟨m₂', hexec₂, hshows₂⟩ := ends_exec h₂ hstate₂
  refine ⟨m₂', state₁.printed, hexec₂, hshows₁.out_eq, ?_, fun name hname => ?_⟩
  · rw [hshows₂.out_eq, hstates'.printed_eq]
  · rw [hshows₁.lookup?_eq h₁, hshows₂.lookup?_eq h₂, hstates'.scopes.lookup?_eq hname]

end Node

/-- From any two frames from which the names in a statement resolve to the same values, or both to
none, the statement terminates or not, and if it does then it ends alike and prints the same;
afterwards its names resolve alike again, and all other names as they did before. -/
theorem exec_determined_by_resolution (m₁ m₂ : Machine) (h₁ : m₁.active < m₁.store.size)
    (h₂ : m₂.active < m₂.store.size) (statement : Node)
    (halike : ∀ name ∈ statement.names,
      m₁.store.lookup? m₁.active name = m₂.store.lookup? m₂.active name) :
    (Terminates (Node.exec · statement) m₁ ↔ Terminates (Node.exec · statement) m₂) ∧
    ∀ outcome₁ m₁' outcome₂ m₂', Ends (Node.exec · statement) m₁ outcome₁ m₁' →
      Ends (Node.exec · statement) m₂ outcome₂ m₂' →
      outcome₁ = outcome₂ ∧
      (∃ printed, m₁'.console.out = m₁.console.out ++ printed ∧
        m₂'.console.out = m₂.console.out ++ printed) ∧
      (∀ name ∈ statement.names,
        m₁'.store.lookup? m₁.active name = m₂'.store.lookup? m₂.active name) ∧
      ∀ name ∉ statement.names,
        m₁'.store.lookup? m₁.active name = m₁.store.lookup? m₁.active name ∧
        m₂'.store.lookup? m₂.active name = m₂.store.lookup? m₂.active name := by
  have halike' : ∀ name ∈ statement.names,
      m₂.store.lookup? m₂.active name = m₁.store.lookup? m₁.active name :=
    fun name hname => (halike name hname).symm
  refine ⟨⟨fun ⟨outcome, m₁', hends⟩ => ?_, fun ⟨outcome, m₂', hends⟩ => ?_⟩,
    fun outcome₁ m₁' outcome₂ m₂' hends₁ hends₂ => ?_⟩
  · obtain ⟨m₂', -, hends', -⟩ := Node.ends_of_alike h₁ h₂ halike hends
    exact ⟨outcome, m₂', hends'⟩
  · obtain ⟨m₁', -, hends', -⟩ := Node.ends_of_alike h₂ h₁ halike' hends
    exact ⟨outcome, m₁', hends'⟩
  · obtain ⟨m₂'', printed, hends₂', hout₁, hout₂, hnames⟩ :=
      Node.ends_of_alike h₁ h₂ halike hends₁
    obtain ⟨rfl, rfl⟩ := hends₂.unique statement.fuelMonotone_exec hends₂'
    exact ⟨rfl, ⟨printed, hout₁, hout₂⟩, hnames, fun name hname =>
      ⟨Node.lookup?_of_ends h₁ hends₁ hname, Node.lookup?_of_ends h₂ hends₂ hname⟩⟩

/-- A machine with one frame only, which holds a name and an unrelated one. -/
def flatMachine : Machine where
  store := (((∅ : Store).push none).define 0 "z" .nil).define 0 "x" (.string "a")
  active := 0
  failed := false
  console := ⟨#["before\n"], #[]⟩
  log := #[]

/-- Two frames or one: a block that fails assigns and prints the same before it does. -/
theorem exec_determined_by_resolution_failingBlock :
    ∃ fault m₁' m₂', Ends (Node.exec · failingBlock) nestedMachine (.error fault) m₁' ∧
      Ends (Node.exec · failingBlock) flatMachine (.error fault) m₂' ∧
      m₁'.store.lookup? 1 "x" = m₂'.store.lookup? 0 "x" ∧
      m₂'.store.lookup? 0 "z" = some .nil := by
  have hnames : failingBlock.names = ["x", "x", "x"] := by with_unfolding_all rfl
  have halike : ∀ name ∈ failingBlock.names,
      nestedMachine.store.lookup? nestedMachine.active name =
        flatMachine.store.lookup? flatMachine.active name := by
    rw [hnames]
    decide +kernel
  obtain ⟨m₁', hends₁⟩ : ∃ m', Ends (Node.exec · failingBlock) nestedMachine
      (.error (.unplaced (.unsupportedStatement "Unknown"))) m' := ⟨_, 1, by with_unfolding_all rfl⟩
  obtain ⟨m₂', hends₂⟩ : ∃ m', Ends (Node.exec · failingBlock) flatMachine
      (.error (.unplaced (.unsupportedStatement "Unknown"))) m' := ⟨_, 1, by with_unfolding_all rfl⟩
  obtain ⟨-, -, hsame, hother⟩ := (exec_determined_by_resolution nestedMachine flatMachine
    (by decide) (by decide) failingBlock halike).2 _ _ _ _ hends₁ hends₂
  have hz : "z" ∉ failingBlock.names := by
    rw [hnames]
    decide
  refine ⟨_, m₁', m₂', hends₁, hends₂, hsame "x" (by rw [hnames]; decide), ?_⟩
  exact (hother "z" hz).2.trans (by decide +kernel)

end Lox
