import Lox.Proofs.Scopes.Footprint
import Lox.Proofs.Scopes.Simulation

/-!
# Local variables under another name

The name of a variable that a block declares first matters to nobody else.  The block can call it
by any name that does not occur in the rest of the block, whatever the frames around the block
call theirs: they may hold the old name, the new one, both or none.

While the two blocks run, their own scopes and all scopes pushed inside them agree up to the
renaming.  The scopes around the blocks are the same in both, and the renamed variable is never
looked for there, because the scope of the block holds it from the beginning.
-/

namespace Lox

/-! ## Renamings -/

/-- A renaming of one name to another: lexemes of the first text become lexemes of the second
text, and all other lexemes stay. -/
structure Lexeme.Renames (x y : String) (ρ : Lexeme → Lexeme) : Prop where
  text_eq : ∀ name, name.text = x → (ρ name).text = y
  eq_self : ∀ name, name.text ≠ x → ρ name = name

/-- A name after a renaming. -/
def renamed (x y name : String) : String := if name = x then y else name

theorem renamed_self (x y : String) : renamed x y x = y := if_pos rfl

theorem renamed_of_ne {x name : String} (h : name ≠ x) (y : String) : renamed x y name = name :=
  if_neg h

/-- Two names are not renamed to one, unless one of them is the new name. -/
theorem renamed_inj {x y name other : String} (hname : name ≠ y) (hother : other ≠ y) :
    renamed x y name = renamed x y other ↔ name = other := by
  unfold renamed
  grind

theorem Lexeme.Renames.text_renamed {x y : String} {ρ : Lexeme → Lexeme} (h : Renames x y ρ)
    (name : Lexeme) : (ρ name).text = renamed x y name.text := by
  by_cases hname : name.text = x
  · rw [h.text_eq name hname, hname, renamed_self]
  · rw [h.eq_self name hname, renamed_of_ne hname]

/-- The renaming that puts one lexeme in the place of all of some text. -/
theorem Lexeme.renames_ite (x : String) (y : Lexeme) :
    Renames x y.text fun name => if name.text = x then y else name where
  text_eq := fun _ h => by rw [if_pos h]
  eq_self := fun _ h => if_neg h

/-! ## Stacks up to a renaming -/

namespace Scopes

/-- The bindings give every one of the names the value that its new name has. -/
def BindingsRenamed (N : List String) (x y : String) (b b' : Bindings) : Prop :=
  ∀ name ∈ N, b'.get? (renamed x y name) = b.get? name

theorem BindingsRenamed.insert {N : List String} {x y : String} {b b' : Bindings}
    (h : BindingsRenamed N x y b b') (hy : y ∉ N) {name : String} (hname : name ∈ N) (v : Value) :
    BindingsRenamed N x y (b.insert name v) (b'.insert (renamed x y name) v) := by
  intro other hother
  have hne : name ≠ y := fun heq => hy (heq ▸ hname)
  have hne' : other ≠ y := fun heq => hy (heq ▸ hother)
  rw [Bindings.get?_insert, Bindings.get?_insert, h other hother]
  simp only [renamed_inj hne' hne]

/-- The stacks agree up to a renaming in as many scopes as given and in the one after these, which
holds the renamed variable.  Around it they are the same. -/
inductive Renamed (N : List String) (x y : String) : Nat → Scopes → Scopes → Prop
  | base {b b' : Bindings} {rest : Scopes} (head : BindingsRenamed N x y b b')
      (held : b.get? x ≠ none) : Renamed N x y 0 (b :: rest) (b' :: rest)
  | push {depth : Nat} {b b' : Bindings} {rest rest' : Scopes} (head : BindingsRenamed N x y b b')
      (tail : Renamed N x y depth rest rest') : Renamed N x y (depth + 1) (b :: rest) (b' :: rest')

namespace Renamed
variable {N : List String} {x y : String} {depth : Nat} {scopes scopes' : Scopes}

/-- The renamed variable is in scope. -/
theorem lookup?_ne_none (h : Renamed N x y depth scopes scopes') : lookup? x scopes ≠ none := by
  induction h with
  | base _ held =>
    rw [lookup?_cons, ne_eq, Option.or_eq_none_iff]
    exact fun hnone => held hnone.1
  | push _ _ ih =>
    rw [lookup?_cons, ne_eq, Option.or_eq_none_iff]
    exact fun hnone => ih hnone.2

theorem lookup?_eq (h : Renamed N x y depth scopes scopes') {name : String} (hname : name ∈ N) :
    lookup? (renamed x y name) scopes' = lookup? name scopes := by
  induction h with
  | @base b b' rest head held =>
    rw [lookup?_cons, lookup?_cons, head name hname]
    cases hget : b.get? name with
    | some v => rfl
    | none =>
      have hne : name ≠ x := fun heq => held (heq ▸ hget)
      rw [renamed_of_ne hne]
  | push head _ ih => rw [lookup?_cons, lookup?_cons, head name hname, ih]

/-- An assignment under the old and the new name fails on both sides, or leaves the stacks as they
should be. -/
theorem assign? (h : Renamed N x y depth scopes scopes') (hy : y ∉ N) {name : String}
    (hname : name ∈ N) (v : Value) :
    (Scopes.assign? name v scopes = none ∧
      Scopes.assign? (renamed x y name) v scopes' = none) ∨
    ∃ scopes₁ scopes₁', Scopes.assign? name v scopes = some scopes₁ ∧
      Scopes.assign? (renamed x y name) v scopes' = some scopes₁' ∧
      Renamed N x y depth scopes₁ scopes₁' := by
  induction h with
  | @base b b' rest head held =>
    cases hget : b.get? name with
    | some w =>
      have hget' : b'.get? (renamed x y name) = some w := by rw [head name hname, hget]
      refine .inr ⟨_, _, assign?_cons_of_some hget v rest, assign?_cons_of_some hget' v rest,
        .base (head.insert hy hname v) ?_⟩
      rw [Bindings.get?_insert]
      split
      · exact Option.some_ne_none v
      · exact held
    | none =>
      have hne : name ≠ x := fun heq => held (heq ▸ hget)
      have hget' : b'.get? (renamed x y name) = none := by rw [head name hname, hget]
      rw [assign?_cons_of_none hget, assign?_cons_of_none hget', renamed_of_ne hne]
      cases hassign : Scopes.assign? name v rest with
      | none => exact .inl ⟨rfl, rfl⟩
      | some rest₁ => exact .inr ⟨_, _, rfl, rfl, .base head held⟩
  | @push depth b b' rest rest' head tail ih =>
    cases hget : b.get? name with
    | some w =>
      have hget' : b'.get? (renamed x y name) = some w := by rw [head name hname, hget]
      exact .inr ⟨_, _, assign?_cons_of_some hget v rest, assign?_cons_of_some hget' v rest',
        .push (head.insert hy hname v) tail⟩
    | none =>
      have hget' : b'.get? (renamed x y name) = none := by rw [head name hname, hget]
      rw [assign?_cons_of_none hget, assign?_cons_of_none hget']
      rcases ih with ⟨hnone, hnone'⟩ | ⟨rest₁, rest₁', hsome, hsome', h₁⟩
      · exact .inl ⟨by rw [hnone]; rfl, by rw [hnone']; rfl⟩
      · exact .inr ⟨b :: rest₁, b' :: rest₁', by rw [hsome]; rfl, by rw [hsome']; rfl,
          .push head h₁⟩

theorem define (h : Renamed N x y depth scopes scopes') (hy : y ∉ N) {name : String}
    (hname : name ∈ N) (v : Value) :
    Renamed N x y depth (Scopes.define name v scopes)
      (Scopes.define (renamed x y name) v scopes') := by
  cases h with
  | base head held =>
    refine .base (head.insert hy hname v) ?_
    rw [Bindings.get?_insert]
    split
    · exact Option.some_ne_none v
    · exact held
  | push head tail => exact .push (head.insert hy hname v) tail

end Renamed

/-- Runs under the old and the new name keep stacks that agree up to the renaming. -/
theorem simulation_renamed {N : List String} {x y : String} (hy : y ∉ N) {ρ : Lexeme → Lexeme}
    (hρ : Lexeme.Renames x y ρ) : Simulation N N ρ (Renamed N x y) where
  lookup := by
    intro depth name hname scopes scopes' h
    simp only [lookup, hρ.text_renamed, h.lookup?_eq hname]
    cases hlookup : lookup? name.text scopes with
    | some v => exact ⟨rfl, h⟩
    | none =>
      have hne : name.text ≠ x := fun heq => h.lookup?_ne_none (heq ▸ hlookup)
      rw [hρ.eq_self name hne]
      exact ⟨rfl, h⟩
  assign := by
    intro depth name hname v scopes scopes' h
    rcases h.assign? hy hname v with ⟨hnone, hnone'⟩ | ⟨scopes₁, scopes₁', hsome, hsome', h₁⟩
    · have hne : name.text ≠ x := fun heq =>
        h.lookup?_ne_none (heq ▸ (assign?_eq_none_iff name.text v scopes).1 hnone)
      simp only [assign, hρ.text_renamed, hnone, hnone']
      rw [hρ.eq_self name hne]
      exact ⟨rfl, h⟩
    · simp only [assign, hρ.text_renamed, hsome, hsome']
      exact ⟨rfl, h₁⟩
  define := by
    intro depth name hname _ v scopes scopes' h
    rw [hρ.text_renamed]
    exact h.define hy hname v
  push := fun h => .push (fun _ _ => rfl) h
  pop := by
    intro depth scopes scopes' h
    cases h with
    | push _ tail => exact tail

/-! ## Blocks -/

/-- A scope in which two names get the same value agrees with itself up to the renaming of one to
the other. -/
theorem Renamed.of_define {N : List String} {x y : String} (hy : y ∉ N) (b : Bindings)
    (rest : Scopes) (v : Value) :
    Renamed N x y 0 (Scopes.define x v (b :: rest)) (Scopes.define y v (b :: rest)) := by
  refine .base (fun name hname => ?_) ?_
  · have hne : name ≠ y := fun heq => hy (heq ▸ hname)
    rw [Bindings.get?_insert, Bindings.get?_insert]
    by_cases heq : name = x
    · rw [heq, renamed_self, if_pos rfl, if_pos rfl]
    · rw [renamed_of_ne heq, if_neg hne, if_neg heq]
  · rw [Bindings.get?_insert, if_pos rfl]
    exact Option.some_ne_none v

/-- The same was printed, and the stacks agree around their innermost scopes. -/
structure State.SameAround (state state' : State) : Prop where
  tail_eq : state.scopes.tail = state'.scopes.tail
  printed_eq : state.printed = state'.printed

/-- Computations do the same in a scope of their own if they do the same around it. -/
theorem enclosed_congr {p q : ScopesM Unit}
    (h : ∀ scopes printed, SameEnd State.SameAround (p ⟨∅ :: scopes, printed⟩)
      (q ⟨∅ :: scopes, printed⟩)) : enclosed p = enclosed q := by
  funext state
  rcases (h state.scopes state.printed).cases with
    ⟨a, s, t, hp, hq, hst⟩ | ⟨stop, s, t, hp, hq, hst⟩
  · simp only [enclosed, hp, hq, hst.tail_eq, hst.printed_eq]
  · simp only [enclosed, hp, hq, hst.tail_eq, hst.printed_eq]

theorem Renamed.tail_eq {N : List String} {x y : String} {scopes scopes' : Scopes}
    (h : Renamed N x y 0 scopes scopes') : scopes.tail = scopes'.tail := by
  cases h with
  | base _ _ => rfl

section
variable {x y : Lexeme} {ρ : Lexeme → Lexeme} {statements : List Node}

/-- Once the variable is declared, under the one name or the other, the rest of the block does the
same around the block. -/
theorem sameEnd_rest (hρ : Lexeme.Renames x.text y.text ρ)
    (hy : ∀ statement ∈ statements, y.text ∉ statement.names) (fuel : Nat) (v : Value)
    (b : Bindings) (rest : Scopes) (printed : Array String) :
    SameEnd State.SameAround
      ((do declare x v; execAll fuel statements) ⟨b :: rest, printed⟩)
      ((do declare y v; execAll fuel (statements.map (Node.mapNames ρ))) ⟨b :: rest, printed⟩) := by
  have hy' : y.text ∉ statements.flatMap Node.names := by
    intro hmem
    obtain ⟨statement, hstatement, hname⟩ := List.mem_flatMap.1 hmem
    exact hy statement hstatement hname
  have hnames : ∀ statement ∈ statements, statement.names ⊆ statements.flatMap Node.names :=
    fun statement hstatement name hname => List.mem_flatMap.2 ⟨statement, hstatement, hname⟩
  have hdeclared : State.Related (Renamed (statements.flatMap Node.names) x.text y.text 0)
      ⟨define x.text v (b :: rest), printed⟩ ⟨define y.text v (b :: rest), printed⟩ :=
    ⟨Renamed.of_define hy' b rest v, rfl⟩
  have hall : Lockstep
      (State.Related (Renamed (statements.flatMap Node.names) x.text y.text 0))
      (execAll fuel statements) (execAll fuel (statements.map (Node.mapNames ρ))) := by
    refine lockstep_execAll fun statement hstatement => ?_
    have hsubset := hnames statement hstatement
    exact (simulation_renamed hy' hρ).exec hsubset
      (fun _ => List.Subset.trans statement.declared_subset_names hsubset) fuel
  exact (hall _ _ hdeclared).mono fun s t hst => ⟨hst.scopes.tail_eq, hst.printed_eq⟩

/-- The first variable of a block under another name makes no difference to the scopes. -/
theorem exec_block_renamed (hρ : Lexeme.Renames x.text y.text ρ)
    (hy : ∀ statement ∈ statements, y.text ∉ statement.names) (initializer? : Option Node)
    (fuel : Nat) :
    exec fuel (.block (.varDecl x initializer? :: statements)) =
      exec fuel (.block (.varDecl y initializer? :: statements.map (Node.mapNames ρ))) := by
  rw [exec, exec]
  refine enclosed_congr fun scopes printed => ?_
  cases initializer? with
  | none => exact sameEnd_rest hρ hy fuel .nil ∅ scopes printed
  | some initializer =>
    -- the initializer is the same on both sides and leaves the scope of the block there
    have hscopes := evolves_eval (A := initializer.assigned) (D := []) (List.Subset.refl _)
      (∅ :: scopes)
    simp only [execAll, exec, bind_assoc]
    cases heval : eval initializer (∅ :: scopes) with
    | ok v scopes₁ =>
      have hevaluate : evaluate initializer ⟨∅ :: scopes, printed⟩ = .ok v ⟨scopes₁, printed⟩ := by
        simp only [evaluate, heval]
      rw [bind_of_ok hevaluate, bind_of_ok hevaluate]
      rw [heval] at hscopes
      cases hscopes with
      | cons _ _ => exact sameEnd_rest hρ hy fuel v _ _ printed
    | error fault scopes₁ =>
      have hevaluate : evaluate initializer ⟨∅ :: scopes, printed⟩ =
          .error (.fault fault) ⟨scopes₁, printed⟩ := by
        simp only [evaluate, heval]
      rw [bind_of_error hevaluate, bind_of_error hevaluate]
      exact ⟨rfl, rfl, rfl⟩

end
end Scopes

/-- A block that begins with the declaration of a variable can declare it under any name that does
not occur in its other statements, if it goes by this name there too.  The initializer, which is
evaluated before, stays as it is. -/
theorem block_renames (x y : Lexeme) (ρ : Lexeme → Lexeme)
    (hρ : Lexeme.Renames x.text y.text ρ) (initializer? : Option Node) (statements : List Node)
    (hy : ∀ statement ∈ statements, y.text ∉ statement.names) :
    Node.Interchangeable (.block (.varDecl x initializer? :: statements))
      (.block (.varDecl y initializer? :: statements.map (Node.mapNames ρ))) :=
  Node.interchangeable_of_exec_eq (Scopes.exec_block_renamed hρ hy initializer?)

/-- Continues the string under a name, prints what a variable of the same name further inside
holds, then the string, and fails. -/
def localStatements (name : Lexeme) : List Node :=
  [ .expression (.assign name (.binary (.var name) (.bare "+") (.literal (.host (.string "b"))))),
    .block [.varDecl name none, .print (.var name)],
    .print (.var name),
    .foreign "Unknown"]

/-- A local variable can take the name of the outer variable that its initializer reads: the outer
variable keeps its value. -/
theorem block_renames_localStatements :
    ∃ fault m₁ m₂,
      Ends (Node.exec · (.block (.varDecl (.bare "y") (some (.var (.bare "x"))) ::
        localStatements (.bare "y")))) nestedMachine (.error fault) m₁ ∧
      Ends (Node.exec · (.block (.varDecl (.bare "x") (some (.var (.bare "x"))) ::
        localStatements (.bare "x")))) nestedMachine (.error fault) m₂ ∧
      m₂.console.out = #["nil\n", "ab\n"] ∧
      m₂.store.frames[0]? = some ⟨none, .ofList [("x", .string "a")]⟩ := by
  obtain ⟨m₁, hblock, hout, hframe⟩ : ∃ m₁, Ends (Node.exec · (.block
      (.varDecl (.bare "y") (some (.var (.bare "x"))) :: localStatements (.bare "y"))))
      nestedMachine (.error (.unplaced (.unsupportedStatement "Unknown"))) m₁ ∧
      m₁.console.out = #["nil\n", "ab\n"] ∧
      m₁.store.frames[0]? = some ⟨none, .ofList [("x", .string "a")]⟩ :=
    ⟨_, ⟨0, by with_unfolding_all rfl⟩, rfl, by with_unfolding_all rfl⟩
  have hfresh : ∀ statement ∈ localStatements (.bare "y"), "x" ∉ statement.names := by
    intro statement hmem hname
    have hall : "x" ∈ (localStatements (.bare "y")).flatMap Node.names :=
      List.mem_flatMap.2 ⟨statement, hmem, hname⟩
    have hnames : (localStatements (.bare "y")).flatMap Node.names =
        ["y", "y", "y", "y", "y"] := by with_unfolding_all rfl
    rw [hnames] at hall
    exact absurd hall (by decide)
  obtain ⟨hiff, hsame⟩ := block_renames (.bare "y") (.bare "x") _
    (Lexeme.renames_ite "y" (.bare "x")) (some (.var (.bare "x"))) (localStatements (.bare "y"))
    hfresh nestedMachine (by decide)
  obtain ⟨outcome, m₂, hblock'⟩ := hiff.1 ⟨_, m₁, hblock⟩
  obtain ⟨rfl, hagree⟩ := hsame _ _ _ _ hblock hblock'
  exact ⟨_, m₁, m₂, hblock, hblock', by rw [hagree.console_eq, hout],
    by rw [hagree.frames_eq 0 (by decide), hframe]⟩

end Lox
