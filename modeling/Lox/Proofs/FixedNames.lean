import Lox.Proofs.Assignments
import Lox.Proofs.Points

/-!
# Names that keep their value

A frame *fixes* a name if it holds a value for it that every frame inside sees, because no frame
between the two holds the name.  A task that assigns and declares other names only leaves the name
fixed, with its value, and it is run in that frame or in frames inside.  So this value is what the
name stands for at all points of the task.
-/

namespace Lox

/-! ## Names bound -/

namespace Node

/-- The name that a node itself assigns or declares. -/
def ownBound? : Node → Option String
  | assign name _ => some name.text
  | varDecl name _ => some name.text
  | _ => none

/-- The names that a node assigns or declares, itself or below. -/
def bound (node : Node) : List String := node.nodes.filterMap ownBound?

theorem bound_subset {child node : Node} (h : child ∈ node.children) :
    child.bound ⊆ node.bound :=
  List.filterMap_subset _ (nodes_subset h)

theorem mem_bound_varDecl (name : Lexeme) (initializer? : Option Node) :
    name.text ∈ (varDecl name initializer?).bound :=
  List.mem_filterMap.2 ⟨_, by rw [nodes_eq]; exact List.mem_cons_self, rfl⟩

/-- What is assigned is bound. -/
theorem assigned_subset_bound (node : Node) : node.assigned ⊆ node.bound := by
  intro name hname
  obtain ⟨other, hother, htarget⟩ := List.mem_filterMap.1 hname
  refine List.mem_filterMap.2 ⟨other, hother, ?_⟩
  cases other with
  | assign => exact htarget
  | literal | grouping | unary | binary | logical | ternary | var | expression | print | varDecl
  | block | ifElse | whileLoop | forLoop | foreign => cases htarget

end Node

/-! ## Stores -/

/-- Frame `f` holds the value for the name, and a search for it that comes from inside the frame
ends there. -/
structure Store.Fixes (s : Store) (f : Nat) (name : String) (v : Value) : Prop where
  get?_eq : (s.bindings f).get? name = some v
  reaches : ∀ g, f ∈ s.chain g → s.Reaches g name f

theorem Store.reaches_self (s : Store) (f : Nat) (name : String) : s.Reaches f name f := by
  obtain ⟨rest, hchain, -⟩ := s.exists_chain_eq_cons f
  refine ⟨s.mem_chain_self f, fun g hg => ?_⟩
  rw [nearer_of_chain_eq (show s.chain f = [] ++ f :: rest from hchain) List.not_mem_nil] at hg
  cases hg

namespace Store.Fixes
variable {s s' : Store} {f g : Nat} {name : String} {v w : Value}

theorem mem_names (h : s.Fixes f name v) : name ∈ (s.bindings f).names :=
  Bindings.holds_iff.1 (Option.isSome_iff_exists.2 ⟨v, h.get?_eq⟩)

theorem isOwner (h : s.Fixes f name v) (hg : f ∈ s.chain g) : s.IsOwner g name f :=
  ⟨h.reaches g hg, h.mem_names⟩

/-- The frame is in the store. -/
theorem lt_size (h : s.Fixes f name v) : f < s.size := (h.isOwner (s.mem_chain_self f)).lt_size

theorem lookup?_eq (h : s.Fixes f name v) (hg : f ∈ s.chain g) : s.lookup? g name = some v := by
  rw [(h.isOwner hg).lookup?_eq, h.get?_eq]

/-- Another value for the name in the same frame. -/
theorem define (h : s.Fixes f name v) (w : Value) : (s.define f name w).Fixes f name w where
  get?_eq := by rw [bindings_define_self h.lt_size, Bindings.get?_insert, if_pos rfl]
  reaches := by
    intro g hg
    rw [chain_define] at hg
    exact (h.reaches g hg).isOwner_define h.lt_size w |>.1

/-- Values for other names, in whatever frame. -/
theorem define_of_ne (h : s.Fixes f name v) (g : Nat) {other : String} (hne : other ≠ name)
    (w : Value) : (s.define g other w).Fixes f name v where
  get?_eq := by
    rw [bindings_define]
    split
    · rw [Bindings.get?_insert, if_neg hne.symm, h.get?_eq]
    · exact h.get?_eq
  reaches := by
    intro i hi
    have hreaches := h.reaches i (by rwa [chain_define] at hi)
    have hnearer : (s.define g other w).nearer i f = s.nearer i f := by
      rw [nearer, nearer, chain_define]
    refine ⟨hi, fun j hj => ?_⟩
    rw [hnearer] at hj
    have hj := hreaches.2 j hj
    rw [bindings_define]
    split
    · rw [Bindings.names_insert]
      split
      · exact hj
      · simpa [hne.symm] using hj
    · exact hj

/-- The first value for the name, in the newest frame. -/
theorem of_newest (hf : s.size = f + 1) (v : Value) : (s.define f name v).Fixes f name v where
  get?_eq := by rw [bindings_define_self (by omega), Bindings.get?_insert, if_pos rfl]
  reaches := by
    intro g hg
    rw [chain_define] at hg
    have hreaches : s.Reaches g name f := by
      -- no other frame is inside the newest one
      obtain rfl : g = f := by
        by_cases hgs : g < s.size
        · have hle := le_of_mem_chain hg
          omega
        · rw [chain_of_size_le (by omega), List.mem_singleton] at hg
          exact hg.symm
      exact reaches_self s g name
    exact (hreaches.isOwner_define (by omega) v).1

/-- A new frame holds no name. -/
theorem push (h : s.Fixes f name v) (p : Nat) : (s.push (some p)).Fixes f name v where
  get?_eq := by rw [bindings_push, h.get?_eq]
  reaches := by
    intro g hg
    rcases Nat.lt_trichotomy g s.size with hlt | rfl | hgt
    · have hchain := chain_push_of_lt hlt (some p)
      rw [hchain] at hg
      exact (h.reaches g hg).of_names_eq hchain fun i _ => by rw [bindings_push]
    · obtain ⟨hp, hfp⟩ := mem_chain_of_mem_chain_push h.lt_size hg
      refine ⟨hg, fun i hi => ?_⟩
      rw [nearer, chain_push_size hp, List.takeWhile_cons_of_pos
        (by simpa using (Nat.ne_of_lt h.lt_size).symm), List.mem_cons] at hi
      rw [bindings_push]
      rcases hi with rfl | hi
      · rw [bindings_of_size_le (Nat.le_refl _)]
        simp
      · exact (h.reaches p hfp).2 i hi
    · rw [chain_of_size_le (by rw [size_push]; omega), List.mem_singleton] at hg
      exact absurd (hg ▸ h.lt_size) (Nat.not_lt_of_gt hgt)

/-- An expression that does not assign the name. -/
theorem reassigned (h : s.Fixes f name v) {A : List String} (hA : name ∉ A)
    (hs : s.Reassigned A g s') : s'.Fixes f name v where
  get?_eq := by
    by_cases heq : (s'.bindings f).get? name = (s.bindings f).get? name
    · rw [heq, h.get?_eq]
    · exact absurd (hs.values f name heq).1 hA
  reaches := by
    intro i hi
    rw [chain_congr hs.parent?_eq] at hi
    exact (h.reaches i hi).of_names_eq (chain_congr hs.parent?_eq i) fun j _ => hs.names_eq j

end Store.Fixes

/-! ## Points -/

section
variable {f : Nat} {name : String} {v : Value}

/-- What does not bind a name leaves it fixed, with its value. -/
theorem ExecM.operationsKeep_fixes (f : Nat) (name : String) (v : Value) :
    OperationsKeep (fun node => name ∉ node.bound) (fun _ => True)
      (fun m => m.store.Fixes f name v) (fun _ => True) where
  child := fun hnode child hmem hname => hnode (Node.bound_subset hmem hname)
  evaluate := by
    intro node hnode
    refine Ensures.of_results fun m hm => ?_
    have hassigned : name ∉ node.assigned := fun h => hnode (node.assigned_subset_bound h)
    have hleads : Leads (Store.Reassigned node.assigned m.active) (node.eval m.active) :=
      node.leads_eval_of_assigned (fun _ hname v => EvalM.leads_assign_reassigned hname v)
        (List.Subset.refl _)
    have hstore := hm.reassigned hassigned (hleads m.store)
    cases heval : node.eval m.active m.store with
    | ok w store =>
      rw [heval] at hstore
      rw [evaluate_of_ok heval]
      exact ⟨trivial, hstore⟩
    | error fault store =>
      rw [heval] at hstore
      rw [evaluate_of_error heval]
      exact ⟨trivial, hstore⟩
  print := fun _ _ hm => hm
  define := by
    intro other initializer? hnode w m _ hm
    refine hm.define_of_ne m.active (fun heq => hnode ?_) w
    exact heq ▸ Node.mem_bound_varDecl other initializer?
  nil := trivial
  nested := fun m hm => hm.push m.active
  leave := fun _ _ hm => hm
  outOfFuel := trivial
  unsupported := fun _ => trivial

/-- The active frame is in the store, and is the given frame or inside of it. -/
structure Machine.Inside (f : Nat) (m : Machine) : Prop where
  active_lt : m.active < m.store.size
  mem_chain : f ∈ m.store.chain m.active

namespace Machine.Inside
variable {m m' : Machine}

theorem keeps (h : m.Inside f) (hm : m.Keeps m') : m'.Inside f where
  active_lt := hm.active_lt h.active_lt
  mem_chain := by
    rw [hm.active_eq, Store.chain_of_grows hm.grows h.active_lt]
    exact h.mem_chain

theorem nested (h : m.Inside f) : m.nested.Inside f where
  active_lt := m.active_nested_lt
  mem_chain := by
    rw [active_nested, store_nested, Store.chain_push_size h.active_lt]
    exact List.mem_cons_of_mem _ h.mem_chain

end Machine.Inside

/-- A task is run in the frame that it begins in, or inside of it. -/
theorem Point.inside_of_reached {p p' : Point} (hp : p.machine.Inside f)
    (hreached : Relation.ReflTransGen Calls p p') : p'.machine.Inside f := by
  induction hreached with
  | refl => exact hp
  | tail _ hcall ih =>
    rcases hcall.leads_of ExecM.operationsLead_keeps with h | h
    · exact ih.keeps h
    · exact ih.nested.keeps h

/-- At every point of a task that does not bind the name, the name stands for the value that is
fixed where the task begins. -/
theorem Point.lookup?_of_reached {p p' : Point} (hnodes : ∀ node ∈ p.task.nodes, name ∉ node.bound)
    (hfixes : p.machine.store.Fixes p.machine.active name v)
    (hreached : Relation.ReflTransGen Calls p p') :
    p'.machine.store.lookup? p'.machine.active name = some v := by
  have hmeets : p.Meets (fun node => name ∉ node.bound)
      fun m => m.store.Fixes p.machine.active name v := ⟨hnodes, hfixes⟩
  have hinside : p.machine.Inside p.machine.active :=
    ⟨hfixes.lt_size, p.machine.store.mem_chain_self p.machine.active⟩
  exact (hmeets.of_reached (ExecM.operationsKeep_fixes _ name v) hreached).machine.lookup?_eq
    (inside_of_reached hinside hreached).mem_chain

/-- A statement that does not bind the name leaves it fixed in the active frame. -/
theorem Node.fixes_of_ends {node : Node} (hnode : name ∉ node.bound) {m m' : Machine}
    (h : m.store.Fixes m.active name v) (ends : Ends node.exec m (.ok ()) m') :
    m'.store.Fixes m'.active name v := by
  have hkeeps := ends.leads fun fuel => leads_exec fuel node
  rw [hkeeps.active_eq]
  exact ExecM.Preserves.of_ends
    ((ExecM.operationsKeep_fixes m.active name v).preserves_exec hnode) h ends

end
end Lox
