import Lox.Proofs.Environment
import Lox.Proofs.Operations

/-!
# What expressions write

An expression changes a store by the assignments in it and in no other way.  However it ends, the
frames are those of before, with their parents and with their names in order.  A value that has
changed belongs to a name that the expression assigns, in the frame that owns this name, seen from
the frame of the expression; a binding that is shadowed there is never written.

Owners depend on parents and names alone.  So an expression does not move them, and the owner may
be taken before or after any part of it.
-/

namespace Lox

/-- The second store has the frames and names of the first.  Values differ at most for names among
the given ones, each in its owner as seen from frame `f`. -/
structure Store.Reassigned (A : List String) (f : Nat) (s s' : Store) : Prop
    extends s.SameNames s' where
  values : ∀ g name, (s'.bindings g).get? name ≠ (s.bindings g).get? name →
    name ∈ A ∧ s.IsOwner f name g

namespace Store.Reassigned
variable {A : List String} {f : Nat} {s s' : Store}

theorem refl (s : Store) : s.Reassigned A f s :=
  ⟨.refl s, fun _ _ hne => absurd rfl hne⟩

theorem trans {s₁ s₂ s₃ : Store} (h : s₁.Reassigned A f s₂) (h' : s₂.Reassigned A f s₃) :
    s₁.Reassigned A f s₃ where
  toSameNames := h.toSameNames.trans h'.toSameNames
  values := by
    intro g name hne
    by_cases heq : (s₂.bindings g).get? name = (s₁.bindings g).get? name
    · -- The value was changed on the second way, and its owner was the same before the first.
      rw [← heq] at hne
      exact (h'.values g name hne).imp_right h.isOwner_iff.1
    · exact h.values g name heq

/-- The owner of a name may be given a value for it. -/
theorem define {o : Nat} {name : String} (hname : name ∈ A) (howner : s.IsOwner f name o)
    (v : Value) : s.Reassigned A f (s.define o name v) where
  toSameNames := .define howner.2 v
  values := by
    intro g other hne
    rw [bindings_define] at hne
    split at hne
    · next hg =>
      rw [Bindings.get?_insert] at hne
      split at hne
      · next heq =>
        rw [heq, ← hg.1]
        exact ⟨hname, howner⟩
      · exact absurd rfl hne
    · exact absurd rfl hne

/-- A name that is not among the given ones is seen as before, from every frame. -/
theorem lookup?_eq (h : s.Reassigned A f s') {name : String} (hname : name ∉ A) (g : Nat) :
    s'.lookup? g name = s.lookup? g name := by
  refine lookup?_congr (chain_congr h.parent?_eq g) ?_
  intro i _
  by_cases heq : (s'.bindings i).get? name = (s.bindings i).get? name
  · exact heq
  · exact absurd (h.values i name heq).1 hname

end Store.Reassigned

section
variable {A : List String} {f : Nat}

instance : Std.Refl (Store.Reassigned A f) := ⟨Store.Reassigned.refl⟩

instance : Trans (Store.Reassigned A f) (Store.Reassigned A f) (Store.Reassigned A f) :=
  ⟨Store.Reassigned.trans⟩

/-- An assignment to a name among the given ones writes to the owner of the name, or not at all. -/
theorem EvalM.leads_assign_reassigned {name : Lexeme} (hname : name.text ∈ A) (v : Value) :
    Leads (Store.Reassigned A f) (assign f name v) := by
  intro s
  cases howner : s.owner? f name.text with
  | some o =>
    have hown := Store.owner?_eq_some_iff.1 howner
    rw [assign_of_isOwner hown v]
    exact .define hname hown v
  | none =>
    rw [assign_of_not_isOwner (Store.owner?_eq_none_iff.1 howner) v]
    exact .refl s

end

/-- On every way out of an expression, no frame and no name was added or moved, and a value that
differs is that of a name that some assignment in the expression is to, in the nearest frame that
holds the name. -/
theorem eval_footprint (node : Node) (f : Nat) (s : Store) :
    s.Reassigned node.assigned f (finalState (node.eval f s)) :=
  Node.leads_eval_of_assigned (fun _ hname v => EvalM.leads_assign_reassigned hname v)
    (List.Subset.refl _) s

end Lox
