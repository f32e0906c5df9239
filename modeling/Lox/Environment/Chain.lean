import Lox.Environment.Store

/-!
# Chains under the operations of the store

A definition changes the bindings of one frame and no chain.  A new frame changes no frame that
was there before, and its own chain is that of its parent with the new frame in front.
-/

namespace Lox
namespace Store

/-! ## Members of a chain -/

theorem mem_chain_self (s : Store) (f : Nat) : f ∈ s.chain f := by
  rw [chain_eq]
  exact List.mem_cons_self

theorem le_of_mem_chain {s : Store} {f g : Nat} (h : g ∈ s.chain f) : g ≤ f := by
  induction f using Nat.strongRecOn with
  | ind f ih =>
    rw [chain_eq] at h
    rcases List.mem_cons.1 h with rfl | h
    · exact Nat.le_refl g
    · split at h
      · next p hp =>
        have hlt := lt_of_parent? hp
        exact Nat.le_trans (ih p hlt h) (Nat.le_of_lt hlt)
      · cases h

/-- Frames of a chain get older from the frame outwards. -/
theorem chain_pairwise (s : Store) (f : Nat) : (s.chain f).Pairwise (· > ·) := by
  induction f using Nat.strongRecOn with
  | ind f ih =>
    rw [chain_eq]
    split
    · next p hp =>
      have hlt := lt_of_parent? hp
      refine List.Pairwise.cons (fun g hg => ?_) (ih p hlt)
      exact Nat.lt_of_le_of_lt (le_of_mem_chain hg) hlt
    · exact List.pairwise_singleton _ f

theorem chain_nodup (s : Store) (f : Nat) : (s.chain f).Nodup :=
  (s.chain_pairwise f).imp fun h => Nat.ne_of_gt h

/-- The frames around a frame of the store are in the store. -/
theorem lt_size_of_mem_chain {s : Store} {f g : Nat} (hf : f < s.size) (h : g ∈ s.chain f) :
    g < s.size := Nat.lt_of_le_of_lt (le_of_mem_chain h) hf

/-- A chain begins with its frame, which does not come again. -/
theorem exists_chain_eq_cons (s : Store) (f : Nat) :
    ∃ rest, s.chain f = f :: rest ∧ f ∉ rest := by
  have hnodup := s.chain_nodup f
  rw [chain_eq] at hnodup ⊢
  exact ⟨_, rfl, (List.nodup_cons.1 hnodup).1⟩

/-- A number that no frame has stands for no bindings. -/
theorem bindings_of_size_le {s : Store} {f : Nat} (h : s.size ≤ f) : s.bindings f = ∅ := by
  simp [bindings, Array.getElem?_eq_none (show s.frames.size ≤ f from h)]

/-- A number that no frame has is a chain of its own. -/
theorem chain_of_size_le {s : Store} {f : Nat} (h : s.size ≤ f) : s.chain f = [f] := by
  have hnone : s.parent? f = none := by
    simp [parent?, Array.getElem?_eq_none (show s.frames.size ≤ f from h)]
  rw [chain_eq, hnone]

/-- Chains are a matter of parents only. -/
theorem chain_congr {s s' : Store} (h : ∀ f, s'.parent? f = s.parent? f) (f : Nat) :
    s'.chain f = s.chain f := by
  induction f using Nat.strongRecOn with
  | ind f ih =>
    rw [chain_eq, chain_eq s, h]
    split
    · next p hp => rw [ih p (lt_of_parent? hp)]
    · rfl

/-! ## Definitions -/

@[simp] theorem parent?_define (s : Store) (f g : Nat) (name : String) (v : Value) :
    (s.define f name v).parent? g = s.parent? g := by
  simp only [parent?, define, Array.getElem?_modify]
  split
  · cases s.frames[g]? <;> rfl
  · rfl

theorem bindings_define (s : Store) (f g : Nat) (name : String) (v : Value) :
    (s.define f name v).bindings g =
      if f = g ∧ g < s.size then (s.bindings g).insert name v else s.bindings g := by
  simp only [bindings, define, Array.getElem?_modify, size]
  by_cases hfg : f = g
  · by_cases hg : g < s.frames.size <;> simp [hfg, hg]
  · simp [hfg]

theorem bindings_define_self {s : Store} {f : Nat} (hf : f < s.size) (name : String) (v : Value) :
    (s.define f name v).bindings f = (s.bindings f).insert name v := by
  rw [bindings_define, if_pos ⟨rfl, hf⟩]

theorem bindings_define_of_ne {s : Store} {f g : Nat} (h : f ≠ g) (name : String) (v : Value) :
    (s.define f name v).bindings g = s.bindings g := by
  rw [bindings_define, if_neg fun hfg => h hfg.1]

@[simp] theorem chain_define (s : Store) (f g : Nat) (name : String) (v : Value) :
    (s.define f name v).chain g = s.chain g :=
  chain_congr (fun h => parent?_define s f h name v) g

@[simp] theorem depth_define (s : Store) (f g : Nat) (name : String) (v : Value) :
    (s.define f name v).depth g = s.depth g := by
  simp [depth]

/-! ## New frames -/

theorem parent?_push_of_lt {s : Store} {f : Nat} (h : f < s.size) (parent? : Option Nat) :
    (s.push parent?).parent? f = s.parent? f := by
  have hne : f ≠ s.frames.size := Nat.ne_of_lt h
  simp [Store.parent?, push, Array.getElem?_push, hne]

@[simp] theorem parent?_push_size (s : Store) (parent? : Option Nat) :
    (s.push parent?).parent? s.size = parent?.filter (· < s.size) := by
  simp [Store.parent?, push, size]

@[simp] theorem bindings_push (s : Store) (f : Nat) (parent? : Option Nat) :
    (s.push parent?).bindings f = s.bindings f := by
  simp only [bindings, push, Array.getElem?_push]
  by_cases h : f = s.frames.size <;> simp [h]

theorem chain_push_of_lt {s : Store} {f : Nat} (h : f < s.size) (parent? : Option Nat) :
    (s.push parent?).chain f = s.chain f := by
  induction f using Nat.strongRecOn with
  | ind f ih =>
    rw [chain_eq, chain_eq s, parent?_push_of_lt h]
    split
    · next p hp =>
      have hlt := lt_of_parent? hp
      rw [ih p hlt (Nat.lt_trans hlt h)]
    · rfl

theorem chain_push_size {s : Store} {p : Nat} (h : p < s.size) :
    (s.push (some p)).chain s.size = s.size :: s.chain p := by
  rw [chain_eq, parent?_push_size]
  simp [Option.filter, h, chain_push_of_lt h]

theorem chain_push_none (s : Store) : (s.push none).chain s.size = [s.size] := by
  rw [chain_eq, parent?_push_size]
  rfl

/-- What is around a new frame is around its parent. -/
theorem mem_chain_of_mem_chain_push {s : Store} {f p : Nat} (hf : f < s.size)
    (h : f ∈ (s.push (some p)).chain s.size) : p < s.size ∧ f ∈ s.chain p := by
  have hne : f ≠ s.size := Nat.ne_of_lt hf
  by_cases hp : p < s.size
  · rw [chain_push_size hp, List.mem_cons] at h
    exact ⟨hp, h.resolve_left hne⟩
  · rw [chain_eq, parent?_push_size] at h
    simp [Option.filter, hp, hne] at h

/-- A new frame is one further in than its parent. -/
theorem depth_push_size {s : Store} {p : Nat} (h : p < s.size) :
    (s.push (some p)).depth s.size = s.depth p + 1 := by
  have hpos : 0 < (s.chain p).length := List.length_pos_of_mem (s.mem_chain_self p)
  rw [depth, depth, chain_push_size h, List.length_cons]
  omega

/-! ## Owners -/

/-- The value of a name is the one that its owner holds. -/
theorem lookup?_eq_bind_owner? (s : Store) (f : Nat) (name : String) :
    s.lookup? f name = (s.owner? f name).bind fun g => (s.bindings g).get? name := by
  unfold lookup? owner?
  induction s.chain f with
  | nil => rfl
  | cons g rest ih =>
    rw [List.findSome?_cons, List.find?_cons]
    cases hget : (s.bindings g).get? name with
    | none => simpa [Bindings.holds, hget] using ih
    | some v => simp [Bindings.holds, hget]

end Store
end Lox
