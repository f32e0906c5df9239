import Lox.Environment.Chain
import Lox.Evaluation

/-!
# The laws of the environment

Frames form a forest: each has at most one parent, and siblings share the frames around them.  The
search for a name begins in a frame and goes outwards until a frame holds the name.  A frame that
the search comes to is *reached*; the reached frame that holds the name is its *owner*.

To look a name up is to read it in its owner, to assign it is to give it a value in its owner, and
to define it is to give it a value in the frame itself.  What a frame sees of such a change depends
on whether its own search reaches the frame that was changed.
-/

namespace Lox
namespace Store

/-! ## The search for a name -/

/-- The frames of a chain that come before a given one. -/
def nearer (s : Store) (g f : Nat) : List Nat := (s.chain g).takeWhile (· ≠ f)

/-- The search for a name from frame `g` outwards comes to frame `f`: it is on the chain, and no
frame nearer to `g` holds the name. -/
def Reaches (s : Store) (g : Nat) (name : String) (f : Nat) : Prop :=
  f ∈ s.chain g ∧ ∀ h ∈ s.nearer g f, name ∉ (s.bindings h).names

/-- Frame `f` is the nearest one from frame `g` outwards, `g` included, that holds the name. -/
def IsOwner (s : Store) (g : Nat) (name : String) (f : Nat) : Prop :=
  s.Reaches g name f ∧ name ∈ (s.bindings f).names

instance (s : Store) (g : Nat) (name : String) (f : Nat) : Decidable (s.Reaches g name f) :=
  inferInstanceAs (Decidable (_ ∧ _))

instance (s : Store) (g : Nat) (name : String) (f : Nat) : Decidable (s.IsOwner g name f) :=
  inferInstanceAs (Decidable (_ ∧ _))

variable {s s' : Store} {f g : Nat} {name : String}

theorem nearer_of_chain_eq {before outer : List Nat} (h : s.chain g = before ++ f :: outer)
    (hf : f ∉ before) : s.nearer g f = before := by
  have hbefore : ∀ h ∈ before, decide (h ≠ f) = true := by
    intro h hmem
    simpa using ne_of_mem_of_not_mem hmem hf
  rw [nearer, h, List.takeWhile_append_of_pos hbefore]
  simp

/-- A frame of the chain stands between the frames nearer than it and those around it. -/
theorem exists_chain_eq_nearer_append (h : f ∈ s.chain g) :
    ∃ outer, s.chain g = s.nearer g f ++ f :: outer := by
  obtain ⟨before, outer, hchain, hf⟩ := List.eq_append_cons_of_mem h
  rw [nearer_of_chain_eq hchain hf]
  exact ⟨outer, hchain⟩

theorem ne_of_mem_nearer {h : Nat} (hmem : h ∈ s.nearer g f) : h ≠ f :=
  of_decide_eq_true (List.all_eq_true.1 List.all_takeWhile h hmem)

/-- A search that comes to a frame came to all nearer ones before. -/
theorem Reaches.of_mem_nearer {o : Nat} (h : s.Reaches g name o) (hf : f ∈ s.nearer g o) :
    s.Reaches g name f := by
  obtain ⟨outer, hchain⟩ := exists_chain_eq_nearer_append h.1
  obtain ⟨before, between, hnearer, hbefore⟩ := List.eq_append_cons_of_mem hf
  rw [hnearer, List.append_assoc, List.cons_append] at hchain
  refine ⟨by simp [hchain], ?_⟩
  rw [nearer_of_chain_eq hchain hbefore]
  intro i hi
  exact h.2 i (by simp [hnearer, hi])

/-- The search takes the same way where the chain is the same and the frames on the way hold the
same names. -/
theorem Reaches.of_names_eq (h : s.Reaches g name f) (hchain : s'.chain g = s.chain g)
    (hnames : ∀ h ∈ s.nearer g f, (s'.bindings h).names = (s.bindings h).names) :
    s'.Reaches g name f := by
  have hnearer : s'.nearer g f = s.nearer g f := by rw [nearer, nearer, hchain]
  refine ⟨hchain ▸ h.1, ?_⟩
  intro i hi
  rw [hnearer] at hi
  rw [hnames i hi]
  exact h.2 i hi

/-! ## Owners -/

/-- The computed owner is the nearest frame that holds the name. -/
theorem owner?_eq_some_iff : s.owner? g name = some f ↔ s.IsOwner g name f := by
  rw [owner?, List.find?_eq_some_iff_append, IsOwner, Bindings.holds_iff, and_comm]
  simp only [Bool.not_eq_true', ← Bool.not_eq_true, Bindings.holds_iff]
  refine and_congr_left fun hholds => ?_
  constructor
  · rintro ⟨before, outer, hchain, hbefore⟩
    have hf : f ∉ before := fun hmem => hbefore f hmem hholds
    refine ⟨by simp [hchain], ?_⟩
    rw [nearer_of_chain_eq hchain hf]
    exact hbefore
  · rintro ⟨hmem, hnearer⟩
    obtain ⟨outer, hchain⟩ := exists_chain_eq_nearer_append hmem
    exact ⟨s.nearer g f, outer, hchain, hnearer⟩

theorem owner?_eq_none_iff : s.owner? g name = none ↔ ∀ f, ¬ s.IsOwner g name f := by
  simp only [← owner?_eq_some_iff, Option.eq_none_iff_forall_ne_some]

/-- The value of a name is the one that its owner holds. -/
theorem IsOwner.lookup?_eq (h : s.IsOwner g name f) :
    s.lookup? g name = (s.bindings f).get? name := by
  rw [lookup?_eq_bind_owner?, owner?_eq_some_iff.2 h, Option.bind_some]

/-- The owner of a name has a value for it. -/
theorem IsOwner.exists_get? (h : s.IsOwner g name f) : ∃ v, (s.bindings f).get? name = some v :=
  Option.isSome_iff_exists.1 (Bindings.holds_iff.2 h.2)

/-- The owner is in the store. -/
theorem IsOwner.lt_size (h : s.IsOwner g name f) : f < s.size := by
  apply Nat.lt_of_not_le
  intro hle
  have hmem := h.2
  rw [bindings_of_size_le hle] at hmem
  simp at hmem

/-- A name is seen alike where the chain is the same and its frames give the name the same value. -/
theorem lookup?_congr (hchain : s'.chain g = s.chain g)
    (hget : ∀ h ∈ s.chain g, (s'.bindings h).get? name = (s.bindings h).get? name) :
    s'.lookup? g name = s.lookup? g name := by
  rw [lookup?, lookup?, hchain]
  revert hget
  induction s.chain g with
  | nil => simp
  | cons h rest ih =>
    intro hget
    rw [List.findSome?_cons, List.findSome?_cons, hget h List.mem_cons_self,
      ih fun i hi => hget i (List.mem_cons_of_mem h hi)]

/-! ## A value for a name -/

/-- A frame that is given a value for a name owns the name wherever the search comes to it. -/
theorem Reaches.isOwner_define (h : s.Reaches g name f) (hf : f < s.size) (v : Value) :
    (s.define f name v).IsOwner g name f := by
  refine ⟨h.of_names_eq (chain_define s f g name v) ?_, ?_⟩
  · intro i hi
    rw [bindings_define_of_ne (ne_of_mem_nearer hi).symm]
  · rw [bindings_define_self hf, Bindings.names_insert]
    split
    · assumption
    · simp

/-- Where the search does not come to the changed frame, the owner stays the same. -/
theorem IsOwner.define {o : Nat} (h : s.IsOwner g name o) (hf : ¬ s.Reaches g name f) (v : Value) :
    (s.define f name v).IsOwner g name o := by
  have hne : f ≠ o := by
    rintro rfl
    exact hf h.1
  refine ⟨h.1.of_names_eq (chain_define s f g name v) ?_, ?_⟩
  · intro i hi
    have hfi : f ≠ i := by
      rintro rfl
      exact hf (h.1.of_mem_nearer hi)
    rw [bindings_define_of_ne hfi]
  · rw [bindings_define_of_ne hne]
    exact h.2

/-- A search that finds no owner comes to all frames of the chain. -/
theorem reaches_of_owner?_eq_none (h : s.owner? g name = none) (hf : f ∈ s.chain g) :
    s.Reaches g name f := by
  refine ⟨hf, ?_⟩
  intro i hi
  have hmem : i ∈ s.chain g := (List.takeWhile_sublist _).subset hi
  have hnot := List.find?_eq_none.1 h i hmem
  rwa [Bindings.holds_iff] at hnot

/-- A frame whose search does not come to the changed frame sees nothing of the change. -/
theorem lookup?_define_of_not_reaches (h : ¬ s.Reaches g name f) (v : Value) :
    (s.define f name v).lookup? g name = s.lookup? g name := by
  cases howner : s.owner? g name with
  | some o =>
    have hown := owner?_eq_some_iff.1 howner
    have hne : f ≠ o := by
      rintro rfl
      exact h hown.1
    rw [(hown.define h v).lookup?_eq, hown.lookup?_eq, bindings_define_of_ne hne]
  | none =>
    have hf : f ∉ s.chain g := fun hmem => h (reaches_of_owner?_eq_none howner hmem)
    refine lookup?_congr (chain_define s f g name v) ?_
    intro i hi
    have hne : f ≠ i := by
      rintro rfl
      exact hf hi
    rw [bindings_define_of_ne hne]

/-- Other names than the one that is given a value are seen as before. -/
theorem lookup?_define_of_ne {other : String} (h : other ≠ name) (s : Store) (f g : Nat)
    (v : Value) : (s.define f name v).lookup? g other = s.lookup? g other := by
  refine lookup?_congr (chain_define s f g name v) ?_
  intro i _
  rw [bindings_define]
  split
  · rw [Bindings.get?_insert, if_neg h]
  · rfl

/-- What a frame sees of a value that a name was given in some frame: the value, if it looks for
this name and its search comes to that frame, and otherwise what it saw before. -/
theorem lookup?_define (hf : f < s.size) (g : Nat) (name other : String) (v : Value) :
    (s.define f name v).lookup? g other =
      if other = name ∧ s.Reaches g name f then some v else s.lookup? g other := by
  by_cases hother : other = name
  · subst hother
    by_cases h : s.Reaches g other f
    · rw [if_pos ⟨rfl, h⟩, (h.isOwner_define hf v).lookup?_eq, bindings_define_self hf,
        Bindings.get?_insert, if_pos rfl]
    · rw [if_neg fun hand => h hand.2, lookup?_define_of_not_reaches h]
  · rw [if_neg fun hand => hother hand.1, lookup?_define_of_ne hother]

/-- Where the frame holds the name already, the search comes to it exactly if it is the owner. -/
theorem reaches_iff_isOwner (h : name ∈ (s.bindings f).names) :
    s.Reaches g name f ↔ s.IsOwner g name f := (and_iff_left h).symm

/-! ## Stores that hold the same names -/

/-- The second store has the frames of the first, each with the same parent and the same names in
the same order.  Only values may differ. -/
structure SameNames (s s' : Store) : Prop where
  size_eq : s'.size = s.size
  parent?_eq : ∀ f, s'.parent? f = s.parent? f
  names_eq : ∀ f, (s'.bindings f).names = (s.bindings f).names

namespace SameNames

theorem refl (s : Store) : s.SameNames s := ⟨rfl, fun _ => rfl, fun _ => rfl⟩

theorem symm (h : s.SameNames s') : s'.SameNames s :=
  ⟨h.size_eq.symm, fun f => (h.parent?_eq f).symm, fun f => (h.names_eq f).symm⟩

theorem trans {s₁ s₂ s₃ : Store} (h : s₁.SameNames s₂) (h' : s₂.SameNames s₃) :
    s₁.SameNames s₃ where
  size_eq := h'.size_eq.trans h.size_eq
  parent?_eq := fun f => (h'.parent?_eq f).trans (h.parent?_eq f)
  names_eq := fun f => (h'.names_eq f).trans (h.names_eq f)

/-- A value for a name that the frame holds already makes no frame hold other names. -/
theorem define (h : name ∈ (s.bindings f).names) (v : Value) : s.SameNames (s.define f name v) where
  size_eq := size_define s f name v
  parent?_eq := fun g => parent?_define s f g name v
  names_eq := by
    intro g
    rw [bindings_define]
    split
    · next hfg => rw [← hfg.1, Bindings.names_insert, if_pos h]
    · rfl

/-- Owners are a matter of parents and names. -/
theorem isOwner_iff (h : s.SameNames s') : s'.IsOwner g name f ↔ s.IsOwner g name f := by
  have hof : ∀ {s s' : Store}, s.SameNames s' → s.IsOwner g name f → s'.IsOwner g name f := by
    intro s s' h hown
    refine ⟨hown.1.of_names_eq (chain_congr h.parent?_eq g) fun i _ => h.names_eq i, ?_⟩
    rw [h.names_eq]
    exact hown.2
  exact ⟨hof h.symm, hof h⟩

end SameNames

end Store

/-! ## The laws -/

namespace EvalM
variable {s : Store} {f g o : Nat} {name : Lexeme}

theorem lookup_eq_ok_iff {v : Value} :
    lookup g name s = .ok v s ↔ s.lookup? g name.text = some v := by
  rw [lookup]
  split <;> simp_all

/-- A name is undefined exactly if it has no owner. -/
theorem lookup_eq_error_iff :
    lookup g name s = .error ⟨.undefinedVariable, name⟩ s ↔ ∀ o, ¬ s.IsOwner g name.text o := by
  rw [← Store.owner?_eq_none_iff, lookup]
  cases howner : s.owner? g name.text with
  | none => simp [Store.lookup?_eq_bind_owner?, howner]
  | some o =>
    have hown := Store.owner?_eq_some_iff.1 howner
    obtain ⟨w, hw⟩ := hown.exists_get?
    simp [hown.lookup?_eq, hw]

theorem assign_of_isOwner (h : s.IsOwner f name.text o) (v : Value) :
    assign f name v s = .ok v (s.define o name.text v) := by
  simp only [assign, Store.owner?_eq_some_iff.2 h]

theorem assign_of_not_isOwner (h : ∀ o, ¬ s.IsOwner f name.text o) (v : Value) :
    assign f name v s = .error ⟨.undefinedVariable, name⟩ s := by
  simp only [assign, Store.owner?_eq_none_iff.2 h]

end EvalM

/-- The laws of look-up, assignment and definition, for all frames of any forest. -/
theorem environment_laws (s : Store) {f : Nat} (hf : f < s.size) (g : Nat) (x k : Lexeme)
    (v : Value) :
    -- A name has the value that its owner holds, and is undefined exactly if it has no owner.
    (∀ w, EvalM.lookup g k s = .ok w s ↔ s.lookup? g k.text = some w) ∧
    (∀ o, s.IsOwner g k.text o →
      (s.bindings o).get? k.text = s.lookup? g k.text ∧ ∃ w, EvalM.lookup g k s = .ok w s) ∧
    (EvalM.lookup g k s = .error ⟨.undefinedVariable, k⟩ s ↔ ∀ o, ¬ s.IsOwner g k.text o) ∧
    -- An assignment gives the owner the value, and is a fault that changes nothing without one.
    (∀ o, s.IsOwner f x.text o → ∃ s', EvalM.assign f x v s = .ok v s' ∧ s.SameNames s' ∧
      s'.lookup? g k.text =
        if k.text = x.text ∧ s.IsOwner g x.text o then some v else s.lookup? g k.text) ∧
    ((∀ o, ¬ s.IsOwner f x.text o) →
      EvalM.assign f x v s = .error ⟨.undefinedVariable, x⟩ s) ∧
    -- A definition gives the frame itself the value.
    ((s.define f x.text v).lookup? g k.text =
        (if k.text = x.text ∧ s.Reaches g x.text f then some v else s.lookup? g k.text) ∧
      (s.define f x.text v).size = s.size ∧
      (∀ h, (s.define f x.text v).parent? h = s.parent? h) ∧
      (∀ h, h ≠ f → (s.define f x.text v).bindings h = s.bindings h) ∧
      (∀ name, name ≠ x.text →
        ((s.define f x.text v).bindings f).get? name = (s.bindings f).get? name) ∧
      ((s.define f x.text v).bindings f).names =
        if x.text ∈ (s.bindings f).names then (s.bindings f).names
        else (s.bindings f).names ++ [x.text]) := by
  refine ⟨fun w => EvalM.lookup_eq_ok_iff, ?_, EvalM.lookup_eq_error_iff, ?_,
    fun h => EvalM.assign_of_not_isOwner h v, Store.lookup?_define hf g x.text k.text v,
    Store.size_define s f x.text v, fun h => Store.parent?_define s f h x.text v, ?_, ?_, ?_⟩
  · intro o howner
    refine ⟨howner.lookup?_eq.symm, ?_⟩
    obtain ⟨w, hw⟩ := howner.exists_get?
    exact ⟨w, EvalM.lookup_eq_ok_iff.2 (howner.lookup?_eq.trans hw)⟩
  · intro o howner
    refine ⟨s.define o x.text v, EvalM.assign_of_isOwner howner v, .define howner.2 v, ?_⟩
    simp only [Store.lookup?_define howner.lt_size, Store.reaches_iff_isOwner howner.2]
  · intro h hne
    exact Store.bindings_define_of_ne hne.symm x.text v
  · intro name hname
    rw [Store.bindings_define_self hf, Bindings.get?_insert, if_neg hname]
  · rw [Store.bindings_define_self hf, Bindings.names_insert]

/-- A global frame with two frames inside it; the global frame and the first of the two hold the
name `x`. -/
def Store.siblings : Store :=
  ((((Store.empty.push none).push (some 0)).push (some 0)).define 0 "x" .nil).define 1 "x" .nil

/-- What the second sibling assigns to `x` goes to the global frame, where the first sibling does
not see it; what is defined in the second sibling is seen there only. -/
theorem environment_laws_siblings :
    (∃ s', EvalM.assign 2 (.bare "x") (.bool true) Store.siblings = .ok (.bool true) s' ∧
      Store.siblings.SameNames s' ∧ s'.lookup? 1 "x" = some .nil) ∧
    (Store.siblings.define 2 "x" (.bool true)).lookup? 2 "x" = some (.bool true) ∧
    ((Store.siblings.define 2 "x" (.bool true)).bindings 2).names = ["x"] := by
  have hsize : 2 < Store.siblings.size := by decide
  obtain ⟨-, -, -, hassign, -, -⟩ :=
    environment_laws Store.siblings hsize 1 (.bare "x") (.bare "x") (.bool true)
  obtain ⟨-, -, -, -, -, hdefine, -, -, -, -, hnames⟩ :=
    environment_laws Store.siblings hsize 2 (.bare "x") (.bare "x") (.bool true)
  have howner : Store.siblings.IsOwner 2 "x" 0 := by decide +kernel
  obtain ⟨s', heq, hsame, hlookup⟩ := hassign 0 howner
  refine ⟨⟨s', heq, hsame, hlookup.trans (by decide +kernel)⟩,
    hdefine.trans (by decide +kernel), hnames.trans (by decide +kernel)⟩

end Lox
