import Lox.Proofs.ExactValues
import Lox.Proofs.Faults

/-!
# Order and equality

The operators of order and equality compare the exact values of two numbers, whichever of them are
doubles, and so they are one linear order with its equality; what is not a number is unequal to
everything, and neither above nor below anything.  Two values of any kind are equal when their
contents are the same, so that equality is symmetric and transitive, and reflexive on all values
but what is not a number.
-/

namespace Lox

/-! ## Comparison -/

theorem ExactValue.isLE_cmp (x y : ExactValue) : (cmp x y).isLE = decide (x ≤ y) := by
  cases h : cmp x y with
  | lt => simp [((cmp_eq_lt_iff x y).1 h).le]
  | eq => simp [((cmp_eq_eq_iff x y).1 h).le]
  | gt => simp [(cmp_eq_gt_iff x y).1 h]

theorem ExactValue.isGE_cmp (x y : ExactValue) : (cmp x y).isGE = decide (y ≤ x) := by
  rw [← cmp_swap, Ordering.isGE_swap, isLE_cmp]

namespace Number
variable {a b : Number} {x y : ExactValue}

theorem compare?_of_exact (ha : a.exactValue? = some x) (hb : b.exactValue? = some y) :
    compare? a b = some (cmp x y) := by
  rw [compare?_eq, ha, hb]
  rfl

theorem compare?_of_none (h : a.exactValue? = none ∨ b.exactValue? = none) :
    compare? a b = none := by
  rw [compare?_eq]
  rcases h with ha | hb
  · rw [ha]
    rfl
  · rw [hb]
    cases a.exactValue? <;> rfl

end Number

namespace BinaryOp

/-- The relation of exact values that an operator of order or equality decides; arithmetic decides
none. -/
def relation? : BinaryOp → Option (ExactValue → ExactValue → Bool)
  | greater => some fun x y => decide (y < x)
  | greaterEqual => some fun x y => decide (y ≤ x)
  | less => some fun x y => decide (x < y)
  | lessEqual => some fun x y => decide (x ≤ y)
  | equal => some fun x y => decide (x = y)
  | notEqual => some fun x y => decide (x ≠ y)
  | _ => none

/-- What an operator that decides a relation says of two values, of which either may be missing:
then all that it can say is that they are not equal. -/
def verdict (op : BinaryOp) (relation : ExactValue → ExactValue → Bool) :
    Option ExactValue → Option ExactValue → Bool
  | some x, some y => relation x y
  | _, _ => decide (op = notEqual)

section
variable {op : BinaryOp} {relation : ExactValue → ExactValue → Bool}

/-- An operator that reads its result off the comparison has the verdict for its result. -/
theorem apply_of_reading (reading : Option Ordering → Bool) {a b : Number}
    (happly : op.apply (.value (.number a)) (.value (.number b)) =
      .ok (.bool (reading (a.compare? b))))
    (hnone : reading none = decide (op = notEqual))
    (hsome : ∀ x y, reading (some (cmp x y)) = relation x y) :
    op.apply (.value (.number a)) (.value (.number b)) =
      .ok (.bool (op.verdict relation a.exactValue? b.exactValue?)) := by
  rw [happly]
  cases ha : a.exactValue? with
  | none =>
    rw [Number.compare?_of_none (.inl ha), hnone]
    cases b.exactValue? <;> rfl
  | some x =>
    cases hb : b.exactValue? with
    | none =>
      rw [Number.compare?_of_none (.inr hb), hnone]
      rfl
    | some y =>
      rw [Number.compare?_of_exact ha hb, hsome]
      rfl

/-- The operators of order and equality decide their relations of the exact values. -/
theorem apply_of_relation (h : op.relation? = some relation) (a b : Number) :
    op.apply (.value (.number a)) (.value (.number b)) =
      .ok (.bool (op.verdict relation a.exactValue? b.exactValue?)) := by
  cases op with
  | subtract | divide | multiply | add => cases h
  | greater =>
    cases h
    exact apply_of_reading (· == some .gt) rfl rfl fun x y => by simp [beq_eq_decide, cmp_eq_gt_iff]
  | greaterEqual =>
    cases h
    exact apply_of_reading (·.any Ordering.isGE) rfl rfl fun x y => ExactValue.isGE_cmp x y
  | less =>
    cases h
    exact apply_of_reading (· == some .lt) rfl rfl fun x y => by simp [beq_eq_decide, cmp_eq_lt_iff]
  | lessEqual =>
    cases h
    exact apply_of_reading (·.any Ordering.isLE) rfl rfl fun x y => ExactValue.isLE_cmp x y
  | equal =>
    cases h
    exact apply_of_reading (· == some .eq) rfl rfl fun x y => by simp [beq_eq_decide]
  | notEqual =>
    cases h
    exact apply_of_reading (fun r => !(r == some .eq)) rfl rfl fun x y => by simp [beq_eq_decide]

end

/-! ## The laws of order -/

/-- What an operator says of two numbers. -/
def Holds (op : BinaryOp) (a b : Number) : Prop :=
  op.apply (.value (.number a)) (.value (.number b)) = .ok (.bool true)

section
variable {op : BinaryOp} {relation : ExactValue → ExactValue → Bool} {a b c : Number}

theorem holds_iff_verdict (h : op.relation? = some relation) :
    op.Holds a b ↔ op.verdict relation a.exactValue? b.exactValue? = true := by
  rw [Holds, apply_of_relation h]
  simp

/-- All that holds but that two numbers differ holds of two values. -/
theorem holds_iff (op : BinaryOp) (h : op.relation? = some relation) (hop : op ≠ notEqual) :
    op.Holds a b ↔
      ∃ x y, a.exactValue? = some x ∧ b.exactValue? = some y ∧ relation x y = true := by
  rw [holds_iff_verdict h]
  cases a.exactValue? with
  | none => simp [verdict, hop]
  | some x =>
    cases b.exactValue? with
    | none => simp [verdict, hop]
    | some y => simp [verdict]

theorem holds_less_iff :
    less.Holds a b ↔ ∃ x y, a.exactValue? = some x ∧ b.exactValue? = some y ∧ x < y := by
  rw [holds_iff less rfl nofun]
  simp only [decide_eq_true_eq]

theorem holds_greater_iff :
    greater.Holds a b ↔ ∃ x y, a.exactValue? = some x ∧ b.exactValue? = some y ∧ y < x := by
  rw [holds_iff greater rfl nofun]
  simp only [decide_eq_true_eq]

theorem holds_lessEqual_iff :
    lessEqual.Holds a b ↔ ∃ x y, a.exactValue? = some x ∧ b.exactValue? = some y ∧ x ≤ y := by
  rw [holds_iff lessEqual rfl nofun]
  simp only [decide_eq_true_eq]

theorem holds_greaterEqual_iff :
    greaterEqual.Holds a b ↔ ∃ x y, a.exactValue? = some x ∧ b.exactValue? = some y ∧ y ≤ x := by
  rw [holds_iff greaterEqual rfl nofun]
  simp only [decide_eq_true_eq]

theorem holds_equal_iff :
    equal.Holds a b ↔ ∃ x y, a.exactValue? = some x ∧ b.exactValue? = some y ∧ x = y := by
  rw [holds_iff equal rfl nofun]
  simp only [decide_eq_true_eq]

/-- Of two numbers that have values, one is below the other, or they are equal, and only one of the
three holds. -/
theorem holds_trichotomy {x y : ExactValue} (ha : a.exactValue? = some x)
    (hb : b.exactValue? = some y) :
    (less.Holds a b ∧ ¬ equal.Holds a b ∧ ¬ greater.Holds a b) ∨
      (¬ less.Holds a b ∧ equal.Holds a b ∧ ¬ greater.Holds a b) ∨
      (¬ less.Holds a b ∧ ¬ equal.Holds a b ∧ greater.Holds a b) := by
  simp only [holds_less_iff, holds_equal_iff, holds_greater_iff, ha, hb, Option.some.injEq,
    exists_eq_left', exists_and_left]
  rcases lt_trichotomy x y with h | rfl | h
  · exact .inl ⟨h, h.ne, h.not_gt⟩
  · exact .inr (.inl ⟨lt_irrefl x, rfl, lt_irrefl x⟩)
  · exact .inr (.inr ⟨h.not_gt, h.ne', h⟩)

theorem holds_lessEqual_iff_or :
    lessEqual.Holds a b ↔ less.Holds a b ∨ equal.Holds a b := by
  rw [holds_lessEqual_iff, holds_less_iff, holds_equal_iff]
  constructor
  · rintro ⟨x, y, ha, hb, h⟩
    rcases h.lt_or_eq with hlt | heq
    · exact .inl ⟨x, y, ha, hb, hlt⟩
    · exact .inr ⟨x, y, ha, hb, heq⟩
  · rintro (⟨x, y, ha, hb, h⟩ | ⟨x, y, ha, hb, h⟩)
    · exact ⟨x, y, ha, hb, h.le⟩
    · exact ⟨x, y, ha, hb, h.le⟩

theorem holds_greaterEqual_iff_swap : greaterEqual.Holds a b ↔ lessEqual.Holds b a := by
  rw [holds_greaterEqual_iff, holds_lessEqual_iff]
  constructor
  · rintro ⟨x, y, ha, hb, h⟩
    exact ⟨y, x, hb, ha, h⟩
  · rintro ⟨y, x, hb, ha, h⟩
    exact ⟨x, y, ha, hb, h⟩

/-- An operator that decides a transitive relation is transitive on numbers. -/
theorem Holds.trans (h : op.relation? = some relation) (hop : op ≠ notEqual)
    (htrans : ∀ x y z, relation x y = true → relation y z = true → relation x z = true)
    (hab : op.Holds a b) (hbc : op.Holds b c) : op.Holds a c := by
  rw [holds_iff op h hop] at hab hbc ⊢
  obtain ⟨x, y, ha, hb, hxy⟩ := hab
  obtain ⟨y', z, hb', hc, hyz⟩ := hbc
  obtain rfl : y = y' := Option.some.inj (hb.symm.trans hb')
  exact ⟨x, z, ha, hc, htrans x y z hxy hyz⟩

/-- All that holds of what has no value is that it is not equal. -/
theorem holds_iff_of_none (h : op.relation? = some relation)
    (hnone : a.exactValue? = none ∨ b.exactValue? = none) : op.Holds a b ↔ op = notEqual := by
  rw [holds_iff_verdict h]
  rcases hnone with ha | hb
  · rw [ha]
    cases b.exactValue? <;> simp [verdict]
  · rw [hb]
    cases a.exactValue? <;> simp [verdict]

end
end BinaryOp

/-! ## Equality of data -/

/-- The kinds of value. -/
inductive Value.Tag
  | nil
  | bool
  | number
  | string
  deriving DecidableEq

/-- The kind of a value. -/
def Value.tag : Value → Tag
  | nil => .nil
  | bool _ => .bool
  | number _ => .number
  | string _ => .string

/-- The contents that equality compares: a number counts by its exact value. -/
inductive Value.Content
  | nil
  | bool (b : Bool)
  | number (x : ExactValue)
  | string (s : String)

/-- The contents of a value; none of what is not a number. -/
def Value.content? : Value → Option Content
  | nil => some .nil
  | bool b => some (.bool b)
  | number n => n.exactValue?.map .number
  | string s => some (.string s)

/-- The contents of a datum; values of the embedding program have none. -/
def Datum.content? : Datum → Option Value.Content
  | value v => v.content?
  | host _ => none

section
variable {a b c : Datum}

theorem Number.equals_iff {m n : Number} :
    m.equals n = true ↔ m.exactValue? = n.exactValue? ∧ m.exactValue? ≠ none := by
  have hholds : m.equals n = true ↔ BinaryOp.equal.Holds m n := by
    simp [BinaryOp.Holds, BinaryOp.apply, Datum.equals, Value.equals]
  rw [hholds, BinaryOp.holds_equal_iff]
  cases m.exactValue? with
  | none => simp
  | some x => cases n.exactValue? <;> simp [eq_comm]

/-- Two data are equal when they have contents, and the same. -/
theorem Datum.equals_iff :
    a.equals b = true ↔ a.content? = b.content? ∧ a.content? ≠ none := by
  cases a with
  | host h => simp [equals, content?]
  | value v =>
    cases b with
    | host h => simp [equals, content?]
    | value w =>
      cases v with
      | nil => cases w <;> simp [equals, Value.equals, content?, Value.content?]
      | bool p => cases w <;> simp [equals, Value.equals, content?, Value.content?]
      | string s => cases w <;> simp [equals, Value.equals, content?, Value.content?]
      | number m =>
        cases w with
        | nil | bool | string => simp [equals, Value.equals, content?, Value.content?]
        | number n =>
          simp only [equals, Value.equals, content?, Value.content?, Number.equals_iff]
          cases m.exactValue? <;> cases n.exactValue? <;> simp

theorem Datum.equals_comm (a b : Datum) : a.equals b = b.equals a := by
  rw [Bool.eq_iff_iff, equals_iff, equals_iff]
  constructor
  · rintro ⟨h, hsome⟩
    exact ⟨h.symm, h ▸ hsome⟩
  · rintro ⟨h, hsome⟩
    exact ⟨h.symm, h ▸ hsome⟩

theorem Datum.equals_trans (hab : a.equals b = true) (hbc : b.equals c = true) :
    a.equals c = true := by
  rw [equals_iff] at hab hbc ⊢
  exact ⟨hab.1.trans hbc.1, hab.2⟩

/-- A double that is not a number, among the values. -/
def Value.IsNaN (v : Value) : Prop := ∃ x, v = .number (.float x) ∧ x.isNaN = true

theorem Value.content?_eq_none_iff {v : Value} : v.content? = none ↔ v.IsNaN := by
  cases v with
  | nil | bool | string => simp [content?, IsNaN]
  | number n =>
    cases n with
    | int n => simp [content?, IsNaN, Number.exactValue?]
    | float x => simp [content?, IsNaN, Number.exactValue?, Double.exactValue?_eq_none_iff]

theorem Datum.equals_self_iff {v : Value} :
    (value v).equals (value v) = true ↔ ¬ v.IsNaN := by
  rw [equals_iff, ← Value.content?_eq_none_iff]
  exact and_iff_right rfl

end

open BinaryOp in
/-- The operators of order and equality decide the relations of exact values, so that on all numbers
that have a value they are one linear order with its equality.  On data, equality is symmetric and
transitive, and reflexive on values except on what is not a number; values of different kinds and
values of the embedding program are never equal. -/
theorem numbers_ordered_exactly :
    (∀ (lexeme : Lexeme) (op : BinaryOp) (relation : ExactValue → ExactValue → Bool)
      (a b : Number), BinaryOp.ofLexeme? lexeme = some op → op.relation? = some relation →
        applyBinary lexeme (.value (.number a)) (.value (.number b)) =
          .ok (.bool (op.verdict relation a.exactValue? b.exactValue?))) ∧
    (∀ a : Number, a.exactValue? = none ↔ (Value.number a).IsNaN) ∧
    (∀ a b : Number, a.exactValue? ≠ none → b.exactValue? ≠ none →
      (less.Holds a b ∧ ¬ equal.Holds a b ∧ ¬ greater.Holds a b) ∨
        (¬ less.Holds a b ∧ equal.Holds a b ∧ ¬ greater.Holds a b) ∨
        (¬ less.Holds a b ∧ ¬ equal.Holds a b ∧ greater.Holds a b)) ∧
    (∀ a b : Number, lessEqual.Holds a b ↔ less.Holds a b ∨ equal.Holds a b) ∧
    (∀ a b : Number, greaterEqual.Holds a b ↔ lessEqual.Holds b a) ∧
    (∀ op ∈ [less, lessEqual, equal], ∀ a b c : Number,
      op.Holds a b → op.Holds b c → op.Holds a c) ∧
    (∀ a b : Number, a.exactValue? = none ∨ b.exactValue? = none →
      ∀ op : BinaryOp, op.relation? ≠ none → (op.Holds a b ↔ op = notEqual)) ∧
    (∀ a b : Datum, a.equals b = b.equals a) ∧
    (∀ a b c : Datum, a.equals b = true → b.equals c = true → a.equals c = true) ∧
    (∀ v : Value, (Datum.value v).equals (.value v) = true ↔ ¬ v.IsNaN) ∧
    (∀ v w : Value, v.tag ≠ w.tag → (Datum.value v).equals (.value w) = false) ∧
    (∀ (h : HostValue) (a : Datum), (Datum.host h).equals a = false ∧
      a.equals (.host h) = false) ∧
    ∀ a b : Datum, equal.apply a b = .ok (.bool (a.equals b)) ∧
      notEqual.apply a b = .ok (.bool (!a.equals b)) := by
  refine ⟨fun lexeme op relation a b hop h => ?_, fun a => ?_, fun a b ha hb => ?_,
    fun a b => holds_lessEqual_iff_or, fun a b => holds_greaterEqual_iff_swap, ?_,
    fun a b hnone op hop => ?_, Datum.equals_comm, fun a b c => Datum.equals_trans,
    fun v => Datum.equals_self_iff, fun v w htag => ?_, fun h a => ⟨rfl, ?_⟩,
    fun a b => ⟨rfl, rfl⟩⟩
  · rw [applyBinary_of_some hop, apply_of_relation h]
    rfl
  · rw [← Value.content?_eq_none_iff, Value.content?, Option.map_eq_none_iff]
  · obtain ⟨x, hx⟩ := Option.ne_none_iff_exists'.1 ha
    obtain ⟨y, hy⟩ := Option.ne_none_iff_exists'.1 hb
    exact holds_trichotomy hx hy
  · intro op hop a b c
    simp only [List.mem_cons, List.not_mem_nil, or_false] at hop
    rcases hop with rfl | rfl | rfl
    · exact Holds.trans rfl nofun fun x y z => by simpa using lt_trans
    · exact Holds.trans rfl nofun fun x y z => by simpa using le_trans
    · exact Holds.trans rfl nofun fun x y z => by simpa using Eq.trans
  · obtain ⟨relation, hrelation⟩ := Option.ne_none_iff_exists'.1 hop
    exact holds_iff_of_none hrelation hnone
  · cases v <;> cases w <;> first | rfl | exact absurd rfl htag
  · cases a <;> rfl

/-- The first double that is followed by an integer that is none. -/
def sparseDouble : Number := .float 9007199254740992.0

/-- That integer. -/
def betweenDoubles : Number := .int 9007199254740993

theorem exactValue?_sparseDouble : sparseDouble.exactValue? = some (.ofRat 9007199254740992) := by
  obtain ⟨h, hunpack⟩ : ∃ h, (9007199254740992.0 : Float).toModel.unpack =
      .finite .positive (2 ^ 52) 1 h := ⟨by decide, rfl⟩
  rw [sparseDouble, Number.exactValue?, Double.exactValue?, hunpack, Double.exactOfUnpacked?,
    Float.Model.UnpackedFloat.Sign.apply]
  norm_num

/-- An integer that no double holds is not equal to the double before it, but between that and
infinity, and what is not a number is not even equal to itself. -/
theorem numbers_ordered_exactly_betweenDoubles :
    applyBinary (.bare "==") (.value (.number betweenDoubles)) (.value (.number sparseDouble)) =
      .ok (.bool false) ∧
    BinaryOp.less.Holds sparseDouble (.float (1.0 / 0.0)) ∧
    BinaryOp.notEqual.Holds (.float (0.0 / 0.0)) (.float (0.0 / 0.0)) ∧
    ¬ BinaryOp.equal.Holds (.float (0.0 / 0.0)) (.float (0.0 / 0.0)) := by
  obtain ⟨hdecides, hnan, -, -, -, htrans, hnone, -⟩ := numbers_ordered_exactly
  have hbetween : betweenDoubles.exactValue? = some (.ofRat 9007199254740993) := rfl
  have hlt : ExactValue.ofRat 9007199254740992 < .ofRat 9007199254740993 :=
    ExactValue.ofRat_strictMono (by decide)
  refine ⟨?_, ?_, ?_⟩
  · rw [hdecides _ .equal _ betweenDoubles sparseDouble rfl rfl, hbetween, exactValue?_sparseDouble]
    simp [BinaryOp.verdict, hlt.ne']
  · have hlow : BinaryOp.less.Holds sparseDouble betweenDoubles :=
      BinaryOp.holds_less_iff.2 ⟨_, _, exactValue?_sparseDouble, hbetween, hlt⟩
    have hhigh : BinaryOp.less.Holds betweenDoubles (.float (1.0 / 0.0)) :=
      BinaryOp.holds_less_iff.2 ⟨_, _, hbetween, rfl, ExactValue.ofRat_lt_top _⟩
    exact htrans .less (by simp) _ _ _ hlow hhigh
  · have hnot : (Number.float (0.0 / 0.0)).exactValue? = none := (hnan _).2 ⟨_, rfl, rfl⟩
    exact ⟨(hnone _ _ (.inl hnot) .notEqual nofun).2 rfl,
      fun h => nomatch (hnone _ _ (.inl hnot) .equal nofun).1 h⟩

end Lox
