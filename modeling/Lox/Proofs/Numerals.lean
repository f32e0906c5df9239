import Lox.Number.Numeral
import Mathlib

/-!
# Decimal numerals of integers

A number has one canonical decimal numeral: digits of its value, without a zero in front.  Taking
the digits of a large number a block at a time gives this numeral, whatever the width of the
blocks.  For two lists of digits with the same value differ in leading zeros at most, and no block
but the first is without those that fill it up.
-/

namespace Lox
namespace Digits

/-! ## Values -/

/-- The number that digits stand for, by their positions. -/
def value (ds : List Char) : Nat := Nat.ofDigitChars 10 ds 0

theorem value_append (ds es : List Char) :
    value (ds ++ es) = 10 ^ es.length * value ds + value es := by
  rw [value, Nat.ofDigitChars_append, Nat.ofDigitChars_eq_ofDigitChars_zero]
  rfl

theorem value_singleton (d : Char) : value [d] = d.toNat - 48 := by
  simp [value, Nat.ofDigitChars_cons]

@[simp] theorem value_ofNat (n : Nat) : value (ofNat n) = n := Nat.ofDigitChars_ten_toDigits

theorem value_replicate_zero (k : Nat) : value (List.replicate k '0') = 0 := by
  rw [value, Nat.ofDigitChars_replicate_zero, Nat.mul_zero]

/-- All nines are one less than the next power of ten. -/
theorem value_replicate_nine (k : Nat) : value (List.replicate k '9') + 1 = 10 ^ k := by
  induction k with
  | zero => rfl
  | succ k ih =>
    have hnine : value ['9'] = 9 := by decide
    rw [List.replicate_succ', value_append, hnine, List.length_singleton, pow_succ]
    omega

/-! ## Canonical digits -/

/-- Digits as a number is written with: one at least, and a zero comes first only if it stands
alone. -/
structure IsCanonical (ds : List Char) : Prop where
  ne_nil : ds ≠ []
  isDigit : ∀ d ∈ ds, d.isDigit = true
  eq_zero : ds.head? = some '0' → ds = ['0']

theorem isDigit_ofNat {n : Nat} {d : Char} (h : d ∈ ofNat n) : d.isDigit = true :=
  Nat.isDigit_of_mem_toDigits (by decide) (by decide) h

theorem ofNat_ne_nil (n : Nat) : ofNat n ≠ [] := Nat.toDigits_ne_nil

theorem ofNat_of_lt {n : Nat} (h : n < 10) : ofNat n = [n.digitChar] := Nat.toDigits_of_lt_base h

theorem ofNat_of_le {n : Nat} (h : 10 ≤ n) : ofNat n = ofNat (n / 10) ++ [(n % 10).digitChar] :=
  Nat.toDigits_of_base_le (by decide) h

/-- A positive number has no zero in front. -/
theorem head?_ofNat_ne_zero {n : Nat} (hn : 0 < n) : (ofNat n).head? ≠ some '0' := by
  induction n using Nat.strongRecOn with
  | ind n ih =>
    by_cases h : n < 10
    · rw [ofNat_of_lt h, List.head?_cons, ne_eq, Option.some.injEq, Nat.digitChar_eq_zero]
      omega
    · rw [ofNat_of_le (by omega), List.head?_append_of_ne_nil _ (ofNat_ne_nil _)]
      exact ih (n / 10) (by omega) (by omega)

theorem isCanonical_ofNat (n : Nat) : IsCanonical (ofNat n) where
  ne_nil := ofNat_ne_nil n
  isDigit := fun _ h => isDigit_ofNat h
  eq_zero := by
    intro h
    cases n with
    | zero => rfl
    | succ n => exact absurd h (head?_ofNat_ne_zero (Nat.succ_pos n))

/-- A digit is the one that its value is written with. -/
theorem digitChar_of_isDigit {d : Char} (h : d.isDigit = true) :
    d.toNat - 48 < 10 ∧ (d.toNat - 48).digitChar = d := by
  have hbounds : 48 ≤ d.toNat ∧ d.toNat ≤ 57 := by
    simpa [Char.isDigit, UInt32.le_iff_toNat_le] using h
  refine ⟨by omega, Char.toNat_inj.1 ?_⟩
  rw [Nat.toNat_digitChar_of_lt_ten (by omega)]
  omega

/-- Canonical digits are those of their value. -/
theorem IsCanonical.eq_ofNat {ds : List Char} (h : IsCanonical ds) : ds = ofNat (value ds) := by
  induction ds using List.reverseRecOn with
  | nil => exact absurd rfl h.ne_nil
  | append_singleton init d ih =>
    obtain ⟨hlt, hchar⟩ := digitChar_of_isDigit (h.isDigit d (by simp))
    by_cases hinit : init = []
    · rw [hinit, List.nil_append, value_singleton, ofNat_of_lt hlt, hchar]
    · -- with digits in front of it the last one is what is left of the value after tens
      have hhead : init.head? ≠ some '0' := by
        intro hzero
        have heq := h.eq_zero (by rw [List.head?_append_of_ne_nil _ hinit, hzero])
        cases init with
        | nil => exact hinit rfl
        | cons c rest => simp at heq
      have hcanonical := ih ⟨hinit, fun c hc => h.isDigit c (List.mem_append_left _ hc),
        fun hzero => absurd hzero hhead⟩
      have hpos : 0 < value init := by
        refine Nat.pos_of_ne_zero fun hzero => hhead ?_
        rw [hcanonical, hzero]
        rfl
      have hvalue : value (init ++ [d]) = 10 * value init + (d.toNat - 48) := by
        rw [value_append, value_singleton, List.length_singleton, pow_one]
      rw [hvalue, ofNat_of_le (by omega), show (10 * value init + (d.toNat - 48)) / 10 = value init
        by omega, show (10 * value init + (d.toNat - 48)) % 10 = d.toNat - 48 by omega, hchar,
        ← hcanonical]

/-- Any digits may follow canonical ones that do not begin with a zero. -/
theorem IsCanonical.append {ds es : List Char} (h : IsCanonical ds) (hhead : ds.head? ≠ some '0')
    (hes : ∀ e ∈ es, e.isDigit = true) : IsCanonical (ds ++ es) where
  ne_nil := List.append_ne_nil_of_left_ne_nil h.ne_nil es
  isDigit := by
    intro d hd
    rcases List.mem_append.1 hd with hd | hd
    · exact h.isDigit d hd
    · exact hes d hd
  eq_zero := by
    intro hzero
    rw [List.head?_append_of_ne_nil _ h.ne_nil] at hzero
    exact absurd hzero hhead

/-! ## Blocks -/

section
variable {width : Nat}

theorem isDigit_padded {n : Nat} {d : Char} (h : d ∈ padded width n) : d.isDigit = true := by
  rcases List.mem_append.1 h with h | h
  · rw [List.eq_of_mem_replicate h]
    decide
  · exact isDigit_ofNat h

/-- Filling up with zeros does not change the value. -/
@[simp] theorem value_padded (n : Nat) : value (padded width n) = n := by
  rw [padded, value_append, value_replicate_zero, value_ofNat, Nat.mul_zero, Nat.zero_add]

/-- A number that fits into a block fills it. -/
theorem length_padded (hwidth : 0 < width) {n : Nat} (h : n < 10 ^ width) :
    (padded width n).length = width := by
  have hle : (ofNat n).length ≤ width := (Nat.length_toDigits_le_iff (by decide) hwidth).2 h
  simp only [padded, List.length_append, List.length_replicate]
  omega

/-- The digits of a number are those of the rest and then the lowest block. -/
theorem ofNat_eq_append_padded (hwidth : 0 < width) {n : Nat} (h : 10 ^ width ≤ n) :
    ofNat n = ofNat (n / 10 ^ width) ++ padded width (n % 10 ^ width) := by
  have hpos : 0 < 10 ^ width := Nat.pow_pos (by decide)
  have hrest : 0 < n / 10 ^ width := Nat.div_pos h hpos
  have hcanonical := (isCanonical_ofNat (n / 10 ^ width)).append (head?_ofNat_ne_zero hrest)
    fun _ (hd : _ ∈ padded width (n % 10 ^ width)) => isDigit_padded hd
  have hvalue : value (ofNat (n / 10 ^ width) ++ padded width (n % 10 ^ width)) = n := by
    rw [value_append, length_padded hwidth (Nat.mod_lt _ hpos), value_ofNat, value_padded,
      Nat.div_add_mod]
  rw [hcanonical.eq_ofNat, hvalue]

end

/-- The digits of a number are the same in blocks of any width. -/
theorem inBlocks_eq_ofNat (width n : Nat) : inBlocks width n = ofNat n := by
  induction n using Nat.strongRecOn with
  | ind n ih =>
    rw [inBlocks]
    split
    · rfl
    · next h =>
      simp only [Nat.pow_eq, not_or, Nat.not_lt] at h ⊢
      have hwidth : 0 < width := Nat.pos_of_ne_zero h.1
      have hlt : n / 10 ^ width < n :=
        Nat.div_lt_self (Nat.lt_of_lt_of_le (Nat.pow_pos (by decide)) h.2)
          (Nat.one_lt_pow h.1 (by decide))
      rw [ih _ hlt, ← ofNat_eq_append_padded hwidth h.2]

/-! ## Rounds -/

/-- A number that is being split into blocks: what is left of it, and the blocks that were split
off so far, the lowest one first. -/
structure Splitting where
  rest : Nat
  blocks : List (List Char) := []

namespace Splitting

/-- What is put together in the end: the digits of the rest, and then the blocks from the last one
to the first. -/
def digits (s : Splitting) : List Char := (s.blocks ++ [ofNat s.rest]).reverse.flatten

theorem digits_eq (s : Splitting) : s.digits = ofNat s.rest ++ s.blocks.reverse.flatten := by
  simp [digits]

end Splitting

/-- One round: the lowest block is split off a rest that is too large for a block. -/
inductive Splits (width : Nat) : Splitting → Splitting → Prop
  | round {rest : Nat} {blocks : List (List Char)} (h : 10 ^ width ≤ rest) :
    Splits width ⟨rest, blocks⟩
      ⟨rest / 10 ^ width, blocks ++ [padded width (rest % 10 ^ width)]⟩

section
variable {width : Nat} {s s' : Splitting}

/-- A round makes the rest smaller. -/
theorem Splits.rest_lt (hwidth : 0 < width) (h : Splits width s s') : s'.rest < s.rest := by
  cases h with
  | round h =>
    exact Nat.div_lt_self (Nat.lt_of_lt_of_le (Nat.pow_pos (by decide)) h)
      (Nat.one_lt_pow (Nat.ne_of_gt hwidth) (by decide))

/-- There is no endless succession of rounds. -/
theorem wellFounded_splits (hwidth : 0 < width) : WellFounded fun s' s => Splits width s s' :=
  Subrelation.wf (fun h => Splits.rest_lt hwidth h) (measure Splitting.rest).wf

/-- A round does not change the digits. -/
theorem Splits.digits_eq (hwidth : 0 < width) (h : Splits width s s') : s'.digits = s.digits := by
  cases h with
  | round h =>
    simp only [Splitting.digits_eq, List.reverse_append, List.reverse_singleton,
      List.singleton_append, List.flatten_cons, ← List.append_assoc]
    rw [← ofNat_eq_append_padded hwidth h]

/-- A block that is split off is full. -/
theorem Splits.length_blocks (hwidth : 0 < width) (h : Splits width s s')
    (hs : ∀ block ∈ s.blocks, block.length = width) :
    ∀ block ∈ s'.blocks, block.length = width := by
  cases h with
  | round h =>
    intro block hblock
    rcases List.mem_append.1 hblock with hblock | hblock
    · exact hs block hblock
    · rw [List.mem_singleton.1 hblock]
      exact length_padded hwidth (Nat.mod_lt _ (Nat.pow_pos (by decide)))

/-- After any number of rounds the digits are those of the number, and all blocks are full. -/
theorem digits_of_reached (hwidth : 0 < width) {n : Nat}
    (h : Relation.ReflTransGen (Splits width) ⟨n, []⟩ s) :
    s.digits = ofNat n ∧ ∀ block ∈ s.blocks, block.length = width := by
  induction h with
  | refl => exact ⟨by simp [Splitting.digits_eq], by simp⟩
  | tail _ hround ih =>
    exact ⟨(hround.digits_eq hwidth).trans ih.1, hround.length_blocks hwidth ih.2⟩

/-- The rounds come to an end, where the rest fits into a block. -/
theorem exists_reached_lt (hwidth : 0 < width) (s : Splitting) :
    ∃ last, Relation.ReflTransGen (Splits width) s last ∧ last.rest < 10 ^ width := by
  induction s using (wellFounded_splits hwidth).induction with
  | _ s ih =>
    by_cases h : s.rest < 10 ^ width
    · exact ⟨s, .refl, h⟩
    · have hround : Splits width s _ := .round (Nat.not_lt.1 h)
      obtain ⟨last, hreached, hlast⟩ := ih _ hround
      exact ⟨last, .head hround hreached, hlast⟩

end

/-! ## Powers of ten -/

theorem ofNat_pow (k : Nat) : ofNat (10 ^ k) = '1' :: List.replicate k '0' := by
  have hone : IsCanonical ['1'] := isCanonical_ofNat 1
  have hcanonical : IsCanonical (['1'] ++ List.replicate k '0') :=
    hone.append (by decide) fun d hd => by rw [List.eq_of_mem_replicate hd]; decide
  have hvalue : value (['1'] ++ List.replicate k '0') = 10 ^ k := by
    rw [value_append, value_replicate_zero, List.length_replicate, value_singleton]
    simp
  rw [← List.singleton_append, hcanonical.eq_ofNat, hvalue]

theorem ofNat_pow_sub_one (k : Nat) : ofNat (10 ^ (k + 1) - 1) = List.replicate (k + 1) '9' := by
  have hcanonical : IsCanonical (List.replicate (k + 1) '9') := by
    refine ⟨by simp, fun d hd => ?_, by simp [List.replicate_succ]⟩
    rw [List.eq_of_mem_replicate hd]
    decide
  have hvalue := value_replicate_nine (k + 1)
  rw [hcanonical.eq_ofNat, ← hvalue, Nat.add_sub_cancel]

end Digits

/-! ## Integers -/

namespace Numeral

/-- The canonical decimal numeral of an integer: a minus sign if it is negative, and canonical
digits of its magnitude. -/
def IsDecimal (n : Int) (cs : List Char) : Prop :=
  ∃ ds, Digits.IsCanonical ds ∧ Digits.value ds = n.natAbs ∧
    cs = (if n < 0 then ['-'] else []) ++ ds

theorem ofNat_eq (n : Nat) : ofNat n = Digits.ofNat n :=
  Digits.inBlocks_eq_ofNat Digits.blockWidth n

theorem ofInt_eq (n : Int) :
    ofInt n = (if n < 0 then ['-'] else []) ++ Digits.ofNat n.natAbs := by
  rw [ofInt, ofNat_eq]
  split <;> rfl

/-- The numeral of an integer is canonical, and no other one is. -/
theorem isDecimal_iff {n : Int} {cs : List Char} : IsDecimal n cs ↔ cs = ofInt n := by
  rw [ofInt_eq]
  constructor
  · rintro ⟨ds, hcanonical, hvalue, rfl⟩
    rw [hcanonical.eq_ofNat, hvalue]
  · rintro rfl
    exact ⟨_, Digits.isCanonical_ofNat _, Digits.value_ofNat _, rfl⟩

end Numeral

/-- The text of an integer is read back as that integer. -/
theorem Number.toInt?_text (n : Int) : (int n).text.toInt? = some n := by
  have htext : (int n).text = n.repr := by
    apply String.toList_injective
    rw [text, String.toList_ofList, numeral, Numeral.ofInt_eq, Int.repr_eq_if]
    by_cases hn : n < 0
    · rw [if_pos hn, if_neg (by omega), String.toList_append, Nat.toList_repr,
        show (-n).toNat = n.natAbs by omega]
      rfl
    · rw [if_neg hn, if_pos (by omega), Nat.toList_repr, show n.toNat = n.natAbs by omega]
      rfl
  rw [htext, Int.toInt?_repr]

theorem Number.numeral_natCast (n : Nat) : (int n).numeral = Digits.ofNat n := by
  rw [numeral, Numeral.ofInt_eq, if_neg (by omega), List.nil_append, Int.natAbs_natCast]

theorem Number.numeral_neg_natCast {n : Nat} (hn : 0 < n) :
    (int (-n)).numeral = '-' :: Digits.ofNat n := by
  rw [numeral, Numeral.ofInt_eq, if_pos (by omega), List.singleton_append, Int.natAbs_neg,
    Int.natAbs_natCast]

/-- The numeral of an integer, of any size, is the canonical decimal one and is read back as that
integer.  Its digits are the same taken in blocks of any width; the rounds that split them off come
to an end, at full blocks and a rest that fits into one, which give these digits put together.
Next to the powers of ten, where another digit is needed, it is as it must be. -/
theorem integer_numerals_canonical :
    (∀ (n : Int) (cs : List Char), Numeral.IsDecimal n cs ↔ cs = (Number.int n).numeral) ∧
    (∀ n : Int, (Number.int n).text.toInt? = some n) ∧
    (∀ width n : Nat, Digits.inBlocks width n = Digits.ofNat n) ∧
    (WellFounded fun s' s => Digits.Splits Digits.blockWidth s s') ∧
    (∀ n : Nat, ∃ last,
      Relation.ReflTransGen (Digits.Splits Digits.blockWidth) ⟨n, []⟩ last ∧
        last.rest < 10 ^ Digits.blockWidth ∧ last.digits = Numeral.ofNat n ∧
        ∀ block ∈ last.blocks, block.length = Digits.blockWidth) ∧
    ∀ k : Nat,
      (Number.int (10 ^ k : Nat)).numeral = '1' :: List.replicate k '0' ∧
      (Number.int (-(10 ^ k : Nat))).numeral = '-' :: '1' :: List.replicate k '0' ∧
      (Number.int (10 ^ (k + 1) - 1 : Nat)).numeral = List.replicate (k + 1) '9' ∧
      (Number.int (-(10 ^ (k + 1) - 1 : Nat))).numeral = '-' :: List.replicate (k + 1) '9' := by
  have hwidth : 0 < Digits.blockWidth := by decide
  refine ⟨fun n cs => Numeral.isDecimal_iff, Number.toInt?_text, Digits.inBlocks_eq_ofNat,
    Digits.wellFounded_splits hwidth, fun n => ?_, fun k => ?_⟩
  · obtain ⟨last, hreached, hlast⟩ := Digits.exists_reached_lt hwidth ⟨n, []⟩
    obtain ⟨hdigits, hblocks⟩ := Digits.digits_of_reached hwidth hreached
    exact ⟨last, hreached, hlast, hdigits.trans (Numeral.ofNat_eq n).symm, hblocks⟩
  · have hpow : 0 < 10 ^ k := Nat.pow_pos (by decide)
    have hnines : 0 < 10 ^ (k + 1) - 1 := by
      have := Nat.one_lt_pow (Nat.succ_ne_zero k) (show 1 < 10 by decide)
      omega
    rw [Number.numeral_natCast, Number.numeral_neg_natCast hpow, Number.numeral_natCast,
      Number.numeral_neg_natCast hnines, Digits.ofNat_pow, Digits.ofNat_pow_sub_one]
    exact ⟨rfl, rfl, rfl, rfl⟩

end Lox
