import Lox.Number.Basic
import Mathlib.Algebra.Order.Ring.Nat
import Mathlib.Data.Nat.Log
import Mathlib.Tactic.Positivity
import Mathlib.Tactic.Ring

/-!
# Conversion to doubles

An integer is converted to the nearest double, a half going to the even neighbour.  So the range of
conversion ends half a step beyond the largest finite double: that half would go to the next power
of two, of which there is no finite double.
-/

namespace Lox

/-! ## Rounding -/

section
variable {num den k : Nat}

/-- Rounding does not fall below an integer that the ratio does not fall below. -/
theorem le_roundHalfEven (hden : 0 < den) (h : k * den ≤ num) : k ≤ roundHalfEven num den := by
  have hk : k ≤ num / den := (Nat.le_div_iff_mul_le hden).2 h
  unfold roundHalfEven
  dsimp only
  split_ifs <;> omega

/-- Rounding does not exceed an integer that the ratio does not exceed. -/
theorem roundHalfEven_le (hden : 0 < den) (h : num < k * den) : roundHalfEven num den ≤ k := by
  have hk : num / den < k := (Nat.div_lt_iff_lt_mul hden).2 h
  unfold roundHalfEven
  dsimp only
  split_ifs <;> omega

/-- Rounding comes to an even number, or beyond it, from half a step below it on. -/
theorem le_roundHalfEven_iff (num : Nat) (hden : 0 < den) (hk : 0 < k) (heven : k % 2 = 0) :
    k ≤ roundHalfEven num den ↔ (2 * k - 1) * den ≤ 2 * num := by
  have hsplit := Nat.div_add_mod num den
  have hrest := Nat.mod_lt num hden
  obtain ⟨j, rfl⟩ : ∃ j, k = j + 1 := ⟨k - 1, by omega⟩
  have hdouble : (2 * (j + 1) - 1) * den = 2 * (den * j) + den := by
    rw [show 2 * (j + 1) - 1 = 2 * j + 1 by omega]
    ring
  unfold roundHalfEven
  dsimp only
  rw [hdouble]
  generalize num % den = rest at *
  rcases Nat.lt_trichotomy (num / den) j with hlt | heq | hgt
  · have hmul : den * (num / den) + den ≤ den * j := by
      rw [← Nat.mul_succ]
      exact Nat.mul_le_mul_left den hlt
    split_ifs <;> omega
  · rw [← heq]
    split_ifs <;> omega
  · have hmul : den * j + den ≤ den * (num / den) := by
      rw [← Nat.mul_succ]
      exact Nat.mul_le_mul_left den hgt
    split_ifs <;> omega

end

namespace Double

/-! ## The range of conversion -/

section
variable {num den : Nat}

/-- How far a magnitude is above those that 53 binary digits can write: they suffice for it after
as many halvings as are made, and 52 would not unless none is made. -/
theorem halvings_bounds (num : Nat) (hden : 0 < den) :
    num < den * 2 ^ (Nat.log2 (num / den) - 52 + 53) ∧
      (Nat.log2 (num / den) - 52 ≠ 0 → den * 2 ^ (Nat.log2 (num / den) - 52 + 52) ≤ num) := by
  by_cases hquot : num / den = 0
  · have hlt : num < den := (Nat.div_eq_zero_iff_lt hden).1 hquot
    rw [hquot, Nat.log2_zero]
    exact ⟨Nat.lt_of_lt_of_le hlt (Nat.le_mul_of_pos_right den (Nat.two_pow_pos _)),
      fun h => absurd rfl h⟩
  · have hlow : 2 ^ Nat.log2 (num / den) ≤ num / den := Nat.log2_self_le hquot
    have hhigh : num / den < 2 ^ (Nat.log2 (num / den) + 1) := Nat.lt_log2_self
    constructor
    · rw [Nat.mul_comm, ← Nat.div_lt_iff_lt_mul hden]
      exact Nat.lt_of_lt_of_le hhigh (Nat.pow_le_pow_right (by decide) (by omega))
    · intro hne
      rw [Nat.mul_comm, ← Nat.le_div_iff_mul_le hden,
        show Nat.log2 (num / den) - 52 + 52 = Nat.log2 (num / den) by omega]
      exact hlow

theorem quantaPerUnit_eq : quantaPerUnit = 2 ^ 1074 := by
  unfold quantaPerUnit
  -- the power is not to be computed
  generalize 1074 = e
  rfl

/-- The end of the range, in quanta: half a step below `2 ^ 54` of the steps in the last binade,
each counted by halves. -/
theorem le_num_iff_le_quanta :
    (2 ^ 1024 - 2 ^ 970) * den ≤ num ↔
      (2 ^ 54 - 1) * (den * 2 ^ 2044) ≤ num * 2 ^ 1074 := by
  have hscale : ∀ p q : Nat, 0 < q →
      ((2 ^ 54 * p - p) * den ≤ num ↔ (2 ^ 54 - 1) * (den * (p * q)) ≤ num * q) := by
    intro p q hq
    rw [← Nat.sub_one_mul, ← Nat.mul_le_mul_right_iff hq]
    ring_nf
  rw [show 2 ^ 2044 = 2 ^ 970 * 2 ^ 1074 by rw [← pow_add],
    show 2 ^ 1024 = 2 ^ 54 * 2 ^ 970 by rw [← pow_add]]
  exact hscale _ _ (by positivity)

/-- A ratio is rounded beyond the finite doubles from half a step above the largest one on. -/
theorem infinityOrdinal_le_nearestOrdinal_iff (num : Nat) (hden : 0 < den) :
    infinityOrdinal ≤ nearestOrdinal num den ↔ (2 ^ 1024 - 2 ^ 970) * den ≤ num := by
  rw [le_num_iff_le_quanta, nearestOrdinal, infinityOrdinal, binade, quantaPerUnit_eq]
  simp only [Nat.pow_eq]
  obtain ⟨hupper, hlower⟩ := halvings_bounds (num * 2 ^ 1074) hden
  generalize Nat.log2 (num * 2 ^ 1074 / den) - 52 = halvings at *
  generalize num * 2 ^ 1074 = quanta at *
  have hstep : 0 < den * 2 ^ halvings := Nat.mul_pos hden (Nat.two_pow_pos _)
  have hle : roundHalfEven quanta (den * 2 ^ halvings) ≤ 2 ^ 53 := by
    refine roundHalfEven_le hstep (Nat.lt_of_lt_of_eq hupper ?_)
    rw [Nat.pow_add]
    ring
  rcases Nat.lt_trichotomy halvings 2045 with hfew | hlast | hmany
  · -- too small by a binary digit at least
    have hpow : den * 2 ^ (halvings + 53) ≤ 2 ^ 53 * (den * 2 ^ 2044) := by
      rw [Nat.pow_add, ← Nat.mul_assoc, Nat.mul_comm _ (2 ^ 53)]
      gcongr
      · decide
      · omega
    omega
  · -- in the last binade, all depends on the rounding
    have hround := le_roundHalfEven_iff quanta hstep (by decide : 0 < 2 ^ 53) (by decide)
    have hdouble : den * 2 ^ halvings = 2 * (den * 2 ^ 2044) := by
      rw [hlast, show 2 ^ 2045 = 2 * 2 ^ 2044 by rw [← pow_succ'], Nat.mul_left_comm]
    rw [hdouble] at hround hle ⊢
    omega
  · -- too large even without rounding
    have hlow : 2 ^ 52 ≤ roundHalfEven quanta (den * 2 ^ halvings) := by
      refine le_roundHalfEven hstep (Nat.le_trans (Nat.le_of_eq ?_) (hlower (by omega)))
      rw [Nat.pow_add]
      ring
    have hpow : 2 ^ 54 * (den * 2 ^ 2044) ≤ den * 2 ^ (halvings + 52) := by
      rw [show 2 ^ 54 * (den * 2 ^ 2044) = den * 2 ^ 2098 by rw [Nat.mul_left_comm, ← pow_add]]
      gcongr
      · decide
      · omega
    have hquanta := hlower (by omega)
    omega

end

/-- An integer has no double near it from half a step above the largest finite double on. -/
theorem ofInt?_eq_none_iff (n : Int) : ofInt? n = none ↔ 2 ^ 1024 - 2 ^ 970 ≤ n.natAbs := by
  have h := infinityOrdinal_le_nearestOrdinal_iff n.natAbs Nat.one_pos
  rw [Nat.mul_one] at h
  rw [← h, ofInt?]
  simp

/-! ## Zeros -/

/-- A double is known by its bits. -/
theorem toBits_injective {x y : Float} (h : x.toBits = y.toBits) : x = y := by
  obtain ⟨⟨xbits, hx⟩⟩ := x
  obtain ⟨⟨ybits, hy⟩⟩ := y
  obtain rfl : xbits = ybits := h
  rfl

/-- The two zeros. -/
theorem isZero_iff {x : Float} : isZero x = true ↔ x = 0.0 ∨ x = -0.0 := by
  have hrange : x.toBits.toNat < 2 ^ 64 := x.toBits.toNat_lt
  have hordinal : isZero x = true ↔ x.toBits.toNat % 2 ^ 63 = 0 := by
    have hinfinity : 0 < infinityOrdinal := by decide
    unfold isZero contents
    simp only [Nat.pow_eq]
    generalize x.toBits.toNat % 2 ^ 63 = ordinal
    split_ifs with hfinite hinfinite
    · cases ordinal with
      | zero => simp
      | succ ordinal => simp
    · simp
      omega
    · simp
      omega
  have hpos : (0.0 : Float).toBits.toNat = 0 := by decide
  have hneg : (-0.0 : Float).toBits.toNat = 2 ^ 63 := by decide
  rw [hordinal]
  constructor
  · intro h
    have hcases : x.toBits.toNat = 0 ∨ x.toBits.toNat = 2 ^ 63 := by omega
    rcases hcases with hzero | hzero
    · exact .inl (toBits_injective (UInt64.toNat_inj.1 (hzero.trans hpos.symm)))
    · exact .inr (toBits_injective (UInt64.toNat_inj.1 (hzero.trans hneg.symm)))
  · rintro (rfl | rfl)
    · rw [hpos]
      rfl
    · rw [hneg]
      rfl

end Double
end Lox
