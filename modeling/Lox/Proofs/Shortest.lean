import Lox.Proofs.Nearest
import Lox.Proofs.Numerals

/-!
# Shortest decimals

Rounding is monotone, so all decimals between a double and a decimal that is rounded to it are
rounded to it too.  Decimals with some number of digits stand on a grid, and if any point of the
grid is rounded to the double, then so is one of the two points around the double.  So a search
that tries these two points for one digit, for two and so on finds the fewest digits there are.
It never takes more than seventeen: their grid is so fine that one of the two points is nearer to
the double than half way to the next double.
-/

namespace Lox

/-- A magnitude that can be written with the given number of digits, at some power of ten. -/
def HasDigits (digits : Nat) (q : ℚ) : Prop :=
  ∃ (significand : Nat) (exponent : Int),
    significand < 10 ^ digits ∧ q = significand * 10 ^ exponent

theorem HasDigits.mono {digits digits' : Nat} {q : ℚ} (h : HasDigits digits q)
    (hle : digits ≤ digits') : HasDigits digits' q := by
  obtain ⟨significand, exponent, hlt, hq⟩ := h
  exact ⟨significand, exponent, hlt.trans_le (Nat.pow_le_pow_right (by decide) hle), hq⟩

namespace Double

/-- The magnitude of a number of grains with zeros at its end. -/
theorem zeros_div_grainsPerUnit (significand zeros : Nat) :
    ((significand * 10 ^ zeros : Nat) / grainsPerUnit : ℚ) =
      significand * 10 ^ ((zeros : Int) - places) := by
  rw [cast_grainsPerUnit, zpow_sub₀ (by norm_num), zpow_natCast, zpow_natCast, Nat.cast_mul,
    Nat.cast_pow, Nat.cast_ofNat, mul_div_assoc]

theorem hasDigits_grains {digits significand : Nat} (h : significand < 10 ^ digits) (zeros : Nat) :
    HasDigits digits ((significand * 10 ^ zeros : Nat) / grainsPerUnit) :=
  ⟨significand, zeros - places, h, zeros_div_grainsPerUnit significand zeros⟩

/-! ## Half way between doubles -/

section
variable {quanta quanta' den ordinal ordinal' : Nat}

/-- Quanta are rounded down up to half way to the next ordinal. -/
theorem Rounds.le_half (h : Rounds quanta den ordinal) :
    2 * quanta ≤ (quantaOfOrdinal ordinal + quantaOfOrdinal (ordinal + 1)) * den ∧
      (2 * quanta = (quantaOfOrdinal ordinal + quantaOfOrdinal (ordinal + 1)) * den →
        ordinal % 2 = 0) := by
  cases h with
  | down hle hlt hnear => omega
  | @up below hle hlt hnear =>
    have hstep := Nat.mul_le_mul_right den
      (quantaOfOrdinal_strictMono (Nat.lt_add_one (below + 1))).le
    rw [Nat.add_mul]
    omega

/-- Quanta are rounded up from half way between two ordinals on. -/
theorem Rounds.half_le (hden : 0 < den) (h : Rounds quanta den (ordinal + 1)) :
    (quantaOfOrdinal ordinal + quantaOfOrdinal (ordinal + 1)) * den ≤ 2 * quanta ∧
      (2 * quanta = (quantaOfOrdinal ordinal + quantaOfOrdinal (ordinal + 1)) * den →
        ordinal % 2 = 1) := by
  cases h with
  | down hle hlt hnear =>
    have hstep := Nat.mul_lt_mul_of_pos_right
      (quantaOfOrdinal_strictMono (Nat.lt_add_one ordinal)) hden
    rw [Nat.add_mul]
    omega
  | up hle hlt hnear => omega

/-- Half ways stand in the order of the ordinals. -/
theorem half_strictMono :
    StrictMono fun ordinal => quantaOfOrdinal ordinal + quantaOfOrdinal (ordinal + 1) :=
  quantaOfOrdinal_strictMono.add (quantaOfOrdinal_strictMono.comp (strictMono_id.add_const 1))

theorem Rounds.le_half_of_le (h : Rounds quanta den ordinal) (hle : ordinal ≤ ordinal') :
    2 * quanta ≤ (quantaOfOrdinal ordinal' + quantaOfOrdinal (ordinal' + 1)) * den :=
  h.le_half.1.trans (Nat.mul_le_mul_right den (half_strictMono.monotone hle))

theorem Rounds.half_le_of_lt (hden : 0 < den) (h : Rounds quanta den ordinal)
    (hlt : ordinal' < ordinal) :
    (quantaOfOrdinal ordinal' + quantaOfOrdinal (ordinal' + 1)) * den ≤ 2 * quanta := by
  obtain ⟨below, rfl⟩ : ∃ below, ordinal = below + 1 := ⟨ordinal - 1, by omega⟩
  exact (Nat.mul_le_mul_right den (half_strictMono.monotone (Nat.le_of_lt_succ hlt))).trans
    (h.half_le hden).1

/-- Rounding is monotone. -/
theorem Rounds.mono (hden : 0 < den) (h : Rounds quanta den ordinal)
    (h' : Rounds quanta' den ordinal') (hle : quanta ≤ quanta') : ordinal ≤ ordinal' := by
  refine Nat.le_of_not_lt fun hlt => ?_
  obtain ⟨below, rfl⟩ : ∃ below, ordinal = below + 1 := ⟨ordinal - 1, by omega⟩
  obtain ⟨hlow, hodd⟩ := h.half_le hden
  obtain ⟨hhigh, heven⟩ := h'.le_half
  rcases Nat.lt_or_eq_of_le (Nat.le_of_lt_succ hlt) with hless | rfl
  · have hstep := Nat.mul_lt_mul_of_pos_right (half_strictMono hless) hden
    dsimp only at hstep
    omega
  · omega

theorem nearestOrdinal_mono (hden : 0 < den) {num num' : Nat} (hle : num ≤ num') :
    nearestOrdinal num den ≤ nearestOrdinal num' den :=
  (rounds_nearestOrdinal num hden).mono hden (rounds_nearestOrdinal num' hden)
    (Nat.mul_le_mul_right _ hle)

end

/-! ## Decimals that read back -/

section
variable {ordinal decimal decimal' step : Nat}

/-- What lies between a decimal that reads back and the exact decimal reads back. -/
theorem readsBack_of_between (h : readsBack ordinal decimal = true)
    (hbetween : decimal ≤ decimal' ∧ decimal' ≤ grains ordinal ∨
      grains ordinal ≤ decimal' ∧ decimal' ≤ decimal) : readsBack ordinal decimal' = true := by
  rw [readsBack_iff] at h ⊢
  have hexact := nearestOrdinal_grains ordinal
  have hmono : ∀ {a b : Nat}, a ≤ b →
      nearestOrdinal a grainsPerUnit ≤ nearestOrdinal b grainsPerUnit :=
    nearestOrdinal_mono grainsPerUnit_pos
  rcases hbetween with ⟨hlow, hhigh⟩ | ⟨hlow, hhigh⟩
  · have hlow := hmono hlow
    have hhigh := hmono hhigh
    omega
  · have hlow := hmono hlow
    have hhigh := hmono hhigh
    omega

/-- If any point of a grid reads back, the grid has a decimal for the double. -/
theorem onGrid?_isSome (hstep : 0 < step) (count : Nat)
    (h : readsBack ordinal (count * step) = true) : (onGrid? ordinal step).isSome = true := by
  unfold onGrid?
  dsimp only
  rw [List.find?_isSome]
  have hexact := Nat.div_add_mod (grains ordinal) step
  have hrest := Nat.mod_lt (grains ordinal) hstep
  rw [Nat.mul_comm step] at hexact
  rcases Nat.lt_or_ge (grains ordinal / step) count with hlt | hge
  · have habove := Nat.mul_le_mul_right step hlt
    rw [Nat.add_one_mul] at habove
    exact ⟨_, by simp, readsBack_of_between h (.inr ⟨by omega, habove⟩)⟩
  · have hbelow := Nat.mul_le_mul_right step hge
    exact ⟨grains ordinal / step * step, by simp, readsBack_of_between h (.inl ⟨hbelow, by omega⟩)⟩

/-- The decimal of a grid is next to the double. -/
theorem exists_mul_of_onGrid? (h : onGrid? ordinal step = some decimal) :
    ∃ count, decimal = count * step ∧ count ≤ grains ordinal / step + 1 := by
  unfold onGrid? at h
  have hmem := List.mem_of_find?_eq_some h
  simp only [List.mem_cons, List.not_mem_nil, or_false] at hmem
  rcases hmem with rfl | rfl | rfl
  · refine ⟨_, rfl, ?_⟩
    rcases roundHalfEven_cases (grains ordinal) step with ⟨heq, -⟩ | ⟨heq, -⟩ <;> omega
  · exact ⟨_, rfl, Nat.le_add_right _ 1⟩
  · exact ⟨_, (Nat.add_one_mul _ step).symm, le_rfl⟩

end

/-! ## The search -/

section
variable {ordinal digits : Nat}

/-- The number of digits of the exact decimal of a double. -/
def exactLength (ordinal : Nat) : Nat := (Digits.ofNat (grains ordinal)).length

theorem exactLength_pos : 0 < exactLength ordinal := List.length_pos_iff.2 (Digits.ofNat_ne_nil _)

theorem grains_lt : grains ordinal < 10 ^ exactLength ordinal :=
  (Nat.length_toDigits_le_iff (by decide) exactLength_pos).1 le_rfl

theorem le_grains (h : 1 < exactLength ordinal) :
    10 ^ (exactLength ordinal - 1) ≤ grains ordinal := by
  refine Nat.le_of_not_lt fun hlt => ?_
  have hle := (Nat.length_toDigits_le_iff (by decide) (by omega)).2 hlt
  have hlength : exactLength ordinal ≤ exactLength ordinal - 1 := hle
  omega

theorem shortest_eq : shortest ordinal = ((List.range 17).findSome? fun digits =>
    onGrid? ordinal (10 ^ (exactLength ordinal - (digits + 1)))).getD (grains ordinal) := by
  rw [shortest, Digits.inBlocks_eq_ofNat]
  rfl

/-- The search ends at the first grid that has a decimal. -/
theorem exists_onGrid?_eq_shortest (hpos : 0 < digits) (hle : digits ≤ 17)
    (h : (onGrid? ordinal (10 ^ (exactLength ordinal - digits))).isSome = true) :
    ∃ least, 0 < least ∧ least ≤ digits ∧
      onGrid? ordinal (10 ^ (exactLength ordinal - least)) = some (shortest ordinal) := by
  rw [shortest_eq]
  cases hfound : (List.range 17).findSome? fun digits =>
      onGrid? ordinal (10 ^ (exactLength ordinal - (digits + 1))) with
  | none =>
    have hnone := List.findSome?_eq_none_iff.1 hfound (digits - 1) (by simp; omega)
    rw [Nat.sub_add_cancel hpos] at hnone
    rw [hnone] at h
    cases h
  | some decimal =>
    obtain ⟨before, least, after, hrange, hleast, hbefore⟩ := List.findSome?_eq_some_iff.1 hfound
    refine ⟨least + 1, Nat.succ_pos least, Nat.le_of_not_lt fun hlt => ?_, hleast⟩
    have hsorted := hrange ▸ List.pairwise_lt_range (n := 17)
    have hmem : digits - 1 ∈ before ++ least :: after := by
      rw [← hrange, List.mem_range]
      omega
    rcases List.mem_append.1 hmem with hmem | hmem
    · -- it would have ended with these digits before
      have hnone := hbefore _ hmem
      rw [Nat.sub_add_cancel hpos] at hnone
      rw [hnone] at h
      cases h
    · rcases List.mem_cons.1 hmem with heq | hmem
      · omega
      · have := (List.pairwise_cons.1 (List.pairwise_append.1 hsorted).2.1).1 _ hmem
        omega

/-- What the search finds has no more digits than it searched for. -/
theorem hasDigits_of_onGrid? (hpos : 0 < digits) {decimal : Nat}
    (h : onGrid? ordinal (10 ^ (exactLength ordinal - digits)) = some decimal) :
    HasDigits digits (decimal / grainsPerUnit) := by
  obtain ⟨count, rfl, hcount⟩ := exists_mul_of_onGrid? h
  have hquotient : grains ordinal / 10 ^ (exactLength ordinal - digits) < 10 ^ digits := by
    refine Nat.div_lt_of_lt_mul (grains_lt.trans_le ?_)
    rw [← Nat.pow_add]
    exact Nat.pow_le_pow_right (by decide) (by omega)
  rcases Nat.lt_or_eq_of_le (show count ≤ 10 ^ digits by omega) with hlt | rfl
  · exact hasDigits_grains hlt _
  · have hone := hasDigits_grains (Nat.one_lt_pow hpos.ne' (by decide : 1 < 10))
      (digits + (exactLength ordinal - digits))
    rwa [Nat.one_mul, Nat.pow_add] at hone

/-- The shortest decimal has no more digits than any grid that has a point for the double. -/
theorem hasDigits_shortest_of_onGrid? (hpos : 0 < digits) (hle : digits ≤ 17)
    (h : (onGrid? ordinal (10 ^ (exactLength ordinal - digits))).isSome = true) :
    HasDigits digits (shortest ordinal / grainsPerUnit) := by
  obtain ⟨least, hleast, hless, hgrid⟩ := exists_onGrid?_eq_shortest hpos hle h
  exact (hasDigits_of_onGrid? hleast hgrid).mono hless

end

/-! ## Seventeen digits -/

/-- The ordinals around a magnitude are farther from each other than one part in `2 ^ 52` of it. -/
theorem quantaOfOrdinal_gap (ordinal : Nat) :
    quantaOfOrdinal (ordinal + 1) + 2 ^ 52 * quantaOfOrdinal ordinal <
      2 ^ 52 * quantaOfOrdinal (ordinal + 2) := by
  obtain ⟨shift, n, rfl, hn, hlow⟩ := exists_shift ordinal
  have hpow := Nat.two_pow_pos shift
  have hnext : n + 1 ≤ 2 ^ 53 := hn
  rw [Nat.add_assoc, quantaOfOrdinal_shift hn.le hlow,
    quantaOfOrdinal_shift hnext (hlow.imp_right fun h => by omega)]
  rcases Nat.lt_or_eq_of_le hnext with hinside | hend
  · have hlast : n + 2 ≤ 2 ^ 53 := hinside
    rw [Nat.add_assoc, quantaOfOrdinal_shift hlast (hlow.imp_right fun h => by omega)]
    have hsmall := Nat.mul_lt_mul_of_pos_right hinside hpow
    rw [Nat.add_mul] at hsmall
    rw [Nat.add_mul n 1, Nat.add_mul n 2]
    omega
  · -- the steps are doubled from here on
    obtain rfl : n = 2 ^ 53 - 1 := by omega
    rw [show shift * 2 ^ 52 + (2 ^ 53 - 1) + 2 = (shift + 1) * 2 ^ 52 + (2 ^ 52 + 1) by omega,
      quantaOfOrdinal_shift (by decide) (.inr (by decide)), Nat.pow_succ]
    omega

theorem grains_gap (ordinal : Nat) :
    grains (ordinal + 1) + 2 ^ 52 * grains ordinal < 2 ^ 52 * grains (ordinal + 2) := by
  have hgap := quantaOfOrdinal_gap ordinal
  unfold grains places
  -- the power is not to be computed
  generalize 1074 = e
  rw [Nat.pow_eq, ← Nat.mul_assoc, ← Nat.mul_assoc, ← Nat.add_mul]
  exact Nat.mul_lt_mul_of_pos_right hgap (Nat.pow_pos (by decide))

/-- Half way between two ordinals, in grains. -/
theorem half_mul_grainsPerUnit (ordinal : Nat) :
    (quantaOfOrdinal ordinal + quantaOfOrdinal (ordinal + 1)) * grainsPerUnit =
      (grains ordinal + grains (ordinal + 1)) * 2 ^ 1074 := by
  rw [Nat.add_mul, quantaOfOrdinal_mul_grainsPerUnit, quantaOfOrdinal_mul_grainsPerUnit,
    ← Nat.add_mul]

section
variable {ordinal decimal : Nat}

theorem le_half_grains (h : nearestOrdinal decimal grainsPerUnit ≤ ordinal) :
    2 * decimal ≤ grains ordinal + grains (ordinal + 1) := by
  have hhalf := (rounds_nearestOrdinal decimal grainsPerUnit_pos).le_half_of_le h
  rw [half_mul_grainsPerUnit, ← Nat.mul_assoc] at hhalf
  generalize 1074 = e at hhalf
  exact Nat.le_of_mul_le_mul_right hhalf (Nat.two_pow_pos e)

theorem half_le_grains (h : ordinal < nearestOrdinal decimal grainsPerUnit) :
    grains ordinal + grains (ordinal + 1) ≤ 2 * decimal := by
  have hhalf := (rounds_nearestOrdinal decimal grainsPerUnit_pos).half_le_of_lt
    grainsPerUnit_pos h
  rw [half_mul_grainsPerUnit, ← Nat.mul_assoc] at hhalf
  generalize 1074 = e at hhalf
  exact Nat.le_of_mul_le_mul_right hhalf (Nat.two_pow_pos e)

end

/-- A grid whose steps are small against a double has a decimal for it: else the double would be
farther than a step from the half ways on both sides. -/
theorem onGrid?_isSome_of_fine {ordinal step : Nat} (h : ordinal ≠ 0) (hstep : 0 < step)
    (hfine : 10 ^ 16 * step ≤ grains ordinal) : (onGrid? ordinal step).isSome = true := by
  obtain ⟨before, rfl⟩ : ∃ before, ordinal = before + 1 := ⟨ordinal - 1, by omega⟩
  by_contra hnone
  have hmisses : ∀ count, nearestOrdinal (count * step) grainsPerUnit ≠ before + 1 :=
    fun count heq => hnone (onGrid?_isSome hstep count (readsBack_iff.2 heq))
  have hbelow := hmisses (grains (before + 1) / step)
  have habove := hmisses (grains (before + 1) / step + 1)
  have hsplit := Nat.div_add_mod (grains (before + 1)) step
  have hrest := Nat.mod_lt (grains (before + 1)) hstep
  rw [Nat.mul_comm step] at hsplit
  rw [Nat.add_one_mul] at habove
  generalize grains (before + 1) / step * step = below at *
  have hexact := nearestOrdinal_grains (before + 1)
  have hle := nearestOrdinal_mono grainsPerUnit_pos (show below ≤ grains (before + 1) by omega)
  have hge := nearestOrdinal_mono grainsPerUnit_pos
    (show grains (before + 1) ≤ below + step by omega)
  have hlow := le_half_grains (show nearestOrdinal below grainsPerUnit ≤ before by omega)
  have hhigh := half_le_grains
    (show before + 1 < nearestOrdinal (below + step) grainsPerUnit by omega)
  have hgap : grains (before + 1) + 2 ^ 52 * grains before < 2 ^ 52 * grains (before + 1 + 1) :=
    grains_gap before
  omega

/-- The grid of seventeen digits has a decimal for every double but the zeros. -/
theorem onGrid?_seventeen {ordinal : Nat} (h : ordinal ≠ 0) :
    (onGrid? ordinal (10 ^ (exactLength ordinal - 17))).isSome = true := by
  rcases Nat.lt_or_ge 17 (exactLength ordinal) with hlong | hshort
  · refine onGrid?_isSome_of_fine h (Nat.pow_pos (by decide)) ?_
    rw [← Nat.pow_add,
      show 16 + (exactLength ordinal - 17) = exactLength ordinal - 1 by omega]
    exact le_grains (by omega)
  · have hexact : readsBack ordinal (grains ordinal * 1) = true := by
      rw [Nat.mul_one, readsBack_iff, nearestOrdinal_grains]
    rw [Nat.sub_eq_zero_of_le hshort, Nat.pow_zero]
    exact onGrid?_isSome Nat.one_pos _ hexact

/-! ## The fewest digits -/

section
variable {ordinal digits : Nat}

/-- If a decimal reads back, the grid with as many digits has a decimal. -/
theorem onGrid?_isSome_of_readsBack (hpos : 0 < digits) {significand : Nat}
    (hlt : significand < 10 ^ digits) (zeros : Nat)
    (h : readsBack ordinal (significand * 10 ^ zeros) = true) :
    (onGrid? ordinal (10 ^ (exactLength ordinal - digits))).isSome = true := by
  have hstep : 0 < 10 ^ (exactLength ordinal - digits) := Nat.pow_pos (by decide)
  rcases Nat.lt_or_ge zeros (exactLength ordinal - digits) with hfine | hcoarse
  · -- the decimal is shorter than the double, and the grid begins between them
    have hbegin : 10 ^ (digits - 1) * 10 ^ (exactLength ordinal - digits) =
        10 ^ (exactLength ordinal - 1) := by
      rw [← Nat.pow_add, show digits - 1 + (exactLength ordinal - digits) =
        exactLength ordinal - 1 by omega]
    refine onGrid?_isSome hstep (10 ^ (digits - 1)) ?_
    rw [hbegin]
    refine readsBack_of_between h (.inl ⟨?_, le_grains (by omega)⟩)
    calc significand * 10 ^ zeros ≤ 10 ^ digits * 10 ^ zeros := Nat.mul_le_mul_right _ hlt.le
      _ = 10 ^ (digits + zeros) := (Nat.pow_add 10 digits zeros).symm
      _ ≤ 10 ^ (exactLength ordinal - 1) := Nat.pow_le_pow_right (by decide) (by omega)
  · refine onGrid?_isSome hstep (significand * 10 ^ (zeros - (exactLength ordinal - digits))) ?_
    rw [Nat.mul_assoc, ← Nat.pow_add, Nat.sub_add_cancel hcoarse]
    exact h

/-- What few digits write below the last place is rounded to zero. -/
theorem ordinalNear_eq_zero {significand : Nat} {exponent : Int} (hlt : significand < 10 ^ 17)
    (hexponent : exponent < -places) : ordinalNear (significand * 10 ^ exponent) = 0 := by
  have hq : (0 : ℚ) ≤ significand * 10 ^ exponent := by positivity
  have hsmall : 2 * (significand * 10 ^ exponent : ℚ) < magnitude 1 := by
    have hfive : (2 * 10 ^ 16 : ℚ) < 5 ^ places :=
      (by norm_num : (2 * 10 ^ 16 : ℚ) < 5 ^ 24).trans_le
        (pow_le_pow_right₀ (by norm_num) (by decide : 24 ≤ places))
    have hpower : (10 : ℚ) ^ exponent ≤ 10 ^ (-1 - places : ℤ) :=
      zpow_le_zpow_right₀ (by norm_num) (by omega)
    have hsignificand : (significand : ℚ) < 10 ^ 17 := by exact_mod_cast hlt
    rw [magnitude, show quantaOfOrdinal 1 = 1 from rfl, show 1074 = places from rfl]
    -- the powers are not to be computed
    generalize places = e at *
    have hten : (10 : ℚ) ^ (-1 - e : ℤ) = 1 / 10 / 5 ^ e / 2 ^ e := by
      rw [zpow_sub₀ (by norm_num), zpow_natCast, div_div, ← mul_pow]
      norm_num
    calc 2 * (significand * 10 ^ exponent : ℚ)
        ≤ 2 * (10 ^ 17 * (1 / 10 / 5 ^ e / 2 ^ e)) := by
          rw [hten] at hpower
          gcongr
      _ = 2 * 10 ^ 16 / 5 ^ e / 2 ^ e := by ring
      _ < (1 : Nat) / 2 ^ e := by
          rw [Nat.cast_one, div_lt_div_iff_of_pos_right (pow_pos two_pos e),
            div_lt_one (by positivity)]
          exact hfive
  have hnear := (ordinalNear_nearest hq 0).1
  rw [magnitude_zero, zero_sub, abs_neg, abs_of_nonneg hq] at hnear
  by_contra hne
  have hone := magnitude_strictMono.monotone (Nat.one_le_iff_ne_zero.2 hne)
  have hdist := (le_abs_self _).trans hnear
  linarith

/-- The shortest decimal of a double has as few digits as any decimal that is rounded to it. -/
theorem hasDigits_shortest (hne : ordinal ≠ 0) {q : ℚ} (hq : HasDigits digits q)
    (hnear : ordinalNear q = ordinal) : HasDigits digits (shortest ordinal / grainsPerUnit) := by
  rcases Nat.lt_or_ge digits 17 with hfew | hmany
  · obtain ⟨significand, exponent, hlt, rfl⟩ := hq
    have hpos : 0 < digits := by
      refine Nat.pos_of_ne_zero ?_
      rintro rfl
      rw [Nat.lt_one_iff.1 hlt, Nat.cast_zero, zero_mul, ordinalNear_zero] at hnear
      exact hne hnear.symm
    have hfewer := hlt.trans_le (Nat.pow_le_pow_right (by decide) hfew.le)
    refine hasDigits_shortest_of_onGrid? hpos hfew.le ?_
    rcases Int.lt_or_le exponent (-places) with hbelow | hplace
    · exact absurd (hnear.symm.trans (ordinalNear_eq_zero hfewer hbelow)) hne
    · obtain ⟨zeros, rfl⟩ : ∃ zeros : Nat, exponent = zeros - places :=
        ⟨(exponent + places).toNat, by omega⟩
      refine onGrid?_isSome_of_readsBack hpos hlt zeros (readsBack_iff.2 ?_)
      rw [← ordinalNear_div _ grainsPerUnit_pos, zeros_div_grainsPerUnit, hnear]
  · exact (hasDigits_shortest_of_onGrid? (by decide) le_rfl (onGrid?_seventeen hne)).mono hmany

end

end Double
end Lox
