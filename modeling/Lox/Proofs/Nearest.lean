import Lox.Number.Shortest
import Lox.Proofs.ExactValues

/-!
# The nearest double

Magnitudes are rounded by ordinals.  A ratio lies between two doubles with consecutive ordinals, and
it is rounded to the nearer one; half way between them, to the one with the even ordinal.  Ordinals
stand in the order of the magnitudes, so no other double is nearer.

A ratio that is the magnitude of a double is rounded to this double.  So the exact decimal of a
double reads back, and so does the shorter one that is searched for.
-/

namespace Lox

/-- Rounding goes to the nearer of two integers, and from half way to the even one. -/
theorem roundHalfEven_cases (num den : Nat) :
    (roundHalfEven num den = num / den ∧ (2 * num < (2 * (num / den) + 1) * den ∨
      2 * num = (2 * (num / den) + 1) * den ∧ num / den % 2 = 0)) ∨
    (roundHalfEven num den = num / den + 1 ∧ ((2 * (num / den) + 1) * den < 2 * num ∨
      2 * num = (2 * (num / den) + 1) * den ∧ num / den % 2 = 1)) := by
  have hsplit := Nat.div_add_mod num den
  have hhalf : (2 * (num / den) + 1) * den = 2 * (den * (num / den)) + den := by ring
  unfold roundHalfEven
  dsimp only
  split_ifs <;> omega

/-- Rounding depends on the ratio alone. -/
theorem roundHalfEven_mul (num den : Nat) {k : Nat} (hk : 0 < k) :
    roundHalfEven (k * num) (k * den) = roundHalfEven num den := by
  have hlt : ∀ a b : Nat, k * a < k * b ↔ a < b := fun a b => Nat.mul_lt_mul_left hk
  unfold roundHalfEven
  simp only [Nat.mul_div_mul_left _ _ hk, Nat.mul_mod_mul_left, Nat.mul_left_comm 2 k, hlt]

namespace Double

/-! ## Ordinals -/

/-- The magnitude of an ordinal by its place in a binade, whose end is the beginning of the next
one. -/
theorem quantaOfOrdinal_shift {shift n : Nat} (hn : n ≤ 2 ^ 53)
    (hlow : shift = 0 ∨ 2 ^ 52 ≤ n) : quantaOfOrdinal (shift * 2 ^ 52 + n) = n * 2 ^ shift := by
  rcases Nat.lt_or_ge n (2 ^ 52) with hsmall | hlarge
  · obtain rfl : shift = 0 := by omega
    rw [quantaOfOrdinal_eq hsmall, quantaOfFields, if_pos rfl, pow_zero, mul_one]
  · rcases Nat.lt_or_eq_of_le hn with hinside | rfl
    · rw [show shift * 2 ^ 52 + n = (shift + 1) * 2 ^ 52 + (n - 2 ^ 52) by omega,
        quantaOfOrdinal_eq (by omega), quantaOfFields, if_neg (Nat.succ_ne_zero shift),
        Nat.add_sub_cancel, Nat.add_sub_cancel' hlarge]
    · rw [show shift * 2 ^ 52 + 2 ^ 53 = (shift + 2) * 2 ^ 52 + 0 by omega,
        quantaOfOrdinal_eq (by decide), quantaOfFields, if_neg (Nat.succ_ne_zero _), Nat.add_zero,
        show shift + 2 - 1 = shift + 1 by omega, pow_succ]
      ring

/-- Every ordinal has a place in a binade before its end. -/
theorem exists_shift (ordinal : Nat) : ∃ shift n, ordinal = shift * 2 ^ 52 + n ∧ n < 2 ^ 53 ∧
    (shift = 0 ∨ 2 ^ 52 ≤ n) := by
  by_cases h : ordinal < 2 ^ 52
  · exact ⟨0, ordinal, by omega, by omega, .inl rfl⟩
  · exact ⟨ordinal / 2 ^ 52 - 1, 2 ^ 52 + ordinal % 2 ^ 52, by omega, by omega, .inr (by omega)⟩

/-- Ordinals stand in the order of the magnitudes. -/
theorem quantaOfOrdinal_strictMono : StrictMono quantaOfOrdinal := by
  refine strictMono_nat_of_lt_succ fun ordinal => ?_
  obtain ⟨shift, n, rfl, hn, hlow⟩ := exists_shift ordinal
  rw [Nat.add_assoc, quantaOfOrdinal_shift hn.le hlow,
    quantaOfOrdinal_shift hn (hlow.imp_right fun h => by omega)]
  exact Nat.mul_lt_mul_of_pos_right (Nat.lt_succ_self n) (Nat.two_pow_pos shift)

/-- Magnitude 0 has ordinal 0. -/
@[simp] theorem quantaOfOrdinal_zero : quantaOfOrdinal 0 = 0 := rfl

/-! ## Rounding -/

/-- Quanta, counted in parts of one, are rounded to an ordinal: of the consecutive ordinals around
them to the nearer one, and from half way to the even one. -/
inductive Rounds (quanta den : Nat) : Nat → Prop
  | down {below : Nat} (hle : quantaOfOrdinal below * den ≤ quanta)
    (hlt : quanta < quantaOfOrdinal (below + 1) * den)
    (hnear : 2 * quanta < (quantaOfOrdinal below + quantaOfOrdinal (below + 1)) * den ∨
      2 * quanta = (quantaOfOrdinal below + quantaOfOrdinal (below + 1)) * den ∧ below % 2 = 0) :
    Rounds quanta den below
  | up {below : Nat} (hle : quantaOfOrdinal below * den ≤ quanta)
    (hlt : quanta < quantaOfOrdinal (below + 1) * den)
    (hnear : (quantaOfOrdinal below + quantaOfOrdinal (below + 1)) * den < 2 * quanta ∨
      2 * quanta = (quantaOfOrdinal below + quantaOfOrdinal (below + 1)) * den ∧ below % 2 = 1) :
    Rounds quanta den (below + 1)

/-- Ratios are rounded between consecutive ordinals. -/
theorem rounds_nearestOrdinal (num : Nat) {den : Nat} (hden : 0 < den) :
    Rounds (num * 2 ^ 1074) den (nearestOrdinal num den) := by
  rw [nearestOrdinal, quantaPerUnit_eq, show binade = 2 ^ 52 from rfl]
  obtain ⟨hupper, hlower⟩ := halvings_bounds (num * 2 ^ 1074) hden
  simp only [Nat.pow_eq]
  generalize Nat.log2 (num * 2 ^ 1074 / den) - 52 = shift at *
  generalize num * 2 ^ 1074 = quanta at *
  have hstep : 0 < den * 2 ^ shift := Nat.mul_pos hden (Nat.two_pow_pos shift)
  have hhigh : quanta / (den * 2 ^ shift) < 2 ^ 53 := by
    rw [Nat.div_lt_iff_lt_mul hstep]
    rw [Nat.pow_add] at hupper
    linarith
  have hlow : shift = 0 ∨ 2 ^ 52 ≤ quanta / (den * 2 ^ shift) := by
    refine or_iff_not_imp_left.2 fun hshift => ?_
    rw [Nat.le_div_iff_mul_le hstep]
    have := hlower hshift
    rw [Nat.pow_add] at this
    linarith
  have hle := Nat.div_mul_le_self quanta (den * 2 ^ shift)
  have hlt := Nat.lt_mul_of_div_lt (Nat.lt_succ_self (quanta / (den * 2 ^ shift))) hstep
  have hround := roundHalfEven_cases quanta (den * 2 ^ shift)
  generalize quanta / (den * 2 ^ shift) = n at *
  -- the ordinals around the ratio are next to each other in one binade, or its end is the second
  have hbelow : quantaOfOrdinal (shift * 2 ^ 52 + n) * den = n * (den * 2 ^ shift) := by
    rw [quantaOfOrdinal_shift hhigh.le hlow]
    ring
  have habove : quantaOfOrdinal (shift * 2 ^ 52 + n + 1) * den = (n + 1) * (den * 2 ^ shift) := by
    rw [Nat.add_assoc,
      quantaOfOrdinal_shift (show n + 1 ≤ 2 ^ 53 from hhigh) (hlow.imp_right fun h => by omega)]
    ring
  have hsum : (quantaOfOrdinal (shift * 2 ^ 52 + n) + quantaOfOrdinal (shift * 2 ^ 52 + n + 1)) *
      den = (2 * n + 1) * (den * 2 ^ shift) := by
    rw [Nat.add_mul, hbelow, habove]
    ring
  rcases hround with ⟨heq, hnear⟩ | ⟨heq, hnear⟩
  · rw [heq]
    refine .down (hbelow ▸ hle) (habove ▸ hlt) ?_
    rw [hsum]
    exact hnear.imp_right fun h => ⟨h.1, by omega⟩
  · rw [heq, ← Nat.add_assoc]
    refine .up (hbelow ▸ hle) (habove ▸ hlt) ?_
    rw [hsum]
    exact hnear.imp_right fun h => ⟨h.1, by omega⟩

/-- What is the magnitude of a double exactly is rounded to this double. -/
theorem Rounds.eq_of_exact {quanta den ordinal rounded : Nat} (hden : 0 < den)
    (h : Rounds quanta den rounded) (hexact : quanta = quantaOfOrdinal ordinal * den) :
    rounded = ordinal := by
  have hbelow : ∀ below, quantaOfOrdinal below * den ≤ quanta →
      quanta < quantaOfOrdinal (below + 1) * den → below = ordinal := by
    intro below hle hlt
    rw [hexact] at hle hlt
    have hle := quantaOfOrdinal_strictMono.le_iff_le.1 (Nat.le_of_mul_le_mul_right hle hden)
    have hlt := quantaOfOrdinal_strictMono.lt_iff_lt.1 (Nat.lt_of_mul_lt_mul_right hlt)
    omega
  cases h with
  | down hle hlt hnear => exact hbelow _ hle hlt
  | up hle hlt hnear =>
    -- the next ordinal is not nearer than the magnitude itself
    obtain rfl := hbelow _ hle hlt
    rw [Nat.add_mul] at hnear
    omega

/-- The nearest ordinal depends on the ratio alone. -/
theorem nearestOrdinal_mul (num den : Nat) {k : Nat} (hk : 0 < k) :
    nearestOrdinal (k * num) (k * den) = nearestOrdinal num den := by
  simp only [nearestOrdinal, Nat.mul_assoc, Nat.mul_div_mul_left _ _ hk, roundHalfEven_mul _ _ hk]

theorem nearestOrdinal_congr {num den num' den' : Nat} (hden : 0 < den) (hden' : 0 < den')
    (h : num * den' = num' * den) : nearestOrdinal num den = nearestOrdinal num' den' := by
  rw [← nearestOrdinal_mul num den hden', ← nearestOrdinal_mul num' den' hden, Nat.mul_comm den',
    h, Nat.mul_comm den, Nat.mul_comm den' den]

/-- Zero is rounded to zero. -/
theorem nearestOrdinal_zero {den : Nat} (hden : 0 < den) : nearestOrdinal 0 den = 0 :=
  (rounds_nearestOrdinal 0 hden).eq_of_exact hden
    (by rw [Nat.zero_mul, quantaOfOrdinal_zero, Nat.zero_mul])

/-! ## Shortest decimals -/

theorem grainsPerUnit_pos : 0 < grainsPerUnit := by
  unfold grainsPerUnit places
  -- the power is not to be computed
  generalize 1074 = e
  exact Nat.pow_pos (by decide)

/-- Quanta and grains are counted in one unit. -/
theorem quantaOfOrdinal_mul_grainsPerUnit (ordinal : Nat) :
    quantaOfOrdinal ordinal * grainsPerUnit = grains ordinal * 2 ^ 1074 := by
  unfold grains grainsPerUnit places
  -- the powers are not to be computed
  generalize 1074 = e
  simp only [Nat.pow_eq]
  rw [Nat.mul_assoc, ← Nat.mul_pow]

theorem cast_grainsPerUnit : (grainsPerUnit : ℚ) = 10 ^ places := by
  unfold grainsPerUnit
  generalize places = e
  rw [Nat.pow_eq, Nat.cast_pow, Nat.cast_ofNat]

/-- The exact decimal of a double reads back. -/
theorem nearestOrdinal_grains (ordinal : Nat) :
    nearestOrdinal (grains ordinal) grainsPerUnit = ordinal :=
  (rounds_nearestOrdinal (grains ordinal) grainsPerUnit_pos).eq_of_exact grainsPerUnit_pos
    (quantaOfOrdinal_mul_grainsPerUnit ordinal).symm

theorem readsBack_iff {ordinal decimal : Nat} : readsBack ordinal decimal = true ↔
    nearestOrdinal decimal grainsPerUnit = ordinal := by
  rw [readsBack, beq_iff_eq]

/-- A decimal of the search reads back. -/
theorem readsBack_of_onGrid? {ordinal step decimal : Nat}
    (h : onGrid? ordinal step = some decimal) : readsBack ordinal decimal = true := by
  unfold onGrid? at h
  exact List.find?_some (p := readsBack ordinal) h

/-- The shortest decimal of a double reads back. -/
theorem nearestOrdinal_shortest (ordinal : Nat) :
    nearestOrdinal (shortest ordinal) grainsPerUnit = ordinal := by
  unfold shortest
  dsimp only
  generalize (Digits.inBlocks Digits.wordWidth (grains ordinal)).length = length
  cases hfound : (List.range 17).findSome? fun digits =>
      onGrid? ordinal (Nat.pow 10 (length - (digits + 1))) with
  | none => exact nearestOrdinal_grains ordinal
  | some decimal =>
    obtain ⟨digits, -, hgrid⟩ := List.exists_of_findSome?_eq_some hfound
    exact readsBack_iff.1 (readsBack_of_onGrid? hgrid)

/-- The shortest decimal of a double that is not a zero is not zero. -/
theorem shortest_pos {ordinal : Nat} (h : ordinal ≠ 0) : 0 < shortest ordinal := by
  refine Nat.pos_of_ne_zero fun hzero => h ?_
  rw [← nearestOrdinal_shortest ordinal, hzero, nearestOrdinal_zero grainsPerUnit_pos]

/-! ## Distances -/

section
variable {lower upper q other : ℚ}

/-- Up to half way, the lower of two points is nearest among those that do not lie between them; if
another one is as near, this is half way. -/
theorem lower_nearest (hlower : lower ≤ q) (hhalf : 2 * q ≤ lower + upper)
    (hother : other ≤ lower ∨ upper ≤ other) :
    |lower - q| ≤ |other - q| ∧
      (other ≠ lower → |other - q| = |lower - q| → 2 * q = lower + upper) := by
  rw [abs_of_nonpos (sub_nonpos.2 hlower)]
  rcases hother with hbelow | habove
  · rw [abs_of_nonpos (by linarith)]
    exact ⟨by linarith, fun hne heq => absurd (by linarith) hne⟩
  · rw [abs_of_nonneg (by linarith)]
    exact ⟨by linarith, fun _ heq => by linarith⟩

/-- From half way on, the upper of two points is nearest. -/
theorem upper_nearest (hupper : q ≤ upper) (hhalf : lower + upper ≤ 2 * q)
    (hother : other ≤ lower ∨ upper ≤ other) :
    |upper - q| ≤ |other - q| ∧
      (other ≠ upper → |other - q| = |upper - q| → 2 * q = lower + upper) := by
  rw [abs_of_nonneg (sub_nonneg.2 hupper)]
  rcases hother with hbelow | habove
  · rw [abs_of_nonpos (by linarith)]
    exact ⟨by linarith, fun _ heq => by linarith⟩
  · rw [abs_of_nonneg (by linarith)]
    exact ⟨by linarith, fun hne heq => absurd (by linarith) hne⟩

end

/-- Of all ordinals the one that quanta are rounded to is nearest to them, and if another one is as
near, it is even. -/
theorem Rounds.nearest {quanta den near : Nat} (hden : 0 < den) (h : Rounds quanta den near)
    (other : Nat) :
    |(quantaOfOrdinal near : ℚ) - quanta / den| ≤ |(quantaOfOrdinal other : ℚ) - quanta / den| ∧
      (other ≠ near →
        |(quantaOfOrdinal other : ℚ) - quanta / den| = |(quantaOfOrdinal near : ℚ) - quanta / den| →
          near % 2 = 0) := by
  have hpos : (0 : ℚ) < den := Nat.cast_pos.2 hden
  have hle : ∀ k n : Nat, n * den ≤ k * quanta → (n : ℚ) ≤ k * (quanta / den) := by
    intro k n h
    rw [← mul_div_assoc, le_div_iff₀ hpos]
    exact_mod_cast h
  have hge : ∀ k n : Nat, k * quanta ≤ n * den → k * (quanta / den : ℚ) ≤ n := by
    intro k n h
    rw [← mul_div_assoc, div_le_iff₀ hpos]
    exact_mod_cast h
  have heq : ∀ k n : Nat, k * (quanta / den : ℚ) = n → k * quanta = n * den := by
    intro k n h
    rw [← mul_div_assoc, div_eq_iff hpos.ne'] at h
    exact_mod_cast h
  have hother : ∀ below, (quantaOfOrdinal other : ℚ) ≤ quantaOfOrdinal below ∨
      (quantaOfOrdinal (below + 1) : ℚ) ≤ quantaOfOrdinal other := by
    intro below
    rcases Nat.lt_or_ge below other with h | h
    · exact .inr (Nat.cast_le.2 (quantaOfOrdinal_strictMono.monotone h))
    · exact .inl (Nat.cast_le.2 (quantaOfOrdinal_strictMono.monotone h))
  have hinj : ∀ a b, a ≠ b → (quantaOfOrdinal a : ℚ) ≠ quantaOfOrdinal b := fun a b h =>
    (Nat.cast_injective.comp quantaOfOrdinal_strictMono.injective).ne h
  cases h with
  | down hlower hupper hnear =>
    have hlow := hle 1 _ ((Nat.one_mul quanta).symm ▸ hlower)
    have hhalf := hge 2 (quantaOfOrdinal near + quantaOfOrdinal (near + 1)) (by omega)
    push_cast at hlow hhalf
    rw [one_mul] at hlow
    obtain ⟨hdist, htie⟩ := lower_nearest hlow hhalf (hother near)
    refine ⟨hdist, fun hne hsame => ?_⟩
    have hmiddle := heq 2 (quantaOfOrdinal near + quantaOfOrdinal (near + 1))
      (by exact_mod_cast htie (hinj other near hne) hsame)
    omega
  | @up below hlower hupper hnear =>
    have hhigh := hge 1 _ ((Nat.one_mul quanta).symm ▸ hupper.le)
    have hhalf := hle 2 (quantaOfOrdinal below + quantaOfOrdinal (below + 1)) (by omega)
    push_cast at hhigh hhalf
    rw [one_mul] at hhigh
    obtain ⟨hdist, htie⟩ := upper_nearest hhigh hhalf (hother below)
    refine ⟨hdist, fun hne hsame => ?_⟩
    have hmiddle := heq 2 (quantaOfOrdinal below + quantaOfOrdinal (below + 1))
      (by exact_mod_cast htie (hinj other (below + 1) hne) hsame)
    omega

/-! ## Magnitudes -/

/-- The magnitude of the double with the given ordinal. -/
def magnitude (ordinal : Nat) : ℚ := quantaOfOrdinal ordinal / 2 ^ 1074

theorem magnitude_strictMono : StrictMono magnitude := fun _ _ h =>
  div_lt_div_of_pos_right (Nat.cast_lt.2 (quantaOfOrdinal_strictMono h)) (pow_pos two_pos 1074)

@[simp] theorem magnitude_zero : magnitude 0 = 0 := by
  rw [magnitude, quantaOfOrdinal_zero, Nat.cast_zero, zero_div]

theorem magnitude_nonneg (ordinal : Nat) : 0 ≤ magnitude ordinal :=
  magnitude_zero ▸ magnitude_strictMono.monotone (Nat.zero_le ordinal)

/-- The ordinal that a magnitude is rounded to. -/
def ordinalNear (q : ℚ) : Nat := nearestOrdinal q.num.natAbs q.den

/-- The numerator of a magnitude. -/
theorem natAbs_num_div_den {q : ℚ} (hq : 0 ≤ q) : (q.num.natAbs : ℚ) / q.den = q := by
  rw [Nat.cast_natAbs, abs_of_nonneg (Rat.num_nonneg.2 hq), Rat.num_div_den]

/-- A ratio is rounded as its magnitude. -/
theorem ordinalNear_div (num : Nat) {den : Nat} (hden : 0 < den) :
    ordinalNear (num / den) = nearestOrdinal num den := by
  have hratio := natAbs_num_div_den
    (div_nonneg (Nat.cast_nonneg num) (Nat.cast_nonneg den) : (0 : ℚ) ≤ num / den)
  rw [div_eq_div_iff (Nat.cast_ne_zero.2 (Rat.den_ne_zero _)) (Nat.cast_ne_zero.2 hden.ne')]
    at hratio
  exact nearestOrdinal_congr (Rat.den_pos _) hden (by exact_mod_cast hratio)

theorem ordinalNear_zero : ordinalNear 0 = 0 := nearestOrdinal_zero Nat.one_pos

/-- Of all doubles the one that a magnitude is rounded to is nearest to it, and if another one is
as near, its ordinal is even. -/
theorem ordinalNear_nearest {q : ℚ} (hq : 0 ≤ q) (other : Nat) :
    |magnitude (ordinalNear q) - q| ≤ |magnitude other - q| ∧
      (other ≠ ordinalNear q → |magnitude other - q| = |magnitude (ordinalNear q) - q| →
        ordinalNear q % 2 = 0) := by
  have hnearest := (rounds_nearestOrdinal q.num.natAbs q.den_pos).nearest q.den_pos other
  have hscale : ∀ ordinal, |magnitude ordinal - q| =
      |(quantaOfOrdinal ordinal : ℚ) - (q.num.natAbs * 2 ^ 1074 : Nat) / q.den| / 2 ^ 1074 := by
    intro ordinal
    unfold magnitude
    -- the power is not to be computed
    generalize 1074 = e
    have hpow : (0 : ℚ) < 2 ^ e := pow_pos two_pos e
    rw [← abs_of_pos hpow, ← abs_div, abs_of_pos hpow, sub_div, Nat.cast_mul, Nat.cast_pow,
      Nat.cast_ofNat, mul_div_right_comm, natAbs_num_div_den hq, mul_div_cancel_right₀ _ hpow.ne']
  have hpow : (0 : ℚ) < 2 ^ 1074 := pow_pos two_pos 1074
  rw [hscale, hscale, div_le_div_iff_of_pos_right hpow, div_left_inj' hpow.ne']
  exact hnearest

/-! ## Doubles by their ordinals -/

open Float.Model UnpackedFloat in
/-- Bits are kept, unless they are those of what is not a number. -/
theorem toBits_ofBits {bits : UInt64} (h : bits.toNat % 2 ^ 63 ≤ infinityOrdinal) :
    (Float.ofBits bits).toBits = bits := by
  have hvalid : Format.binary64.Valid bits.toBitVec := by
    refine ⟨fun hexponent hmantissa => absurd (BitVec.eq_of_toNat_eq ?_) hmantissa⟩
    have hlast : bits.toNat / 2 ^ 52 % 2 ^ 11 = 2047 := by
      simpa [unpackExponent, Nat.shiftRight_eq_div_pow] using congrArg BitVec.toNat hexponent
    have hfraction : bits.toNat % 2 ^ 52 = 0 := by
      rw [show infinityOrdinal = 2047 * 2 ^ 52 from rfl] at h
      omega
    simpa [unpackMantissa] using hfraction
  exact congrArg Float.toBits (Float.ofBits_toBits (Float.ofModel ⟨bits, hvalid⟩))

section
variable {negative : Bool} {ordinal : Nat}

theorem toNat_toBits_ofOrdinal (h : ordinal ≤ infinityOrdinal) :
    (ofOrdinal negative ordinal).toBits.toNat =
      if negative then 2 ^ 63 + ordinal else ordinal := by
  have hlast : infinityOrdinal < 2 ^ 63 := by decide
  have hlt : (if negative then 2 ^ 63 + ordinal else ordinal) < 2 ^ 64 := by
    split <;> omega
  have hbits : (UInt64.ofNat (if negative then 2 ^ 63 + ordinal else ordinal)).toNat =
      if negative then 2 ^ 63 + ordinal else ordinal := UInt64.toNat_ofNat_of_lt' hlt
  rw [ofOrdinal, Nat.pow_eq, toBits_ofBits, hbits]
  rw [hbits]
  split <;> omega

/-- The contents of a double with a given sign and ordinal. -/
theorem contents_ofOrdinal (h : ordinal ≤ infinityOrdinal) :
    contents (ofOrdinal negative ordinal) =
      if ordinal < infinityOrdinal then .finite negative ordinal else .infinite negative := by
  have hlast : infinityOrdinal < 2 ^ 63 := by decide
  have hsign : decide (2 ^ 63 ≤ if negative then 2 ^ 63 + ordinal else ordinal) = negative := by
    cases negative with
    | false => exact decide_eq_false (by simp only [Bool.false_eq_true, if_false]; omega)
    | true => exact decide_eq_true (by simp only [if_true]; omega)
  have hordinal : (if negative then 2 ^ 63 + ordinal else ordinal) % 2 ^ 63 = ordinal := by
    split <;> omega
  simp only [contents, toNat_toBits_ofOrdinal h, Nat.pow_eq, hsign, hordinal]
  split
  · rfl
  · rw [if_pos (by omega)]

/-- A double has the sign and the ordinal of its bits. -/
theorem ofOrdinal_bits (x : Float) :
    ofOrdinal (decide (2 ^ 63 ≤ x.toBits.toNat)) (x.toBits.toNat % 2 ^ 63) = x := by
  have hlt : x.toBits.toNat < 2 ^ 64 := x.toBits.toNat_lt
  have hbits : (if decide (2 ^ 63 ≤ x.toBits.toNat) then 2 ^ 63 + x.toBits.toNat % 2 ^ 63
      else x.toBits.toNat % 2 ^ 63) = x.toBits.toNat := by
    simp only [decide_eq_true_eq]
    split <;> omega
  rw [ofOrdinal, Nat.pow_eq, hbits, UInt64.ofNat_toNat, Float.ofBits_toBits]

theorem signField_ofOrdinal (h : ordinal ≤ infinityOrdinal) :
    signField (ofOrdinal negative ordinal) = if negative then .negative else .positive := by
  have hlast : infinityOrdinal < 2 ^ 63 := by decide
  rw [signField, toNat_toBits_ofOrdinal h]
  cases negative with
  | false => exact if_neg (by simp only [Bool.false_eq_true, if_false]; omega)
  | true => exact if_pos (by simp only [if_true]; omega)

/-- A fraction with a given sign. -/
def withSign (negative : Bool) (q : ℚ) : ℚ := if negative then -q else q

theorem abs_withSign (negative : Bool) (q : ℚ) : |withSign negative q| = |q| := by
  cases negative with
  | false => rfl
  | true => exact abs_neg q

theorem withSign_injective (negative : Bool) : Function.Injective (withSign negative) := by
  cases negative with
  | false => exact Function.injective_id
  | true => exact neg_injective

theorem withSign_zero (negative : Bool) : withSign negative 0 = 0 := by
  cases negative with
  | false => rfl
  | true => exact neg_zero

theorem withSign_sub (negative : Bool) (p q : ℚ) :
    withSign negative (p - q) = withSign negative p - withSign negative q := by
  cases negative with
  | false => rfl
  | true => exact neg_sub' p q

/-- The value of a finite double. -/
theorem exactValue?_ofOrdinal (h : ordinal < infinityOrdinal) :
    exactValue? (ofOrdinal negative ordinal) =
      some (.ofRat (withSign negative (magnitude ordinal))) := by
  rw [exactValue?_eq, Number.point?, contents_ofOrdinal h.le, if_pos h]
  cases negative with
  | false => rfl
  | true =>
    refine congrArg (fun q => some (ExactValue.ofRat q)) ?_
    rw [Int.cast_neg, Int.cast_natCast, neg_div]
    rfl

/-- The value of an infinite double. -/
theorem exactValue?_infinite :
    exactValue? (ofOrdinal negative infinityOrdinal) = some (if negative then ⊥ else ⊤) := by
  rw [exactValue?_eq, Number.point?, contents_ofOrdinal le_rfl, if_neg (lt_irrefl _)]
  cases negative <;> rfl

/-- The value of an infinite double is not a fraction. -/
theorem exactValue?_infinite_ne (v : ℚ) :
    exactValue? (ofOrdinal negative infinityOrdinal) ≠ some (.ofRat v) := by
  rw [exactValue?_infinite]
  cases negative with
  | false => exact fun h => (ExactValue.ofRat_lt_top v).ne' (Option.some.inj h)
  | true => exact fun h => (ExactValue.bot_lt_ofRat v).ne (Option.some.inj h)

end

/-- A double is the one with its sign and its ordinal, if it is a number. -/
theorem exists_of_exactValue? {x : Float} (h : exactValue? x ≠ none) :
    ∃ negative ordinal, ordinal ≤ infinityOrdinal ∧ x = ofOrdinal negative ordinal := by
  refine ⟨_, _, Nat.le_of_not_lt fun hlt => h ?_, (ofOrdinal_bits x).symm⟩
  rw [exactValue?_eq, Number.point?, contents, Nat.pow_eq, if_neg (Nat.lt_asymm hlt),
    if_neg (Nat.ne_of_gt hlt)]
  rfl

theorem exists_of_exactValue?_eq_ofRat {x : Float} {v : ℚ} (h : exactValue? x = some (.ofRat v)) :
    ∃ negative ordinal, ordinal < infinityOrdinal ∧ x = ofOrdinal negative ordinal ∧
      v = withSign negative (magnitude ordinal) := by
  obtain ⟨negative, ordinal, hle, rfl⟩ := exists_of_exactValue? (h ▸ Option.some_ne_none _)
  rcases Nat.lt_or_eq_of_le hle with hlt | rfl
  · rw [exactValue?_ofOrdinal hlt] at h
    exact ⟨negative, ordinal, hlt, rfl,
      (ExactValue.ofRat_strictMono.injective (Option.some.inj h)).symm⟩
  · exact absurd h (exactValue?_infinite_ne v)

/-- A double is known by its value and its sign. -/
theorem eq_of_exactValue?_eq {x y : Float} (hx : exactValue? x ≠ none)
    (hvalue : exactValue? x = exactValue? y) (hsign : signField x = signField y) : x = y := by
  obtain ⟨negative, ordinal, hle, rfl⟩ := exists_of_exactValue? hx
  obtain ⟨negative', ordinal', hle', rfl⟩ := exists_of_exactValue? (hvalue ▸ hx)
  rw [signField_ofOrdinal hle, signField_ofOrdinal hle'] at hsign
  obtain rfl : negative = negative' := by
    cases negative <;> cases negative' <;> first | rfl | cases hsign
  congr 1
  rcases Nat.lt_or_eq_of_le hle with hlt | rfl
  · rw [exactValue?_ofOrdinal hlt] at hvalue
    rcases Nat.lt_or_eq_of_le hle' with hlt' | rfl
    · rw [exactValue?_ofOrdinal hlt'] at hvalue
      have hrat := ExactValue.ofRat_strictMono.injective (Option.some.inj hvalue)
      exact magnitude_strictMono.injective (withSign_injective negative hrat)
    · exact absurd hvalue.symm (exactValue?_infinite_ne _)
  · rcases Nat.lt_or_eq_of_le hle' with hlt' | rfl
    · rw [exactValue?_ofOrdinal hlt'] at hvalue
      exact absurd hvalue (exactValue?_infinite_ne _)
    · rfl

/-! ## The nearest double -/

/-- The double with the given sign that is nearest to a magnitude: infinity, if the magnitude is out
of range. -/
def nearest (negative : Bool) (q : ℚ) : Float :=
  ofOrdinal negative (min (ordinalNear q) infinityOrdinal)

/-- A magnitude for which the nearest double is finite is rounded to its ordinal. -/
theorem ordinalNear_of_contents_nearest {negative negative' : Bool} {q : ℚ} {ordinal : Nat}
    (h : contents (nearest negative q) = .finite negative' ordinal) : ordinalNear q = ordinal := by
  rw [nearest, contents_ofOrdinal (Nat.min_le_right _ _)] at h
  split at h
  · next hlt =>
    cases h
    omega
  · cases h

/-- No double is nearer to a fraction, and if one with another value is as near, the last bit is
even. -/
def IsNearest (q : ℚ) (x : Float) : Prop :=
  ∃ v, exactValue? x = some (.ofRat v) ∧
    ∀ y w, exactValue? y = some (.ofRat w) →
      |v - q| ≤ |w - q| ∧ (w ≠ v → |w - q| = |v - q| → x.toBits.toNat % 2 = 0)

/-- Magnitudes are out of range from half a step above the largest finite double on. -/
theorem infinityOrdinal_le_ordinalNear_iff {q : ℚ} (hq : 0 ≤ q) :
    infinityOrdinal ≤ ordinalNear q ↔ 2 ^ 1024 - 2 ^ 970 ≤ q := by
  have hden : (0 : ℚ) < q.den := Nat.cast_pos.2 q.den_pos
  have hexponents : 970 ≤ 1024 := by decide
  rw [ordinalNear, infinityOrdinal_le_nearestOrdinal_iff _ q.den_pos]
  -- the powers are not to be computed
  generalize 970 = e at *
  generalize 1024 = e' at *
  have hle : 2 ^ e ≤ 2 ^ e' := Nat.pow_le_pow_right two_pos hexponents
  rw [← Nat.cast_le (α := ℚ), Nat.cast_mul, ← le_div_iff₀ hden, natAbs_num_div_den hq,
    Nat.cast_sub hle, Nat.cast_pow, Nat.cast_pow, Nat.cast_ofNat]

/-- A double with the other sign is as far as both magnitudes together. -/
theorem abs_withSign_sub_of_ne {negative negative' : Bool} (hne : negative' ≠ negative) {p q : ℚ}
    (hp : 0 ≤ p) (hq : 0 ≤ q) : |withSign negative' p - withSign negative q| = p + q := by
  cases negative <;> cases negative' <;> simp only [ne_eq, not_true_eq_false] at hne
  · exact (abs_of_nonpos (a := -p - q) (by linarith)).trans (by ring)
  · exact (abs_of_nonneg (a := p - -q) (by linarith)).trans (by ring)

/-- A magnitude in range is rounded to the nearest double, with either sign. -/
theorem isNearest_nearest (negative : Bool) {q : ℚ} (hq : 0 ≤ q)
    (hrange : q < 2 ^ 1024 - 2 ^ 970) :
    IsNearest (withSign negative q) (nearest negative q) := by
  have hlt : ordinalNear q < infinityOrdinal :=
    Nat.lt_of_not_le fun h => hrange.not_ge ((infinityOrdinal_le_ordinalNear_iff hq).1 h)
  rw [nearest, Nat.min_eq_left hlt.le]
  refine ⟨_, exactValue?_ofOrdinal hlt, fun y w hy => ?_⟩
  obtain ⟨negative', other, -, -, rfl⟩ := exists_of_exactValue?_eq_ofRat hy
  obtain ⟨hdist, htie⟩ := ordinalNear_nearest hq other
  have hpositive := magnitude_nonneg other
  have hle : |magnitude other - q| ≤
      |withSign negative' (magnitude other) - withSign negative q| := by
    simpa only [abs_withSign, abs_of_nonneg, hpositive, hq] using
      abs_abs_sub_abs_le (withSign negative' (magnitude other)) (withSign negative q)
  rw [← withSign_sub, abs_withSign]
  refine ⟨hdist.trans hle, fun hne hsame => ?_⟩
  rw [toNat_toBits_ofOrdinal hlt.le]
  have heven : ordinalNear q % 2 = 0 := by
    by_cases hother : other = ordinalNear q
    · -- the same magnitude with the other sign is farther away than zero
      subst hother
      have hsign : negative' ≠ negative := fun h => hne (congrArg (withSign · _) h)
      have hzero := (ordinalNear_nearest hq 0).1
      rw [abs_withSign_sub_of_ne hsign hpositive hq] at hsame
      rw [← hsame, magnitude_zero, zero_sub, abs_neg, abs_of_nonneg hq] at hzero
      have hnone : magnitude (ordinalNear q) = 0 := by linarith
      exact absurd (by rw [hnone, withSign_zero, withSign_zero]) hne
    · exact htie hother (hle.trans_eq hsame |>.antisymm hdist)
  split <;> omega

/-- A magnitude out of range is rounded to infinity. -/
theorem nearest_of_le (negative : Bool) {q : ℚ} (hrange : 2 ^ 1024 - 2 ^ 970 ≤ q) :
    exactValue? (nearest negative q) = some (if negative then ⊥ else ⊤) := by
  have hpow : (0 : ℚ) ≤ 2 ^ 1024 - 2 ^ 970 :=
    sub_nonneg.2 (pow_le_pow_right₀ one_le_two (by decide))
  rw [nearest, Nat.min_eq_right ((infinityOrdinal_le_ordinalNear_iff (hpow.trans hrange)).2 hrange),
    exactValue?_infinite]

end Double
end Lox
