import Lox.Proofs.Doubles
import Mathlib

/-!
# Exact values of numbers

An integer is its value, and a double that is a number is a fraction or one of two infinities.  The
points of the line of numbers, by which numbers are compared, stand for these values, in their
order.
-/

namespace Lox

/-- A fraction, or one of two infinities, in their order. -/
abbrev ExactValue : Type := WithBot (WithTop ℚ)

namespace ExactValue

/-- A fraction. -/
def ofRat (q : ℚ) : ExactValue := ((q : WithTop ℚ) : WithBot (WithTop ℚ))

theorem ofRat_strictMono : StrictMono ofRat := fun _ _ h =>
  WithBot.coe_lt_coe.2 (WithTop.coe_lt_coe.2 h)

theorem bot_lt_ofRat (q : ℚ) : ⊥ < ofRat q := WithBot.bot_lt_coe _

theorem ofRat_lt_top (q : ℚ) : ofRat q < ⊤ := WithBot.coe_lt_coe.2 (WithTop.coe_lt_top q)

theorem bot_lt_top : (⊥ : ExactValue) < ⊤ := WithBot.bot_lt_coe _

end ExactValue

namespace Double
open Float.Model UnpackedFloat

/-! ## The value of a double -/

/-- The value of the sign, mantissa and exponent that a double consists of; none of what is not a
number. -/
def exactOfUnpacked? : UnpackedFloat → Option ExactValue
  | .notANumber => none
  | .infinity .negative => some ⊥
  | .infinity .positive => some ⊤
  | .zero _ => some (.ofRat 0)
  | .finite sign mantissa exponent _ => some (.ofRat (sign.apply mantissa * 2 ^ exponent))

/-- The value of a double. -/
def exactValue? (x : Float) : Option ExactValue := exactOfUnpacked? x.toModel.unpack

theorem exactValue?_eq_none_iff {x : Float} : exactValue? x = none ↔ x.isNaN = true := by
  unfold exactValue? Float.isNaN Float.Model.isNaN
  cases x.toModel.unpack with
  | notANumber => simp [exactOfUnpacked?, UnpackedFloat.isNaN]
  | infinity sign => cases sign <;> simp [exactOfUnpacked?, UnpackedFloat.isNaN]
  | zero sign => simp [exactOfUnpacked?, UnpackedFloat.isNaN]
  | finite sign mantissa exponent h => simp [exactOfUnpacked?, UnpackedFloat.isNaN]

/-! ## The fields of a double -/

section
variable (x : Float)

/-- The first of the bits. -/
def signField : Sign := if 2 ^ 63 ≤ x.toBits.toNat then .negative else .positive

/-- The eleven bits after the sign. -/
def exponentField : Nat := x.toBits.toNat / 2 ^ 52 % 2 ^ 11

/-- The last 52 bits. -/
def fractionField : Nat := x.toBits.toNat % 2 ^ 52

/-- The bits, as the model of doubles has them. -/
def packed : BitVec Format.binary64.numBits := x.toModel.toBits.toBitVec

theorem toNat_packed : (packed x).toNat = x.toBits.toNat := rfl

theorem ofBitVec_unpackSign : Sign.ofBitVec (unpackSign (packed x)) = signField x := by
  have hlt : x.toBits.toNat < 2 ^ 64 := x.toBits.toNat_lt
  have hnat : (unpackSign (packed x)).toNat = x.toBits.toNat / 2 ^ 63 % 2 := by
    simp [unpackSign, Nat.shiftRight_eq_div_pow, toNat_packed]
  have hsign : unpackSign (packed x) = 0#1 ↔ ¬ 2 ^ 63 ≤ x.toBits.toNat := by
    rw [← BitVec.toNat_inj, hnat, BitVec.toNat_ofNat]
    omega
  by_cases hneg : 2 ^ 63 ≤ x.toBits.toNat
  · rw [signField, if_pos hneg, Sign.ofBitVec, if_neg (fun h => hsign.1 h hneg)]
  · rw [signField, if_neg hneg, Sign.ofBitVec, if_pos (hsign.2 hneg)]

theorem toNat_unpackExponent : (unpackExponent (packed x)).toNat = exponentField x := by
  simp [unpackExponent, Nat.shiftRight_eq_div_pow, exponentField, toNat_packed]

theorem toNat_unpackMantissa : (unpackMantissa (packed x)).toNat = fractionField x := by
  simp [unpackMantissa, fractionField, toNat_packed]

end

/-- The magnitude of a finite double in quanta: a fraction of the first binade as it is, and one of
the other binades after a leading digit, doubled from binade to binade. -/
def quantaOfFields (exponent fraction : Nat) : Nat :=
  if exponent = 0 then fraction else (2 ^ 52 + fraction) * 2 ^ (exponent - 1)

theorem quantaOfOrdinal_eq {exponent fraction : Nat} (h : fraction < 2 ^ 52) :
    quantaOfOrdinal (exponent * 2 ^ 52 + fraction) = quantaOfFields exponent fraction := by
  have hbinade : binade = 2 ^ 52 := rfl
  have hdiv : (exponent * 2 ^ 52 + fraction) / 2 ^ 52 = exponent := by omega
  have hmod : (exponent * 2 ^ 52 + fraction) % 2 ^ 52 = fraction := by omega
  simp only [quantaOfOrdinal, quantaOfFields, hbinade, hdiv, hmod, Nat.pow_eq]

/-- The point of a double by its fields: the last exponent is that of infinity and of what is not a
number. -/
def pointOfFields? (sign : Sign) (exponent fraction : Nat) : Option Number.Point :=
  if exponent = 2047 then
    if fraction = 0 then
      match sign with
      | .negative => some .bottom
      | .positive => some .top
    else none
  else some (.quanta (sign.apply (quantaOfFields exponent fraction)))

theorem point?_float (x : Float) : (Number.float x).point? =
    pointOfFields? (signField x) (exponentField x) (fractionField x) := by
  have hlt : x.toBits.toNat < 2 ^ 64 := x.toBits.toNat_lt
  have hinfinity : infinityOrdinal = 2047 * 2 ^ 52 := rfl
  have hordinal : x.toBits.toNat % 2 ^ 63 = exponentField x * 2 ^ 52 + fractionField x := by
    unfold exponentField fractionField
    omega
  have hfraction : fractionField x < 2 ^ 52 := Nat.mod_lt _ (by decide)
  have hexponent : exponentField x < 2 ^ 11 := Nat.mod_lt _ (by decide)
  simp only [Number.point?, contents, Nat.pow_eq, hordinal, hinfinity, pointOfFields?]
  unfold signField
  by_cases hlast : exponentField x = 2047
  · rw [if_pos hlast, if_neg (by omega)]
    by_cases hnone : fractionField x = 0
    · rw [if_pos hnone, if_pos (by omega)]
      by_cases hneg : 2 ^ 63 ≤ x.toBits.toNat <;>
        simp only [hneg, decide_true, decide_false, if_true, if_false]
    · rw [if_neg hnone, if_neg (by omega)]
  · rw [if_neg hlast, if_pos (by omega), ← quantaOfOrdinal_eq hfraction]
    by_cases hneg : 2 ^ 63 ≤ x.toBits.toNat <;>
      simp only [hneg, decide_true, decide_false, if_true, if_false, Sign.apply]

end Double

/-! ## Points -/

/-- The value that a point stands for. -/
def Number.Point.value : Point → ExactValue
  | bottom => ⊥
  | quanta q => .ofRat (q / 2 ^ 1074)
  | top => ⊤

namespace Number.Point
open ExactValue

theorem value_quanta_strictMono : StrictMono fun q : Int => (quanta q).value := fun _ _ h =>
  ofRat_strictMono (div_lt_div_of_pos_right (Int.cast_lt.2 h) (pow_pos two_pos 1074))

/-- Points stand in the order of their values. -/
theorem compare_eq_cmp (p q : Point) : p.compare q = cmp p.value q.value := by
  cases p with
  | bottom =>
    cases q with
    | bottom => exact (cmp_self_eq_eq _).symm
    | quanta b => exact ((cmp_eq_lt_iff _ _).2 (bot_lt_ofRat _)).symm
    | top => exact ((cmp_eq_lt_iff _ _).2 bot_lt_top).symm
  | quanta a =>
    cases q with
    | bottom => exact ((cmp_eq_gt_iff _ _).2 (bot_lt_ofRat _)).symm
    | quanta b =>
      exact (cmp_eq_compare a b).symm.trans (value_quanta_strictMono.cmp_map_eq a b).symm
    | top => exact ((cmp_eq_lt_iff _ _).2 (ofRat_lt_top _)).symm
  | top =>
    cases q with
    | bottom => exact ((cmp_eq_gt_iff _ _).2 bot_lt_top).symm
    | quanta b => exact ((cmp_eq_gt_iff _ _).2 (ofRat_lt_top _)).symm
    | top => exact (cmp_self_eq_eq _).symm

end Number.Point

namespace Double
open Float.Model UnpackedFloat

/-- A mantissa with an exponent stands for whole quanta. -/
theorem exactOfUnpacked?_finite (sign : Sign) {mantissa : Nat} (hpos : 0 < mantissa)
    {exponent : Int} {e : Nat} (h : exponent = e - (1074 : Nat)) :
    exactOfUnpacked? (.finite sign mantissa exponent hpos) =
      some (Number.Point.quanta (sign.apply (mantissa * 2 ^ e : Nat))).value := by
  have hvalue : (sign.apply mantissa : ℚ) * 2 ^ exponent =
      (sign.apply (mantissa * 2 ^ e : Nat) : ℚ) / 2 ^ 1074 := by
    -- the power is not to be computed
    generalize 1074 = p at *
    rw [h, zpow_sub₀ two_ne_zero, zpow_natCast, zpow_natCast]
    cases sign with
    | negative | positive =>
      simp only [Sign.apply]
      push_cast
      ring
  exact congrArg (fun q => some (ExactValue.ofRat q)) hvalue

/-- The point of a double stands for its value. -/
theorem exactValue?_eq (x : Float) :
    exactValue? x = (Number.float x).point?.map Number.Point.value := by
  have hlast : unpackExponent (packed x) = -1#_ ↔ exponentField x = 2047 := by
    rw [← BitVec.toNat_inj, toNat_unpackExponent]
    simp
  have hfirst : unpackExponent (packed x) = 0#_ ↔ exponentField x = 0 := by
    rw [← BitVec.toNat_inj, toNat_unpackExponent]
    simp
  have hfraction : unpackMantissa (packed x) = 0#_ ↔ fractionField x = 0 := by
    rw [← BitVec.toNat_inj, toNat_unpackMantissa]
    simp
  have hbias : (Format.binary64.exponentBias : Int) = 1023 := rfl
  rw [point?_float]
  change exactOfUnpacked? (UnpackedFloat.unpack Format.binary64 (packed x)) = _
  unfold UnpackedFloat.unpack pointOfFields? quantaOfFields
  simp only [ofBitVec_unpackSign, toNat_unpackExponent, hbias]
  by_cases hlastField : exponentField x = 2047
  · rw [if_pos (hlast.2 hlastField), if_pos hlastField]
    by_cases hnone : fractionField x = 0
    · rw [if_pos (hfraction.2 hnone), if_pos hnone]
      cases signField x <;> rfl
    · rw [if_neg (mt hfraction.1 hnone), if_neg hnone]
      rfl
  · rw [if_neg (mt hlast.1 hlastField), if_neg hlastField]
    by_cases hfirstField : exponentField x = 0
    · rw [if_pos (hfirst.2 hfirstField), if_pos hfirstField]
      by_cases hnone : fractionField x = 0
      · rw [dif_pos (hfraction.2 hnone), hnone]
        cases signField x <;> simp [exactOfUnpacked?, Number.Point.value, Sign.apply]
      · rw [dif_neg (mt hfraction.1 hnone), exactOfUnpacked?_finite (e := 0) _ _ (by omega),
          toNat_unpackMantissa, pow_zero, mul_one]
        rfl
    · rw [if_neg (mt hfirst.1 hfirstField), if_neg hfirstField]
      have hmantissa : (1#1 ++ unpackMantissa (packed x)).toNat = 2 ^ 52 + fractionField x := by
        rw [BitVec.toNat_append,
          ← Nat.shiftLeft_add_eq_or_of_lt (unpackMantissa (packed x)).isLt, toNat_unpackMantissa]
        rfl
      rw [exactOfUnpacked?_finite (e := exponentField x - 1) _ _ (by omega), hmantissa]
      rfl

end Double

namespace Number

/-! ## Numbers -/

/-- The value of a number, if it has one. -/
def exactValue? : Number → Option ExactValue
  | int n => some (.ofRat n)
  | float x => Double.exactValue? x

theorem Point.value_int (n : Int) : (Point.quanta (n * Double.quantaPerUnit)).value = .ofRat n := by
  rw [value, Double.quantaPerUnit_eq]
  -- the power is not to be computed
  generalize 1074 = e
  push_cast
  rw [mul_div_cancel_right₀ _ (pow_pos two_pos e).ne']

/-- The point of a number stands for its value. -/
theorem exactValue?_eq (n : Number) : n.exactValue? = n.point?.map Point.value := by
  cases n with
  | int n => rw [point?, Option.map_some, Point.value_int, exactValue?]
  | float x => exact Double.exactValue?_eq x

/-- Numbers are compared by their values. -/
theorem compare?_eq (a b : Number) :
    compare? a b = do return cmp (← a.exactValue?) (← b.exactValue?) := by
  have hpoints : (do return (← a.point?).compare (← b.point?)) =
      (do return cmp (← a.exactValue?) (← b.exactValue?) : Option Ordering) := by
    rw [exactValue?_eq, exactValue?_eq]
    cases a.point? with
    | none => rfl
    | some p =>
      cases b.point? with
      | none => rfl
      | some q => exact congrArg some (Point.compare_eq_cmp p q)
  cases a with
  | float x => exact hpoints
  | int m =>
    cases b with
    | float y => exact hpoints
    | int n =>
      have hmono : StrictMono fun n : Int => ExactValue.ofRat n :=
        ExactValue.ofRat_strictMono.comp Int.cast_strictMono
      exact congrArg some ((cmp_eq_compare m n).symm.trans (hmono.cmp_map_eq m n).symm)

end Number
end Lox
