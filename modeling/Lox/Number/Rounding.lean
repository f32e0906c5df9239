/-!
# Rounding to the nearest double

The non-negative doubles are the magnitudes that 53 binary digits can write as whole multiples
of the *quantum* `2 ^ (-1074)`, the least positive double.  Counted upwards from zero they have
*ordinals*: zero has ordinal 0, the quantum has ordinal 1, and infinity comes right after the
largest finite double.  The ordinal of a double is also its bit pattern without the sign.
-/

namespace Lox

/-- The integer nearest to `num / den`; a half goes to the even neighbour. -/
def roundHalfEven (num den : Nat) : Nat :=
  let below := num / den
  let rest := num % den
  if 2 * rest < den then below
  else if den < 2 * rest then below + 1
  else if below % 2 = 0 then below
  else below + 1

namespace Double

/-- The number of ordinals that share one exponent. -/
def binade : Nat := Nat.pow 2 52

/-- The number of quanta in one. -/
def quantaPerUnit : Nat := Nat.pow 2 1074

/-- The ordinal of infinity, one more than that of the largest finite double. -/
def infinityOrdinal : Nat := 2047 * binade

/-- The magnitude of the double with the given ordinal, counted in quanta.  Below the first
binade boundary the quanta are counted one by one; every further binade doubles the step. -/
def quantaOfOrdinal (ordinal : Nat) : Nat :=
  let exponent := ordinal / binade
  let fraction := ordinal % binade
  if exponent = 0 then fraction else (binade + fraction) * Nat.pow 2 (exponent - 1)

/-- The ordinal of the double nearest to `num / den`, a half going to the even ordinal.  The
magnitude is cut to 53 binary digits, or to whole quanta where those are coarser; a result of
`infinityOrdinal` or more means that the magnitude lies outside the range of finite doubles. -/
def nearestOrdinal (num den : Nat) : Nat :=
  let quanta := num * quantaPerUnit
  let shift := Nat.log2 (quanta / den) - 52
  shift * binade + roundHalfEven quanta (den * Nat.pow 2 shift)

end Double

/-- A ratio that is an integer rounds to that integer. -/
@[simp] theorem roundHalfEven_one (n : Nat) : roundHalfEven n 1 = n := by
  simp [roundHalfEven, Nat.mod_one]

end Lox
