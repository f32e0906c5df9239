import Lox.Number.Digits
import Lox.Number.Double

/-!
# The shortest decimal of a double

A finite double is a whole number of quanta, and a quantum is `5 ^ 1074` times `10 ^ (-1074)`:
every finite double has an exact decimal with at most 1074 places.  Decimals are counted here in
that smallest place, the *grain*, so that a decimal with few digits is a number of grains divisible
by a high power of ten.

The shortest decimal of a double is the one with the fewest significant digits among those that
round back to the double; of several with that many digits, the one nearest to the double; of two
equally near, the one whose last digit is even.
-/

namespace Lox
namespace Double

/-- The number of decimal places that every finite double can be written with. -/
def places : Nat := 1074

/-- The number of grains in one. -/
def grainsPerUnit : Nat := Nat.pow 10 places

/-- The magnitude of the double with the given ordinal, counted in grains. -/
def grains (ordinal : Nat) : Nat := quantaOfOrdinal ordinal * Nat.pow 5 places

/-- Whether a decimal, counted in grains, rounds to the double with the given ordinal. -/
def readsBack (ordinal decimal : Nat) : Bool :=
  nearestOrdinal decimal grainsPerUnit == ordinal

/-- The better of the two multiples of `step` around the exact decimal, if one of them reads
back: the nearer, of two equally near the even one, and the other one only if that fails. -/
def onGrid? (ordinal step : Nat) : Option Nat :=
  let exact := grains ordinal
  let below := exact / step * step
  [roundHalfEven exact step * step, below, below + step].find? (readsBack ordinal)

/-- The shortest decimal, in grains, of the double with the given ordinal: one digit is tried
first, then two, up to the seventeen that always suffice.  The exact decimal stands at the end of
the search, so the result reads back without any appeal to that bound. -/
def shortest (ordinal : Nat) : Nat :=
  let exact := grains ordinal
  let length := (Digits.inBlocks Digits.wordWidth exact).length
  ((List.range 17).findSome? fun digits =>
    onGrid? ordinal (Nat.pow 10 (length - (digits + 1)))).getD exact

end Double
end Lox
