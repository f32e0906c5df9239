import Lox.Number.Rounding

/-!
# The contents of a double

A double is not a number, an infinity, or a whole number of quanta with a sign.  Everything this
library needs to know of a double beyond its arithmetic is read off that decomposition: exact
comparison with integers of any size, conversion of an integer, and its decimal text.
-/

namespace Lox
namespace Double

/-- What a double stands for. -/
inductive Contents
  /-- Not a number; its sign and payload mean nothing. -/
  | nan
  /-- An infinity, with whether it is the negative one. -/
  | infinite (negative : Bool)
  /-- A finite value, with whether its sign bit is set and the ordinal of its magnitude. -/
  | finite (negative : Bool) (ordinal : Nat)
  deriving DecidableEq

/-- Read the contents of a double off its bits. -/
def contents (x : Float) : Contents :=
  let bits := x.toBits.toNat
  let negative := decide (Nat.pow 2 63 ≤ bits)
  let ordinal := bits % Nat.pow 2 63
  if ordinal < infinityOrdinal then .finite negative ordinal
  else if ordinal = infinityOrdinal then .infinite negative
  else .nan

/-- The two zeros, whatever their sign. -/
def isZero (x : Float) : Bool :=
  match contents x with
  | .finite _ 0 => true
  | _ => false

/-- The double with the given sign and ordinal. -/
def ofOrdinal (negative : Bool) (ordinal : Nat) : Float :=
  Float.ofBits (UInt64.ofNat (if negative then Nat.pow 2 63 + ordinal else ordinal))

/-- The double nearest to an integer, a half going to the even neighbour; none when the integer
is so large that the nearest is an infinity. -/
def ofInt? (n : Int) : Option Float :=
  let ordinal := nearestOrdinal n.natAbs 1
  if ordinal < infinityOrdinal then some (ofOrdinal (decide (n < 0)) ordinal) else none

end Double
end Lox
