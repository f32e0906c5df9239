import Lox.Number.Double

/-!
# Numbers

A number is an integer of any size or a double.  Arithmetic on two integers stays with the
integers and is exact; as soon as one operand is a double, the other is converted to the nearest
double, and the operation is *out of range* when no finite double is near.
-/

namespace Lox

/-- A number is an integer of any size or a double. -/
inductive Number
  | int (n : Int)
  | float (x : Float)
  deriving DecidableEq

namespace Number

/-! ## Arithmetic -/

/-- The double nearest to a number; none when an integer is too large for one. -/
def toDouble? : Number → Option Float
  | int n => Double.ofInt? n
  | float x => some x

@[simp] theorem toDouble?_int (n : Int) : (int n).toDouble? = Double.ofInt? n := rfl
@[simp] theorem toDouble?_float (x : Float) : (float x).toDouble? = some x := rfl

/-- Combine two integers with one operation, and any other pair as doubles with another; none
when an operand has no double near it. -/
def combine (ints : Int → Int → Int) (floats : Float → Float → Float) :
    Number → Number → Option Number
  | int a, int b => some (int (ints a b))
  | a, b => do
    let x ← a.toDouble?
    let y ← b.toDouble?
    return float (floats x y)

@[simp] theorem combine_int_int (ints : Int → Int → Int) (floats : Float → Float → Float)
    (a b : Int) : combine ints floats (int a) (int b) = some (int (ints a b)) := rfl

/-- The sum. -/
def add : Number → Number → Option Number := combine (· + ·) (· + ·)

/-- The difference. -/
def sub : Number → Number → Option Number := combine (· - ·) (· - ·)

/-- The product. -/
def mul : Number → Number → Option Number := combine (· * ·) (· * ·)

/-- The quotient; of two integers the floor of their ratio.  The zero divisor is excluded by
those who divide. -/
def div : Number → Number → Option Number := combine Int.fdiv (· / ·)

/-- The number with the opposite sign. -/
def neg : Number → Number
  | int n => int (-n)
  | float x => float (-x)

/-- The integer zero and the two zeros among the doubles. -/
def isZero : Number → Bool
  | int n => n == 0
  | float x => Double.isZero x

/-! ## Order -/

/-- A point of the line of numbers: a whole number of quanta, or one of its two ends. -/
inductive Point
  /-- Below every finite point. -/
  | bottom
  /-- A whole number of quanta. -/
  | quanta (q : Int)
  /-- Above every finite point. -/
  | top
  deriving DecidableEq

/-- The order of two points. -/
def Point.compare : Point → Point → Ordering
  | bottom, bottom => .eq
  | bottom, _ => .lt
  | _, bottom => .gt
  | top, top => .eq
  | top, _ => .gt
  | _, top => .lt
  | quanta a, quanta b => Ord.compare a b

/-- Where a number lies, exactly; none for a double that is not a number.  Both zeros lie at the
same point. -/
def point? : Number → Option Point
  | int n => some (.quanta (n * Double.quantaPerUnit))
  | float x =>
    match Double.contents x with
    | .nan => none
    | .infinite true => some .bottom
    | .infinite false => some .top
    | .finite true ordinal => some (.quanta (-(Double.quantaOfOrdinal ordinal : Int)))
    | .finite false ordinal => some (.quanta (Double.quantaOfOrdinal ordinal))

/-- The exact order of two numbers, never through a conversion; none when either is not a
number.  Two integers are compared as they are. -/
def compare? : Number → Number → Option Ordering
  | int a, int b => some (Ord.compare a b)
  | a, b => do return (← a.point?).compare (← b.point?)

/-- Whether two numbers are equal; what is not a number equals nothing. -/
def equals (a b : Number) : Bool := compare? a b == some .eq

/-- Whether the first number is less. -/
def less (a b : Number) : Bool := compare? a b == some .lt

/-- Whether the first number is less or equal. -/
def lessEqual (a b : Number) : Bool := (compare? a b).any Ordering.isLE

/-- Whether the first number is greater. -/
def greater (a b : Number) : Bool := compare? a b == some .gt

/-- Whether the first number is greater or equal. -/
def greaterEqual (a b : Number) : Bool := (compare? a b).any Ordering.isGE

end Number
end Lox
