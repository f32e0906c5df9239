import Lox.Number.Basic
import Lox.Number.Digits
import Lox.Number.Shortest

/-!
# Numerals

The text of a number.  An integer is written in plain decimal notation.  A double is written with
the digits of its shortest decimal and always shows that it is a double: by a decimal point, by an
exponent, or by being a word.
-/

namespace Lox
namespace Numeral

/-! ## Integers -/

/-- The decimal numeral of a natural number. -/
def ofNat (n : Nat) : List Char := Digits.inBlocks Digits.blockWidth n

/-- The decimal numeral of an integer: a minus sign in front of a negative one. -/
def ofInt (n : Int) : List Char :=
  if n < 0 then '-' :: ofNat n.natAbs else ofNat n.natAbs

/-! ## Doubles -/

/-- A decimal without its trailing zeros. -/
def stripZeros (ds : List Char) : List Char := (ds.reverse.dropWhile (· == '0')).reverse

/-- Positional notation of significant digits of which the first has the given decimal exponent.
There is a digit on either side of the point. -/
def positional (ds : List Char) : Int → List Char
  | .ofNat exponent =>
    let whole := ds.take (exponent + 1)
    let fraction := ds.drop (exponent + 1)
    whole ++ List.replicate (exponent + 1 - ds.length) '0' ++ '.' ::
      (if fraction.isEmpty then ['0'] else fraction)
  | .negSucc zeros => '0' :: '.' :: (List.replicate zeros '0' ++ ds)

/-- Scientific notation: one digit, a point if more digits follow, and an exponent with its sign
and at least two digits. -/
def scientific (ds : List Char) (exponent : Int) : List Char :=
  let mantissa := match ds with
    | first :: rest => if rest.isEmpty then [first] else first :: '.' :: rest
    | [] => []
  mantissa ++ 'e' :: (if exponent < 0 then '-' else '+') :: Digits.padded 2 exponent.natAbs

/-- Digits are written positionally when the first has a decimal exponent from -4 to 15. -/
def isPositional (exponent : Int) : Bool := decide (-4 ≤ exponent ∧ exponent < 16)

/-- The numeral of a finite magnitude. -/
def ofMagnitude (ordinal : Nat) : List Char :=
  if ordinal = 0 then ['0', '.', '0']
  else
    let ds := Digits.inBlocks Digits.wordWidth (Double.shortest ordinal)
    let exponent := (ds.length : Int) - 1 - Double.places
    let significant := stripZeros ds
    if isPositional exponent then positional significant exponent
    else scientific significant exponent

/-- The sign in front of a numeral. -/
def signed (negative : Bool) (ds : List Char) : List Char := if negative then '-' :: ds else ds

/-- The numeral of a double. -/
def ofFloat (x : Float) : List Char :=
  match Double.contents x with
  | .nan => ['n', 'a', 'n']
  | .infinite negative => signed negative ['i', 'n', 'f']
  | .finite negative ordinal => signed negative (ofMagnitude ordinal)

end Numeral

/-- The numeral of a number. -/
def Number.numeral : Number → List Char
  | .int n => Numeral.ofInt n
  | .float x => Numeral.ofFloat x

/-- The text of a number. -/
def Number.text (n : Number) : String := String.ofList n.numeral

end Lox
