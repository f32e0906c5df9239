/-!
# Decimal digits

The decimal digits of natural numbers.  The digits of a large number are taken a block at a time,
so that single digits are split off a number of the size of a block and not off the whole.  The
blocks can have any width; the digits are the same.

Powers are written as `Nat.pow` here and in what follows: which instance `^` stands for would
depend on what else is imported.
-/

namespace Lox
namespace Digits

/-- The decimal digits of a number, without leading zeros; zero has one digit. -/
def ofNat (n : Nat) : List Char := Nat.toDigits 10 n

/-- The decimal digits of a number, filled up with zeros on the left to the given width. -/
def padded (width n : Nat) : List Char :=
  let ds := ofNat n
  List.replicate (width - ds.length) '0' ++ ds

/-- The decimal digits of a number, the low ones in blocks of `width` digits.  Only the first
block is without leading zeros. -/
def inBlocks (width n : Nat) : List Char :=
  if width = 0 ∨ n < Nat.pow 10 width then ofNat n
  else inBlocks width (n / Nat.pow 10 width) ++ padded width (n % Nat.pow 10 width)
termination_by n
decreasing_by
  have hwidth : width ≠ 0 := fun h => by simp_all
  have hn : 0 < n := Nat.pos_of_ne_zero fun h => by
    have := Nat.pow_pos (n := width) (show 0 < 10 by decide)
    simp_all
  exact Nat.div_lt_self hn (Nat.one_lt_pow hwidth (by decide))

/-- The number of digits that a machine word can hold. -/
def wordWidth : Nat := 18

/-- The number of digits in a block of a large integer. -/
def blockWidth : Nat := 1000

end Digits
end Lox
