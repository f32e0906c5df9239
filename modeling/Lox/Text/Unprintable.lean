import Lox.Text.Unassigned

/-!
# Unprintable characters

The characters that have no visible form of their own.  Some are marks: controls, format marks,
the spaces other than the plain one, and the line and paragraph separators.  The others are code
points that stand for no character known to everyone: those left to private use, and those not
assigned at all.
-/

namespace Lox.Text

/-- The ranges of marks and of code points left to private use, both ends included. -/
def markRanges : List (Nat × Nat) :=
  [ (0x0, 0x1f), (0x7f, 0xa0), (0xad, 0xad), (0x600, 0x605), (0x61c, 0x61c), (0x6dd, 0x6dd),
    (0x70f, 0x70f), (0x890, 0x891), (0x8e2, 0x8e2), (0x1680, 0x1680), (0x180e, 0x180e),
    (0x2000, 0x200f), (0x2028, 0x202f), (0x205f, 0x2064), (0x2066, 0x206f), (0x3000, 0x3000),
    (0xe000, 0xf8ff), (0xfeff, 0xfeff), (0xfff9, 0xfffb), (0x110bd, 0x110bd), (0x110cd, 0x110cd),
    (0x13430, 0x13438), (0x1bca0, 0x1bca3), (0x1d173, 0x1d17a), (0xe0001, 0xe0001),
    (0xe0020, 0xe007f), (0xf0000, 0xffffd), (0x100000, 0x10fffd) ]

/-- Whether a code point lies in one of the given ranges. -/
def inRanges (ranges : List (Nat × Nat)) (n : Nat) : Bool :=
  ranges.any fun (first, last) => decide (first ≤ n ∧ n ≤ last)

/-- Whether a character has no visible form. -/
def isUnprintable (c : Char) : Bool :=
  inRanges markRanges c.toNat || inRanges unassignedRanges c.toNat

end Lox.Text
