import Lox.Number.Numeral

/-!
# Values

What an expression evaluates to: nil, a boolean, a number or a string.
-/

namespace Lox

/-- A value of the language. -/
inductive Value
  | nil
  | bool (b : Bool)
  | number (n : Number)
  | string (s : String)
  deriving DecidableEq

namespace Value

/-- The words of a truth value. -/
def boolText (b : Bool) : String := if b then "true" else "false"

/-- What printing shows of a value: a string is its own text. -/
def text : Value → String
  | nil => "nil"
  | bool b => boolText b
  | number n => n.text
  | string s => s

/-- The value in a description: as it is printed, but a string between double quotes, its
characters unchanged. -/
def written : Value → String
  | string s => "\x22" ++ s ++ "\x22"
  | v => v.text

/-- Every value is true to a condition except nil and false. -/
def isTruthy : Value → Bool
  | nil => false
  | bool b => b
  | number _ => true
  | string _ => true

@[simp] theorem isTruthy_nil : nil.isTruthy = false := rfl
@[simp] theorem isTruthy_bool (b : Bool) : (bool b).isTruthy = b := rfl

/-- Two values are equal when they are of one kind and have equal contents; numbers are compared
exactly, so that what is not a number does not even equal itself. -/
def equals : Value → Value → Bool
  | nil, nil => true
  | bool a, bool b => a == b
  | number a, number b => a.equals b
  | string a, string b => a == b
  | _, _ => false

/-- Whether the value is a number zero. -/
def isZero : Value → Bool
  | number n => n.isZero
  | _ => false

end Value
end Lox
