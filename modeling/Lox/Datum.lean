import Lox.Fault
import Lox.Value

/-!
# Data

A literal of a program embeds a datum: a value of the language, or a value of the embedding
program that is coerced when the literal is evaluated.  Operators can be handed data too; to them
a value of the embedding program is of no kind they accept.
-/

namespace Lox

/-- A value of the embedding program. -/
inductive HostValue
  | none
  | bool (b : Bool)
  | number (n : Number)
  | string (s : String)
  /-- Anything else, known by the name of its type. -/
  | other (typeName : String)
  deriving DecidableEq

/-- A value of the language or of the embedding program. -/
inductive Datum
  | value (v : Value)
  | host (h : HostValue)
  deriving DecidableEq

namespace Datum

/-- The value that a datum stands for; a fault if it is of a foreign type. -/
def coerce : Datum → Except Fault Value
  | value v => .ok v
  | host .none => .ok .nil
  | host (.bool b) => .ok (.bool b)
  | host (.number n) => .ok (.number n)
  | host (.string s) => .ok (.string s)
  | host (.other typeName) => .error (.unplaced (.unsupportedLiteral typeName))

@[simp] theorem coerce_value (v : Value) : (value v).coerce = .ok v := rfl

/-- Whether the datum is a value of the language. -/
def isValue : Datum → Bool
  | value _ => true
  | host _ => false

/-- Every value of the embedding program is true to a condition. -/
def isTruthy : Datum → Bool
  | value v => v.isTruthy
  | host _ => true

/-- Whether the datum is a value that is a number zero. -/
def isZero : Datum → Bool
  | value v => v.isZero
  | host _ => false

/-- Equality is that of the language; a value of the embedding program equals nothing. -/
def equals : Datum → Datum → Bool
  | value a, value b => a.equals b
  | _, _ => false

/-- The text of a datum; none for a foreign type. -/
def text? : Datum → Option String
  | value v => some v.text
  | host .none => some "None"
  | host (.bool b) => some (if b then "True" else "False")
  | host (.number n) => some n.text
  | host (.string s) => some s
  | host (.other _) => none

/-- The number that a datum is, if it is a value and a number. -/
def number? : Datum → Option Number
  | value (.number n) => some n
  | _ => none

/-- Whether the datum is a value that is a number or a string. -/
def isNumberOrString : Datum → Bool
  | value (.number _) => true
  | value (.string _) => true
  | _ => false

end Datum
end Lox
