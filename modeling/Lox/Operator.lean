import Lox.Datum

/-!
# Operators

An operator is chosen by a lexeme.  The operators of each arity stand in a table of rows, each
with the kinds of token and the texts that choose it; the first row that the lexeme fits counts.
So a token of the kind of one operator with the text of another chooses the earlier of the two.

A binary operator first looks at the types of its operands, then at a zero divisor, then at the
range of the numbers; the first objection is the fault.
-/

namespace Lox

/-! ## Rows -/

/-- A row of a table of operators: an operator, with the kinds of token and the texts that choose
it. -/
structure OperatorRow (Op : Type) where
  op : Op
  kinds : List String
  texts : List String

/-- The operator of the first row that a lexeme fits. -/
def Lexeme.choose? {Op : Type} (rows : List (OperatorRow Op)) (lexeme : Lexeme) : Option Op :=
  (rows.find? fun row => lexeme.isOneOf row.kinds row.texts).map OperatorRow.op

/-- An absent lexeme chooses nothing. -/
@[simp] theorem Lexeme.choose?_absent {Op : Type} (rows : List (OperatorRow Op)) :
    Lexeme.absent.choose? rows = none := by
  simp [Lexeme.choose?, Lexeme.isOneOf]

/-- The unary operators. -/
inductive UnaryOp
  | negate
  | not
  deriving DecidableEq

/-- The logical operators, which decide by their left operand whether the right one counts. -/
inductive LogicalOp
  | or
  | and
  deriving DecidableEq

/-- The binary operators. -/
inductive BinaryOp
  | subtract
  | divide
  | multiply
  | add
  | greater
  | greaterEqual
  | less
  | lessEqual
  | equal
  | notEqual
  deriving DecidableEq

/-- The table of unary operators. -/
def UnaryOp.rows : List (OperatorRow UnaryOp) :=
  [ ⟨.negate, ["MINUS"], ["-"]⟩,
    ⟨.not, ["BANG"], ["!"]⟩ ]

/-- The table of logical operators. -/
def LogicalOp.rows : List (OperatorRow LogicalOp) :=
  [ ⟨.or, ["OR"], ["or"]⟩,
    ⟨.and, ["AND"], ["and"]⟩ ]

/-- The table of binary operators.  The operators of compound assignment are those of the
arithmetic they abbreviate. -/
def BinaryOp.rows : List (OperatorRow BinaryOp) :=
  [ ⟨.subtract, ["MINUS", "MINUS_EQUAL"], ["-", "-="]⟩,
    ⟨.divide, ["SLASH"], ["/"]⟩,
    ⟨.multiply, ["STAR"], ["*"]⟩,
    ⟨.add, ["PLUS", "PLUS_EQUAL"], ["+", "+="]⟩,
    ⟨.greater, ["GREATER"], [">"]⟩,
    ⟨.greaterEqual, ["GREATER_EQUAL"], [">="]⟩,
    ⟨.less, ["LESS"], ["<"]⟩,
    ⟨.lessEqual, ["LESS_EQUAL"], ["<="]⟩,
    ⟨.equal, ["EQUAL_EQUAL"], ["=="]⟩,
    ⟨.notEqual, ["BANG_EQUAL"], ["!="]⟩ ]

/-- The unary operator that a lexeme chooses. -/
def UnaryOp.ofLexeme? (lexeme : Lexeme) : Option UnaryOp := lexeme.choose? rows

/-- The logical operator that a lexeme chooses. -/
def LogicalOp.ofLexeme? (lexeme : Lexeme) : Option LogicalOp := lexeme.choose? rows

/-- The binary operator that a lexeme chooses. -/
def BinaryOp.ofLexeme? (lexeme : Lexeme) : Option BinaryOp := lexeme.choose? rows

/-! ## Guards -/

/-- The numbers that the operands are; a fault if any is none. -/
def requireNumbers (operands : List Datum) : Except Cause (List Number) :=
  match operands.mapM Datum.number? with
  | some numbers => .ok numbers
  | none => .error (.numbersRequired operands.length)

/-- A fault if any of the operands is neither a number nor a string. -/
def requireNumbersOrStrings (operands : List Datum) : Except Cause Unit :=
  if operands.all Datum.isNumberOrString then .ok () else .error .numbersOrStringsRequired

/-! ## Results -/

/-- The result of arithmetic; a fault if it is out of range. -/
def inRange : Option Number → Except Cause Value
  | some n => .ok (.number n)
  | none => .error .outOfRange

/-- The result of a unary operator. -/
def UnaryOp.apply : UnaryOp → Value → Except Cause Value
  | negate, v => do
    match ← requireNumbers [.value v] with
    | [n] => .ok (.number n.neg)
    -- The guard gives a number for each operand, here and below.
    | _ => .error (.numbersRequired 1)
  | not, v => .ok (.bool (!v.isTruthy))

/-- The result of an operation on two numbers; a fault on any other operands. -/
def onNumbers (operation : Number → Number → Except Cause Value) (a b : Datum) :
    Except Cause Value := do
  match ← requireNumbers [a, b] with
  | [x, y] => operation x y
  | _ => .error (.numbersRequired 2)

/-- Division of numbers, with the zero divisor excluded first. -/
def divideNumbers (a b : Number) : Except Cause Value :=
  if b.isZero then .error .divisionByZero else inRange (a.div b)

/-- Addition: two numbers are added, and a string is continued by the text of a number or by a
string.  A string is not added to a number. -/
def addData (a b : Datum) : Except Cause Value := do
  requireNumbersOrStrings [a, b]
  match a, b with
  | .value (.number a), .value (.number b) => inRange (a.add b)
  | .value (.string s), .value (.number n) => .ok (.string (s ++ n.text))
  | .value (.string s), .value (.string t) => .ok (.string (s ++ t))
  | .value (.number _), .value (.string _) => .error .stringAddedToNumber
  | _, _ => .error .numbersOrStringsRequired

theorem UnaryOp.apply_negate (v : Value) :
    negate.apply v = match v with
      | .number n => .ok (.number n.neg)
      | _ => .error (.numbersRequired 1) := by
  cases v <;> rfl

/-- An operation on numbers, with the guard resolved. -/
theorem onNumbers_eq (operation : Number → Number → Except Cause Value) (a b : Datum) :
    onNumbers operation a b = match a, b with
      | .value (.number x), .value (.number y) => operation x y
      | _, _ => .error (.numbersRequired 2) := by
  rcases a with (_ | _ | x | _) | _ <;> rcases b with (_ | _ | y | _) | _ <;> rfl

/-- Addition, with the guard resolved: what it objects to is what is left for the last row. -/
theorem addData_eq (a b : Datum) :
    addData a b = match a, b with
      | .value (.number a), .value (.number b) => inRange (a.add b)
      | .value (.string s), .value (.number n) => .ok (.string (s ++ n.text))
      | .value (.string s), .value (.string t) => .ok (.string (s ++ t))
      | .value (.number _), .value (.string _) => .error .stringAddedToNumber
      | _, _ => .error .numbersOrStringsRequired := by
  rcases a with (_ | _ | x | s) | _ <;> rcases b with (_ | _ | y | t) | _ <;> rfl

/-- The result of a comparison of numbers. -/
def comparison (holds : Number → Number → Bool) (a b : Number) : Except Cause Value :=
  .ok (.bool (holds a b))

/-- The result of a binary operator. -/
def BinaryOp.apply : BinaryOp → Datum → Datum → Except Cause Value
  | subtract, a, b => onNumbers (fun x y => inRange (x.sub y)) a b
  | divide, a, b => onNumbers divideNumbers a b
  | multiply, a, b => onNumbers (fun x y => inRange (x.mul y)) a b
  | add, a, b => addData a b
  | greater, a, b => onNumbers (comparison Number.greater) a b
  | greaterEqual, a, b => onNumbers (comparison Number.greaterEqual) a b
  | less, a, b => onNumbers (comparison Number.less) a b
  | lessEqual, a, b => onNumbers (comparison Number.lessEqual) a b
  | equal, a, b => .ok (.bool (a.equals b))
  | notEqual, a, b => .ok (.bool (!a.equals b))

/-- The result of the unary operator that a lexeme chooses; faults are blamed on the lexeme. -/
def applyUnary (lexeme : Lexeme) (v : Value) : Except Fault Value :=
  match UnaryOp.ofLexeme? lexeme with
  | some op => (op.apply v).mapError (⟨·, lexeme⟩)
  | none => .error ⟨.unknownUnary, lexeme⟩

/-- The result of the binary operator that a lexeme chooses; faults are blamed on the lexeme. -/
def applyBinary (lexeme : Lexeme) (a b : Datum) : Except Fault Value :=
  match BinaryOp.ofLexeme? lexeme with
  | some op => (op.apply a b).mapError (⟨·, lexeme⟩)
  | none => .error ⟨.unknownBinary, lexeme⟩

end Lox
