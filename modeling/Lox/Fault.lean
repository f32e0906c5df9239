import Lox.Lexeme

/-!
# Faults

A fault ends the evaluation of an expression or the execution of a statement.  It has a cause and
the lexeme that it is blamed on; its class, its message and its report follow from those two.
-/

namespace Lox

/-- The classes of faults.  All others are refinements of `runtime`. -/
inductive FaultClass
  | runtime
  | type
  | overflow
  | divisionByZero
  | undefinedVariable
  deriving DecidableEq

/-- The name of a class, as reports show it. -/
def FaultClass.name : FaultClass → String
  | runtime => "LoxRuntimeError"
  | type => "LoxTypeError"
  | overflow => "LoxOverflowError"
  | divisionByZero => "LoxDivisionByZero"
  | undefinedVariable => "LoxUndefinedVariable"

/-- What went wrong. -/
inductive Cause
  /-- A literal embeds a host value of a type that no value of the language stands for. -/
  | unsupportedLiteral (typeName : String)
  | unknownUnary
  | unknownBinary
  | unknownLogical
  /-- The operator takes numbers only, and was given this many operands. -/
  | numbersRequired (operands : Nat)
  | numbersOrStringsRequired
  | stringAddedToNumber
  | divisionByZero
  /-- An integer has no double near it, and the other operand is a double. -/
  | outOfRange
  | undefinedVariable
  | unsupportedExpression (className : String)
  | unsupportedStatement (className : String)
  /-- The embedding program made the fault itself, with a class and a message of its choice. -/
  | custom (kind : FaultClass) (message : String)
  deriving DecidableEq

namespace Cause

/-- The class of the faults with a given cause. -/
def kind : Cause → FaultClass
  | unsupportedLiteral _ => .type
  | unknownUnary => .runtime
  | unknownBinary => .runtime
  | unknownLogical => .runtime
  | numbersRequired _ => .type
  | numbersOrStringsRequired => .type
  | stringAddedToNumber => .type
  | divisionByZero => .divisionByZero
  | outOfRange => .overflow
  | undefinedVariable => .undefinedVariable
  | unsupportedExpression _ => .runtime
  | unsupportedStatement _ => .runtime
  | custom kind _ => kind

/-- The message of a cause, blamed on a lexeme with the given text. -/
def message (lexeme : String) : Cause → String
  | unsupportedLiteral typeName => "Unsupported literal type " ++ typeName
  | unknownUnary => "Unsupported unary op " ++ lexeme
  | unknownBinary => "Unknown operator " ++ lexeme
  | unknownLogical => "Unknown logical operator " ++ lexeme
  | numbersRequired operands =>
    if operands = 1 then "Operand must be a number" else "Operands must be a number"
  | numbersOrStringsRequired => "Operands must be a number or string"
  | stringAddedToNumber => "Cannot add string to number"
  | divisionByZero => "Dividing by zero is not allowed"
  | outOfRange => "Numeric result out of range: int too large to convert to float"
  | undefinedVariable => "Undefined variable \x27" ++ lexeme ++ "\x27"
  | unsupportedExpression className => "Unsupported expression node " ++ className
  | unsupportedStatement className => "Unsupported statement node " ++ className
  | custom _ message => message

end Cause

/-- A cause with the lexeme that it is blamed on. -/
structure Fault where
  cause : Cause
  lexeme : Lexeme
  deriving DecidableEq

namespace Fault

/-- The class of a fault. -/
def kind (fault : Fault) : FaultClass := fault.cause.kind

/-- What went wrong, in words. -/
def message (fault : Fault) : String := fault.cause.message fault.lexeme.text

/-- The message, followed by the position of the lexeme where that is known. -/
def text (fault : Fault) : String := fault.message ++ fault.lexeme.position

/-- The line that reports a fault. -/
def report (fault : Fault) : String := fault.kind.name ++ ": " ++ fault.text ++ "\n"

/-- A fault that no lexeme is to blame for. -/
def unplaced (cause : Cause) : Fault := ⟨cause, .absent⟩

end Fault
end Lox
