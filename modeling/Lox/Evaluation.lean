import Lox.Environment.Store
import Lox.Node
import Lox.Operator

/-!
# Evaluation of expressions

An expression is evaluated against a frame.  It gives a value or a fault, and it can change the
values of names that frames of the chain hold already; it makes no frame and no name.  Operands
are evaluated from left to right, each at most once, and what was assigned before a fault stays.

Evaluation goes down the expression and always ends.
-/

namespace Lox

/-- A computation on the store that may end in a fault. -/
abbrev EvalM := EStateM Fault Store

namespace EvalM

/-- A result that needs no store. -/
def ofExcept {α : Type} : Except Fault α → EvalM α
  | .ok a => pure a
  | .error fault => throw fault

/-- The value of a name, seen from a frame. -/
def lookup (frame : Nat) (name : Lexeme) : EvalM Value := fun store =>
  match store.lookup? frame name.text with
  | some v => .ok v store
  | none => .error ⟨.undefinedVariable, name⟩ store

/-- Give a known name a value, seen from a frame. -/
def assign (frame : Nat) (name : Lexeme) (v : Value) : EvalM Value := fun store =>
  match store.owner? frame name.text with
  | some owner => .ok v (store.define owner name.text v)
  | none => .error ⟨.undefinedVariable, name⟩ store

end EvalM

/-- Evaluate an expression against a frame. -/
def Node.eval (frame : Nat) : Node → EvalM Value
  | .literal datum => EvalM.ofExcept datum.coerce
  | .grouping inner => inner.eval frame
  | .unary operator right => do
    let v ← right.eval frame
    EvalM.ofExcept (applyUnary operator v)
  | .binary left operator right => do
    let a ← left.eval frame
    let b ← right.eval frame
    EvalM.ofExcept (applyBinary operator (.value a) (.value b))
  | .logical left operator right => do
    let v ← left.eval frame
    match LogicalOp.ofLexeme? operator with
    | some .or => if v.isTruthy then pure v else right.eval frame
    | some .and => if v.isTruthy then right.eval frame else pure v
    | none => throw ⟨.unknownLogical, operator⟩
  | .ternary condition first second => do
    let v ← condition.eval frame
    if v.isTruthy then first.eval frame else second.eval frame
  | .var name => EvalM.lookup frame name
  | .assign name source => do
    let v ← source.eval frame
    EvalM.assign frame name v
  | node => throw (.unplaced (.unsupportedExpression node.className))

end Lox
