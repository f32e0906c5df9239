import Lox.Machine
import Lox.Node
import Lox.Operator
import Lox.Proofs.Scopes.Basic

/-!
# Evaluation on stacks of scopes

The language in terms of scopes alone: what a program does is a function of the stack of scopes
that it starts in.  An expression gives a value or a fault and may assign to names that are in
scope.  A statement may also print, and define names in the innermost scope; blocks and `for`
loops push an empty scope and drop it again on every way out.

There is no frame, no parent and no active frame here.  As in the execution of statements, loops
are given a number of rounds.
-/

namespace Lox
namespace Scopes

/-! ## Expressions -/

/-- A result that needs no scope. -/
def ofExcept : Except Fault Value → EStateM Fault Scopes Value
  | .ok v => pure v
  | .error fault => throw fault

/-- The value of a name; a fault if it is in no scope. -/
def lookup (name : Lexeme) : EStateM Fault Scopes Value := fun scopes =>
  match lookup? name.text scopes with
  | some v => .ok v scopes
  | none => .error ⟨.undefinedVariable, name⟩ scopes

/-- Give a name another value; a fault if it is in no scope. -/
def assign (name : Lexeme) (v : Value) : EStateM Fault Scopes Value := fun scopes =>
  match assign? name.text v scopes with
  | some scopes' => .ok v scopes'
  | none => .error ⟨.undefinedVariable, name⟩ scopes

/-- The value of an expression. -/
def eval : Node → EStateM Fault Scopes Value
  | .literal datum => ofExcept datum.coerce
  | .grouping inner => eval inner
  | .unary operator right => do
    let v ← eval right
    ofExcept (applyUnary operator v)
  | .binary left operator right => do
    let a ← eval left
    let b ← eval right
    ofExcept (applyBinary operator (.value a) (.value b))
  | .logical left operator right => do
    let v ← eval left
    match LogicalOp.ofLexeme? operator with
    | some .or => if v.isTruthy then pure v else eval right
    | some .and => if v.isTruthy then eval right else pure v
    | none => throw ⟨.unknownLogical, operator⟩
  | .ternary condition first second => do
    let v ← eval condition
    if v.isTruthy then eval first else eval second
  | .var name => lookup name
  | .assign name source => do
    let v ← eval source
    assign name v
  | node => throw (.unplaced (.unsupportedExpression node.className))

/-! ## Statements -/

/-- A stack of scopes with what was printed, piece by piece. -/
structure State where
  scopes : Scopes
  printed : Array String := #[]

/-- A computation on scopes that may print and may stop early. -/
abbrev ScopesM := EStateM Stop State

/-- Evaluate an expression; it prints nothing. -/
def evaluate (node : Node) : ScopesM Value := fun state =>
  match eval node state.scopes with
  | .ok v scopes => .ok v { state with scopes }
  | .error fault scopes => .error (.fault fault) { state with scopes }

/-- Evaluate a condition; an absent one holds. -/
def holds : Option Node → ScopesM Bool
  | some condition => do
    let v ← evaluate condition
    pure v.isTruthy
  | none => pure true

/-- Evaluate an expression and forget its value; an absent one does nothing. -/
def discard : Option Node → ScopesM Unit
  | some node => do
    let _ ← evaluate node
  | none => pure ()

/-- Print a value on a line of its own. -/
def printLine (v : Value) : ScopesM Unit := fun state =>
  .ok () { state with printed := state.printed.push (v.text ++ "\n") }

/-- Define a name in the innermost scope. -/
def declare (name : Lexeme) (v : Value) : ScopesM Unit := fun state =>
  .ok () { state with scopes := define name.text v state.scopes }

/-- In a new scope, which is dropped on every way out. -/
def enclosed (body : ScopesM Unit) : ScopesM Unit := fun state =>
  match body { state with scopes := ∅ :: state.scopes } with
  | .ok a state' => .ok a { state' with scopes := state'.scopes.tail }
  | .error stop state' => .error stop { state' with scopes := state'.scopes.tail }

/-- Round after round, as long as the condition holds. -/
def loop (condition? : Option Node) (round : ScopesM Unit) : Nat → ScopesM Unit
  | 0 => throw .outOfFuel
  | rounds + 1 => do
    if ← holds condition? then
      round
      loop condition? round rounds
    else pure ()

mutual

/-- The effect of a statement. -/
def exec (fuel : Nat) : Node → ScopesM Unit
  | .expression inner => discard (some inner)
  | .print inner => do
    let v ← evaluate inner
    printLine v
  | .varDecl name (some initializer) => do
    let v ← evaluate initializer
    declare name v
  | .varDecl name none => declare name .nil
  | .block statements => enclosed (execAll fuel statements)
  | .ifElse condition thenBranch elseBranch? => do
    let v ← evaluate condition
    if v.isTruthy then exec fuel thenBranch else execOption fuel elseBranch?
  | .whileLoop condition body => loop (some condition) (exec fuel body) fuel
  | .forLoop initializer? condition? increment? body => enclosed do
    execOption fuel initializer?
    loop condition? (do exec fuel body; discard increment?) fuel
  | node => throw (.fault (.unplaced (.unsupportedStatement node.className)))

/-- The effect of a statement that may be absent. -/
def execOption (fuel : Nat) : Option Node → ScopesM Unit
  | some statement => exec fuel statement
  | none => pure ()

/-- The effect of statements one after the other. -/
def execAll (fuel : Nat) : List Node → ScopesM Unit
  | [] => pure ()
  | statement :: rest => do
    exec fuel statement
    execAll fuel rest

end

end Scopes
end Lox
