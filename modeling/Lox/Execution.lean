import Lox.Evaluation
import Lox.Machine

/-!
# Execution of statements

A statement acts on the machine.  Blocks and `for` loops have a scope of their own; all other
statements work in the active frame, so a declaration in a branch or in the body of a `while` loop
belongs to the frame around it.

Execution goes down the program.  Loops are the only part of it that need not end, so each loop is
given a number of rounds, the fuel, and stops the computation when it needs more.  A computation
that does not run out of fuel gives the same with any larger amount.
-/

namespace Lox

/-- Evaluate an expression against the active frame. -/
def ExecM.evaluate (node : Node) : ExecM Value
  | ⟨store, active, failed, console, log⟩ =>
    match node.eval active store with
    | .ok v store => .ok v ⟨store, active, failed, console, log⟩
    | .error fault store => .error (.fault fault) ⟨store, active, failed, console, log⟩

/-- Evaluate a condition; an absent one holds. -/
def ExecM.test : Option Node → ExecM Bool
  | some condition => do
    let v ← evaluate condition
    pure v.isTruthy
  | none => pure true

/-- Evaluate an expression for its effect; an absent one has none. -/
def ExecM.discard : Option Node → ExecM Unit
  | some node => do
    let _ ← evaluate node
  | none => pure ()

mutual

/-- Execute a statement. -/
def Node.exec (fuel : Nat) : Node → ExecM Unit
  | .expression inner => ExecM.discard (some inner)
  | .print inner => do
    let v ← ExecM.evaluate inner
    ExecM.print (v.text ++ "\n")
  | .varDecl name (some initializer) => do
    let v ← ExecM.evaluate initializer
    ExecM.define name.text v
  | .varDecl name none => ExecM.define name.text .nil
  | .block statements => ExecM.withNewScope (Node.execAll fuel statements)
  | .ifElse condition thenBranch elseBranch? => do
    let v ← ExecM.evaluate condition
    if v.isTruthy then thenBranch.exec fuel else Node.execOption fuel elseBranch?
  | .whileLoop condition body =>
    ExecM.repeatWhile (ExecM.test (some condition)) (body.exec fuel) fuel
  | .forLoop initializer? condition? increment? body =>
    ExecM.withNewScope do
      Node.execOption fuel initializer?
      ExecM.repeatWhile (ExecM.test condition?)
        (do
          body.exec fuel
          ExecM.discard increment?)
        fuel
  | node => throw (.fault (.unplaced (.unsupportedStatement node.className)))

/-- Execute a statement; an absent one has no effect. -/
def Node.execOption (fuel : Nat) : Option Node → ExecM Unit
  | some statement => statement.exec fuel
  | none => pure ()

/-- Execute statements one after the other. -/
def Node.execAll (fuel : Nat) : List Node → ExecM Unit
  | [] => pure ()
  | statement :: rest => do
    statement.exec fuel
    Node.execAll fuel rest

end

/-- Execute statements with the given frame as their scope. -/
def ExecM.block (fuel : Nat) (frame : Nat) (statements : List Node) : ExecM Unit :=
  ExecM.withScope frame (Node.execAll fuel statements)

/-- Execute a program.  The first fault ends it and is reported; the answer says whether the
program came to its end. -/
def ExecM.interpret (fuel : Nat) (program : List Node) : ExecM Bool := fun m =>
  match Node.execAll fuel program m with
  | .ok () m => .ok true m
  | .error (.fault fault) m => .ok false (m.fail fault)
  | .error .outOfFuel m => .error .outOfFuel m

/-- Execute a program on its own: as `interpret`, with a record in the log if it was cut short. -/
def ExecM.run (fuel : Nat) (program : List Node) : ExecM Bool := do
  let completed ← interpret fuel program
  if completed then pure true
  else fun m => .ok false (m.record .halted)

end Lox
