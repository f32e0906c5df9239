import Lox.Execution

/-!
# Sessions

A session is a store of frames with any number of interpreters that work in it.  An interpreter
has a frame of globals, an active frame, and scopes that were entered by hand and are still open;
it prints to a console of its own or to the one that the session shares.  Interpreters may have
frames in common.

A session advances by steps.  A step gives an answer or stops with a fault; either way the session
goes on from the state it left.
-/

namespace Lox

/-- A scope that was entered by hand and is still open, with the frame that was active before. -/
structure OpenScope where
  entered : Nat
  previous : Nat
  deriving DecidableEq

/-- Where an interpreter prints: to a console of its own, or to that of the session. -/
inductive Outlet
  | own (console : Console)
  | shared
  deriving DecidableEq

/-- An interpreter of a session.  Its open scopes are listed from the innermost one on. -/
structure Interpreter where
  globals : Nat
  active : Nat
  failed : Bool := false
  outlet : Outlet := .own {}
  scopes : List OpenScope := []
  deriving DecidableEq

/-- A store of frames, the interpreters that work in it, and what they share. -/
structure Session where
  store : Store := ∅
  interpreters : Array Interpreter := #[]
  console : Console := {}
  log : Array LogRecord := #[]
  deriving DecidableEq

/-- What a session can be asked to do. -/
inductive Step
  | newFrame (parent? : Option Nat)
  | define (frame : Nat) (name : Lexeme) (v : Value)
  | lookup (frame : Nat) (name : Lexeme)
  | assign (frame : Nat) (name : Lexeme) (v : Value)
  | eval (frame : Nat) (node : Node)
  /-- Make an interpreter, with a new frame for its globals unless one is given. -/
  | newInterpreter (globals? : Option Nat) (outlet : Outlet)
  | run (program : List Node) (globals? : Option Nat) (outlet : Outlet)
  /-- Execute a program, faults being reported. -/
  | interpret (interpreter : Nat) (program : List Node)
  | execute (interpreter : Nat) (statement : Node)
  | evaluate (interpreter : Nat) (node : Node)
  | block (interpreter frame : Nat) (statements : List Node)
  /-- Enter a scope and leave it open: the given frame, or a new one inside the active frame. -/
  | enter (interpreter : Nat) (frame? : Option Nat)
  | leave (interpreter : Nat)

/-- What a session says after a step. -/
inductive Answer
  | done
  | value (v : Value)
  /-- The number of the frame that was made or entered. -/
  | frame (frame : Nat)
  | interpreter (interpreter : Nat)
  /-- Whether a program came to its end. -/
  | completed (completed : Bool)
  deriving DecidableEq

namespace Session

/-- The machine that an interpreter of the session runs on. -/
def machine (s : Session) (interpreter : Interpreter) : Machine where
  store := s.store
  active := interpreter.active
  failed := interpreter.failed
  console := match interpreter.outlet with
    | .own console => console
    | .shared => s.console
  log := s.log

/-- The session after an interpreter ran on a machine: the interpreter and the session take over
their parts of it. -/
def resume (s : Session) (i : Nat) (interpreter : Interpreter) (m : Machine) : Session where
  store := m.store
  interpreters := s.interpreters.setIfInBounds i
    { interpreter with
      active := m.active
      failed := m.failed
      outlet := match interpreter.outlet with
        | .own _ => .own m.console
        | .shared => .shared }
  console := match interpreter.outlet with
    | .own _ => s.console
    | .shared => m.console
  log := m.log

end Session

/-- A computation on a session, which may stop early. -/
abbrev SessionM := EStateM Stop Session

namespace SessionM

/-- A computation on the store. -/
def onStore {α : Type} (action : EvalM α) : SessionM α := fun s =>
  match action s.store with
  | .ok a store => .ok a { s with store }
  | .error fault store => .error (.fault fault) { s with store }

/-- A computation on the machine of an interpreter; without such an interpreter there is nothing
to do. -/
def onMachine (i : Nat) (action : ExecM Answer) : SessionM Answer := fun s =>
  match s.interpreters[i]? with
  | none => .ok .done s
  | some interpreter =>
    match action (s.machine interpreter) with
    | .ok answer m => .ok answer (s.resume i interpreter m)
    | .error stop m => .error stop (s.resume i interpreter m)

/-- Make a frame and give its number. -/
def newFrame (parent? : Option Nat) : SessionM Nat := fun s =>
  .ok s.store.size { s with store := s.store.push parent? }

/-- Make an interpreter and give its number. -/
def newInterpreter (globals? : Option Nat) (outlet : Outlet) : SessionM Nat := do
  let globals ← globals?.elim (newFrame none) pure
  fun s =>
    .ok s.interpreters.size
      { s with interpreters := s.interpreters.push { globals, active := globals, outlet } }

/-- Enter a scope by hand: the given frame, or a new one inside the active frame. -/
def enter (i : Nat) (frame? : Option Nat) : SessionM Answer := fun s =>
  match s.interpreters[i]? with
  | none => .ok .done s
  | some interpreter =>
    let frame := frame?.getD s.store.size
    let store := match frame? with
      | some _ => s.store
      | none => s.store.push (some interpreter.active)
    let m := ({ s with store }.machine interpreter).enter frame
    let scopes := ⟨frame, interpreter.active⟩ :: interpreter.scopes
    .ok (.frame frame) (s.resume i { interpreter with scopes } m)

/-- Leave the innermost scope that was entered by hand, if one is open. -/
def leave (i : Nat) : SessionM Answer := fun s =>
  match s.interpreters[i]? with
  | none => .ok .done s
  | some interpreter =>
    match interpreter.scopes with
    | [] => .ok .done s
    | scope :: scopes =>
      let m := (s.machine interpreter).leave scope.previous
      .ok .done (s.resume i { interpreter with scopes } m)

end SessionM

/-- One step of a session; each loop in it has the given number of rounds. -/
def Session.step (fuel : Nat) : Step → SessionM Answer
  | .newFrame parent? => do
    let frame ← SessionM.newFrame parent?
    pure (.frame frame)
  | .define frame name v => fun s =>
    .ok .done { s with store := s.store.define frame name.text v }
  | .lookup frame name => SessionM.onStore do
    let v ← EvalM.lookup frame name
    pure (.value v)
  | .assign frame name v => SessionM.onStore do
    let v ← EvalM.assign frame name v
    pure (.value v)
  | .eval frame node => SessionM.onStore do
    let v ← node.eval frame
    pure (.value v)
  | .newInterpreter globals? outlet => do
    let i ← SessionM.newInterpreter globals? outlet
    pure (.interpreter i)
  | .run program globals? outlet => do
    let i ← SessionM.newInterpreter globals? outlet
    let _ ← SessionM.onMachine i do
      let completed ← ExecM.run fuel program
      pure (.completed completed)
    pure (.interpreter i)
  | .interpret i program => SessionM.onMachine i do
    let completed ← ExecM.interpret fuel program
    pure (.completed completed)
  | .execute i statement => SessionM.onMachine i do
    statement.exec fuel
    pure .done
  | .evaluate i node => SessionM.onMachine i do
    let v ← ExecM.evaluate node
    pure (.value v)
  | .block i frame statements => SessionM.onMachine i do
    ExecM.block fuel frame statements
    pure .done
  | .enter i frame? => SessionM.enter i frame?
  | .leave i => SessionM.leave i

end Lox
