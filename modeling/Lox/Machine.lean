import Lox.Environment.Store
import Lox.Fault

/-!
# The machine

What a statement acts on: the store of frames, the frame that is active, the console it prints to,
and the log of scopes and faults.  A scope makes another frame active for as long as a computation
lasts, and the frame active before comes back however the computation ends.
-/

namespace Lox

/-- What was printed, and what was reported, piece by piece. -/
structure Console where
  out : Array String := #[]
  err : Array String := #[]
  deriving DecidableEq

/-- A record of the log. -/
inductive LogRecord
  | enterScope (depth : Nat)
  | leaveScope (depth : Nat)
  /-- A fault ended a program. -/
  | runtimeError (fault : Fault)
  /-- A program run on its own was cut short. -/
  | halted
  deriving DecidableEq

/-- A record in words. -/
def LogRecord.message : LogRecord → String
  | enterScope depth => "enter scope depth=" ++ toString depth
  | leaveScope depth => "leave scope, back to depth=" ++ toString depth
  | runtimeError fault =>
    "runtime error at " ++ fault.lexeme.description ++ ": " ++ fault.message
  | halted => "statement sequence halted by a runtime error"

/-- The state that statements act on.  The log has its oldest record first. -/
structure Machine where
  store : Store
  active : Nat
  failed : Bool
  console : Console
  log : Array LogRecord
  deriving DecidableEq

namespace Machine

/-- Add a record to the log. -/
def record : LogRecord → Machine → Machine
  | entry, ⟨store, active, failed, console, log⟩ =>
    ⟨store, active, failed, console, log.push entry⟩

/-- Make a frame active, and say so in the log. -/
def enter (frame : Nat) (m : Machine) : Machine :=
  { m.record (.enterScope (m.store.depth frame)) with active := frame }

/-- Make active again the frame that was so before a scope, and say so in the log. -/
def leave (previous : Nat) (m : Machine) : Machine :=
  { m.record (.leaveScope (m.store.depth previous)) with active := previous }

/-- Print a piece of text. -/
def print (piece : String) : Machine → Machine
  | ⟨store, active, failed, ⟨out, err⟩, log⟩ =>
    ⟨store, active, failed, ⟨out.push piece, err⟩, log⟩

/-- Take note of the fault that ended a program, and report it. -/
def fail (fault : Fault) : Machine → Machine
  | ⟨store, active, _, ⟨out, err⟩, log⟩ =>
    ⟨store, active, true, ⟨out, err.push fault.report⟩, log.push (.runtimeError fault)⟩

/-! ## Projections -/

@[simp] theorem store_record (entry : LogRecord) (m : Machine) :
    (m.record entry).store = m.store := rfl

@[simp] theorem active_record (entry : LogRecord) (m : Machine) :
    (m.record entry).active = m.active := rfl

@[simp] theorem log_record (entry : LogRecord) (m : Machine) :
    (m.record entry).log = m.log.push entry := rfl

@[simp] theorem console_record (entry : LogRecord) (m : Machine) :
    (m.record entry).console = m.console := rfl

@[simp] theorem store_enter (frame : Nat) (m : Machine) : (m.enter frame).store = m.store := rfl

@[simp] theorem active_enter (frame : Nat) (m : Machine) : (m.enter frame).active = frame := rfl

@[simp] theorem log_enter (frame : Nat) (m : Machine) :
    (m.enter frame).log = m.log.push (.enterScope (m.store.depth frame)) := rfl

@[simp] theorem store_leave (previous : Nat) (m : Machine) :
    (m.leave previous).store = m.store := rfl

@[simp] theorem active_leave (previous : Nat) (m : Machine) :
    (m.leave previous).active = previous := rfl

@[simp] theorem log_leave (previous : Nat) (m : Machine) :
    (m.leave previous).log = m.log.push (.leaveScope (m.store.depth previous)) := rfl

@[simp] theorem store_fail (fault : Fault) (m : Machine) : (m.fail fault).store = m.store := rfl

@[simp] theorem active_fail (fault : Fault) (m : Machine) :
    (m.fail fault).active = m.active := rfl

@[simp] theorem log_fail (fault : Fault) (m : Machine) :
    (m.fail fault).log = m.log.push (.runtimeError fault) := rfl

end Machine

/-- Why a computation stops early. -/
inductive Stop
  | fault (fault : Fault)
  /-- A loop used up the rounds it was given. -/
  | outOfFuel
  deriving DecidableEq

/-- A computation on the machine that may stop early. -/
abbrev ExecM := EStateM Stop Machine

namespace ExecM

/-- Make a frame without bindings inside the active one, and give its number. -/
def newFrame : ExecM Nat
  | ⟨store, active, failed, console, log⟩ =>
    .ok store.size ⟨store.push (some active), active, failed, console, log⟩

/-- Define a name in the active frame. -/
def define (name : String) (v : Value) : ExecM Unit
  | ⟨store, active, failed, console, log⟩ =>
    .ok () ⟨store.define active name v, active, failed, console, log⟩

/-- Print a piece of text. -/
def print (piece : String) : ExecM Unit := fun m => .ok () (m.print piece)

/-- A computation with the given frame active; the frame active before comes back on every way
out. -/
def withScope {α : Type} (frame : Nat) (body : ExecM α) : ExecM α := fun m =>
  let previous := m.active
  match body (m.enter frame) with
  | .ok a m => .ok a (m.leave previous)
  | .error stop m => .error stop (m.leave previous)

/-- A computation in a new scope inside the active one. -/
def withNewScope {α : Type} (body : ExecM α) : ExecM α := do
  let frame ← newFrame
  withScope frame body

/-- Repeat a computation as long as a test succeeds, for at most the given number of rounds. -/
def repeatWhile (test : ExecM Bool) (body : ExecM Unit) : Nat → ExecM Unit
  | 0 => throw .outOfFuel
  | rounds + 1 => do
    if ← test then
      body
      repeatWhile test body rounds
    else pure ()

end ExecM
end Lox
