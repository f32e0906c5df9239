import Lox.Proofs.Programs
import Lox.Session

/-!
# Runs one after the other

A run begins with an interpreter of its own, and it may be given the globals that an earlier run
left.  What was printed before a run neither influences it nor is touched by it.  So two runs, the
second with the globals of the first, do the same as a run of both programs in one, and what they
print joins up to what this run prints.
-/

namespace Lox

/-! ## What was printed before -/

instance : Append Console := ⟨fun c c' => ⟨c.out ++ c'.out, c.err ++ c'.err⟩⟩

namespace Console

@[simp] theorem append_empty (c : Console) : c ++ ({} : Console) = c :=
  Console.ext Array.append_empty Array.append_empty

@[simp] theorem empty_append (c : Console) : ({} : Console) ++ c = c :=
  Console.ext Array.empty_append Array.empty_append

end Console

/-- The machine with more on its console, in front of what is there. -/
def Machine.printingAfter (c : Console) (m : Machine) : Machine :=
  { m with console := c ++ m.console }

namespace Machine

theorem printingAfter_print (c : Console) (piece : String) (m : Machine) :
    (m.printingAfter c).print piece = (m.print piece).printingAfter c := by
  simp only [printingAfter, print]
  congr 1
  exact Console.ext Array.append_push.symm rfl

theorem printingAfter_fail (c : Console) (fault : Fault) (m : Machine) :
    (m.printingAfter c).fail fault = (m.fail fault).printingAfter c := by
  simp only [printingAfter, fail]
  congr 1
  exact Console.ext rfl Array.append_push.symm

end Machine

namespace ExecM

/-- No operation sees what was printed before. -/
theorem operationsLockstep_printingAfter (c : Console) :
    OperationsLockstep fun m m' => m' = m.printingAfter c where
  evaluate := by
    rintro node m _ rfl
    cases h : node.eval m.active m.store with
    | ok v store =>
      rw [evaluate_of_ok h, evaluate_of_ok (m := m.printingAfter c) h]
      exact ⟨rfl, rfl⟩
    | error fault store =>
      rw [evaluate_of_error h, evaluate_of_error (m := m.printingAfter c) h]
      exact ⟨rfl, rfl⟩
  print := by
    rintro piece m _ rfl
    exact ⟨rfl, m.printingAfter_print c piece⟩
  define := by
    rintro name v m _ rfl
    exact ⟨rfl, rfl⟩
  withNewScope := by
    rintro body h m _ rfl
    rcases (h _ _ rfl).cases with ⟨a, m₁, _, hm, hm', rfl⟩ | ⟨stop, m₁, _, hm, hm', rfl⟩
    · rw [withNewScope_of_ok hm, withNewScope_of_ok (m := m.printingAfter c) hm']
      exact ⟨rfl, rfl⟩
    · rw [withNewScope_of_error hm, withNewScope_of_error (m := m.printingAfter c) hm']
      exact ⟨rfl, rfl⟩

theorem lockstep_interpret (c : Console) (fuel : Nat) (program : List Node) :
    Lockstep (fun m m' => m' = m.printingAfter c) (interpret fuel program)
      (interpret fuel program) := by
  rintro m _ rfl
  have hexec : Lockstep (fun m m' => m' = m.printingAfter c) (Node.execAll fuel program)
      (Node.execAll fuel program) := Node.lockstep_execAll_of fun statement _ =>
    Node.lockstep_exec_of (operationsLockstep_printingAfter c) fuel statement
  rcases (hexec m _ rfl).cases with ⟨a, m₁, _, hm, hm', rfl⟩ | ⟨stop, m₁, _, hm, hm', rfl⟩
  · rw [interpret_eq_true_iff.2 hm, interpret_eq_true_iff.2 hm']
    exact ⟨rfl, rfl⟩
  · cases stop with
    | fault fault =>
      rw [interpret_eq_false_iff.2 ⟨fault, m₁, hm, rfl⟩,
        interpret_eq_false_iff.2 ⟨fault, _, hm', rfl⟩]
      exact ⟨rfl, m₁.printingAfter_fail c fault⟩
    | outOfFuel =>
      simp only [interpret, hm, hm']
      exact ⟨rfl, rfl⟩

theorem lockstep_run (c : Console) (fuel : Nat) (program : List Node) :
    Lockstep (fun m m' => m' = m.printingAfter c) (run fuel program) (run fuel program) := by
  refine (lockstep_interpret c fuel program).bind fun completed => ?_
  cases completed with
  | true => exact Lockstep.pure true
  | false =>
    rintro m _ rfl
    exact ⟨rfl, rfl⟩

theorem fuelMonotone_run (program : List Node) : FuelMonotone fun fuel => run fuel program := by
  intro fuel more hle
  refine (fuelMonotone_interpret program fuel more hle).bind fun completed => ?_
  exact Approximates.refl _

/-- What is printed before a run stays in front of what the run prints, and changes nothing. -/
theorem ends_run_printingAfter_iff {program : List Node} {m m' : Machine} {c : Console}
    {outcome : Except Fault Bool} :
    Ends (run · program) (m.printingAfter c) outcome m' ↔
      ∃ m₁, Ends (run · program) m outcome m₁ ∧ m' = m₁.printingAfter c := by
  constructor
  · exact fun h => h.of_lockstep (fun fuel => (lockstep_run c fuel program).symm) rfl
  · rintro ⟨m₁, h, rfl⟩
    obtain ⟨_, h', rfl⟩ := h.of_lockstep (fun fuel => lockstep_run c fuel program) rfl
    exact h'

theorem run_ne_fault {fuel : Nat} {program : List Node} {fault : Fault} {m m' : Machine} :
    run fuel program m ≠ .error (.fault fault) m' := by
  intro h
  cases hinterpret : interpret fuel program m with
  | ok completed m₁ =>
    simp only [run, bind_of_ok hinterpret] at h
    cases completed <;> cases h
  | error stop m₁ =>
    simp only [run, bind_of_error hinterpret] at h
    cases h
    exact interpret_ne_fault hinterpret

/-! ## A run in two parts -/

theorem run_append (fuel : Nat) (xs ys : List Node) :
    run fuel (xs ++ ys) = (do
      let completed ← run fuel xs
      if completed then run fuel ys else pure false) := by
  simp only [run, interpret_append, bind_assoc]
  congr 1
  funext completed
  cases completed with
  | true => exact (pure_bind true fun completed =>
      if completed then run fuel ys else (pure false : ExecM Bool)).symm
  | false => rfl

/-- After a run that came to its end, the longer run does what a run of the rest does. -/
theorem ends_run_append_iff {xs ys : List Node} {m between m' : Machine}
    {outcome : Except Fault Bool} (h : Ends (run · xs) m (.ok true) between) :
    Ends (run · (xs ++ ys)) m outcome m' ↔ Ends (run · ys) between outcome m' := by
  simp only [run_append]
  exact Ends.bind_iff (fuelMonotone_run xs) (fun completed => (fuelMonotone_run ys).ite completed _)
    h

theorem failed_of_ends_run {program : List Node} {m m' : Machine} {completed : Bool}
    (h : Ends (run · program) m (.ok completed) m') :
    m'.failed = true ↔ m.failed = true ∨ completed = false := by
  obtain ⟨fuel, hfuel⟩ := h
  obtain ⟨answer, m₁, hinterpret, hrecord⟩ := bind_eq_ok_iff.1 hfuel
  obtain ⟨hflag, rfl⟩ : m'.failed = m₁.failed ∧ completed = answer := by
    cases answer with
    | true =>
      cases hrecord
      exact ⟨rfl, rfl⟩
    | false =>
      cases hrecord
      exact ⟨rfl, rfl⟩
  rw [hflag]
  exact failed_of_interpret hinterpret

end ExecM

/-! ## Runs of a session -/

/-- The outlet after more was printed. -/
def Outlet.printing (c : Console) : Outlet → Outlet
  | own console => own (console ++ c)
  | shared => shared

/-- An interpreter that is active in its globals. -/
def Interpreter.fresh (globals : Nat) (outlet : Outlet) : Interpreter :=
  { globals, active := globals, outlet }

namespace Session

/-- The console behind an outlet. -/
def consoleOf (s : Session) : Outlet → Console
  | .own console => console
  | .shared => s.console

/-- The machine that a run begins on, but for what was printed before. -/
def runMachine (s : Session) (globals? : Option Nat) : Machine where
  store := globals?.elim (s.store.push none) fun _ => s.store
  active := globals?.getD s.store.size
  failed := false
  console := {}
  log := s.log

/-- The session with the interpreter of a run before it is run. -/
def beforeRun (s : Session) (globals? : Option Nat) (outlet : Outlet) : Session :=
  { s with
    store := (s.runMachine globals?).store
    interpreters := s.interpreters.push (.fresh (globals?.getD s.store.size) outlet) }

/-- The session that a run leaves, if it leaves its machine as given. -/
def afterRun (s : Session) (globals? : Option Nat) (outlet : Outlet) (m : Machine) :
    Session where
  store := m.store
  interpreters := s.interpreters.push
    { globals := globals?.getD s.store.size
      active := m.active
      failed := m.failed
      outlet := outlet.printing m.console }
  console := match outlet with
    | .own _ => s.console
    | .shared => s.console ++ m.console
  log := m.log

theorem consoleOf_afterRun (s : Session) (globals? : Option Nat) (outlet : Outlet) (m : Machine) :
    (s.afterRun globals? outlet m).consoleOf (outlet.printing m.console) =
      s.consoleOf outlet ++ m.console := by
  cases outlet <;> rfl

theorem newInterpreter_eq (globals? : Option Nat) (outlet : Outlet) (s : Session) :
    SessionM.newInterpreter globals? outlet s =
      .ok s.interpreters.size (s.beforeRun globals? outlet) := by
  cases globals? <;> rfl

/-- What the new interpreter does, it does on the machine of the run. -/
theorem onMachine_beforeRun {s : Session} {globals? : Option Nat} {outlet : Outlet}
    {action : ExecM Answer}
    (h : Lockstep (fun m m' => m' = m.printingAfter (s.consoleOf outlet)) action action) :
    SessionM.onMachine s.interpreters.size action (s.beforeRun globals? outlet) =
      match action (s.runMachine globals?) with
      | .ok answer m => .ok answer (s.afterRun globals? outlet m)
      | .error stop m => .error stop (s.afterRun globals? outlet m) := by
  have hmachine : (s.beforeRun globals? outlet).machine
      (.fresh (globals?.getD s.store.size) outlet) =
        (s.runMachine globals?).printingAfter (s.consoleOf outlet) := by
    cases outlet <;>
      simp [machine, beforeRun, runMachine, Machine.printingAfter, consoleOf, Interpreter.fresh]
  have hresume : ∀ m : Machine, (s.beforeRun globals? outlet).resume s.interpreters.size
      (.fresh (globals?.getD s.store.size) outlet) (m.printingAfter (s.consoleOf outlet)) =
        s.afterRun globals? outlet m := by
    intro m
    have hpush : ∀ first last : Interpreter,
        (s.interpreters.push first).setIfInBounds s.interpreters.size last =
          s.interpreters.push last := by grind
    cases outlet <;> simp only [resume, beforeRun, hpush] <;> rfl
  have hget : (s.beforeRun globals? outlet).interpreters[s.interpreters.size]? =
      some (.fresh (globals?.getD s.store.size) outlet) := Array.getElem?_push_size
  -- The interpreter begins on a console that may hold something; the machine of the run does not.
  simp only [SessionM.onMachine, hget, hmachine]
  rcases (h (s.runMachine globals?) _ rfl).cases with
    ⟨answer, m, _, hm, hm', rfl⟩ | ⟨stop, m, _, hm, hm', rfl⟩
  · simp only [hm, hm', hresume]
  · simp only [hm, hm', hresume]

/-- A run makes an interpreter, and it gives the number of this interpreter unless it runs out of
fuel. -/
theorem step_run (fuel : Nat) (program : List Node) (globals? : Option Nat) (outlet : Outlet)
    (s : Session) :
    step fuel (.run program globals? outlet) s =
      match ExecM.run fuel program (s.runMachine globals?) with
      | .ok _ m => .ok (.interpreter s.interpreters.size) (s.afterRun globals? outlet m)
      | .error stop m => .error stop (s.afterRun globals? outlet m) := by
  have hlock := (ExecM.lockstep_run (s.consoleOf outlet) fuel program).bind fun completed =>
    Lockstep.pure (Answer.completed completed)
  simp only [step]
  rw [bind_of_ok (newInterpreter_eq globals? outlet s)]
  cases hrun : ExecM.run fuel program (s.runMachine globals?) with
  | ok completed m =>
    refine bind_of_ok (a := .completed completed) ((onMachine_beforeRun hlock).trans ?_)
    rw [bind_of_ok hrun]
    rfl
  | error stop m =>
    refine bind_of_error ((onMachine_beforeRun hlock).trans ?_)
    rw [bind_of_error hrun]

section
variable {program xs ys : List Node} {globals? : Option Nat} {outlet o₁ o₂ o : Outlet}
  {s s₁ s₂ s' : Session} {interpreter first second whole : Interpreter}

/-- A run ends where the program does on the machine of the run, and with no fault. -/
theorem ends_step_run_iff {outcome : Except Fault Answer} :
    Ends (step · (.run program globals? outlet)) s outcome s' ↔
      ∃ completed m, Ends (ExecM.run · program) (s.runMachine globals?) (.ok completed) m ∧
        outcome = .ok (.interpreter s.interpreters.size) ∧ s' = s.afterRun globals? outlet m := by
  constructor
  · rintro ⟨fuel, hfuel⟩
    simp only [step_run] at hfuel
    cases hrun : ExecM.run fuel program (s.runMachine globals?) with
    | ok completed m =>
      rw [hrun] at hfuel
      obtain ⟨houtcome, hs⟩ := eq_of_ok_eq_endedIn hfuel
      exact ⟨completed, m, ⟨fuel, hrun⟩, houtcome, hs.symm⟩
    | error stop m =>
      rw [hrun] at hfuel
      cases outcome with
      | ok answer => cases hfuel
      | error fault =>
        cases hfuel
        exact absurd hrun ExecM.run_ne_fault
  · rintro ⟨completed, m, ⟨fuel, hrun⟩, rfl, rfl⟩
    refine ⟨fuel, ?_⟩
    simp only at hrun
    simp only [step_run, hrun]
    rfl

/-- A run terminates where the program does on the machine of the run. -/
theorem terminates_step_run_iff :
    Terminates (step · (.run program globals? outlet)) s ↔
      Terminates (ExecM.run · program) (s.runMachine globals?) := by
  constructor
  · rintro ⟨outcome, s', h⟩
    obtain ⟨completed, m, hrun, -⟩ := ends_step_run_iff.1 h
    exact ⟨.ok completed, m, hrun⟩
  · rintro ⟨outcome, m, hrun⟩
    cases outcome with
    | ok completed => exact ⟨_, _, ends_step_run_iff.2 ⟨completed, m, hrun, rfl, rfl⟩⟩
    | error fault =>
      obtain ⟨fuel, hfuel⟩ := hrun
      exact absurd hfuel ExecM.run_ne_fault

/-- A run of the program ends, and it leaves the interpreter and the second session. -/
structure Ran (program : List Node) (globals? : Option Nat) (outlet : Outlet) (s : Session)
    (interpreter : Interpreter) (s' : Session) : Prop where
  ends : Ends (step · (.run program globals? outlet)) s
    (.ok (.interpreter s.interpreters.size)) s'
  interpreter_eq : s'.interpreters[s.interpreters.size]? = some interpreter

theorem exists_ran_of_terminates
    (h : Terminates (step · (.run program globals? outlet)) s) :
    ∃ interpreter s', Ran program globals? outlet s interpreter s' := by
  obtain ⟨outcome, s', h⟩ := h
  obtain ⟨completed, m, hrun, rfl, rfl⟩ := ends_step_run_iff.1 h
  exact ⟨_, _, h, Array.getElem?_push_size⟩

/-- What a run leaves is read off the machine that the program leaves. -/
theorem Ran.exists_machine (h : Ran program globals? outlet s interpreter s') :
    ∃ completed m, Ends (ExecM.run · program) (s.runMachine globals?) (.ok completed) m ∧
      interpreter =
        ⟨globals?.getD s.store.size, m.active, m.failed, outlet.printing m.console, []⟩ ∧
      s' = s.afterRun globals? outlet m := by
  obtain ⟨completed, m, hrun, -, rfl⟩ := ends_step_run_iff.1 h.ends
  have hinterpreter := h.interpreter_eq
  simp only [afterRun, Array.getElem?_push_size, Option.some.injEq] at hinterpreter
  exact ⟨completed, m, hrun, hinterpreter.symm, rfl⟩

/-- After a run that came to its end, a run with the same globals begins where the first one
stopped, with nothing on its console yet. -/
theorem runMachine_afterRun {m : Machine}
    (h : Ends (ExecM.run · program) (s.runMachine globals?) (.ok true) m) (outlet : Outlet) :
    (s.afterRun globals? outlet m).runMachine (some (globals?.getD s.store.size)) =
      { m with console := {} } := by
  have hactive : m.active = globals?.getD s.store.size :=
    (h.leads fun fuel => ExecM.leads_run fuel program).active_eq
  have hfailed : m.failed = false := by
    have hflag := ExecM.failed_of_ends_run h
    simpa [runMachine] using hflag
  simp only [runMachine, afterRun, Option.elim_some, Option.getD_some, hactive, hfailed]

/-- After a run of the first part, a program in two parts does on the machine of the run what its
second part does on the machine of the next run, and has printed before what the first part
printed. -/
theorem ends_run_append_iff_afterRun {m m' : Machine} {outcome : Except Fault Bool}
    (h : Ends (ExecM.run · xs) (s.runMachine globals?) (.ok true) m) (outlet : Outlet) :
    Ends (ExecM.run · (xs ++ ys)) (s.runMachine globals?) outcome m' ↔
      ∃ m₂, Ends (ExecM.run · ys) ((s.afterRun globals? outlet m).runMachine
        (some (globals?.getD s.store.size))) outcome m₂ ∧ m' = m₂.printingAfter m.console := by
  -- The second part begins with what the first one printed on the console, the next run without.
  have hm : m = ({ m with console := {} } : Machine).printingAfter m.console := by
    simp only [Machine.printingAfter, Console.append_empty]
  rw [ExecM.ends_run_append_iff h, runMachine_afterRun h, ← ExecM.ends_run_printingAfter_iff, ← hm]

/-- Two runs, from the first session to the second and from there to the third, leave what another
run leaves from the first session to the last: the same frames and the same log, interpreters with
the same globals, active frame and fault flag; and what the two print joins up to what the other
one prints. -/
structure JoinUp (s s₁ s₂ s' : Session) (o₁ o₂ o : Outlet) (first second whole : Interpreter) :
    Prop where
  store_eq : s'.store = s₂.store
  log_eq : s'.log = s₂.log
  globals_first_eq : whole.globals = first.globals
  globals_second_eq : whole.globals = second.globals
  active_eq : whole.active = second.active
  failed_eq : whole.failed = second.failed
  printed : ∃ w₁ w₂, s₁.consoleOf first.outlet = s.consoleOf o₁ ++ w₁ ∧
    s₂.consoleOf second.outlet = s₁.consoleOf o₂ ++ w₂ ∧
    s'.consoleOf whole.outlet = s.consoleOf o ++ (w₁ ++ w₂)

/-- Two runs one after the other, the second with the globals of the first, join up to a run of
both programs in one, if the first one comes to its end. -/
theorem ran_append (hfirst : Ran xs globals? o₁ s first s₁) (hfailed : first.failed = false)
    (ys : List Node) (o₂ o : Outlet) :
    (Terminates (step · (.run ys (some first.globals) o₂)) s₁ ↔
      Terminates (step · (.run (xs ++ ys) globals? o)) s) ∧
    ∀ second s₂ whole s', Ran ys (some first.globals) o₂ s₁ second s₂ →
      Ran (xs ++ ys) globals? o s whole s' →
      JoinUp s s₁ s₂ s' o₁ o₂ o first second whole := by
  obtain ⟨completed, m, hrun, rfl, rfl⟩ := hfirst.exists_machine
  have hcompleted : completed = true := by
    cases completed with
    | true => rfl
    | false => exact absurd ((ExecM.failed_of_ends_run hrun).2 (.inr rfl)) (by simpa using hfailed)
  subst hcompleted
  refine ⟨?_, fun second s₂ whole s' hsecond hwhole => ?_⟩
  · rw [terminates_step_run_iff, terminates_step_run_iff]
    constructor
    · rintro ⟨outcome, m₂, hrun₂⟩
      exact ⟨outcome, _, (ends_run_append_iff_afterRun hrun o₁).2 ⟨m₂, hrun₂, rfl⟩⟩
    · rintro ⟨outcome, m', hrun'⟩
      obtain ⟨m₂, hrun₂, -⟩ := (ends_run_append_iff_afterRun hrun o₁).1 hrun'
      exact ⟨outcome, m₂, hrun₂⟩
  · obtain ⟨completed₂, m₂, hrun₂, rfl, rfl⟩ := hsecond.exists_machine
    obtain ⟨completed', m', hrun', rfl, rfl⟩ := hwhole.exists_machine
    obtain ⟨m₃, hrun₃, rfl⟩ := (ends_run_append_iff_afterRun hrun o₁).1 hrun'
    obtain ⟨-, rfl⟩ := hrun₂.unique (ExecM.fuelMonotone_run ys) hrun₃
    exact ⟨rfl, rfl, rfl, rfl, rfl, rfl, m.console, m₂.console, consoleOf_afterRun s globals? o₁ m,
      consoleOf_afterRun _ _ o₂ m₂, consoleOf_afterRun s globals? o _⟩

end

end Session

/-! ## Composition -/

/-- From every machine, a program in two parts does what its first part does if this is cut short,
and otherwise goes on with the second part; it is cut short by the first statement to raise a
fault, the effects until then stay, and the fault is all that is reported; the fault flag tells
whether any program was cut short; and a run goes on where a run of a first part, that came to its
end, left the globals. -/
theorem programs_compose (xs ys : List Node) (m : Machine) :
    (∀ m₁, Ends (ExecM.interpret · xs) m (.ok false) m₁ → ∀ outcome m',
      Ends (ExecM.interpret · (xs ++ ys)) m outcome m' ↔
        Ends (ExecM.interpret · xs) m outcome m') ∧
    (∀ m₁, Ends (ExecM.interpret · xs) m (.ok true) m₁ → ∀ outcome m',
      Ends (ExecM.interpret · (xs ++ ys)) m outcome m' ↔
        Ends (ExecM.interpret · ys) m₁ outcome m') ∧
    (∀ m', Ends (ExecM.interpret · xs) m (.ok false) m' ↔
      ∃ fault m₁, Node.CutShort xs m fault m₁ ∧ m' = m₁.fail fault ∧
        m'.console.err = m.console.err.push fault.report) ∧
    (∀ outcome m', Ends (ExecM.interpret · xs) m outcome m' → outcome ≠ .ok false →
      outcome = .ok true ∧ m'.console.err = m.console.err) ∧
    (∀ (programs : List (List Node)) (answers : List Bool) (m' : Machine),
      Ends (fun fuel => programs.mapM (ExecM.interpret fuel)) m (.ok answers) m' →
      (m'.failed = true ↔ m.failed = true ∨ false ∈ answers)) ∧
    ∀ (s s₁ : Session) (globals? : Option Nat) (o₁ o₂ o : Outlet) (first : Interpreter),
      s.Ran xs globals? o₁ first s₁ → first.failed = false →
      (Terminates (Session.step · (.run ys (some first.globals) o₂)) s₁ ↔
        Terminates (Session.step · (.run (xs ++ ys) globals? o)) s) ∧
      ∀ second s₂ whole s', s₁.Ran ys (some first.globals) o₂ second s₂ →
        s.Ran (xs ++ ys) globals? o whole s' →
        s.JoinUp s₁ s₂ s' o₁ o₂ o first second whole := by
  refine ⟨fun m₁ h => ExecM.ends_interpret_append_of_false h ys,
    fun m₁ h => ExecM.ends_interpret_append_of_true h ys, fun m' => ?_,
    fun outcome m' h hne => ?_, ?_,
    fun s s₁ globals? o₁ o₂ o first h hfailed => Session.ran_append h hfailed ys o₂ o⟩
  · refine ExecM.ends_interpret_false_iff.trans ⟨?_, ?_⟩
    · rintro ⟨fault, m₁, hcut, rfl⟩
      exact ⟨fault, m₁, hcut, rfl, ExecM.err_fail_of_cutShort hcut⟩
    · rintro ⟨fault, m₁, hcut, rfl, -⟩
      exact ⟨fault, m₁, hcut, rfl⟩
  · obtain ⟨completed, rfl⟩ := ExecM.exists_ok_of_ends_interpret h
    cases completed with
    | true => exact ⟨rfl, ExecM.err_of_ends_interpret_true h⟩
    | false => exact absurd rfl hne
  · rintro programs answers m' ⟨fuel, hfuel⟩
    exact ExecM.failed_of_mapM_interpret hfuel

/-- Declares a variable and prints it. -/
def declaringProgram : List Node :=
  [.varDecl (.bare "x") (some (.literal (.host (.string "a")))), .print (.var (.bare "x"))]

/-- Continues the string that the variable holds, prints it and fails. -/
def continuingProgram : List Node :=
  [ .print (.assign (.bare "x")
      (.binary (.var (.bare "x")) (.bare "+") (.literal (.host (.string "b"))))),
    .foreign "Unknown",
    .print (.var (.bare "x"))]

/-- On its own the second program would miss the variable; after the first one it prints, and its
report is the only one. -/
theorem programs_compose_continuingProgram :
    (∃ m', Ends (ExecM.interpret · (declaringProgram ++ continuingProgram))
        (({} : Session).runMachine none) (.ok false) m' ∧ m'.failed = true ∧
      m'.console = ⟨#["a\n", "ab\n"],
        #["LoxRuntimeError: Unsupported statement node Unknown\n"]⟩) ∧
    ∃ whole s', ({} : Session).Ran (declaringProgram ++ continuingProgram) none .shared whole s' ∧
      whole.failed = true ∧
      s'.consoleOf whole.outlet = ⟨#["a\n", "ab\n"],
        #["LoxRuntimeError: Unsupported statement node Unknown\n"]⟩ := by
  obtain ⟨-, hcompleted, -, -, -, hruns⟩ := programs_compose declaringProgram continuingProgram
    (({} : Session).runMachine none)
  constructor
  · obtain ⟨m₁, m', hfirst, hsecond, hfailed, hconsole⟩ : ∃ m₁ m',
        Ends (ExecM.interpret · declaringProgram) (({} : Session).runMachine none)
          (.ok true) m₁ ∧
        Ends (ExecM.interpret · continuingProgram) m₁ (.ok false) m' ∧ m'.failed = true ∧
        m'.console = ⟨#["a\n", "ab\n"],
          #["LoxRuntimeError: Unsupported statement node Unknown\n"]⟩ :=
      ⟨_, _, ⟨0, by with_unfolding_all rfl⟩, ⟨0, by with_unfolding_all rfl⟩, rfl,
        by with_unfolding_all rfl⟩
    exact ⟨m', (hcompleted m₁ hfirst _ m').2 hsecond, hfailed, hconsole⟩
  · obtain ⟨first, s₁, second, s₂, hfirst, hsecond, hok, hfailed, hout₁, hout₂⟩ :
        ∃ first s₁ second s₂, ({} : Session).Ran declaringProgram none (.own {}) first s₁ ∧
          s₁.Ran continuingProgram (some first.globals) (.own {}) second s₂ ∧
          first.failed = false ∧ second.failed = true ∧
          s₁.consoleOf first.outlet = ⟨#["a\n"], #[]⟩ ∧
          s₂.consoleOf second.outlet =
            ⟨#["ab\n"], #["LoxRuntimeError: Unsupported statement node Unknown\n"]⟩ :=
      ⟨_, _, _, _, ⟨⟨0, by with_unfolding_all rfl⟩, rfl⟩, ⟨⟨0, by with_unfolding_all rfl⟩, rfl⟩,
        rfl, rfl, rfl, rfl⟩
    obtain ⟨hiff, hsame⟩ := hruns {} s₁ none (.own {}) (.own {}) .shared first hfirst hok
    obtain ⟨whole, s', hwhole⟩ := Session.exists_ran_of_terminates (hiff.1 ⟨_, s₂, hsecond.ends⟩)
    obtain ⟨-, -, -, -, -, hflag, w₁, w₂, hw₁, hw₂, hw⟩ := hsame second s₂ whole s' hsecond hwhole
    have hprinted₁ : w₁ = ⟨#["a\n"], #[]⟩ := by
      simpa [Session.consoleOf] using hw₁.symm.trans hout₁
    have hprinted₂ : w₂ = ⟨#["ab\n"],
        #["LoxRuntimeError: Unsupported statement node Unknown\n"]⟩ := by
      simpa [Session.consoleOf] using hw₂.symm.trans hout₂
    exact ⟨whole, s', hwhole, by rw [hflag, hfailed], by rw [hw, hprinted₁, hprinted₂]; rfl⟩

end Lox
