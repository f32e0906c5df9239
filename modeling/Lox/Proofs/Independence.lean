import Lox.Proofs.Runs
import Lox.Proofs.Scopes.Refinement
import Mathlib.Logic.Function.Basic

/-!
# Independent interpreters

All that a program does depends on the scopes that its interpreter sees, on the fault flag and on
the console; together they are the workspace of the interpreter.  Interpreters with consoles of
their own, and with no frame in common on the chains of their active frames, have workspaces that
nobody else works on.  Then it makes no difference in which order the programs of different
interpreters are executed, as long as each interpreter gets its own programs in order.
-/

namespace Lox

/-! ## Labelled calls -/

/-- Execute programs one after the other.  In front of each program stands the number of the
interpreter that executes it; the number stands in front of the answer too. -/
def answerAll {σ : Type} (answer : Nat → List Node → EStateM Stop σ Answer)
    (calls : List (Nat × List Node)) : EStateM Stop σ (List (Nat × Answer)) :=
  calls.mapM fun (k, program) => do
    let given ← answer k program
    pure (k, given)

section
variable {σ : Type} {answer : Nat → List Node → EStateM Stop σ Answer}
  {calls : List (Nat × List Node)} {k : Nat} {program : List Node} {s s' : σ}

theorem answerAll_cons :
    answerAll answer ((k, program) :: calls) = (do
      let given ← answer k program
      let rest ← answerAll answer calls
      pure ((k, given) :: rest)) := by
  simp only [answerAll, List.mapM_cons, bind_assoc, pure_bind]

theorem answerAll_cons_eq_ok_iff {answers : List (Nat × Answer)} :
    answerAll answer ((k, program) :: calls) s = .ok answers s' ↔
      ∃ given s₁ rest, answer k program s = .ok given s₁ ∧ answerAll answer calls s₁ = .ok rest s' ∧
        answers = (k, given) :: rest := by
  rw [answerAll_cons]
  constructor
  · intro h
    obtain ⟨given, s₁, hgiven, h⟩ := bind_eq_ok_iff.1 h
    obtain ⟨rest, s₂, hrest, h⟩ := bind_eq_ok_iff.1 h
    cases h
    exact ⟨given, s₁, rest, hgiven, hrest, rfl⟩
  · rintro ⟨given, s₁, rest, hgiven, hrest, rfl⟩
    rw [bind_of_ok hgiven, bind_of_ok hrest]
    rfl

/-- Where no program is a fault, many are none. -/
theorem answerAll_ne_fault
    (h : ∀ k program s fault s', answer k program s ≠ .error (.fault fault) s') {fault : Fault} :
    answerAll answer calls s ≠ .error (.fault fault) s' := by
  induction calls generalizing s with
  | nil => exact nofun
  | cons call rest ih =>
    obtain ⟨k, program⟩ := call
    rw [answerAll_cons]
    intro heq
    cases hfirst : answer k program s with
    | ok given s₁ =>
      rw [bind_of_ok hfirst] at heq
      cases hrest : answerAll answer rest s₁ with
      | ok answers s₂ =>
        rw [bind_of_ok hrest] at heq
        cases heq
      | error stop s₂ =>
        rw [bind_of_error hrest] at heq
        cases heq
        exact ih hrest
    | error stop s₁ =>
      rw [bind_of_error hfirst] at heq
      cases heq
      exact h k program s fault s' hfirst

theorem fuelMonotone_answerAll {answer : Nat → Nat → List Node → EStateM Stop σ Answer}
    (h : ∀ k program, FuelMonotone fun fuel => answer fuel k program)
    (calls : List (Nat × List Node)) :
    FuelMonotone fun fuel => answerAll (answer fuel) calls := by
  intro fuel more hle
  induction calls with
  | nil => exact Approximates.refl _
  | cons call rest ih =>
    obtain ⟨k, program⟩ := call
    simp only [answerAll_cons]
    exact (h k program fuel more hle).bind fun given => ih.bind fun answers => .refl _

end

/-- What is for one interpreter is for no other one. -/
theorem filter_filter_label (calls : List (Nat × List Node)) (i k : Nat) :
    (calls.filter (·.1 = i)).filter (·.1 = k) = if i = k then calls.filter (·.1 = k) else [] := by
  rw [List.filter_filter]
  split
  · next h =>
    subst h
    simp
  · next h =>
    refine List.filter_eq_nil_iff.2 fun call _ hboth => h ?_
    simp only [Bool.and_eq_true, decide_eq_true_eq] at hboth
    exact hboth.2.symm.trans hboth.1

/-! ## Workspaces -/

/-- What an interpreter works on: the scopes that it sees, its fault flag and its console. -/
structure Workspace where
  scopes : Scopes
  failed : Bool
  console : Console

namespace Workspace

/-- The workspace after statements left these scopes and printed these pieces. -/
def after (w : Workspace) (state : Scopes.State) : Workspace where
  scopes := state.scopes
  failed := w.failed
  console := ⟨w.console.out ++ state.printed, w.console.err⟩

/-- Take note of the fault that ended a program, and report it. -/
def fail (fault : Fault) (w : Workspace) : Workspace where
  scopes := w.scopes
  failed := true
  console := ⟨w.console.out, w.console.err.push fault.report⟩

/-- Execute a program on a workspace. -/
def interpret (fuel : Nat) (program : List Node) : EStateM Stop Workspace Bool := fun w =>
  match Scopes.execAll fuel program ⟨w.scopes, #[]⟩ with
  | .ok () state => .ok true (w.after state)
  | .error (.fault fault) state => .ok false ((w.after state).fail fault)
  | .error .outOfFuel state => .error .outOfFuel (w.after state)

/-- The answer to a program on a workspace. -/
def answer (fuel : Nat) (program : List Node) : EStateM Stop Workspace Answer := do
  let completed ← interpret fuel program
  pure (.completed completed)

end Workspace

/-- The machine works on the workspace: it has the given frame active, its store shows the scopes,
and the fault flag and the console are those of the workspace. -/
structure Machine.WorksOn (s₀ : Store) (f : Nat) (m : Machine) (w : Workspace) : Prop where
  active_eq : m.active = f
  store : s₀.Shows f m.store w.scopes
  failed_eq : m.failed = w.failed
  console_eq : m.console = w.console

/-- What statements leave on a machine that works on a workspace. -/
theorem Machine.WorksOn.after {s₀ : Store} {f : Nat} {m m' : Machine} {w : Workspace}
    {state : Scopes.State} (h : m.WorksOn s₀ f w) (hshows : m'.Shows s₀ f m.console.out state)
    (hkeeps : m.Keeps m') : m'.WorksOn s₀ f (w.after state) where
  active_eq := hshows.active_eq
  store := hshows.store
  failed_eq := hkeeps.failed_eq.trans h.failed_eq
  console_eq := by
    have herr := hkeeps.err_eq
    have hout := hshows.out_eq
    rw [h.console_eq] at herr hout
    exact Console.ext hout herr

/-- A program does to a machine what it does to the workspace. -/
theorem ExecM.lockstep_workspace {s₀ : Store} {f : Nat} (hf : f < s₀.size) (fuel : Nat)
    (program : List Node) :
    Lockstep (Machine.WorksOn s₀ f) (interpret fuel program)
      (Workspace.interpret fuel program) := by
  intro m w h
  have himplements : Implements (Node.execAll fuel program) (Scopes.execAll fuel program) :=
    Implements.execAll fun statement _ => statement.implements_exec fuel
  have hexec := himplements s₀ f m.console.out hf m ⟨w.scopes, #[]⟩
    ⟨h.active_eq, h.store, Array.append_empty.symm⟩
  have hkeeps := Node.leads_execAll fuel program m
  rcases hexec.cases with ⟨a, m', state, hm, hw, hshows⟩ | ⟨stop, m', state, hm, hw, hshows⟩
  · rw [hm, finalState_ok] at hkeeps
    simp only [interpret, Workspace.interpret, hm, hw]
    exact ⟨rfl, h.after hshows hkeeps⟩
  · rw [hm, finalState_error] at hkeeps
    have hafter := h.after hshows hkeeps
    cases stop with
    | outOfFuel =>
      simp only [interpret, Workspace.interpret, hm, hw]
      exact ⟨rfl, hafter⟩
    | fault fault =>
      simp only [interpret, Workspace.interpret, hm, hw]
      refine ⟨rfl, hafter.active_eq, hafter.store, rfl, ?_⟩
      simp only [Machine.fail, Workspace.fail, ← hafter.console_eq]

/-! ## Sessions -/

namespace Session

/-- Execute programs one after the other, each with the interpreter of its number. -/
def interpretAll (fuel : Nat) : List (Nat × List Node) → SessionM (List (Nat × Answer)) :=
  answerAll fun k program => step fuel (.interpret k program)

/-- The interpreters with the given numbers share nothing: each has a console of its own, and no
frame is on the chains of the active frames of two of them. -/
structure Separate (s : Session) (ks : List Nat) : Prop where
  exists_own : ∀ k ∈ ks, ∃ interpreter console, s.interpreters[k]? = some interpreter ∧
    interpreter.outlet = .own console ∧ interpreter.active < s.store.size
  disjoint : ∀ k ∈ ks, ∀ l ∈ ks, k ≠ l → ∀ first second, s.interpreters[k]? = some first →
    s.interpreters[l]? = some second →
      ∀ f ∈ s.store.chain first.active, f ∉ s.store.chain second.active

/-- The second session has got from the first one to a state in which the interpreters with the
given numbers have the given workspaces, and nothing but their workspaces has changed. -/
structure Hosts (s₀ : Session) (ks : List Nat) (s : Session) (w : Nat → Workspace) : Prop where
  grows : s₀.store.Grows s.store
  scopes_eq : ∀ k ∈ ks, ∀ interpreter, s₀.interpreters[k]? = some interpreter →
    (s₀.store.chain interpreter.active).map s.store.bindings = (w k).scopes
  untouched : ∀ f < s₀.store.size, (∀ k ∈ ks, ∀ interpreter,
    s₀.interpreters[k]? = some interpreter → f ∉ s₀.store.chain interpreter.active) →
      s.store.bindings f = s₀.store.bindings f
  interpreter_eq : ∀ k ∈ ks, ∀ interpreter, s₀.interpreters[k]? = some interpreter →
    s.interpreters[k]? =
      some { interpreter with failed := (w k).failed, outlet := .own (w k).console }
  other_eq : ∀ k, k ∉ ks → s.interpreters[k]? = s₀.interpreters[k]?
  console_eq : s.console = s₀.console

/-- The workspace of an interpreter. -/
def workspace (s : Session) (k : Nat) : Workspace :=
  match s.interpreters[k]? with
  | some interpreter =>
    ⟨s.store.scopes interpreter.active, interpreter.failed, s.consoleOf interpreter.outlet⟩
  | none => ⟨[], false, {}⟩

section
variable {s₀ s s₁ s₂ : Session} {ks : List Nat} {w : Nat → Workspace}

/-- A session hosts the workspaces of its own interpreters. -/
theorem Separate.hosts (h : s.Separate ks) : s.Hosts ks s s.workspace where
  grows := .refl _
  scopes_eq := by
    intro k _ interpreter hget
    simp only [workspace, hget]
    rfl
  untouched := fun _ _ _ => rfl
  interpreter_eq := by
    intro k hk interpreter hget
    obtain ⟨_, console, hget', hown, -⟩ := h.exists_own k hk
    cases hget.symm.trans hget'
    simp only [workspace, hget, hown, consoleOf, Option.some.injEq]
    rw [← hown]
  other_eq := fun _ _ => rfl
  console_eq := rfl

/-- The session after one of the interpreters has worked on its workspace. -/
theorem Hosts.resume {k : Nat} {interpreter : Interpreter} {m : Machine} {w' : Workspace}
    (h : s₀.Hosts ks s w) (hs : s₀.Separate ks) (hk : k ∈ ks)
    (hget : s₀.interpreters[k]? = some interpreter)
    (hm : m.WorksOn s.store interpreter.active w') :
    s₀.Hosts ks
      (s.resume k { interpreter with failed := (w k).failed, outlet := .own (w k).console } m)
      (Function.update w k w') := by
  have hlt : ∀ l ∈ ks, ∀ other, s₀.interpreters[l]? = some other →
      other.active < s₀.store.size := by
    intro l hl other hother
    obtain ⟨_, _, hget', -, hactive⟩ := hs.exists_own l hl
    cases hother.symm.trans hget'
    exact hactive
  have hchain := Store.chain_of_grows h.grows (hlt k hk interpreter hget)
  have hoff : ∀ f < s₀.store.size, f ∉ s₀.store.chain interpreter.active →
      m.store.bindings f = s.store.bindings f := fun f hf hmem =>
    hm.store.untouched f (Nat.lt_of_lt_of_le hf h.grows.size_le) (by rwa [hchain])
  constructor
  case grows => exact h.grows.trans hm.store.grows
  case scopes_eq =>
    intro l hl other hother
    by_cases hlk : l = k
    · subst hlk
      cases hget.symm.trans hother
      rw [Function.update_self, ← hm.store.scopes_eq, hchain]
      rfl
    · rw [Function.update_of_ne hlk, ← h.scopes_eq l hl other hother]
      refine List.map_congr_left fun f hf => hoff f ?_ ?_
      · exact Store.lt_size_of_mem_chain (hlt l hl other hother) hf
      · exact hs.disjoint l hl k hk hlk other interpreter hother hget f hf
  case untouched =>
    intro f hf hmem
    exact (hoff f hf (hmem k hk interpreter hget)).trans (h.untouched f hf hmem)
  case interpreter_eq =>
    intro l hl other hother
    by_cases hlk : l = k
    · subst hlk
      cases hget.symm.trans hother
      have hbound := (Array.getElem?_eq_some_iff.1 (h.interpreter_eq l hl interpreter hget)).1
      simp [Session.resume, hbound, hm.active_eq, hm.failed_eq,
        hm.console_eq]
    · rw [Function.update_of_ne hlk, ← h.interpreter_eq l hl other hother]
      exact Array.getElem?_setIfInBounds_ne (Ne.symm hlk)
  case other_eq =>
    intro l hl
    have hlk : k ≠ l := by
      rintro rfl
      exact hl hk
    rw [← h.other_eq l hl]
    exact Array.getElem?_setIfInBounds_ne hlk
  case console_eq => exact h.console_eq

/-- A program in a session does what it does on the workspace of its interpreter. -/
theorem Hosts.step {k : Nat} (h : s₀.Hosts ks s w) (hs : s₀.Separate ks) (hk : k ∈ ks) (fuel : Nat)
    (program : List Node) :
    SameEnd (fun s' w' => s₀.Hosts ks s' (Function.update w k w'))
      (Session.step fuel (.interpret k program) s)
      (Workspace.answer fuel program (w k)) := by
  obtain ⟨interpreter, _, hget, -, hactive⟩ := hs.exists_own k hk
  have hcurrent := h.interpreter_eq k hk interpreter hget
  have hworks : (s.machine { interpreter with
      failed := (w k).failed, outlet := .own (w k).console }).WorksOn s.store interpreter.active
      (w k) := by
    refine ⟨rfl, ?_, rfl, rfl⟩
    have hscopes : s.store.scopes interpreter.active = (w k).scopes := by
      rw [Store.scopes, Store.chain_of_grows h.grows hactive, h.scopes_eq k hk interpreter hget]
    rw [← hscopes]
    exact Store.Shows.refl s.store interpreter.active
  have hlt : interpreter.active < s.store.size := Nat.lt_of_lt_of_le hactive h.grows.size_le
  have hlock := ((ExecM.lockstep_workspace hlt fuel program).bind fun completed =>
    Lockstep.pure (Answer.completed completed)) _ _ hworks
  simp only [Session.step, SessionM.onMachine, hcurrent]
  rcases hlock.cases with ⟨given, m, w', hm, hw, hworks'⟩ | ⟨stop, m, w', hm, hw, hworks'⟩
  · rw [hm, Workspace.answer, hw]
    exact ⟨rfl, h.resume hs hk hget hworks'⟩
  · rw [hm, Workspace.answer, hw]
    exact ⟨rfl, h.resume hs hk hget hworks'⟩

/-- Programs that come to an answer each in a session do so on the workspaces of their interpreters,
with the same answers. -/
theorem Hosts.interpretAll_of_ok (h : s₀.Hosts ks s w) (hs : s₀.Separate ks) {fuel : Nat}
    {calls : List (Nat × List Node)} (hcalls : ∀ call ∈ calls, call.1 ∈ ks)
    {answers : List (Nat × Answer)} {s' : Session}
    (hrun : interpretAll fuel calls s = .ok answers s') :
    ∃ w', s₀.Hosts ks s' w' ∧ ∀ k ∈ ks,
      answerAll (fun _ => Workspace.answer fuel) (calls.filter (·.1 = k)) (w k) =
        .ok (answers.filter (·.1 = k)) (w' k) := by
  induction calls generalizing s w answers with
  | nil =>
    cases hrun
    exact ⟨w, h, fun k _ => rfl⟩
  | cons call rest ih =>
    obtain ⟨k, program⟩ := call
    obtain ⟨hk, hrest⟩ := List.forall_mem_cons.1 hcalls
    obtain ⟨given, s₁, answers, hfirst, hlater, rfl⟩ := answerAll_cons_eq_ok_iff.1 hrun
    have hstep := h.step hs hk fuel program
    rw [hfirst] at hstep
    obtain ⟨_, _, w₁, heq, hw, hhosts⟩ | ⟨_, _, _, heq, -⟩ := hstep.cases
    · cases heq
      obtain ⟨w', hhosts', hworks⟩ := ih hhosts hrest hlater
      refine ⟨w', hhosts', fun l hl => ?_⟩
      have hl' := hworks l hl
      by_cases hlk : k = l
      · subst hlk
        rw [Function.update_self] at hl'
        simp only [List.filter_cons_of_pos, decide_true]
        exact answerAll_cons_eq_ok_iff.2 ⟨given, w₁, _, hw, hl', rfl⟩
      · rw [Function.update_of_ne (Ne.symm hlk)] at hl'
        simpa [List.filter_cons, hlk] using hl'
    · cases heq

/-- Programs come to an answer each in a session if they do so on the workspaces of their
interpreters. -/
theorem Hosts.exists_interpretAll (h : s₀.Hosts ks s w) (hs : s₀.Separate ks) {fuel : Nat}
    {calls : List (Nat × List Node)} (hcalls : ∀ call ∈ calls, call.1 ∈ ks)
    (hworks : ∀ k ∈ ks, ∃ answers w',
      answerAll (fun _ => Workspace.answer fuel) (calls.filter (·.1 = k)) (w k) = .ok answers w') :
    ∃ answers s', interpretAll fuel calls s = .ok answers s' := by
  induction calls generalizing s w with
  | nil => exact ⟨[], s, rfl⟩
  | cons call rest ih =>
    obtain ⟨k, program⟩ := call
    obtain ⟨hk, hrest⟩ := List.forall_mem_cons.1 hcalls
    obtain ⟨_, w', hall⟩ := hworks k hk
    simp only [List.filter_cons_of_pos, decide_true] at hall
    obtain ⟨given, w₁, rest', hfirst, hlater, -⟩ := answerAll_cons_eq_ok_iff.1 hall
    have hstep := h.step hs hk fuel program
    rw [hfirst] at hstep
    obtain ⟨_, s₁, _, hstep, heq, hhosts⟩ | ⟨_, _, _, -, heq, -⟩ := hstep.cases
    · cases heq
      obtain ⟨answers, s', hanswers⟩ := ih hhosts hrest fun l hl => by
        by_cases hlk : k = l
        · subst hlk
          rw [Function.update_self]
          exact ⟨_, _, hlater⟩
        · have hl' := hworks l hl
          rw [Function.update_of_ne (Ne.symm hlk)]
          simpa [List.filter_cons, hlk] using hl'
      exact ⟨_, s', answerAll_cons_eq_ok_iff.2 ⟨_, s₁, answers, hstep, hanswers, rfl⟩⟩
    · cases heq

/-- Two sessions have the same interpreters, which printed and reported the same, and all frames of
an earlier session are the same in both. -/
structure AgreeSince (s₀ s₁ s₂ : Session) : Prop where
  interpreters_eq : s₁.interpreters = s₂.interpreters
  console_eq : s₁.console = s₂.console
  frames_eq : ∀ f < s₀.store.size, s₁.store.frames[f]? = s₂.store.frames[f]?

/-- What a session hosts says all that can be seen of it. -/
theorem Hosts.agreeSince {w₁ w₂ : Nat → Workspace} (h₁ : s₀.Hosts ks s₁ w₁)
    (h₂ : s₀.Hosts ks s₂ w₂) (hs : s₀.Separate ks) (hw : ∀ k ∈ ks, w₁ k = w₂ k) :
    s₀.AgreeSince s₁ s₂ := by
  constructor
  case interpreters_eq =>
    refine Array.ext_getElem? fun k => ?_
    by_cases hk : k ∈ ks
    · obtain ⟨interpreter, _, hget, -⟩ := hs.exists_own k hk
      rw [h₁.interpreter_eq k hk interpreter hget, h₂.interpreter_eq k hk interpreter hget, hw k hk]
    · rw [h₁.other_eq k hk, h₂.other_eq k hk]
  case console_eq => rw [h₁.console_eq, h₂.console_eq]
  case frames_eq =>
    intro f hf
    have hbindings : s₁.store.bindings f = s₂.store.bindings f := by
      by_cases hon : ∃ k ∈ ks, ∃ interpreter, s₀.interpreters[k]? = some interpreter ∧
        f ∈ s₀.store.chain interpreter.active
      · obtain ⟨k, hk, interpreter, hget, hmem⟩ := hon
        have hscopes := (h₁.scopes_eq k hk interpreter hget).trans
          ((congrArg Workspace.scopes (hw k hk)).trans (h₂.scopes_eq k hk interpreter hget).symm)
        exact List.map_inj_left.1 hscopes f hmem
      · have hoff : ∀ k ∈ ks, ∀ interpreter, s₀.interpreters[k]? = some interpreter →
            f ∉ s₀.store.chain interpreter.active := fun k hk interpreter hget hmem =>
          hon ⟨k, hk, interpreter, hget, hmem⟩
        rw [h₁.untouched f hf hoff, h₂.untouched f hf hoff]
    refine Store.frames_eq_of ?_ ?_ ?_ hbindings
    · exact Nat.lt_of_lt_of_le hf h₂.grows.size_le
    · exact Nat.lt_of_lt_of_le hf h₁.grows.size_le
    · rw [h₁.grows.parent?_eq f hf, h₂.grows.parent?_eq f hf]

/-- With an amount of fuel, separate interpreters get through all of their programs, in whatever
order they take turns, if and only if each gets through its own programs alone. -/
theorem Separate.exists_interpretAll_iff (hs : s.Separate ks) {calls : List (Nat × List Node)}
    (hcalls : ∀ call ∈ calls, call.1 ∈ ks) (fuel : Nat) :
    (∃ answers s', interpretAll fuel calls s = .ok answers s') ↔
      ∀ k ∈ ks, ∃ answers s', interpretAll fuel (calls.filter (·.1 = k)) s = .ok answers s' := by
  constructor
  · rintro ⟨answers, s', hrun⟩ k hk
    obtain ⟨w', -, hworks⟩ := hs.hosts.interpretAll_of_ok hs hcalls hrun
    refine hs.hosts.exists_interpretAll hs
      (fun call hmem => hcalls call (List.mem_filter.1 hmem).1) fun l hl => ?_
    rw [filter_filter_label]
    split
    · exact ⟨_, _, hworks l hl⟩
    · exact ⟨[], _, rfl⟩
  · intro halone
    refine hs.hosts.exists_interpretAll hs hcalls fun k hk => ?_
    obtain ⟨answers, s', hrun⟩ := halone k hk
    obtain ⟨w', -, hworks⟩ := hs.hosts.interpretAll_of_ok hs
      (fun call hmem => hcalls call (List.mem_filter.1 hmem).1) hrun
    have hwork := hworks k hk
    rw [filter_filter_label, if_pos rfl] at hwork
    exact ⟨_, _, hwork⟩

/-- Separate interpreters do not notice in which order they take turns, as long as each gets its
own programs in order. -/
theorem Separate.agree (hs : s.Separate ks) {calls calls' : List (Nat × List Node)}
    (hcalls : ∀ call ∈ calls, call.1 ∈ ks) (hcalls' : ∀ call ∈ calls', call.1 ∈ ks)
    (hsame : ∀ k ∈ ks, calls.filter (·.1 = k) = calls'.filter (·.1 = k)) {fuel : Nat}
    {answers : List (Nat × Answer)} (hrun : interpretAll fuel calls s = .ok answers s₁) :
    ∃ answers' s₂, interpretAll fuel calls' s = .ok answers' s₂ ∧
      (∀ k ∈ ks, answers.filter (·.1 = k) = answers'.filter (·.1 = k)) ∧ s.AgreeSince s₁ s₂ := by
  obtain ⟨w₁, hhosts₁, hworks₁⟩ := hs.hosts.interpretAll_of_ok hs hcalls hrun
  obtain ⟨answers', s₂, hrun'⟩ := hs.hosts.exists_interpretAll hs hcalls' fun k hk =>
    ⟨_, _, (congrArg (fun own => answerAll (fun _ => Workspace.answer fuel) own (s.workspace k))
      (hsame k hk)).symm.trans (hworks₁ k hk)⟩
  obtain ⟨w₂, hhosts₂, hworks₂⟩ := hs.hosts.interpretAll_of_ok hs hcalls' hrun'
  have hequal : ∀ k ∈ ks, answers.filter (·.1 = k) = answers'.filter (·.1 = k) ∧ w₁ k = w₂ k := by
    intro k hk
    have hwork := hworks₁ k hk
    rw [hsame k hk, hworks₂ k hk] at hwork
    obtain ⟨hanswers, hw⟩ := EStateM.Result.ok.inj hwork
    exact ⟨hanswers.symm, hw.symm⟩
  exact ⟨answers', s₂, hrun', fun k hk => (hequal k hk).1,
    hhosts₁.agreeSince hhosts₂ hs fun k hk => (hequal k hk).2⟩

end

/-! ## Fuel and faults -/

theorem fuelMonotone_step_interpret (k : Nat) (program : List Node) :
    FuelMonotone fun fuel => step fuel (.interpret k program) := by
  intro fuel more hle s
  have happrox := (ExecM.fuelMonotone_interpret program fuel more hle).bind fun completed =>
    Approximates.refl (pure (Answer.completed completed))
  simp only [step, SessionM.onMachine]
  cases s.interpreters[k]? with
  | none => exact .inr rfl
  | some interpreter =>
    dsimp only
    rcases happrox (s.machine interpreter) with ⟨m, hm⟩ | hm
    · rw [hm]
      exact .inl ⟨_, rfl⟩
    · rw [hm]
      exact .inr rfl

theorem fuelMonotone_interpretAll (calls : List (Nat × List Node)) :
    FuelMonotone fun fuel => interpretAll fuel calls :=
  fuelMonotone_answerAll fuelMonotone_step_interpret calls

/-- No fault gets out of a program in a session. -/
theorem step_interpret_ne_fault (fuel k : Nat) (program : List Node) (s : Session) (fault : Fault)
    (s' : Session) : step fuel (.interpret k program) s ≠ .error (.fault fault) s' := by
  simp only [step, SessionM.onMachine]
  cases s.interpreters[k]? with
  | none =>
    intro h
    cases h
  | some interpreter =>
    dsimp only
    cases hrun : ExecM.interpret fuel program (s.machine interpreter) with
    | ok completed m =>
      rw [bind_of_ok hrun]
      intro h
      cases h
    | error stop m =>
      rw [bind_of_error hrun]
      intro h
      cases h
      exact ExecM.interpret_ne_fault hrun

theorem exists_ok_of_ends_interpretAll {calls : List (Nat × List Node)} {s s' : Session}
    {outcome : Except Fault (List (Nat × Answer))}
    (h : Ends (interpretAll · calls) s outcome s') : ∃ answers, outcome = .ok answers := by
  obtain ⟨fuel, hfuel⟩ := h
  cases outcome with
  | ok answers => exact ⟨answers, rfl⟩
  | error fault => exact absurd hfuel (answerAll_ne_fault (step_interpret_ne_fault fuel))

theorem terminates_interpretAll_iff {calls : List (Nat × List Node)} {s : Session} :
    Terminates (interpretAll · calls) s ↔
      ∃ fuel answers s', interpretAll fuel calls s = .ok answers s' := by
  constructor
  · rintro ⟨outcome, s', h⟩
    obtain ⟨answers, rfl⟩ := exists_ok_of_ends_interpretAll h
    obtain ⟨fuel, hfuel⟩ := h
    exact ⟨fuel, answers, s', hfuel⟩
  · rintro ⟨fuel, answers, s', h⟩
    exact ⟨.ok answers, s', fuel, h⟩

/-- Two interpreters with consoles of their own, whose active frames have no frame in common on
their chains, take turns: each of the calls is for one of the two.  In every order of the turns
both get to the end of their programs if and only if each does alone.  Then they give the answers
and leave the output, the reports, the fault flags, the active frames and the frames of before that
they do when the second one waits for the first one to be through. -/
theorem interleavings_agree (s : Session) (i j : Nat) (hij : i ≠ j) (hs : s.Separate [i, j])
    (calls : List (Nat × List Node)) (hcalls : ∀ call ∈ calls, call.1 ∈ [i, j]) :
    (Terminates (interpretAll · calls) s ↔
      Terminates (interpretAll · (calls.filter (·.1 = i))) s ∧
      Terminates (interpretAll · (calls.filter (·.1 = j))) s) ∧
    (Terminates (interpretAll · calls) s ↔
      Terminates (interpretAll · (calls.filter (·.1 = i) ++ calls.filter (·.1 = j))) s) ∧
    ∀ outcome s₁ outcome' s₂, Ends (interpretAll · calls) s outcome s₁ →
      Ends (interpretAll · (calls.filter (·.1 = i) ++ calls.filter (·.1 = j))) s outcome' s₂ →
      ∃ answers answers', outcome = .ok answers ∧ outcome' = .ok answers' ∧
        (∀ k ∈ [i, j], answers.filter (·.1 = k) = answers'.filter (·.1 = k)) ∧
        s.AgreeSince s₁ s₂ := by
  have hinOrder : ∀ call ∈ calls.filter (·.1 = i) ++ calls.filter (·.1 = j),
      call.1 ∈ [i, j] := by
    intro call hmem
    rw [List.mem_append, List.mem_filter, List.mem_filter] at hmem
    exact hmem.elim (fun h => hcalls call h.1) fun h => hcalls call h.1
  have hsame : ∀ k ∈ [i, j], calls.filter (·.1 = k) =
      (calls.filter (·.1 = i) ++ calls.filter (·.1 = j)).filter (·.1 = k) := by
    intro k hk
    rw [List.filter_append, filter_filter_label, filter_filter_label]
    simp only [List.mem_cons, List.not_mem_nil, or_false] at hk
    rcases hk with rfl | rfl
    · rw [if_pos rfl, if_neg (Ne.symm hij), List.append_nil]
    · rw [if_neg hij, if_pos rfl, List.nil_append]
  refine ⟨?_, ?_, ?_⟩
  · constructor
    · intro h
      obtain ⟨fuel, hrun⟩ := terminates_interpretAll_iff.1 h
      have halone := (hs.exists_interpretAll_iff hcalls fuel).1 hrun
      exact ⟨terminates_interpretAll_iff.2 ⟨fuel, halone i (by simp)⟩,
        terminates_interpretAll_iff.2 ⟨fuel, halone j (by simp)⟩⟩
    · rintro ⟨⟨outcome₁, s₁, h₁⟩, outcome₂, s₂, h₂⟩
      obtain ⟨answers₁, rfl⟩ := exists_ok_of_ends_interpretAll h₁
      obtain ⟨answers₂, rfl⟩ := exists_ok_of_ends_interpretAll h₂
      obtain ⟨n₁, hn₁⟩ := h₁.exists_forall_le (fuelMonotone_interpretAll _)
      obtain ⟨n₂, hn₂⟩ := h₂.exists_forall_le (fuelMonotone_interpretAll _)
      refine terminates_interpretAll_iff.2
        ⟨max n₁ n₂, (hs.exists_interpretAll_iff hcalls _).2 fun k hk => ?_⟩
      simp only [List.mem_cons, List.not_mem_nil, or_false] at hk
      rcases hk with rfl | rfl
      · exact ⟨answers₁, s₁, hn₁ _ (Nat.le_max_left n₁ n₂)⟩
      · exact ⟨answers₂, s₂, hn₂ _ (Nat.le_max_right n₁ n₂)⟩
  · rw [terminates_interpretAll_iff, terminates_interpretAll_iff]
    constructor
    · rintro ⟨fuel, answers, s₁, hrun⟩
      obtain ⟨answers', s₂, hrun', -⟩ := hs.agree hcalls hinOrder hsame hrun
      exact ⟨fuel, answers', s₂, hrun'⟩
    · rintro ⟨fuel, answers, s₁, hrun⟩
      obtain ⟨answers', s₂, hrun', -⟩ :=
        hs.agree hinOrder hcalls (fun k hk => (hsame k hk).symm) hrun
      exact ⟨fuel, answers', s₂, hrun'⟩
  · intro outcome s₁ outcome' s₂ h h'
    obtain ⟨answers, rfl⟩ := exists_ok_of_ends_interpretAll h
    obtain ⟨fuel, hrun⟩ := h
    obtain ⟨answers', s₂', hrun', hanswers, hagree⟩ := hs.agree hcalls hinOrder hsame hrun
    -- the two sequences are given different amounts of fuel, which makes no difference
    have hends : Ends (interpretAll · (calls.filter (·.1 = i) ++ calls.filter (·.1 = j))) s
        (.ok answers') s₂' := ⟨fuel, hrun'⟩
    obtain ⟨rfl, rfl⟩ := h'.unique (fuelMonotone_interpretAll _) hends
    exact ⟨answers, answers', rfl, rfl, hanswers, hagree⟩

/-- Two interpreters, each with globals and a console of its own. -/
def twoInterpreters : Session where
  store := ((∅ : Store).push none).push none
  interpreters := #[{ globals := 0, active := 0 }, { globals := 1, active := 1 }]

/-- The first interpreter makes a variable and goes on with it after the second one, which has a
variable of the same name in a block, was cut short. -/
def takingTurns : List (Nat × List Node) :=
  [(0, [.varDecl (.bare "x") (some (.literal (.host (.string "a"))))]),
   (1, [.block
     [.varDecl (.bare "x") (some (.literal (.host (.string "c")))), .print (.var (.bare "x")),
      .print (.var (.bare "y"))]]),
   (0, [.block [.print (.assign (.bare "x")
     (.binary (.var (.bare "x")) (.bare "+") (.literal (.host (.string "b")))))]])]

/-- The turns end as they do when the second interpreter waits. -/
theorem interleavings_agree_takingTurns :
    ∃ answers s₁ answers' s₂, Ends (interpretAll · takingTurns) twoInterpreters (.ok answers) s₁ ∧
      Ends (interpretAll · (takingTurns.filter (·.1 = 0) ++ takingTurns.filter (·.1 = 1)))
        twoInterpreters (.ok answers') s₂ ∧
      answers.filter (·.1 = 0) = answers'.filter (·.1 = 0) ∧
      answers.filter (·.1 = 1) = [(1, .completed false)] ∧
      twoInterpreters.AgreeSince s₁ s₂ ∧
      s₁.interpreters[0]? =
        some { globals := 0, active := 0, outlet := .own ⟨#["ab\n"], #[]⟩ } := by
  have hfirst : twoInterpreters.store.chain 0 = [0] := by with_unfolding_all rfl
  have hsecond : twoInterpreters.store.chain 1 = [1] := by with_unfolding_all rfl
  have hs : twoInterpreters.Separate [0, 1] := by
    constructor
    · simp only [List.forall_mem_cons]
      exact ⟨⟨_, {}, rfl, rfl, by decide⟩, ⟨_, {}, rfl, rfl, by decide⟩, by simp⟩
    · have hactive : ∀ k ∈ [0, 1], ∀ interpreter, twoInterpreters.interpreters[k]? =
          some interpreter → twoInterpreters.store.chain interpreter.active = [k] := by
        simp only [List.forall_mem_cons]
        exact ⟨by rintro _ ⟨⟩; exact hfirst, by rintro _ ⟨⟩; exact hsecond, by simp⟩
      intro k hk l hl hkl first second hgetFirst hgetSecond
      rw [hactive k hk first hgetFirst, hactive l hl second hgetSecond]
      simpa using hkl
  have hcalls : ∀ call ∈ takingTurns, call.1 ∈ [0, 1] := by simp [takingTurns]
  obtain ⟨answers, s₁, hrun, hone, hinterpreter⟩ : ∃ answers s₁,
      Ends (interpretAll · takingTurns) twoInterpreters (.ok answers) s₁ ∧
      answers.filter (·.1 = 1) = [(1, .completed false)] ∧
      s₁.interpreters[0]? =
        some { globals := 0, active := 0, outlet := .own ⟨#["ab\n"], #[]⟩ } :=
    ⟨_, _, ⟨0, by with_unfolding_all rfl⟩, by with_unfolding_all rfl, by with_unfolding_all rfl⟩
  obtain ⟨-, hterminates, hagree⟩ :=
    interleavings_agree twoInterpreters 0 1 (by decide) hs takingTurns hcalls
  obtain ⟨outcome', s₂, hinOrder⟩ := hterminates.1 ⟨_, s₁, hrun⟩
  obtain ⟨_, answers', heq, rfl, hanswers, hsessions⟩ := hagree _ _ _ _ hrun hinOrder
  cases heq
  exact ⟨answers, s₁, answers', s₂, hrun, hinOrder, hanswers 0 (by simp), hone, hsessions,
    hinterpreter⟩

end Session
end Lox
