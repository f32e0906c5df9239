import Lox.Proofs.Growth
import Lox.Session

/-!
# Scope discipline

Whatever a session is asked to do, and whatever goes wrong, the active frame of an interpreter is
the frame of the innermost scope that was entered by hand and not left since, or its frame of
globals.  What was entered and left is read off the history of the session: the steps that it was
asked for, each with the session before it.  The record that an interpreter keeps of its open
scopes is part of what is proved.

Every step but entering and leaving a scope *extends* a session: it leaves each interpreter in its
place and makes new ones in theirs.
-/

namespace Lox

/-! ## Histories -/

/-- A step that a session took. -/
structure Event where
  before : Session
  request : Step
  outcome : Except Fault Answer

/-- The events of a session, the latest first. -/
abbrev History := List Event

/-- What an event does to the frames of the open scopes of an interpreter.  To enter a scope opens
the given frame, or else the next one to be made; to leave closes the innermost one. -/
def Event.scopesAfter (i : Nat) (event : Event) (frames : List Nat) : List Nat :=
  match event.request with
  | .enter j frame? =>
    if j = i ∧ i < event.before.interpreters.size then
      frame?.getD event.before.store.size :: frames
    else frames
  | .leave j => if j = i then frames.tail else frames
  | _ => frames

/-- The frames of the scopes that an interpreter entered and did not leave, the innermost
first. -/
def History.openFrames (i : Nat) (history : History) : List Nat :=
  history.foldr (Event.scopesAfter i) []

theorem History.openFrames_cons (i : Nat) (event : Event) (history : History) :
    openFrames i (event :: history) = event.scopesAfter i (openFrames i history) := rfl

/-- A history leads from the empty session to a session.  A step that ends in a fault is part of
the history like any other. -/
inductive Session.Reached : History → Session → Prop
  | start : Reached [] {}
  | step {history : History} {s s' : Session} {request : Step} {outcome : Except Fault Answer}
      (before : Reached history s) (ends : Ends (Session.step · request) s outcome s') :
      Reached (⟨s, request, outcome⟩ :: history) s'

/-- Whether a step neither enters nor leaves a scope by hand. -/
def Step.keepsScopes : Step → Bool
  | enter _ _ => false
  | leave _ => false
  | _ => true

theorem Event.scopesAfter_of_keepsScopes {event : Event} (h : event.request.keepsScopes = true)
    (i : Nat) (frames : List Nat) : event.scopesAfter i frames = frames := by
  obtain ⟨s, request, outcome⟩ := event
  cases request <;> first | rfl | cases h

/-- Entering a scope opens the frame for an interpreter that there is. -/
theorem Event.scopesAfter_enter {s : Session} {i : Nat} {interpreter : Interpreter}
    (h : s.interpreters[i]? = some interpreter) (frame? : Option Nat)
    (outcome : Except Fault Answer) (frames : List Nat) :
    scopesAfter i ⟨s, .enter i frame?, outcome⟩ frames =
      frame?.getD s.store.size :: frames := by
  obtain ⟨hlt, -⟩ := Array.getElem?_eq_some_iff.1 h
  exact if_pos ⟨rfl, hlt⟩

/-! ## Places -/

/-- Where an interpreter stands among the frames of its session. -/
structure Place where
  globals : Nat
  active : Nat
  scopes : List OpenScope

def Interpreter.place (interpreter : Interpreter) : Place :=
  ⟨interpreter.globals, interpreter.active, interpreter.scopes⟩

/-- The place of the interpreter with a given number. -/
def Session.place? (s : Session) (i : Nat) : Option Place :=
  s.interpreters[i]?.map Interpreter.place

/-- Open scopes lie one inside the other: each was entered from the frame of the next one, the
outermost from the globals, and the innermost is active. -/
def Nests (globals : Nat) : List OpenScope → Nat → Prop
  | [], active => active = globals
  | scope :: scopes, active => active = scope.entered ∧ Nests globals scopes scope.previous

theorem Nests.active_eq {globals active : Nat} {scopes : List OpenScope}
    (h : Nests globals scopes active) :
    active = (scopes.map OpenScope.entered).headD globals := by
  cases scopes with
  | nil => exact h
  | cons scope scopes => exact h.1

theorem Session.place?_eq_none_iff {s : Session} {i : Nat} :
    s.place? i = none ↔ s.interpreters[i]? = none := Option.map_eq_none_iff

theorem Session.place?_of_interpreter {s : Session} {i : Nat} {interpreter : Interpreter}
    (h : s.interpreters[i]? = some interpreter) : s.place? i = some interpreter.place := by
  rw [place?, h, Option.map_some]

/-- After an interpreter ran on a machine, it is where the machine is. -/
theorem Session.place?_resume {s : Session} {i : Nat} {interpreter : Interpreter}
    (h : s.interpreters[i]? = some interpreter) (scopes : List OpenScope) (m : Machine) (j : Nat) :
    (s.resume i { interpreter with scopes } m).place? j =
      if i = j then some ⟨interpreter.globals, m.active, scopes⟩ else s.place? j := by
  obtain ⟨hi, -⟩ := Array.getElem?_eq_some_iff.1 h
  simp only [place?, resume, Array.getElem?_setIfInBounds, hi, if_true]
  split
  · rfl
  · rfl

/-! ## Steps that keep the scopes -/

/-- All interpreters of the first session are in the second, each in its place, and new ones are
active in their globals. -/
structure Session.Extends (s s' : Session) : Prop where
  grows : s.store.Grows s'.store
  old : ∀ i place, s.place? i = some place → s'.place? i = some place
  new : ∀ i place, s.place? i = none → s'.place? i = some place →
    place.active = place.globals ∧ place.scopes = []

namespace Session.Extends

theorem of_place?_eq {s s' : Session} (hgrows : s.store.Grows s'.store)
    (h : ∀ i, s'.place? i = s.place? i) : s.Extends s' where
  grows := hgrows
  old := fun i place hi => (h i).trans hi
  new := by
    intro i place hnone hsome
    rw [h, hnone] at hsome
    cases hsome

theorem refl (s : Session) : s.Extends s := of_place?_eq (Store.Grows.refl _) fun _ => rfl

theorem trans {s₁ s₂ s₃ : Session} (h : s₁.Extends s₂) (h' : s₂.Extends s₃) : s₁.Extends s₃ where
  grows := h.grows.trans h'.grows
  old := fun i place hi => h'.old i place (h.old i place hi)
  new := by
    intro i place h₁ h₃
    cases h₂ : s₂.place? i with
    | none => exact h'.new i place h₂ h₃
    | some place₂ =>
      obtain rfl : place = place₂ := Option.some.inj (h₃.symm.trans (h'.old i place₂ h₂))
      exact h.new i place h₁ h₂

end Session.Extends

instance : Std.Refl Session.Extends := ⟨Session.Extends.refl⟩

instance : Trans Session.Extends Session.Extends Session.Extends := ⟨Session.Extends.trans⟩

namespace SessionM

theorem leads_onStore {α : Type} {action : EvalM α} (h : Leads Store.Grows action) :
    Leads Session.Extends (onStore action) := by
  intro s
  have hs := h s.store
  unfold onStore
  split
  all_goals
    next haction =>
    rw [haction] at hs
    exact .of_place?_eq hs fun _ => rfl

/-- Running a machine that gives the active frame back leaves every interpreter in its place. -/
theorem extends_resume {s : Session} {i : Nat} {interpreter : Interpreter} {m : Machine}
    (hi : s.interpreters[i]? = some interpreter) (hm : (s.machine interpreter).Returns m) :
    s.Extends (s.resume i interpreter m) := by
  refine .of_place?_eq hm.grows fun j => ?_
  rw [Session.place?_resume hi interpreter.scopes m j]
  split
  · next hij =>
    rw [← hij, Session.place?_of_interpreter hi, hm.active_eq]
    rfl
  · rfl

theorem leads_onMachine (i : Nat) {action : ExecM Answer} (h : Leads Machine.Returns action) :
    Leads Session.Extends (onMachine i action) := by
  intro s
  cases hi : s.interpreters[i]? with
  | none =>
    simp only [onMachine, hi]
    exact Session.Extends.refl s
  | some interpreter =>
    have hm := h (s.machine interpreter)
    cases haction : action (s.machine interpreter) with
    | ok answer m =>
      rw [haction] at hm
      simp only [onMachine, hi, haction]
      exact extends_resume hi hm
    | error stop m =>
      rw [haction] at hm
      simp only [onMachine, hi, haction]
      exact extends_resume hi hm

theorem leads_newFrame (parent? : Option Nat) : Leads Session.Extends (newFrame parent?) :=
  fun s => .of_place?_eq (Store.Grows.push s.store parent?) fun _ => rfl

/-- A new interpreter is active in its globals and has no open scope. -/
theorem leads_newInterpreter (globals? : Option Nat) (outlet : Outlet) :
    Leads Session.Extends (newInterpreter globals? outlet) := by
  have hglobals : Leads Session.Extends (globals?.elim (newFrame none) pure) := by
    cases globals? with
    | none => exact leads_newFrame none
    | some globals => exact Leads.pure globals
  refine hglobals.bind fun globals s => ?_
  have hpush : ∀ i, Session.place?
      { s with interpreters := s.interpreters.push { globals, active := globals, outlet } } i =
        if i = s.interpreters.size then some ⟨globals, globals, []⟩ else s.place? i := by
    intro i
    simp only [Session.place?, Array.getElem?_push]
    split
    · rfl
    · rfl
  refine ⟨Store.Grows.refl _, fun i place hi => ?_, fun i place hnone hsome => ?_⟩
  · have hne : i ≠ s.interpreters.size := by
      rintro rfl
      simp [Session.place?] at hi
    exact (hpush i).trans (by rw [if_neg hne, hi])
  · have hsome := (hpush i).symm.trans hsome
    split at hsome
    · cases hsome
      exact ⟨rfl, rfl⟩
    · rw [hnone] at hsome
      cases hsome

end SessionM

/-- A step that neither enters nor leaves a scope leaves every interpreter in its place. -/
theorem Session.leads_step {request : Step} (h : request.keepsScopes = true) (fuel : Nat) :
    Leads Session.Extends (Session.step fuel request) := by
  cases request with
  | newFrame parent? => exact (SessionM.leads_newFrame parent?).bind fun _ => Leads.pure _
  | define frame name v =>
    exact fun s => .of_place?_eq (Store.Grows.define s.store frame name.text v) fun _ => rfl
  | lookup frame name =>
    exact SessionM.leads_onStore ((EvalM.leads_lookup frame name).bind fun _ => Leads.pure _)
  | assign frame name v =>
    exact SessionM.leads_onStore ((EvalM.leads_assign frame name v).bind fun _ => Leads.pure _)
  | eval frame node =>
    exact SessionM.leads_onStore ((node.leads_eval frame).bind fun _ => Leads.pure _)
  | newInterpreter globals? outlet =>
    exact (SessionM.leads_newInterpreter globals? outlet).bind fun _ => Leads.pure _
  | run program globals? outlet =>
    refine (SessionM.leads_newInterpreter globals? outlet).bind fun i => ?_
    have hrun := (ExecM.leads_run fuel program).bind (f := fun completed =>
      pure (Answer.completed completed)) fun _ => Leads.pure _
    exact (SessionM.leads_onMachine i hrun).bind fun _ => Leads.pure _
  | interpret i program =>
    exact SessionM.leads_onMachine i
      ((ExecM.leads_interpret fuel program).bind fun _ => Leads.pure _)
  | execute i statement =>
    refine SessionM.leads_onMachine i (Leads.bind ?_ fun _ => Leads.pure _)
    exact (statement.leads_exec fuel).mono fun _ _ => Machine.Keeps.toReturns
  | evaluate i node =>
    refine SessionM.leads_onMachine i (Leads.bind ?_ fun _ => Leads.pure _)
    exact (ExecM.leads_evaluate node).mono fun _ _ => Machine.Keeps.toReturns
  | block i frame statements =>
    refine SessionM.leads_onMachine i (Leads.bind ?_ fun _ => Leads.pure _)
    exact (ExecM.leads_block fuel frame statements).mono fun _ _ => Machine.Keeps.toReturns
  | enter i frame? => cases h
  | leave i => cases h

/-! ## Steps on scopes -/

/-- Entering a scope makes the given frame active, or a new one inside the frame that was active
before, and remembers the latter. -/
theorem SessionM.enter_eq (s : Session) (i : Nat) (frame? : Option Nat) :
    (s.interpreters[i]? = none ∧ enter i frame? s = .ok .done s) ∨
      ∃ interpreter s', s.interpreters[i]? = some interpreter ∧
        enter i frame? s = .ok (.frame (frame?.getD s.store.size)) s' ∧
        s'.store = frame?.elim (s.store.push (some interpreter.active)) (fun _ => s.store) ∧
        ∀ j, s'.place? j =
          if i = j then
            some ⟨interpreter.globals, frame?.getD s.store.size,
              ⟨frame?.getD s.store.size, interpreter.active⟩ :: interpreter.scopes⟩
          else s.place? j := by
  unfold enter
  cases hi : s.interpreters[i]? with
  | none => exact .inl ⟨rfl, rfl⟩
  | some interpreter =>
    refine .inr ⟨interpreter, _, rfl, rfl, ?_, Session.place?_resume hi _ _⟩
    cases frame? <;> rfl

/-- Leaving a scope makes the frame active again that was so before. -/
theorem SessionM.leave_eq (s : Session) (i : Nat) :
    ((s.place? i).elim [] Place.scopes = [] ∧ leave i s = .ok .done s) ∨
      ∃ place scope scopes s', s.place? i = some place ∧ place.scopes = scope :: scopes ∧
        leave i s = .ok .done s' ∧ s.store.Grows s'.store ∧
        ∀ j, s'.place? j =
          if i = j then some ⟨place.globals, scope.previous, scopes⟩ else s.place? j := by
  cases hi : s.interpreters[i]? with
  | none =>
    rw [Session.place?_eq_none_iff.2 hi]
    simp only [leave, hi]
    exact .inl ⟨rfl, trivial⟩
  | some interpreter =>
    rw [Session.place?_of_interpreter hi]
    cases hscopes : interpreter.scopes with
    | nil =>
      simp only [leave, hi, hscopes]
      exact .inl ⟨hscopes, trivial⟩
    | cons scope scopes =>
      simp only [leave, hi, hscopes]
      refine .inr ⟨interpreter.place, scope, scopes, _, rfl, hscopes, rfl, ?_, ?_⟩
      · exact Store.Grows.refl s.store
      · exact Session.place?_resume hi _ _

/-- The frames of the first session are in the second with their parents, and the interpreters with
their globals. -/
structure Session.Retains (s s' : Session) : Prop where
  grows : s.store.Grows s'.store
  globals : ∀ (i : Nat) (interpreter : Interpreter), s.interpreters[i]? = some interpreter →
    ∃ interpreter' : Interpreter, s'.interpreters[i]? = some interpreter' ∧
      interpreter'.globals = interpreter.globals

namespace Session.Retains
variable {s s' : Session}

theorem refl (s : Session) : s.Retains s where
  grows := Store.Grows.refl s.store
  globals := fun _ interpreter h => ⟨interpreter, h, rfl⟩

/-- It is enough to look at the places of the interpreters. -/
theorem of_places (hgrows : s.store.Grows s'.store)
    (h : ∀ i place, s.place? i = some place →
      ∃ place', s'.place? i = some place' ∧ place'.globals = place.globals) : s.Retains s' where
  grows := hgrows
  globals := by
    intro i interpreter hi
    obtain ⟨place', hplace, hglobals⟩ := h i _ (place?_of_interpreter hi)
    obtain ⟨interpreter', hi', rfl⟩ := Option.map_eq_some_iff.1 hplace
    exact ⟨interpreter', hi', hglobals⟩

/-- It is enough that the place of a single interpreter changes, and not in its globals. -/
theorem of_place (hgrows : s.store.Grows s'.store) {i : Nat} {place place' : Place}
    (hi : s.place? i = some place)
    (h : ∀ j, s'.place? j = if i = j then some place' else s.place? j)
    (hglobals : place'.globals = place.globals) : s.Retains s' := by
  refine of_places hgrows fun j old hj => ?_
  rw [h j]
  split
  · next hij =>
    obtain rfl : place = old := Option.some.inj (hi.symm.trans (hij ▸ hj))
    exact ⟨place', rfl, hglobals⟩
  · exact ⟨old, hj, rfl⟩

end Session.Retains

theorem Session.Extends.retains {s s' : Session} (h : s.Extends s') : s.Retains s' :=
  .of_places h.grows fun i place hi => ⟨place, h.old i place hi, rfl⟩

/-- Every step only makes frames and interpreters. -/
theorem Session.retains_step (fuel : Nat) (request : Step) :
    Leads Session.Retains (Session.step fuel request) := by
  cases hkeeps : request.keepsScopes with
  | true => exact (Session.leads_step hkeeps fuel).mono fun _ _ h => h.retains
  | false =>
    intro s
    cases request with
    | enter i frame? =>
      rcases SessionM.enter_eq s i frame? with ⟨-, h⟩ | ⟨_, s', hi, h, hstore, hplaces⟩
      · simp only [Session.step, h]
        exact .refl s
      · simp only [Session.step, h]
        have hgrows : s.store.Grows s'.store := by
          rw [hstore]
          cases frame? with
          | none => exact Store.Grows.push s.store _
          | some frame => exact Store.Grows.refl s.store
        exact .of_place hgrows (Session.place?_of_interpreter hi) hplaces rfl
    | leave i =>
      rcases SessionM.leave_eq s i with ⟨-, h⟩ | ⟨place, _, _, s', hi, -, h, hgrows, hplaces⟩
      · simp only [Session.step, h]
        exact .refl s
      · simp only [Session.step, h]
        exact .of_place hgrows hi hplaces rfl
    | newFrame | define | lookup | assign | eval | newInterpreter | run | interpret | execute
      | evaluate | block => cases hkeeps

/-! ## Reached sessions -/

/-- The interpreters of a session stand where a history puts them. -/
structure Session.Follows (history : History) (s : Session) : Prop where
  nests : ∀ i place, s.place? i = some place → Nests place.globals place.scopes place.active
  entered : ∀ i, (s.place? i).elim [] (fun place => place.scopes.map OpenScope.entered) =
    history.openFrames i

theorem Session.Follows.extend {history : History} {s s' : Session} {request : Step}
    {outcome : Except Fault Answer} (h : s.Follows history) (hs : s.Extends s')
    (hkeeps : request.keepsScopes = true) : s'.Follows (⟨s, request, outcome⟩ :: history) where
  nests := by
    intro i place hplace
    cases hi : s.place? i with
    | none =>
      obtain ⟨hactive, hscopes⟩ := hs.new i place hi hplace
      rw [hscopes]
      exact hactive
    | some place' =>
      obtain rfl : place = place' := Option.some.inj (hplace.symm.trans (hs.old i place' hi))
      exact h.nests i place hi
  entered := by
    intro i
    rw [History.openFrames_cons, Event.scopesAfter_of_keepsScopes hkeeps, ← h.entered i]
    cases hi : s.place? i with
    | some place => rw [hs.old i place hi]
    | none =>
      cases hi' : s'.place? i with
      | none => rfl
      | some place => simp [(hs.new i place hi hi').2]

theorem Session.Follows.enter {history : History} {s s' : Session} {i : Nat} {frame? : Option Nat}
    {outcome : Except Fault Answer} (h : s.Follows history)
    (hs : SessionM.enter i frame? s = endedIn outcome s') :
    s'.Follows (⟨s, .enter i frame?, outcome⟩ :: history) := by
  rcases SessionM.enter_eq s i frame? with ⟨hnone, heq⟩ | ⟨interpreter, s₁, hi, heq, -, hplaces⟩
  · obtain ⟨-, rfl⟩ := eq_of_ok_eq_endedIn (heq.symm.trans hs)
    refine ⟨h.nests, fun j => ?_⟩
    have hsize := Array.getElem?_eq_none_iff.1 hnone
    rw [h.entered j, History.openFrames_cons]
    exact (if_neg fun hj => absurd hj.2 (hj.1 ▸ Nat.not_lt.2 hsize)).symm
  · obtain ⟨-, rfl⟩ := eq_of_ok_eq_endedIn (heq.symm.trans hs)
    have hplace := Session.place?_of_interpreter hi
    refine ⟨fun j place' hj => ?_, fun j => ?_⟩
    · rw [hplaces j] at hj
      split at hj
      · cases hj
        exact ⟨rfl, h.nests i _ hplace⟩
      · exact h.nests j place' hj
    · have hj := h.entered j
      rw [hplaces j, History.openFrames_cons]
      by_cases hij : i = j
      · subst hij
        rw [hplace] at hj
        rw [Event.scopesAfter_enter hi, ← hj, if_pos rfl]
        rfl
      · simpa [Event.scopesAfter, hij] using hj

theorem Session.Follows.leave {history : History} {s s' : Session} {i : Nat}
    {outcome : Except Fault Answer} (h : s.Follows history)
    (hs : SessionM.leave i s = endedIn outcome s') :
    s'.Follows (⟨s, .leave i, outcome⟩ :: history) := by
  rcases SessionM.leave_eq s i with
    ⟨hnil, heq⟩ | ⟨place, scope, scopes, s₁, hplace, hscopes, heq, -, hplaces⟩
  · obtain ⟨rfl, rfl⟩ := eq_of_ok_eq_endedIn (heq.symm.trans hs)
    refine ⟨h.nests, fun j => ?_⟩
    have hj := h.entered j
    rw [History.openFrames_cons]
    by_cases hij : i = j
    · subst hij
      have hopen : history.openFrames i = [] := by
        rw [← hj]
        cases hplace : s.place? i with
        | none => rfl
        | some place => simp_all
      rw [hj, hopen]
      simp [Event.scopesAfter]
    · simpa [Event.scopesAfter, hij] using hj
  · obtain ⟨rfl, rfl⟩ := eq_of_ok_eq_endedIn (heq.symm.trans hs)
    refine ⟨fun j place' hj => ?_, fun j => ?_⟩
    · rw [hplaces j] at hj
      split at hj
      · cases hj
        have hnests := h.nests i place hplace
        rw [hscopes] at hnests
        exact hnests.2
      · exact h.nests j place' hj
    · have hj := h.entered j
      rw [hplaces j, History.openFrames_cons]
      by_cases hij : i = j
      · subst hij
        rw [hplace] at hj
        simp [Event.scopesAfter, ← hj, hscopes]
      · simpa [Event.scopesAfter, hij] using hj

/-- Interpreters stand where the history puts them, in every session that can be reached. -/
theorem Session.Reached.follows {history : History} {s : Session} (h : Reached history s) :
    s.Follows history := by
  induction h with
  | start => exact ⟨fun i place h => by simp [place?] at h, fun i => by simp [place?]; rfl⟩
  | @step history s s' request outcome _ ends ih =>
    cases hkeeps : request.keepsScopes with
    | true => exact ih.extend (ends.leads fun fuel => leads_step hkeeps fuel) hkeeps
    | false =>
      obtain ⟨fuel, ends⟩ := ends
      cases request with
      | enter i frame? => exact ih.enter ends
      | leave i => exact ih.leave ends
      | newFrame | define | lookup | assign | eval | newInterpreter | run | interpret | execute
        | evaluate | block => cases hkeeps

/-! ## The discipline -/

/-- Parents are older than their children. -/
theorem Store.lt_of_transGen_parent {s : Store} {f g : Nat}
    (h : Relation.TransGen (fun f p => s.parent? f = some p) f g) : g < f := by
  induction h with
  | single h => exact lt_of_parent? h
  | tail _ h ih => exact Nat.lt_trans (lt_of_parent? h) ih

/-- In every session that can be reached, the active frame of an interpreter is the frame of the
innermost scope that its history entered and did not leave, or its globals.  To enter a scope gives
and opens the frame that was asked for, or else a new one inside the active frame.  Steps keep all
frames with their parents and all interpreters with their globals, and no frame lies around itself.
Statements, statements in a given frame, and programs give back the active frame that they found,
however they end. -/
theorem scope_discipline :
    (∀ (history : History) (s : Session), Session.Reached history s →
      (∀ i interpreter, s.interpreters[i]? = some interpreter →
        interpreter.active = (history.openFrames i).headD interpreter.globals) ∧
      (∀ i interpreter frame?, s.interpreters[i]? = some interpreter →
        ∃ s', Ends (Session.step · (.enter i frame?)) s
            (.ok (.frame (frame?.getD s.store.size))) s' ∧
          s'.store = frame?.elim (s.store.push (some interpreter.active)) fun _ => s.store) ∧
      (∀ request outcome s', Ends (Session.step · request) s outcome s' → s.Retains s') ∧
      ∀ f, ¬ Relation.TransGen (fun g p => s.store.parent? g = some p) f f) ∧
    ∀ m m' : Machine,
      (∀ statement outcome, Ends (Node.exec · statement) m outcome m' →
        m'.active = m.active ∧ m.store.Grows m'.store) ∧
      (∀ frame statements outcome, Ends (ExecM.block · frame statements) m outcome m' →
        m'.active = m.active ∧ m.store.Grows m'.store) ∧
      ∀ program outcome, Ends (ExecM.interpret · program) m outcome m' →
        m'.active = m.active ∧ m.store.Grows m'.store := by
  refine ⟨fun history s hs => ⟨fun i interpreter hi => ?_, fun i interpreter frame? hi => ?_,
    fun request outcome s' h => ?_, ?_⟩, fun m m' => ⟨fun statement outcome h => ?_,
      fun frame statements outcome h => ?_, fun program outcome h => ?_⟩⟩
  · have hplace := Session.place?_of_interpreter hi
    have hnests := (hs.follows.nests i _ hplace).active_eq
    have hentered := hs.follows.entered i
    rw [hplace] at hentered
    rw [← hentered]
    exact hnests
  · rcases SessionM.enter_eq s i frame? with ⟨hnone, -⟩ | ⟨interpreter', s', hi', h, hstore, -⟩
    · rw [hi] at hnone
      cases hnone
    · obtain rfl : interpreter' = interpreter := Option.some.inj (hi'.symm.trans hi)
      exact ⟨s', ⟨0, h⟩, hstore⟩
  · exact h.leads fun fuel => Session.retains_step fuel request
  · exact fun f hf => Nat.lt_irrefl f (Store.lt_of_transGen_parent hf)
  · have hreturns := h.leads fun fuel => statement.leads_exec fuel
    exact ⟨hreturns.active_eq, hreturns.grows⟩
  · have hreturns := h.leads fun fuel => ExecM.leads_block fuel frame statements
    exact ⟨hreturns.active_eq, hreturns.grows⟩
  · have hreturns := h.leads fun fuel => ExecM.leads_interpret fuel program
    exact ⟨hreturns.active_eq, hreturns.grows⟩

/-- A block that fails inside a scope entered by hand leaves that scope active, a new frame inside
the globals; on a machine by itself, it gives the active frame back. -/
theorem scope_discipline_failing_block :
    (∃ fault before after history s interpreter s',
      Session.Reached (⟨after, .execute 0 (.block [.foreign "Unknown"]), .error fault⟩ ::
        ⟨before, .enter 0 none, .ok (.frame 1)⟩ :: history) s ∧
      s.interpreters[0]? = some interpreter ∧ interpreter.active = 1 ∧
      Ends (Session.step · (.enter 0 none)) before (.ok (.frame 1)) s' ∧
      s'.store.parent? 1 = some 0) ∧
    ∃ fault m m', Ends (Node.exec · (.block [.foreign "Unknown"])) m (.error fault) m' ∧
      m.active = 0 ∧ m'.active = 0 := by
  have made : Session.Reached [⟨_, .newInterpreter none .shared, .ok (.interpreter 0)⟩] _ :=
    .step .start ⟨0, rfl⟩
  have entered : Session.Reached (⟨_, .enter 0 none, .ok (.frame 1)⟩ :: _) _ := made.step ⟨0, rfl⟩
  have failed : Session.Reached (⟨_, .execute 0 (.block [.foreign "Unknown"]),
      .error (.unplaced (.unsupportedStatement "Unknown"))⟩ :: _) _ := entered.step ⟨1, rfl⟩
  have ends : Ends (Node.exec · (.block [.foreign "Unknown"]))
      ⟨(∅ : Store).push none, 0, false, {}, #[]⟩
      (.error (.unplaced (.unsupportedStatement "Unknown"))) _ := ⟨1, rfl⟩
  obtain ⟨s', henter, hstore⟩ := (scope_discipline.1 _ _ made).2.1 0 _ none rfl
  exact ⟨⟨_, _, _, _, _, _, s', failed, rfl, (scope_discipline.1 _ _ failed).1 0 _ rfl, henter,
    congrArg (Store.parent? · 1) hstore⟩,
    _, _, _, ends, rfl, ((scope_discipline.2 _ _).1 _ _ ends).1⟩

end Lox
