import Lox.Proofs.Points
import Lox.Proofs.Programs

/-!
# The log of scopes

Blocks and `for` loops write a record when they enter their scope and one when they leave it, each
with the depth that is then current.  Whoever reads the records in order, with a running depth, can
tell at every point of a run how deep the active frame lies; and each scope that was entered is left
again, the last one first, no matter how the statements end.  So the records of statements that
have ended nest like brackets, and a fault is recorded once all scopes are left.
-/

namespace Lox

/-! ## Reading records -/

/-- The running depth after a record: one more for a scope that is entered, one less for a scope
that is left.  None if the record does not show that depth, if the depth would fall below the
floor, and if the record is of no scope. -/
def LogRecord.depthAfter? (floor depth : Nat) : LogRecord → Option Nat
  | enterScope inner => if inner = depth + 1 then some inner else none
  | leaveScope outer => if outer + 1 = depth ∧ floor ≤ outer then some outer else none
  | runtimeError _ => none
  | halted => none

/-- The running depth after some records, from a given one on. -/
def readDepth? (floor depth : Nat) (records : List LogRecord) : Option Nat :=
  records.foldlM (LogRecord.depthAfter? floor) depth

section
variable {floor depth : Nat}

@[simp] theorem readDepth?_nil : readDepth? floor depth [] = some depth := rfl

@[simp] theorem readDepth?_cons (record : LogRecord) (rest : List LogRecord) :
    readDepth? floor depth (record :: rest) =
      (record.depthAfter? floor depth).bind (readDepth? floor · rest) := rfl

@[simp] theorem readDepth?_append (xs ys : List LogRecord) :
    readDepth? floor depth (xs ++ ys) =
      (readDepth? floor depth xs).bind (readDepth? floor · ys) :=
  List.foldlM_append

end

/-! ## Traces -/

/-- Records that nest, written while a frame of the given depth is active: any number of scopes one
after the other, each with a trace inside it. -/
inductive ScopeTrace : Nat → List LogRecord → Prop
  | nil {depth : Nat} : ScopeTrace depth []
  | scope {depth : Nat} {inside later : List LogRecord} (inner : ScopeTrace (depth + 1) inside)
      (outer : ScopeTrace depth later) :
      ScopeTrace depth (.enterScope (depth + 1) :: (inside ++ .leaveScope depth :: later))

namespace ScopeTrace
variable {floor depth : Nat} {xs ys : List LogRecord}

theorem append (h : ScopeTrace depth xs) (h' : ScopeTrace depth ys) :
    ScopeTrace depth (xs ++ ys) := by
  induction h with
  | nil => exact h'
  | scope inner _ _ ih =>
    rw [List.cons_append, List.append_assoc, List.cons_append]
    exact .scope inner (ih h')

/-- The trace of one scope. -/
theorem enclose (h : ScopeTrace (depth + 1) xs) :
    ScopeTrace depth (.enterScope (depth + 1) :: (xs ++ [.leaveScope depth])) :=
  .scope h .nil

/-- A trace is read back to the depth in which it began, and never falls below that. -/
theorem readDepth?_eq (h : ScopeTrace depth xs) (hfloor : floor ≤ depth) :
    readDepth? floor depth xs = some depth := by
  induction h with
  | nil => rfl
  | scope _ _ ihInner ihOuter =>
    have hinner := ihInner (Nat.le_succ_of_le hfloor)
    simp [LogRecord.depthAfter?, hinner, hfloor, ihOuter hfloor]

end ScopeTrace

/-! ## What statements add to the log -/

/-- The second machine is a later one with the same active frame.  If that frame is in the store,
the log goes on with a trace of its depth. -/
structure Machine.Traces (m m' : Machine) : Prop extends m.Returns m' where
  exists_trace : m.active < m.store.size → ∃ trace,
    ScopeTrace (m.store.depth m.active) trace ∧ m'.log.toList = m.log.toList ++ trace

namespace Machine

/-- A machine that adds nothing to the log. -/
theorem Traces.of_log_eq {m m' : Machine} (h : m.Returns m') (hlog : m'.log = m.log) :
    m.Traces m' :=
  ⟨h, fun _ => ⟨[], .nil, by simp [hlog]⟩⟩

theorem Traces.refl (m : Machine) : m.Traces m := .of_log_eq (.refl m) rfl

theorem Traces.trans {m₁ m₂ m₃ : Machine} (h : m₁.Traces m₂) (h' : m₂.Traces m₃) :
    m₁.Traces m₃ where
  toReturns := h.toReturns.trans h'.toReturns
  exists_trace := by
    intro hm
    obtain ⟨xs, hxs, hlog⟩ := h.exists_trace hm
    obtain ⟨ys, hys, hlog'⟩ := h'.exists_trace (h.active_lt hm)
    rw [h.depth_eq hm] at hys
    refine ⟨xs ++ ys, hxs.append hys, ?_⟩
    rw [hlog', hlog, List.append_assoc]

theorem depth_nested {m : Machine} (hm : m.active < m.store.size) :
    m.nested.store.depth m.nested.active = m.store.depth m.active + 1 :=
  Store.depth_push_size hm

theorem toList_log_nested {m : Machine} (hm : m.active < m.store.size) :
    m.nested.log.toList = m.log.toList ++ [.enterScope (m.store.depth m.active + 1)] := by
  rw [← depth_nested hm, ← Array.toList_push]
  rfl

/-- What is traced inside a new scope is traced around it, with the scope as one trace. -/
theorem Traces.leave {m m' : Machine} (h : m.nested.Traces m') :
    m.Traces (m'.leave m.active) := by
  have hgrows : m.store.Grows m'.store := (Store.Grows.push m.store _).trans h.grows
  refine ⟨⟨rfl, hgrows⟩, fun hm => ?_⟩
  obtain ⟨inside, hinside, hlog⟩ := h.exists_trace m.active_nested_lt
  rw [depth_nested hm] at hinside
  refine ⟨_, hinside.enclose, ?_⟩
  rw [log_leave, Array.toList_push, hlog, toList_log_nested hm, Store.depth_of_grows hgrows hm]
  simp

end Machine

instance : Std.Refl Machine.Traces := ⟨Machine.Traces.refl⟩

instance : Trans Machine.Traces Machine.Traces Machine.Traces := ⟨Machine.Traces.trans⟩

namespace ExecM

theorem log_evaluate (node : Node) (m : Machine) :
    (finalState (evaluate node m)).log = m.log := by
  cases h : node.eval m.active m.store with
  | ok v store => rw [evaluate_of_ok h, finalState_ok]
  | error fault store => rw [evaluate_of_error h, finalState_error]

theorem leads_withNewScope_traces {α : Type} {body : ExecM α} (h : Leads Machine.Traces body) :
    Leads Machine.Traces (withNewScope body) := by
  intro m
  have hbody := h m.nested
  cases hresult : body m.nested with
  | ok a m' =>
    rw [hresult] at hbody
    rw [withNewScope_of_ok hresult]
    exact hbody.leave
  | error stop m' =>
    rw [hresult] at hbody
    rw [withNewScope_of_error hresult]
    exact hbody.leave

/-- Every operation of statements adds a trace to the log. -/
theorem operationsLead_traces : OperationsLead Machine.Traces where
  evaluate := fun node m => .of_log_eq (leads_evaluate node m).toReturns (log_evaluate node m)
  print := fun piece m => .of_log_eq (leads_print piece m).toReturns rfl
  define := fun name v m => .of_log_eq (leads_define name v m).toReturns rfl
  withNewScope := fun _ h => leads_withNewScope_traces h

end ExecM

/-- Statements that end, in whatever way, have added a trace to the log. -/
theorem Node.exists_trace_of_ends {statements : List Node} {m m' : Machine}
    {outcome : Except Fault Unit} (hm : m.active < m.store.size)
    (h : Ends (execAll · statements) m outcome m') : ∃ trace,
      ScopeTrace (m.store.depth m.active) trace ∧ m'.log.toList = m.log.toList ++ trace := by
  have htraces : m.Traces m' := h.leads fun fuel => leads_execAll_of fun statement _ =>
    leads_exec_of ExecM.operationsLead_traces fuel statement
  exact htraces.exists_trace hm

/-! ## The log at the points of a run -/

/-- The records that came after a given log are read, from a given depth on and never below it, to
the depth of the active frame. -/
structure Machine.LogReads (log : Array LogRecord) (depth : Nat) (m : Machine) : Prop where
  active_lt : m.active < m.store.size
  depth_le : depth ≤ m.store.depth m.active
  exists_records : ∃ records, m.log.toList = log.toList ++ records ∧
    readDepth? depth depth records = some (m.store.depth m.active)

namespace Machine.LogReads
variable {log : Array LogRecord} {depth : Nat} {m m' : Machine}

theorem refl (hm : m.active < m.store.size) : m.LogReads m.log (m.store.depth m.active) :=
  ⟨hm, Nat.le_refl _, [], by simp⟩

theorem traces (h : m.LogReads log depth) (htraces : m.Traces m') : m'.LogReads log depth where
  active_lt := htraces.active_lt h.active_lt
  depth_le := by
    rw [htraces.depth_eq h.active_lt]
    exact h.depth_le
  exists_records := by
    obtain ⟨records, hlog, hread⟩ := h.exists_records
    obtain ⟨trace, htrace, hlog'⟩ := htraces.exists_trace h.active_lt
    refine ⟨records ++ trace, by rw [hlog', hlog, List.append_assoc], ?_⟩
    rw [htraces.depth_eq h.active_lt]
    simp [hread, htrace.readDepth?_eq h.depth_le]

theorem nested (h : m.LogReads log depth) : m.nested.LogReads log depth where
  active_lt := m.active_nested_lt
  depth_le := by
    rw [depth_nested h.active_lt]
    exact Nat.le_succ_of_le h.depth_le
  exists_records := by
    obtain ⟨records, hlog, hread⟩ := h.exists_records
    refine ⟨_, by rw [toList_log_nested h.active_lt, hlog, List.append_assoc], ?_⟩
    rw [depth_nested h.active_lt]
    simp [hread, LogRecord.depthAfter?]

end Machine.LogReads

namespace Point
variable {log : Array LogRecord} {depth : Nat} {p p' : Point}

theorem Calls.logReads (hcall : p.Calls p') (h : p.machine.LogReads log depth) :
    p'.machine.LogReads log depth := by
  rcases hcall.leads_of ExecM.operationsLead_traces with htraces | htraces
  · exact h.traces htraces
  · exact h.nested.traces htraces

/-- What can be read at the first point of a run can be read at all its points. -/
theorem logReads_of_reached (hreached : Relation.ReflTransGen Calls p p')
    (h : p.machine.LogReads log depth) : p'.machine.LogReads log depth := by
  induction hreached with
  | refl => exact h
  | tail _ hcall ih => exact hcall.logReads ih

end Point

/-! ## The log of a program -/

/-- The log of a program that is interpreted in a frame of depth `d`.  At every point of the run,
the records since its beginning are read, from `d` on and never below it, to the depth of the
active frame.  However the program ends, its scopes nest and are read back to `d`; a fault is
recorded after all of them, and nothing else is. -/
theorem scope_log_nests {m : Machine} (hm : m.active < m.store.size) (program : List Node) :
    let d := m.store.depth m.active
    (∀ p, Relation.ReflTransGen Point.Calls ⟨.executeAll program, m⟩ p →
      ∃ records, p.machine.log.toList = m.log.toList ++ records ∧
        readDepth? d d records = some (p.machine.store.depth p.machine.active)) ∧
    ∀ outcome m', Ends (ExecM.interpret · program) m outcome m' →
      ∃ trace, ScopeTrace d trace ∧ readDepth? d d trace = some d ∧
        (outcome = .ok true ∧ m'.log.toList = m.log.toList ++ trace ∨
          outcome = .ok false ∧ ∃ fault m₁, Node.CutShort program m fault m₁ ∧
            m'.log.toList = m.log.toList ++ trace ++ [.runtimeError fault]) := by
  intro d
  refine ⟨fun p hreached => (Point.logReads_of_reached hreached (.refl hm)).exists_records, ?_⟩
  intro outcome m' hends
  obtain ⟨completed, rfl⟩ := ExecM.exists_ok_of_ends_interpret hends
  cases completed with
  | true =>
    have hexec := ExecM.ends_interpret_true_iff.1 hends
    obtain ⟨trace, hnests, hlog⟩ := Node.exists_trace_of_ends hm hexec
    exact ⟨trace, hnests, hnests.readDepth?_eq (Nat.le_refl d), .inl ⟨rfl, hlog⟩⟩
  | false =>
    obtain ⟨fault, m₁, hcut, rfl⟩ := ExecM.ends_interpret_false_iff.1 hends
    have hexec := Node.ends_execAll_error_iff.2 hcut
    obtain ⟨trace, hnests, hlog⟩ := Node.exists_trace_of_ends hm hexec
    refine ⟨trace, hnests, hnests.readDepth?_eq (Nat.le_refl d), .inr ⟨rfl, fault, m₁, hcut, ?_⟩⟩
    rw [Machine.log_fail, Array.toList_push, hlog]

/-- A loop whose body is a block with a node in it that is no statement. -/
def brokenLoop : Node := .forLoop none none none (.block [.foreign "Unknown"])

/-- Inside a scope of depth 1, the loop enters two scopes, leaves both, and only then the fault is
recorded. -/
theorem scope_log_nests_brokenLoop :
    let m : Machine := ⟨(Store.empty.push none).push (some 0), 1, false, {}, #[]⟩
    let trace : List LogRecord := [.enterScope 2, .enterScope 3, .leaveScope 2, .leaveScope 1]
    let fault : Fault := .unplaced (.unsupportedStatement "Unknown")
    ∃ m', Ends (ExecM.interpret · [brokenLoop]) m (.ok false) m' ∧ ScopeTrace 1 trace ∧
      readDepth? 1 1 trace = some 1 ∧ m'.log.toList = trace ++ [.runtimeError fault] := by
  intro m trace fault
  have hlog : (finalState (ExecM.interpret 1 [brokenLoop] m)).log.toList =
      trace ++ [.runtimeError fault] := by decide +kernel
  have hends : Ends (ExecM.interpret · [brokenLoop]) m (.ok false)
    (finalState (ExecM.interpret 1 [brokenLoop] m)) := ⟨1, rfl⟩
  obtain ⟨-, hprogram⟩ := scope_log_nests (show m.active < m.store.size by decide) [brokenLoop]
  have hdepth : m.store.depth m.active = 1 := by decide +kernel
  obtain ⟨trace', hnests, hread, ⟨h, -⟩ | ⟨-, fault', m₁, -, hlog'⟩⟩ := hprogram _ _ hends
  · cases h
  · have htrace : trace' = trace := by
      have hdrop := congrArg List.dropLast (hlog.symm.trans hlog')
      simpa [m] using hdrop.symm
    rw [hdepth, htrace] at hnests hread
    exact ⟨_, hends, hnests, hread, hlog⟩

end Lox
