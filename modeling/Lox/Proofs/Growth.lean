import Lox.Environment.Chain
import Lox.Proofs.Operations

/-!
# What every computation keeps

A store only grows: frames are made and never removed, and the parent of a frame is settled when
the frame is made.  A statement gives the active frame back on every way out, be it an answer, a
fault or a lack of fuel; the fault flag and the reports belong to whole programs, so a statement
leaves them alone too.
-/

namespace Lox

/-! ## Stores -/

/-- All frames of the first store are in the second, with the parents that they have. -/
structure Store.Grows (s s' : Store) : Prop where
  size_le : s.size ≤ s'.size
  parent?_eq : ∀ f < s.size, s'.parent? f = s.parent? f

namespace Store.Grows

theorem refl (s : Store) : s.Grows s := ⟨Nat.le_refl _, fun _ _ => rfl⟩

theorem trans {s₁ s₂ s₃ : Store} (h : s₁.Grows s₂) (h' : s₂.Grows s₃) : s₁.Grows s₃ where
  size_le := Nat.le_trans h.size_le h'.size_le
  parent?_eq := by
    intro f hf
    rw [h'.parent?_eq f (Nat.lt_of_lt_of_le hf h.size_le), h.parent?_eq f hf]

theorem define (s : Store) (f : Nat) (name : String) (v : Value) :
    s.Grows (s.define f name v) where
  size_le := by simp
  parent?_eq := by simp

theorem push (s : Store) (parent? : Option Nat) : s.Grows (s.push parent?) where
  size_le := by simp
  parent?_eq := fun _ hf => parent?_push_of_lt hf parent?

end Store.Grows

instance : Std.Refl Store.Grows := ⟨Store.Grows.refl⟩

instance : Trans Store.Grows Store.Grows Store.Grows := ⟨Store.Grows.trans⟩

/-- The chain of a frame does not change while the store grows. -/
theorem Store.chain_of_grows {s s' : Store} (h : s.Grows s') {f : Nat} (hf : f < s.size) :
    s'.chain f = s.chain f := by
  induction f using Nat.strongRecOn with
  | ind f ih =>
    rw [chain_eq, chain_eq s, h.parent?_eq f hf]
    split
    · next p hp =>
      have hlt := lt_of_parent? hp
      rw [ih p hlt (Nat.lt_trans hlt hf)]
    · rfl

/-- The depth of a frame does not change while the store grows. -/
theorem Store.depth_of_grows {s s' : Store} (h : s.Grows s') {f : Nat} (hf : f < s.size) :
    s'.depth f = s.depth f := by
  rw [depth, depth, chain_of_grows h hf]

theorem EvalM.leads_assign (frame : Nat) (name : Lexeme) (v : Value) :
    Leads Store.Grows (assign frame name v) := by
  intro s
  unfold assign
  split
  · exact Store.Grows.define s _ _ v
  · exact Store.Grows.refl s

/-- Evaluation makes no frame and gives none another parent. -/
theorem Node.leads_eval (frame : Nat) (node : Node) : Leads Store.Grows (node.eval frame) :=
  leads_eval_of (EvalM.leads_assign frame) node

/-! ## Machines -/

attribute [ext] Console

/-- The second machine has the active frame of the first, and a later store. -/
structure Machine.Returns (m m' : Machine) : Prop where
  active_eq : m'.active = m.active
  grows : m.store.Grows m'.store

/-- Moreover, the second machine has the fault flag and the reports of the first. -/
structure Machine.Keeps (m m' : Machine) : Prop extends m.Returns m' where
  failed_eq : m'.failed = m.failed
  err_eq : m'.console.err = m.console.err

namespace Machine

theorem Returns.refl (m : Machine) : m.Returns m := ⟨rfl, Store.Grows.refl _⟩

theorem Returns.trans {m₁ m₂ m₃ : Machine} (h : m₁.Returns m₂) (h' : m₂.Returns m₃) :
    m₁.Returns m₃ :=
  ⟨h'.active_eq.trans h.active_eq, h.grows.trans h'.grows⟩

/-- An active frame that is in the store stays there. -/
theorem Returns.active_lt {m m' : Machine} (h : m.Returns m') (hm : m.active < m.store.size) :
    m'.active < m'.store.size := by
  rw [h.active_eq]
  exact Nat.lt_of_lt_of_le hm h.grows.size_le

theorem Returns.depth_eq {m m' : Machine} (h : m.Returns m') (hm : m.active < m.store.size) :
    m'.store.depth m'.active = m.store.depth m.active := by
  rw [h.active_eq, Store.depth_of_grows h.grows hm]

theorem Keeps.refl (m : Machine) : m.Keeps m := ⟨Returns.refl m, rfl, rfl⟩

theorem Keeps.trans {m₁ m₂ m₃ : Machine} (h : m₁.Keeps m₂) (h' : m₂.Keeps m₃) : m₁.Keeps m₃ :=
  ⟨h.toReturns.trans h'.toReturns, h'.failed_eq.trans h.failed_eq, h'.err_eq.trans h.err_eq⟩

end Machine

instance : Std.Refl Machine.Returns := ⟨Machine.Returns.refl⟩

instance : Trans Machine.Returns Machine.Returns Machine.Returns := ⟨Machine.Returns.trans⟩

instance : Std.Refl Machine.Keeps := ⟨Machine.Keeps.refl⟩

instance : Trans Machine.Keeps Machine.Keeps Machine.Keeps := ⟨Machine.Keeps.trans⟩

namespace ExecM

theorem evaluate_of_ok {node : Node} {m : Machine} {v : Value} {store : Store}
    (h : node.eval m.active m.store = .ok v store) :
    evaluate node m = .ok v { m with store } := by
  simp only [evaluate, h]

theorem evaluate_of_error {node : Node} {m : Machine} {fault : Fault} {store : Store}
    (h : node.eval m.active m.store = .error fault store) :
    evaluate node m = .error (.fault fault) { m with store } := by
  simp only [evaluate, h]

theorem leads_evaluate (node : Node) : Leads Machine.Keeps (evaluate node) := by
  intro m
  have hm := node.leads_eval m.active m.store
  cases h : node.eval m.active m.store with
  | ok v store =>
    rw [h] at hm
    rw [evaluate_of_ok h]
    exact ⟨⟨rfl, hm⟩, rfl, rfl⟩
  | error fault store =>
    rw [h] at hm
    rw [evaluate_of_error h]
    exact ⟨⟨rfl, hm⟩, rfl, rfl⟩

theorem leads_define (name : String) (v : Value) : Leads Machine.Keeps (define name v) :=
  fun m => ⟨⟨rfl, Store.Grows.define m.store m.active name v⟩, rfl, rfl⟩

theorem leads_print (piece : String) : Leads Machine.Keeps (print piece) :=
  fun _ => ⟨⟨rfl, Store.Grows.refl _⟩, rfl, rfl⟩

theorem leads_newFrame : Leads Machine.Keeps newFrame :=
  fun m => ⟨⟨rfl, Store.Grows.push m.store _⟩, rfl, rfl⟩

/-- What a scope of its own does to a computation that gives an answer. -/
theorem withNewScope_of_ok {α : Type} {body : ExecM α} {m m' : Machine} {a : α}
    (h : body (({ m with store := m.store.push (some m.active) }).enter m.store.size) = .ok a m') :
    withNewScope body m = .ok a (m'.leave m.active) := by
  rw [withNewScope, bind_of_ok (p := newFrame) rfl]
  simp only [withScope, h]

/-- What a scope of its own does to a computation that stops. -/
theorem withNewScope_of_error {α : Type} {body : ExecM α} {m m' : Machine} {stop : Stop}
    (h : body (({ m with store := m.store.push (some m.active) }).enter m.store.size) =
      .error stop m') :
    withNewScope body m = .error stop (m'.leave m.active) := by
  rw [withNewScope, bind_of_ok (p := newFrame) rfl]
  simp only [withScope, h]

/-- A scope gives the active frame back, whichever frame it made active. -/
theorem leads_withScope {α : Type} {body : ExecM α} (frame : Nat)
    (h : Leads Machine.Keeps body) : Leads Machine.Keeps (withScope frame body) := by
  intro m
  have hm := h (m.enter frame)
  unfold withScope
  cases hbody : body (m.enter frame) with
  | ok a m' =>
    rw [hbody] at hm
    exact ⟨⟨rfl, hm.grows⟩, hm.failed_eq, hm.err_eq⟩
  | error stop m' =>
    rw [hbody] at hm
    exact ⟨⟨rfl, hm.grows⟩, hm.failed_eq, hm.err_eq⟩

theorem leads_withNewScope {α : Type} {body : ExecM α} (h : Leads Machine.Keeps body) :
    Leads Machine.Keeps (withNewScope body) :=
  leads_newFrame.bind fun frame => leads_withScope frame h

/-- Each operation gives the active frame back. -/
theorem operationsLead_keeps : OperationsLead Machine.Keeps where
  evaluate := leads_evaluate
  print := leads_print
  define := leads_define
  withNewScope := fun _ h => leads_withNewScope h

end ExecM

namespace Node

/-- A statement gives the active frame back on every way out. -/
theorem leads_exec (fuel : Nat) (node : Node) : Leads Machine.Keeps (node.exec fuel) :=
  leads_exec_of ExecM.operationsLead_keeps fuel node

theorem leads_execAll (fuel : Nat) (statements : List Node) :
    Leads Machine.Keeps (execAll fuel statements) :=
  leads_execAll_of fun statement _ => leads_exec fuel statement

end Node

/-! ## Programs -/

namespace ExecM

/-- Statements with a given frame as their scope give the active frame back. -/
theorem leads_block (fuel frame : Nat) (statements : List Node) :
    Leads Machine.Keeps (block fuel frame statements) :=
  leads_withScope frame (Node.leads_execAll fuel statements)

/-- A program gives the active frame back, though it may raise the fault flag and report. -/
theorem leads_interpret (fuel : Nat) (program : List Node) :
    Leads Machine.Returns (interpret fuel program) := by
  intro m
  have hm := Node.leads_execAll fuel program m
  unfold interpret
  split
  all_goals
    next hexec =>
    rw [hexec] at hm
    exact ⟨hm.active_eq, hm.grows⟩

theorem leads_run (fuel : Nat) (program : List Node) :
    Leads Machine.Returns (run fuel program) := by
  refine (leads_interpret fuel program).bind fun completed => ?_
  cases completed with
  | true => exact Leads.pure true
  | false => exact fun m => ⟨rfl, Store.Grows.refl m.store⟩

end ExecM
end Lox
