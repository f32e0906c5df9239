import Lox.Proofs.Fuel

/-!
# What evaluation and execution are made of

Expressions change a store by assignments only.  Statements evaluate, print, define, and open
scopes.  Where these operations lead along a relation, so do all expressions and all statements;
and where they run in lockstep on two machines, so do all statements.  These inductions are made
here, for any relation, and not again for every property of interest.
-/

namespace Lox

/-! ## Expressions -/

section
variable {R : Store → Store → Prop} [Std.Refl R]

theorem EvalM.leads_ofExcept {α : Type} (result : Except Fault α) :
    Leads R (ofExcept result) := by
  cases result with
  | ok a => exact Leads.pure a
  | error fault => exact Leads.throw fault

theorem EvalM.leads_lookup (frame : Nat) (name : Lexeme) : Leads R (lookup frame name) := by
  intro s
  unfold lookup
  split <;> exact Std.Refl.refl s

/-- What is no expression is a fault at once. -/
theorem Node.eval_of_not_isExpression {node : Node} (h : node.isExpression = false) (frame : Nat) :
    node.eval frame = throw (.unplaced (.unsupportedExpression node.className)) := by
  cases node with
  | literal | grouping | unary | binary | logical | ternary | var | assign =>
    simp [isExpression] at h
  | expression | print | varDecl | block | ifElse | whileLoop | forLoop | foreign => rfl

end

/-- Whether the left operand of a logical operator settles the value, so that the right one is left
out. -/
def LogicalOp.settledBy (v : Value) : LogicalOp → Bool
  | or => v.isTruthy
  | and => !v.isTruthy

/-- Both logical operators evaluate their right operand unless the left one settles the value. -/
theorem Node.eval_logical (left right : Node) (operator : Lexeme) (frame : Nat) :
    (logical left operator right).eval frame = (do
      let v ← left.eval frame
      match LogicalOp.ofLexeme? operator with
      | some op => if op.settledBy v then pure v else right.eval frame
      | none => throw ⟨.unknownLogical, operator⟩) := by
  simp only [eval]
  congr 1
  funext v
  cases LogicalOp.ofLexeme? operator with
  | none => rfl
  | some op =>
    cases op with
    | or => rfl
    | and => cases hv : v.isTruthy <;> simp [LogicalOp.settledBy, hv]

section
variable {R : Store → Store → Prop} [Std.Refl R]

/-- Evaluation leads along every relation along which assignments to the names that it assigns
lead. -/
theorem Node.leads_eval_of_assigned [Trans R R R] {frame : Nat} {A : List String}
    (hassign : ∀ name : Lexeme, name.text ∈ A → ∀ v, Leads R (EvalM.assign frame name v))
    {node : Node} (hA : node.assigned ⊆ A) : Leads R (node.eval frame) := by
  induction node using expressionInduction with
  | literal datum => exact EvalM.leads_ofExcept _
  | grouping inner ih => exact ih (assigned_subset hA (by simp))
  | unary operator right ih =>
    exact (ih (assigned_subset hA (by simp))).bind fun v => EvalM.leads_ofExcept _
  | binary left operator right ihl ihr =>
    exact (ihl (assigned_subset hA (by simp))).bind fun a =>
      (ihr (assigned_subset hA (by simp))).bind fun b => EvalM.leads_ofExcept _
  | logical left operator right ihl ihr =>
    rw [eval_logical]
    refine (ihl (assigned_subset hA (by simp))).bind fun v => ?_
    cases LogicalOp.ofLexeme? operator with
    | none => exact Leads.throw _
    | some op =>
      dsimp only
      cases op.settledBy v with
      | true => exact Leads.pure v
      | false => exact ihr (assigned_subset hA (by simp))
  | ternary condition first second ihc ihf ihs =>
    refine (ihc (assigned_subset hA (by simp))).bind fun v => ?_
    cases v.isTruthy with
    | true => exact ihf (assigned_subset hA (by simp))
    | false => exact ihs (assigned_subset hA (by simp))
  | var name => exact EvalM.leads_lookup frame name
  | assign name source ih =>
    exact (ih (assigned_subset hA (by simp))).bind fun v =>
      hassign name (hA (target_mem_assigned rfl)) v
  | other node h =>
    rw [eval_of_not_isExpression h]
    exact Leads.throw _

/-- Evaluation leads along every relation along which assignments lead. -/
theorem Node.leads_eval_of [Trans R R R] {frame : Nat}
    (hassign : ∀ name v, Leads R (EvalM.assign frame name v)) (node : Node) :
    Leads R (node.eval frame) :=
  leads_eval_of_assigned (fun name _ => hassign name) (List.Subset.refl node.assigned)

end

section
variable {R : Store → Store → Prop}

theorem EvalM.lockstep_ofExcept_self {α : Type} (result : Except Fault α) :
    Lockstep R (ofExcept result) (ofExcept result) := by
  cases result with
  | ok a => exact Lockstep.pure a
  | error fault => exact Lockstep.throw fault

/-- Evaluation against two frames, in two stores, ends alike wherever looking up and assigning
names does. -/
theorem Node.lockstep_eval_of {f g : Nat}
    (hlookup : ∀ name, Lockstep R (EvalM.lookup f name) (EvalM.lookup g name))
    (hassign : ∀ name v, Lockstep R (EvalM.assign f name v) (EvalM.assign g name v))
    (node : Node) : Lockstep R (node.eval f) (node.eval g) := by
  induction node using expressionInduction with
  | literal datum => exact EvalM.lockstep_ofExcept_self _
  | grouping inner ih => exact ih
  | unary operator right ih => exact ih.bind fun v => EvalM.lockstep_ofExcept_self _
  | binary left operator right ihl ihr =>
    exact ihl.bind fun a => ihr.bind fun b => EvalM.lockstep_ofExcept_self _
  | logical left operator right ihl ihr =>
    rw [eval_logical, eval_logical]
    refine ihl.bind fun v => ?_
    cases LogicalOp.ofLexeme? operator with
    | none => exact Lockstep.throw _
    | some op =>
      dsimp only
      cases op.settledBy v with
      | true => exact Lockstep.pure v
      | false => exact ihr
  | ternary condition first second ihc ihf ihs =>
    refine ihc.bind fun v => ?_
    cases v.isTruthy with
    | true => exact ihf
    | false => exact ihs
  | var name => exact hlookup name
  | assign name source ih => exact ih.bind fun v => hassign name v
  | other node h =>
    rw [eval_of_not_isExpression h, eval_of_not_isExpression h]
    exact Lockstep.throw _

end

/-! ## Statements -/

/-- The operations that statements are made of lead along a relation. -/
structure ExecM.OperationsLead (R : Machine → Machine → Prop) : Prop where
  evaluate : ∀ node, Leads R (evaluate node)
  print : ∀ piece, Leads R (print piece)
  define : ∀ name v, Leads R (define name v)
  withNewScope : ∀ body : ExecM Unit, Leads R body → Leads R (withNewScope body)

section
variable {R : Machine → Machine → Prop} [Std.Refl R]

theorem ExecM.OperationsLead.test [Trans R R R] (h : OperationsLead R) (condition? : Option Node) :
    Leads R (ExecM.test condition?) := by
  cases condition? with
  | none => exact Leads.pure true
  | some condition => exact (h.evaluate condition).bind fun v => Leads.pure _

theorem ExecM.OperationsLead.discard [Trans R R R] (h : OperationsLead R)
    (node? : Option Node) :
    Leads R (ExecM.discard node?) := by
  cases node? with
  | none => exact Leads.pure ()
  | some node => exact (h.evaluate node).bind fun _ => Leads.pure ()

theorem ExecM.leads_repeatWhile [Trans R R R] {test : ExecM Bool} {body : ExecM Unit}
    (htest : Leads R test) (hbody : Leads R body) (rounds : Nat) :
    Leads R (repeatWhile test body rounds) := by
  induction rounds with
  | zero => exact Leads.throw _
  | succ rounds ih =>
    refine htest.bind fun holds => ?_
    cases holds with
    | true => exact hbody.bind fun _ => ih
    | false => exact Leads.pure ()

namespace Node

theorem leads_execOption {fuel : Nat} {node? : Option Node}
    (h : ∀ node ∈ node?, Leads R (node.exec fuel)) : Leads R (execOption fuel node?) := by
  cases node? with
  | none => exact Leads.pure ()
  | some node => exact h node rfl

theorem leads_execAll_of [Trans R R R] {fuel : Nat} {statements : List Node}
    (h : ∀ statement ∈ statements, Leads R (statement.exec fuel)) :
    Leads R (execAll fuel statements) := by
  induction statements with
  | nil => exact Leads.pure ()
  | cons statement rest ih =>
    exact (h statement List.mem_cons_self).bind fun _ =>
      ih fun other hother => h other (List.mem_cons_of_mem _ hother)

/-- Execution leads along every relation along which its operations lead. -/
theorem leads_exec_of [Trans R R R] (h : ExecM.OperationsLead R) (fuel : Nat) (node : Node) :
    Leads R (node.exec fuel) := by
  induction node using statementInduction with
  | expression inner => exact h.discard (some inner)
  | print inner => exact (h.evaluate inner).bind fun v => h.print _
  | varDecl name initializer? =>
    cases initializer? with
    | none => exact h.define _ _
    | some initializer => exact (h.evaluate initializer).bind fun v => h.define _ v
  | block statements ih => exact h.withNewScope _ (leads_execAll_of ih)
  | ifElse condition thenBranch elseBranch? ihThen ihElse =>
    refine (h.evaluate condition).bind fun v => ?_
    cases v.isTruthy with
    | true => exact ihThen
    | false => exact leads_execOption ihElse
  | whileLoop condition body ih =>
    exact ExecM.leads_repeatWhile (h.test (some condition)) ih fuel
  | forLoop initializer? condition? increment? body ihInit ihBody =>
    refine h.withNewScope _ ((leads_execOption ihInit).bind fun _ => ?_)
    exact ExecM.leads_repeatWhile (h.test condition?)
      (ihBody.bind fun _ => h.discard increment?) fuel
  | other node hnode =>
    rw [exec_of_not_isStatement hnode]
    exact Leads.throw _

end Node

end

/-! ## Two machines side by side -/

/-- From related machines, the operations that statements are made of end alike in related
machines. -/
structure ExecM.OperationsLockstep (R : Machine → Machine → Prop) : Prop where
  evaluate : ∀ node, Lockstep R (evaluate node) (evaluate node)
  print : ∀ piece, Lockstep R (print piece) (print piece)
  define : ∀ name v, Lockstep R (define name v) (define name v)
  withNewScope : ∀ body : ExecM Unit, Lockstep R body body →
    Lockstep R (withNewScope body) (withNewScope body)

section
variable {R : Machine → Machine → Prop}

theorem ExecM.OperationsLockstep.test (h : OperationsLockstep R) (condition? : Option Node) :
    Lockstep R (ExecM.test condition?) (ExecM.test condition?) := by
  cases condition? with
  | none => exact Lockstep.pure true
  | some condition => exact (h.evaluate condition).bind fun v => Lockstep.pure _

theorem ExecM.OperationsLockstep.discard (h : OperationsLockstep R) (node? : Option Node) :
    Lockstep R (ExecM.discard node?) (ExecM.discard node?) := by
  cases node? with
  | none => exact Lockstep.pure ()
  | some node => exact (h.evaluate node).bind fun _ => Lockstep.pure ()

theorem ExecM.lockstep_repeatWhile {test : ExecM Bool} {body : ExecM Unit}
    (htest : Lockstep R test test) (hbody : Lockstep R body body) (rounds : Nat) :
    Lockstep R (repeatWhile test body rounds) (repeatWhile test body rounds) := by
  induction rounds with
  | zero => exact Lockstep.throw _
  | succ rounds ih =>
    refine htest.bind fun holds => ?_
    cases holds with
    | true => exact hbody.bind fun _ => ih
    | false => exact Lockstep.pure ()

namespace Node

theorem lockstep_execOption {fuel : Nat} {node? : Option Node}
    (h : ∀ node ∈ node?, Lockstep R (node.exec fuel) (node.exec fuel)) :
    Lockstep R (execOption fuel node?) (execOption fuel node?) := by
  cases node? with
  | none => exact Lockstep.pure ()
  | some node => exact h node rfl

theorem lockstep_execAll_of {fuel : Nat} {statements : List Node}
    (h : ∀ statement ∈ statements, Lockstep R (statement.exec fuel) (statement.exec fuel)) :
    Lockstep R (execAll fuel statements) (execAll fuel statements) := by
  induction statements with
  | nil => exact Lockstep.pure ()
  | cons statement rest ih =>
    exact (h statement List.mem_cons_self).bind fun _ =>
      ih fun other hother => h other (List.mem_cons_of_mem _ hother)

/-- Execution runs in lockstep with itself wherever its operations do. -/
theorem lockstep_exec_of (h : ExecM.OperationsLockstep R) (fuel : Nat) (node : Node) :
    Lockstep R (node.exec fuel) (node.exec fuel) := by
  induction node using statementInduction with
  | expression inner => exact h.discard (some inner)
  | print inner => exact (h.evaluate inner).bind fun v => h.print _
  | varDecl name initializer? =>
    cases initializer? with
    | none => exact h.define _ _
    | some initializer => exact (h.evaluate initializer).bind fun v => h.define _ v
  | block statements ih => exact h.withNewScope _ (lockstep_execAll_of ih)
  | ifElse condition thenBranch elseBranch? ihThen ihElse =>
    refine (h.evaluate condition).bind fun v => ?_
    cases v.isTruthy with
    | true => exact ihThen
    | false => exact lockstep_execOption ihElse
  | whileLoop condition body ih =>
    exact ExecM.lockstep_repeatWhile (h.test (some condition)) ih fuel
  | forLoop initializer? condition? increment? body ihInit ihBody =>
    refine h.withNewScope _ ((lockstep_execOption ihInit).bind fun _ => ?_)
    exact ExecM.lockstep_repeatWhile (h.test condition?)
      (ihBody.bind fun _ => h.discard increment?) fuel
  | other node hnode =>
    rw [exec_of_not_isStatement hnode]
    exact Lockstep.throw _

end Node

end

end Lox
