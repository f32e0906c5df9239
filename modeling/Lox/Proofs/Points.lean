import Lox.Proofs.Growth
import Mathlib.Logic.Relation

/-!
# The points of a run

A run of a program is made of tasks: to evaluate an expression, to execute a statement, or several
in a row, or the rounds of a loop.  A task calls other tasks, each on the machine that those before
it left, and so on down to what is done at once.  A task together with the machine that it begins
on is a *point* of the run.  A run that fails, or never ends, has points as well: all that it
reached.

A property of machines that evaluation, printing, definitions and scopes keep holds at all points
of a run if it holds at the first one.

## Main definitions

* `Task`, `Task.run` — what there is to do, and the computation that does it.
* `Point`, `Point.Calls` — a task on a machine, and the tasks that it calls.
* `ExecM.OperationsKeep` — the operations of statements keep a property of machines, as long as the
  nodes that they are given have one.
-/

namespace Lox

/-! ## Tasks and points -/

/-- What there is to do at a point of a run. -/
inductive Task
  | evaluate (node : Node)
  | execute (node : Node)
  | executeAll (statements : List Node)
  /-- Go through the rounds of a loop, from a test of the condition on. -/
  | repeatWhile (condition? : Option Node) (body : Node) (increment? : Option Node)

namespace Task

/-- The nodes that a task is given. -/
@[simp]
def nodes : Task → List Node
  | evaluate node => [node]
  | execute node => [node]
  | executeAll statements => statements
  | repeatWhile condition? body increment? => condition?.toList ++ body :: increment?.toList

/-- The computation that does a task; it gives a value if the task is to evaluate. -/
def run (fuel : Nat) : Task → ExecM (Option Value)
  | evaluate node => do
    let v ← ExecM.evaluate node
    pure (some v)
  | execute node => do
    node.exec fuel
    pure none
  | executeAll statements => do
    Node.execAll fuel statements
    pure none
  | repeatWhile condition? body increment? => do
    ExecM.repeatWhile (ExecM.test condition?)
      (do
        body.exec fuel
        ExecM.discard increment?)
      fuel
    pure none

end Task

/-- The machine on which the inside of a new scope begins. -/
def Machine.nested (m : Machine) : Machine :=
  ({ m with store := m.store.push (some m.active) }).enter m.store.size

@[simp] theorem Machine.active_nested (m : Machine) : m.nested.active = m.store.size := rfl

@[simp] theorem Machine.store_nested (m : Machine) :
    m.nested.store = m.store.push (some m.active) := rfl

theorem Machine.active_nested_lt (m : Machine) : m.nested.active < m.nested.store.size := by simp

/-- A scope of its own ends as its inside does in the new frame. -/
theorem ExecM.withNewScope_eq_endedIn_iff {α : Type} {body : ExecM α} {m m' : Machine}
    {outcome : Except Fault α} :
    withNewScope body m = endedIn outcome m' ↔
      ∃ m₁, body m.nested = endedIn outcome m₁ ∧ m' = m₁.leave m.active := by
  cases hbody : body m.nested with
  | ok a m₁ =>
    rw [withNewScope_of_ok hbody]
    cases outcome <;> simp [endedIn, and_assoc, eq_comm]
  | error stop m₁ =>
    rw [withNewScope_of_error hbody]
    cases outcome <;> simp [endedIn, and_assoc, eq_comm]

/-- A task, and the machine that it begins on. -/
structure Point where
  task : Task
  machine : Machine

/-- The task of the first point calls that of the second, on the machine that it has come to by
then. -/
inductive Point.Calls : Point → Point → Prop
  | grouping {inner : Node} {m : Machine} :
    Calls ⟨.evaluate (.grouping inner), m⟩ ⟨.evaluate inner, m⟩
  | unary {operator : Lexeme} {right : Node} {m : Machine} :
    Calls ⟨.evaluate (.unary operator right), m⟩ ⟨.evaluate right, m⟩
  | binaryLeft {left right : Node} {operator : Lexeme} {m : Machine} :
    Calls ⟨.evaluate (.binary left operator right), m⟩ ⟨.evaluate left, m⟩
  | binaryRight {left right : Node} {operator : Lexeme} {m m' : Machine} {v : Value}
    (hleft : ExecM.evaluate left m = .ok v m') :
    Calls ⟨.evaluate (.binary left operator right), m⟩ ⟨.evaluate right, m'⟩
  | logicalLeft {left right : Node} {operator : Lexeme} {m : Machine} :
    Calls ⟨.evaluate (.logical left operator right), m⟩ ⟨.evaluate left, m⟩
  | logicalRight {left right : Node} {operator : Lexeme} {op : LogicalOp} {m m' : Machine}
    {v : Value} (hleft : ExecM.evaluate left m = .ok v m')
    (hoperator : LogicalOp.ofLexeme? operator = some op) (hopen : op.settledBy v = false) :
    Calls ⟨.evaluate (.logical left operator right), m⟩ ⟨.evaluate right, m'⟩
  | ternaryCondition {condition first second : Node} {m : Machine} :
    Calls ⟨.evaluate (.ternary condition first second), m⟩ ⟨.evaluate condition, m⟩
  | ternaryFirst {condition first second : Node} {m m' : Machine} {v : Value}
    (hcondition : ExecM.evaluate condition m = .ok v m') (htruthy : v.isTruthy = true) :
    Calls ⟨.evaluate (.ternary condition first second), m⟩ ⟨.evaluate first, m'⟩
  | ternarySecond {condition first second : Node} {m m' : Machine} {v : Value}
    (hcondition : ExecM.evaluate condition m = .ok v m') (htruthy : v.isTruthy = false) :
    Calls ⟨.evaluate (.ternary condition first second), m⟩ ⟨.evaluate second, m'⟩
  | assign {name : Lexeme} {source : Node} {m : Machine} :
    Calls ⟨.evaluate (.assign name source), m⟩ ⟨.evaluate source, m⟩
  | expression {inner : Node} {m : Machine} :
    Calls ⟨.execute (.expression inner), m⟩ ⟨.evaluate inner, m⟩
  | print {inner : Node} {m : Machine} :
    Calls ⟨.execute (.print inner), m⟩ ⟨.evaluate inner, m⟩
  | varDecl {name : Lexeme} {initializer : Node} {m : Machine} :
    Calls ⟨.execute (.varDecl name (some initializer)), m⟩ ⟨.evaluate initializer, m⟩
  | block {statements : List Node} {m : Machine} :
    Calls ⟨.execute (.block statements), m⟩ ⟨.executeAll statements, m.nested⟩
  | ifCondition {condition thenBranch : Node} {elseBranch? : Option Node} {m : Machine} :
    Calls ⟨.execute (.ifElse condition thenBranch elseBranch?), m⟩ ⟨.evaluate condition, m⟩
  | ifThen {condition thenBranch : Node} {elseBranch? : Option Node} {m m' : Machine} {v : Value}
    (hcondition : ExecM.evaluate condition m = .ok v m') (htruthy : v.isTruthy = true) :
    Calls ⟨.execute (.ifElse condition thenBranch elseBranch?), m⟩ ⟨.execute thenBranch, m'⟩
  | ifElse {condition thenBranch elseBranch : Node} {m m' : Machine} {v : Value}
    (hcondition : ExecM.evaluate condition m = .ok v m') (htruthy : v.isTruthy = false) :
    Calls ⟨.execute (.ifElse condition thenBranch (some elseBranch)), m⟩ ⟨.execute elseBranch, m'⟩
  | whileLoop {condition body : Node} {m : Machine} :
    Calls ⟨.execute (.whileLoop condition body), m⟩ ⟨.repeatWhile (some condition) body none, m⟩
  | forInitializer {initializer body : Node} {condition? increment? : Option Node} {m : Machine} :
    Calls ⟨.execute (.forLoop (some initializer) condition? increment? body), m⟩
      ⟨.execute initializer, m.nested⟩
  | forLoop {body : Node} {initializer? condition? increment? : Option Node} {m m' : Machine}
    (hinitializer : Ends (Node.execOption · initializer?) m.nested (.ok ()) m') :
    Calls ⟨.execute (.forLoop initializer? condition? increment? body), m⟩
      ⟨.repeatWhile condition? body increment?, m'⟩
  | loopCondition {condition body : Node} {increment? : Option Node} {m : Machine} :
    Calls ⟨.repeatWhile (some condition) body increment?, m⟩ ⟨.evaluate condition, m⟩
  | loopBody {body : Node} {condition? increment? : Option Node} {m m' : Machine}
    (htest : ExecM.test condition? m = .ok true m') :
    Calls ⟨.repeatWhile condition? body increment?, m⟩ ⟨.execute body, m'⟩
  | loopIncrement {body increment : Node} {condition? : Option Node} {m m₁ m₂ : Machine}
    (htest : ExecM.test condition? m = .ok true m₁) (hbody : Ends body.exec m₁ (.ok ()) m₂) :
    Calls ⟨.repeatWhile condition? body (some increment), m⟩ ⟨.evaluate increment, m₂⟩
  | loopAgain {body : Node} {condition? increment? : Option Node} {m m₁ m₂ m₃ : Machine}
    (htest : ExecM.test condition? m = .ok true m₁) (hbody : Ends body.exec m₁ (.ok ()) m₂)
    (hincrement : ExecM.discard increment? m₂ = .ok () m₃) :
    Calls ⟨.repeatWhile condition? body increment?, m⟩
      ⟨.repeatWhile condition? body increment?, m₃⟩
  | first {statement : Node} {rest : List Node} {m : Machine} :
    Calls ⟨.executeAll (statement :: rest), m⟩ ⟨.execute statement, m⟩
  | rest {statement : Node} {rest : List Node} {m m' : Machine}
    (hstatement : Ends statement.exec m (.ok ()) m') :
    Calls ⟨.executeAll (statement :: rest), m⟩ ⟨.executeAll rest, m'⟩

/-- Where the operations of statements lead along a relation, a call goes along it too, from the
machine of the caller or from the inside of a new scope. -/
theorem Point.Calls.leads_of {R : Machine → Machine → Prop} [Std.Refl R] [Trans R R R]
    (h : ExecM.OperationsLead R) {p p' : Point} (hcall : p.Calls p') :
    R p.machine p'.machine ∨ R p.machine.nested p'.machine := by
  have hexec : ∀ {node : Node} {m m' : Machine}, Ends node.exec m (.ok ()) m' → R m m' :=
    fun hends => hends.leads fun fuel => Node.leads_exec_of h fuel _
  cases hcall with
  | grouping | unary | binaryLeft | logicalLeft | ternaryCondition | assign | expression | print
  | varDecl | ifCondition | whileLoop | loopCondition | first => exact .inl (Std.Refl.refl _)
  | binaryRight hfirst | logicalRight hfirst | ternaryFirst hfirst | ternarySecond hfirst
  | ifThen hfirst | ifElse hfirst => exact .inl ((h.evaluate _).of_ok hfirst)
  | block | forInitializer => exact .inr (Std.Refl.refl _)
  | forLoop hinitializer =>
    exact .inr (hinitializer.leads fun fuel =>
      Node.leads_execOption fun node _ => Node.leads_exec_of h fuel node)
  | loopBody htest => exact .inl ((h.test _).of_ok htest)
  | loopIncrement htest hbody =>
    exact .inl (Trans.trans ((h.test _).of_ok htest) (hexec hbody))
  | loopAgain htest hbody hincrement =>
    have hround := Trans.trans (hexec hbody) ((h.discard _).of_ok hincrement)
    exact .inl (Trans.trans ((h.test _).of_ok htest) hround)
  | rest hstatement => exact .inl (hexec hstatement)

/-! ## What tasks keep -/

namespace ExecM

/-- From machines with the property `P` a computation leaves machines with it; its answers have the
property `V`, and the reasons for which it stops have the property `E`. -/
def Preserves {α : Type} (P : Machine → Prop) (E : Stop → Prop) (V : α → Prop) (p : ExecM α) :
    Prop :=
  Ensures P p (fun a m => V a ∧ P m) fun stop m => E stop ∧ P m

namespace Preserves
variable {α β : Type} {P : Machine → Prop} {E : Stop → Prop} {V : α → Prop} {W : β → Prop}

theorem pure {a : α} (h : V a) : Preserves P E V (Pure.pure a) :=
  Ensures.pure fun _ hm => ⟨h, hm⟩

theorem throw {stop : Stop} (h : E stop) : Preserves P E V (MonadExcept.throw stop) :=
  Ensures.throw fun _ hm => ⟨h, hm⟩

theorem bind {p : ExecM α} {f : α → ExecM β} (hp : Preserves P E V p)
    (hf : ∀ a, V a → Preserves P E W (f a)) : Preserves P E W (p >>= f) :=
  Ensures.bind hp fun a m h => hf a h.1 m h.2

theorem withNewScope {body : ExecM α} (hnested : ∀ m, P m → P m.nested)
    (hleave : ∀ previous m, P m → P (m.leave previous)) (h : Preserves P E V body) :
    Preserves P E V (withNewScope body) := by
  refine Ensures.of_results fun m hm => ?_
  obtain ⟨hok, herror⟩ := h m.nested (hnested m hm)
  cases hbody : body m.nested with
  | ok a m' =>
    rw [withNewScope_of_ok hbody]
    exact (hok a m' hbody).imp_right (hleave _ _)
  | error stop m' =>
    rw [withNewScope_of_error hbody]
    exact (herror stop m' hbody).imp_right (hleave _ _)

theorem repeatWhile {test : ExecM Bool} {body : ExecM Unit} (hfuel : E .outOfFuel)
    (htest : Preserves P E (fun _ => True) test) (hbody : Preserves P E (fun _ => True) body)
    (rounds : Nat) : Preserves P E (fun _ => True) (repeatWhile test body rounds) := by
  induction rounds with
  | zero => exact throw hfuel
  | succ rounds ih =>
    refine htest.bind fun holds _ => ?_
    cases holds with
    | true => exact hbody.bind fun _ _ => ih
    | false => exact pure trivial

theorem of_ok {p : ExecM α} (h : Preserves P E V p) {m m' : Machine} {a : α} (hm : P m)
    (hp : p m = .ok a m') : P m' :=
  ((h m hm).1 a m' hp).2

/-- What an ended computation leaves. -/
theorem of_ends {run : Nat → ExecM α} (h : ∀ fuel, Preserves P E V (run fuel)) {m m' : Machine}
    {a : α} (hm : P m) (hrun : Ends run m (.ok a) m') : P m' := by
  obtain ⟨fuel, hfuel⟩ := hrun
  exact (h fuel).of_ok hm hfuel

end Preserves

/-- On nodes with the property `Q`, the operations that statements are made of keep the property
`P` of machines; expressions have values with the property `V`, and computations stop for reasons
with the property `E`. -/
structure OperationsKeep (Q : Node → Prop) (V : Value → Prop) (P : Machine → Prop)
    (E : Stop → Prop) : Prop where
  child : ∀ {node}, Q node → ∀ child ∈ node.children, Q child
  evaluate : ∀ {node}, Q node → Preserves P E V (evaluate node)
  print : ∀ piece m, P m → P (m.print piece)
  define : ∀ {name initializer?}, Q (.varDecl name initializer?) → ∀ v m, V v → P m →
    P { m with store := m.store.define m.active name.text v }
  nil : V .nil
  nested : ∀ m, P m → P m.nested
  leave : ∀ previous m, P m → P (m.leave previous)
  outOfFuel : E .outOfFuel
  unsupported : ∀ className, E (.fault (.unplaced (.unsupportedStatement className)))

end ExecM

section
variable {Q : Node → Prop} {V : Value → Prop} {P : Machine → Prop} {E : Stop → Prop}

namespace ExecM.OperationsKeep

theorem preserves_print (h : OperationsKeep Q V P E) (piece : String) :
    Preserves P E (fun _ => True) (ExecM.print piece) :=
  Ensures.of_results fun m hm => ⟨trivial, h.print piece m hm⟩

theorem preserves_define (h : OperationsKeep Q V P E) {name : Lexeme} {initializer? : Option Node}
    (hnode : Q (.varDecl name initializer?)) {v : Value} (hv : V v) :
    Preserves P E (fun _ => True) (ExecM.define name.text v) :=
  Ensures.of_results fun m hm => ⟨trivial, h.define hnode v m hv hm⟩

theorem preserves_test (h : OperationsKeep Q V P E) {condition? : Option Node}
    (hcondition : ∀ condition ∈ condition?, Q condition) :
    Preserves P E (fun _ => True) (test condition?) := by
  cases condition? with
  | none => exact .pure trivial
  | some condition => exact (h.evaluate (hcondition condition rfl)).bind fun _ _ => .pure trivial

theorem preserves_discard (h : OperationsKeep Q V P E) {node? : Option Node}
    (hnode : ∀ node ∈ node?, Q node) : Preserves P E (fun _ => True) (discard node?) := by
  cases node? with
  | none => exact .pure trivial
  | some node => exact (h.evaluate (hnode node rfl)).bind fun _ _ => .pure trivial

theorem preserves_execOption {fuel : Nat} {node? : Option Node}
    (hnode : ∀ node ∈ node?, Preserves P E (fun _ => True) (node.exec fuel)) :
    Preserves P E (fun _ => True) (Node.execOption fuel node?) := by
  cases node? with
  | none => exact .pure trivial
  | some node => exact hnode node rfl

theorem preserves_execAll_of {fuel : Nat} {statements : List Node}
    (hstatements : ∀ statement ∈ statements,
      Preserves P E (fun _ => True) (statement.exec fuel)) :
    Preserves P E (fun _ => True) (Node.execAll fuel statements) := by
  induction statements with
  | nil => exact .pure trivial
  | cons statement rest ih =>
    exact (hstatements statement List.mem_cons_self).bind fun _ _ =>
      ih fun other hother => hstatements other (List.mem_cons_of_mem _ hother)

/-- Statements keep what their operations keep. -/
theorem preserves_exec (h : OperationsKeep Q V P E) {node : Node} (hnode : Q node) (fuel : Nat) :
    Preserves P E (fun _ => True) (node.exec fuel) := by
  have hchild : ∀ {node : Node}, Q node → ∀ child ∈ node.children, Q child := h.child
  induction node using Node.statementInduction with
  | expression inner =>
    exact h.preserves_discard fun node hmem => hchild hnode node (by simp_all)
  | print inner =>
    exact (h.evaluate (hchild hnode inner (by simp))).bind fun v _ => h.preserves_print _
  | varDecl name initializer? =>
    cases initializer? with
    | none => exact h.preserves_define hnode h.nil
    | some initializer =>
      exact (h.evaluate (hchild hnode initializer (by simp))).bind fun v hv =>
        h.preserves_define hnode hv
  | block statements ih =>
    refine .withNewScope h.nested h.leave (preserves_execAll_of fun statement hmem => ?_)
    exact ih statement hmem (hchild hnode statement (by simpa using hmem))
  | ifElse condition thenBranch elseBranch? ihThen ihElse =>
    refine (h.evaluate (hchild hnode condition (by simp))).bind fun v _ => ?_
    cases v.isTruthy with
    | true => exact ihThen (hchild hnode thenBranch (by simp))
    | false =>
      exact preserves_execOption fun elseBranch hmem =>
        ihElse elseBranch hmem (hchild hnode elseBranch (by simp_all))
  | whileLoop condition body ih =>
    exact .repeatWhile h.outOfFuel
      (h.preserves_test fun node hmem => hchild hnode node (by simp_all))
      (ih (hchild hnode body (by simp))) fuel
  | forLoop initializer? condition? increment? body ihInit ihBody =>
    refine .withNewScope h.nested h.leave ((preserves_execOption fun initializer hmem =>
      ihInit initializer hmem (hchild hnode initializer (by simp_all))).bind fun _ _ => ?_)
    refine .repeatWhile h.outOfFuel
      (h.preserves_test fun node hmem => hchild hnode node (by simp_all))
      ((ihBody (hchild hnode body (by simp))).bind fun _ _ => ?_) fuel
    exact h.preserves_discard fun node hmem => hchild hnode node (by simp_all)
  | other node hother =>
    rw [Node.exec_of_not_isStatement hother]
    exact .throw (h.unsupported node.className)

end ExecM.OperationsKeep

/-- A task keeps what the operations of statements keep. -/
theorem Task.preserves_run (h : ExecM.OperationsKeep Q V P E) {task : Task}
    (htask : ∀ node ∈ task.nodes, Q node) (fuel : Nat) :
    ExecM.Preserves P E (fun v? => ∀ v ∈ v?, V v) (task.run fuel) := by
  have hnone : ∀ v ∈ (none : Option Value), V v := fun v hv => by cases hv
  cases task with
  | evaluate node =>
    refine (h.evaluate (htask node (by simp))).bind fun v hv => .pure ?_
    rintro _ ⟨⟩
    exact hv
  | execute node =>
    exact (h.preserves_exec (htask node (by simp)) fuel).bind fun _ _ => .pure hnone
  | executeAll statements =>
    exact (ExecM.OperationsKeep.preserves_execAll_of fun statement hmem =>
      h.preserves_exec (htask statement hmem) fuel).bind fun _ _ => .pure hnone
  | repeatWhile condition? body increment? =>
    have hbody := h.preserves_exec (htask body (by simp)) fuel
    have hincrement : ∀ increment ∈ increment?, Q increment := fun node hmem =>
      htask node (by simp [Option.mem_def.1 hmem])
    have hround := hbody.bind fun _ _ => h.preserves_discard hincrement
    exact (ExecM.Preserves.repeatWhile h.outOfFuel
      (h.preserves_test fun node hmem => htask node (by simp_all)) hround fuel).bind
        fun _ _ => .pure hnone

/-! ## What holds at all points -/

namespace Point

/-- The nodes of the task have the property `Q`, and the machine has the property `P`. -/
structure Meets (Q : Node → Prop) (P : Machine → Prop) (p : Point) : Prop where
  nodes : ∀ node ∈ p.task.nodes, Q node
  machine : P p.machine

theorem Meets.evaluate {node : Node} {m : Machine} (hnode : Q node) (hm : P m) :
    Meets Q P ⟨.evaluate node, m⟩ :=
  ⟨List.forall_mem_singleton.2 hnode, hm⟩

theorem Meets.execute {node : Node} {m : Machine} (hnode : Q node) (hm : P m) :
    Meets Q P ⟨.execute node, m⟩ :=
  ⟨List.forall_mem_singleton.2 hnode, hm⟩

/-- What holds at a point holds at the points that it calls. -/
theorem Calls.meets (h : ExecM.OperationsKeep Q V P E) {p p' : Point} (hcall : p.Calls p')
    (hp : p.Meets Q P) : p'.Meets Q P := by
  obtain ⟨hnodes, hm⟩ := hp
  have hchild : ∀ {node child : Node}, (∀ other ∈ [node], Q other) → child ∈ node.children →
      Q child := fun hnode hmem => h.child (List.forall_mem_singleton.1 hnode) _ hmem
  cases hcall with
  | grouping | unary | binaryLeft | logicalLeft | ternaryCondition | assign | expression | print
  | varDecl | ifCondition => exact .evaluate (hchild hnodes (by simp)) hm
  | binaryRight hfirst | logicalRight hfirst | ternaryFirst hfirst | ternarySecond hfirst =>
    have hm' := (h.evaluate (hchild hnodes (by simp))).of_ok hm hfirst
    exact .evaluate (hchild hnodes (by simp)) hm'
  | ifThen hcondition | ifElse hcondition =>
    have hm' := (h.evaluate (hchild hnodes (by simp))).of_ok hm hcondition
    exact .execute (hchild hnodes (by simp)) hm'
  | block => exact ⟨fun statement hmem => hchild hnodes (by simpa using hmem), h.nested _ hm⟩
  | whileLoop => exact ⟨fun node hmem => hchild hnodes (by simpa using hmem), hm⟩
  | forInitializer => exact .execute (hchild hnodes (by simp)) (h.nested _ hm)
  | forLoop hinitializer =>
    have hm' := ExecM.Preserves.of_ends (fun fuel =>
      ExecM.OperationsKeep.preserves_execOption fun initializer hmem =>
        h.preserves_exec (hchild hnodes (by simp [Option.mem_def.1 hmem])) fuel)
      (h.nested _ hm) hinitializer
    refine ⟨fun node hmem => hchild hnodes ?_, hm'⟩
    simp only [Task.nodes, Node.mem_children, Node.expressions, Node.statements, List.mem_append,
      List.mem_cons] at hmem ⊢
    grind
  | loopCondition => exact .evaluate (hnodes _ (by simp)) hm
  | loopBody htest =>
    have hm' := (h.preserves_test fun node hmem => hnodes node
      (by simp [Option.mem_def.1 hmem])).of_ok hm htest
    exact .execute (hnodes _ (by simp)) hm'
  | loopIncrement htest hbody =>
    have hm₁ := (h.preserves_test fun node hmem => hnodes node
      (by simp [Option.mem_def.1 hmem])).of_ok hm htest
    have hm₂ := ExecM.Preserves.of_ends (h.preserves_exec (hnodes _ (by simp))) hm₁ hbody
    exact .evaluate (hnodes _ (by simp)) hm₂
  | loopAgain htest hbody hincrement =>
    have hm₁ := (h.preserves_test fun node hmem => hnodes node
      (by simp [Option.mem_def.1 hmem])).of_ok hm htest
    have hm₂ := ExecM.Preserves.of_ends (h.preserves_exec (hnodes _ (by simp))) hm₁ hbody
    have hm₃ := (h.preserves_discard fun node hmem => hnodes node
      (by simp [Option.mem_def.1 hmem])).of_ok hm₂ hincrement
    exact ⟨hnodes, hm₃⟩
  | first => exact .execute (hnodes _ List.mem_cons_self) hm
  | rest hstatement =>
    have hm' := ExecM.Preserves.of_ends (h.preserves_exec (hnodes _ List.mem_cons_self)) hm
      hstatement
    exact ⟨fun node hmem => hnodes node (List.mem_cons_of_mem _ hmem), hm'⟩

/-- What holds at the first point of a run holds at all its points. -/
theorem Meets.of_reached (h : ExecM.OperationsKeep Q V P E) {p p' : Point}
    (hp : p.Meets Q P) (hreached : Relation.ReflTransGen Calls p p') : p'.Meets Q P := by
  induction hreached with
  | refl => exact hp
  | tail _ hcall ih => exact hcall.meets h ih

end Point
end
end Lox
