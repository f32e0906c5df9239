import Lox.Proofs.Contexts
import Lox.Proofs.Points

/-!
# Nodes that are not reached

What a program does depends on the node in a place only on those machines on which the run comes to
this place.  If two nodes do the same there, the programs with the one and with the other do the
same.  So every node will do where the run does not come at all: in the branch that a condition
leaves out, on the right of an operator that the left operand settles, in a loop that makes no
round, and after a fault.

A node of an unknown class stops whatever reaches it.  So a program that does not stop because of
such a node did not reach it, and any other node may stand in its place.
-/

namespace Lox

/-! ## Congruence on one machine -/

/-- Computations in a row do the same from a state if the first ones do, and the second ones do from
where the first ones get. -/
theorem bind_congr_from {ε σ α β : Type} {p p' : EStateM ε σ α} {f f' : α → EStateM ε σ β} {s : σ}
    (hp : p' s = p s) (hf : ∀ a s', p s = .ok a s' → f' a s' = f a s') :
    (p' >>= f') s = (p >>= f) s := by
  cases h : p s with
  | ok a s' =>
    rw [bind_of_ok h, bind_of_ok (hp.trans h)]
    exact hf a s' h
  | error e s' => rw [bind_of_error h, bind_of_error (hp.trans h)]

namespace ExecM

theorem withNewScope_congr_from {α : Type} {body body' : ExecM α} {m : Machine}
    (h : body' m.nested = body m.nested) : withNewScope body' m = withNewScope body m := by
  cases hbody : body m.nested with
  | ok a m' => rw [withNewScope_of_ok hbody, withNewScope_of_ok (h.trans hbody)]
  | error stop m' => rw [withNewScope_of_error hbody, withNewScope_of_error (h.trans hbody)]

/-- Loops do the same if their tests and their bodies do in every round.  A round begins on a
machine with the property `P`. -/
theorem repeatWhile_congr_from {P : Machine → Prop} {test test' : ExecM Bool}
    {body body' : ExecM Unit} (htest : ∀ m, P m → test' m = test m)
    (hbody : ∀ m m₁, P m → test m = .ok true m₁ → body' m₁ = body m₁)
    (hagain : ∀ m m₁ m₂, P m → test m = .ok true m₁ → body m₁ = .ok () m₂ → P m₂)
    (rounds : Nat) {m : Machine} (hm : P m) :
    repeatWhile test' body' rounds m = repeatWhile test body rounds m := by
  induction rounds generalizing m with
  | zero => rfl
  | succ rounds ih =>
    refine bind_congr_from (htest m hm) fun holds m₁ hholds => ?_
    cases holds with
    | false => rfl
    | true =>
      exact bind_congr_from (hbody m m₁ hm hholds) fun _ m₂ hround =>
        ih (hagain m m₁ m₂ hm hholds hround)

theorem evaluate_congr_from {a b : Node} {m : Machine}
    (h : b.eval m.active m.store = a.eval m.active m.store) : evaluate b m = evaluate a m := by
  simp only [evaluate, h]

end ExecM

/-! ## Places that a run comes to -/

/-- What there is to do with a node in a place. -/
def Slot.task (node : Node) : Slot → Task
  | expression => .evaluate node
  | statement => .execute node

/-- On a machine, the second node does in a place what the first does. -/
def Slot.SameOn (a b : Node) (m : Machine) : Slot → Prop
  | expression => b.eval m.active m.store = a.eval m.active m.store
  | statement => ∀ fuel, b.exec fuel m = a.exec fuel m

namespace Node
variable {a b : Node} {m : Machine}

/-- After statements that come to their end, a run comes to those after them. -/
theorem reaches_executeAll {fuel : Nat} {before : List Node} (rest : List Node) {m' : Machine}
    (h : execAll fuel before m = .ok () m') :
    Relation.ReflTransGen Point.Calls ⟨.executeAll (before ++ rest), m⟩ ⟨.executeAll rest, m'⟩ := by
  induction before generalizing m with
  | nil =>
    cases h
    exact .refl
  | cons statement before ih =>
    obtain ⟨_, m₁, hstatement, hbefore⟩ := bind_eq_ok_iff.1 h
    exact .head (.rest ⟨fuel, hstatement⟩) (ih hbefore)

/-- Statements in a row do the same if those in one place do wherever the run comes to it. -/
theorem execAll_congr_from {before after : List Node}
    (h : ∀ m', Relation.ReflTransGen Point.Calls ⟨.executeAll (before ++ a :: after), m⟩
      ⟨.execute a, m'⟩ → Slot.statement.SameOn a b m') (fuel : Nat) :
    execAll fuel (before ++ b :: after) m = execAll fuel (before ++ a :: after) m := by
  rw [execAll_append, execAll_append]
  refine bind_congr_from rfl fun _ m' hbefore => ?_
  have hsame := h m' ((reaches_executeAll _ hbefore).tail .first)
  exact bind_congr_from (hsame fuel) fun _ _ _ => rfl

section
variable {condition? condition'? increment? increment'? : Option Node} {body body' : Node}

/-- Loops do the same if their parts do wherever the rounds come to them. -/
theorem loop_congr_from {p : Point}
    (hstart : Relation.ReflTransGen Point.Calls p ⟨.repeatWhile condition? body increment?, m⟩)
    (hcondition : ∀ m', Relation.ReflTransGen Point.Calls p
      ⟨.repeatWhile condition? body increment?, m'⟩ →
        ExecM.test condition'? m' = ExecM.test condition? m')
    (hbody : ∀ m', Relation.ReflTransGen Point.Calls p ⟨.execute body, m'⟩ →
      ∀ fuel, body'.exec fuel m' = body.exec fuel m')
    (hincrement : ∀ m' m₁ m₂, Relation.ReflTransGen Point.Calls p
      ⟨.repeatWhile condition? body increment?, m'⟩ → ExecM.test condition? m' = .ok true m₁ →
        Ends body.exec m₁ (.ok ()) m₂ → ExecM.discard increment'? m₂ = ExecM.discard increment? m₂)
    (fuel : Nat) :
    ExecM.repeatWhile (ExecM.test condition'?)
        (do
          body'.exec fuel
          ExecM.discard increment'?) fuel m =
      ExecM.repeatWhile (ExecM.test condition?)
        (do
          body.exec fuel
          ExecM.discard increment?) fuel m := by
  refine ExecM.repeatWhile_congr_from (P := fun m' => Relation.ReflTransGen Point.Calls p
    ⟨.repeatWhile condition? body increment?, m'⟩) hcondition ?_ ?_ fuel hstart
  · intro m' m₁ hm' htest
    refine bind_congr_from (hbody m₁ (hm'.tail (.loopBody htest)) fuel) fun _ m₂ hround => ?_
    exact hincrement m' m₁ m₂ hm' htest ⟨fuel, hround⟩
  · intro m' m₁ m₃ hm' htest hround
    obtain ⟨_, m₂, hbody, hincrement⟩ := bind_eq_ok_iff.1 hround
    exact hm'.tail (.loopAgain htest ⟨fuel, hbody⟩ hincrement)

end

/-- A `while` loop is a loop that has no increment. -/
theorem exec_whileLoop (condition body : Node) (fuel : Nat) :
    (whileLoop condition body).exec fuel = ExecM.repeatWhile (ExecM.test (some condition))
      (do
        body.exec fuel
        ExecM.discard none) fuel :=
  congrArg (ExecM.repeatWhile _ · fuel) (bind_pure (body.exec fuel)).symm

namespace Layer

/-- Nodes that do the same wherever a run comes to the hole make expressions that do the same. -/
theorem sameOn_eval {layer : Layer}
    (h : ∀ m', Relation.ReflTransGen Point.Calls ⟨.evaluate (layer.fill a), m⟩
      ⟨layer.slot.task a, m'⟩ → layer.slot.SameOn a b m') :
    (layer.fill b).eval m.active m.store = (layer.fill a).eval m.active m.store := by
  cases layer with
  | grouping => exact h m (.single .grouping)
  | unary operator => exact bind_congr_from (h m (.single .unary)) fun _ _ _ => rfl
  | binaryLeft operator right =>
    exact bind_congr_from (h m (.single .binaryLeft)) fun _ _ _ => rfl
  | binaryRight left operator =>
    refine bind_congr_from rfl fun v store hleft => ?_
    have hsame := h _ (.single (.binaryRight (ExecM.evaluate_of_ok hleft)))
    exact bind_congr_from hsame fun _ _ _ => rfl
  | logicalLeft operator right =>
    exact bind_congr_from (h m (.single .logicalLeft)) fun _ _ _ => rfl
  | logicalRight left operator =>
    simp only [fill, eval_logical]
    refine bind_congr_from rfl fun v store hleft => ?_
    cases hoperator : LogicalOp.ofLexeme? operator with
    | none => rfl
    | some op =>
      dsimp only
      cases hsettled : op.settledBy v with
      | true => rfl
      | false =>
        exact h _ (.single (.logicalRight (ExecM.evaluate_of_ok hleft) hoperator hsettled))
  | ternaryCondition first second =>
    exact bind_congr_from (h m (.single .ternaryCondition)) fun _ _ _ => rfl
  | ternaryFirst condition second =>
    refine bind_congr_from rfl fun v store hcondition => ?_
    cases hv : v.isTruthy with
    | true => exact h _ (.single (.ternaryFirst (ExecM.evaluate_of_ok hcondition) hv))
    | false => rfl
  | ternarySecond condition first =>
    refine bind_congr_from rfl fun v store hcondition => ?_
    cases hv : v.isTruthy with
    | true => rfl
    | false => exact h _ (.single (.ternarySecond (ExecM.evaluate_of_ok hcondition) hv))
  | assign name => exact bind_congr_from (h m (.single .assign)) fun _ _ _ => rfl
  | expression | print | varDecl | block | ifCondition | ifThen | ifElse | whileCondition
    | whileBody | forInitializer | forCondition | forIncrement | forBody => rfl

/-- Nodes that do the same wherever a run comes to the hole make statements that do the same. -/
theorem sameOn_exec {layer : Layer}
    (h : ∀ m', Relation.ReflTransGen Point.Calls ⟨.execute (layer.fill a), m⟩
      ⟨layer.slot.task a, m'⟩ → layer.slot.SameOn a b m') (fuel : Nat) :
    (layer.fill b).exec fuel m = (layer.fill a).exec fuel m := by
  cases layer with
  | expression =>
    exact bind_congr_from (ExecM.evaluate_congr_from (h m (.single .expression))) fun _ _ _ => rfl
  | print =>
    exact bind_congr_from (ExecM.evaluate_congr_from (h m (.single .print))) fun _ _ _ => rfl
  | varDecl name =>
    exact bind_congr_from (ExecM.evaluate_congr_from (h m (.single .varDecl))) fun _ _ _ => rfl
  | block before after =>
    refine ExecM.withNewScope_congr_from (execAll_congr_from (fun m' hm' => ?_) fuel)
    exact h m' (.head .block hm')
  | ifCondition thenBranch elseBranch? =>
    exact bind_congr_from (ExecM.evaluate_congr_from (h m (.single .ifCondition))) fun _ _ _ => rfl
  | ifThen condition elseBranch? =>
    refine bind_congr_from rfl fun v m' hcondition => ?_
    cases hv : v.isTruthy with
    | true => exact h m' (.single (.ifThen hcondition hv)) fuel
    | false => rfl
  | ifElse condition thenBranch =>
    refine bind_congr_from rfl fun v m' hcondition => ?_
    cases hv : v.isTruthy with
    | true => rfl
    | false => exact h m' (.single (.ifElse hcondition hv)) fuel
  | whileCondition body =>
    simp only [fill, exec_whileLoop]
    refine loop_congr_from (.single .whileLoop) (fun m' hm' => ?_) (fun _ _ _ => rfl)
      (fun _ _ _ _ _ _ => rfl) fuel
    have hsame := ExecM.evaluate_congr_from (h m' (hm'.tail .loopCondition))
    exact bind_congr_from hsame fun _ _ _ => rfl
  | whileBody condition =>
    simp only [fill, exec_whileLoop]
    exact loop_congr_from (.single .whileLoop) (fun _ _ => rfl) h (fun _ _ _ _ _ _ => rfl) fuel
  | forInitializer condition? increment? body =>
    refine ExecM.withNewScope_congr_from ?_
    exact bind_congr_from (h m.nested (.single .forInitializer) fuel) fun _ _ _ => rfl
  | forCondition initializer? increment? body =>
    refine ExecM.withNewScope_congr_from (bind_congr_from rfl fun _ m₁ hinit => ?_)
    refine loop_congr_from (.single (.forLoop ⟨fuel, hinit⟩)) (fun m' hm' => ?_) (fun _ _ _ => rfl)
      (fun _ _ _ _ _ _ => rfl) fuel
    have hsame := ExecM.evaluate_congr_from (h m' (hm'.tail .loopCondition))
    exact bind_congr_from hsame fun _ _ _ => rfl
  | forIncrement initializer? condition? body =>
    refine ExecM.withNewScope_congr_from (bind_congr_from rfl fun _ m₁ hinit => ?_)
    refine loop_congr_from (.single (.forLoop ⟨fuel, hinit⟩)) (fun _ _ => rfl) (fun _ _ _ => rfl)
      (fun m' m₁ m₂ hm' htest hbody => ?_) fuel
    have hsame := ExecM.evaluate_congr_from (h m₂ (hm'.tail (.loopIncrement htest hbody)))
    exact bind_congr_from hsame fun _ _ _ => rfl
  | forBody initializer? condition? increment? =>
    refine ExecM.withNewScope_congr_from (bind_congr_from rfl fun _ m₁ hinit => ?_)
    exact loop_congr_from (.single (.forLoop ⟨fuel, hinit⟩)) (fun _ _ => rfl) h
      (fun _ _ _ _ _ _ => rfl) fuel
  | grouping | unary | binaryLeft | binaryRight | logicalLeft | logicalRight | ternaryCondition
    | ternaryFirst | ternarySecond | assign => rfl

theorem sameOn_fill {layer : Layer} {slot : Slot}
    (h : ∀ m', Relation.ReflTransGen Point.Calls ⟨slot.task (layer.fill a), m⟩
      ⟨layer.slot.task a, m'⟩ → layer.slot.SameOn a b m') :
    slot.SameOn (layer.fill a) (layer.fill b) m := by
  cases slot with
  | expression => exact sameOn_eval h
  | statement => exact sameOn_exec h

end Layer

/-- Nodes that do the same wherever a run comes to the hole make statements that do the same, with
any number of layers around them. -/
theorem sameOn_inside {layers : List Layer}
    (h : ∀ m', Relation.ReflTransGen Point.Calls ⟨.execute (a.inside layers), m⟩
      ⟨(slotInside layers).task a, m'⟩ → (slotInside layers).SameOn a b m') :
    Slot.statement.SameOn (a.inside layers) (b.inside layers) m := by
  induction layers generalizing a b with
  | nil => exact h m .refl
  | cons layer rest ih =>
    exact ih fun _ hm₁ => Layer.sameOn_fill fun m' hm' => h m' (hm₁.trans hm')

end Node

/-- Nodes that do the same wherever a run comes to the hole make programs that do the same. -/
theorem Context.execAll_fill_congr_from {C : Context} {a b : Node} {m : Machine}
    (h : ∀ m', Relation.ReflTransGen Point.Calls ⟨.executeAll (C.fill a), m⟩
      ⟨C.slot.task a, m'⟩ → C.slot.SameOn a b m') (fuel : Nat) :
    Node.execAll fuel (C.fill b) m = Node.execAll fuel (C.fill a) m :=
  Node.execAll_congr_from (fun _ hm₁ => Node.sameOn_inside fun m' hm' => h m' (hm₁.trans hm')) fuel

/-! ## Layers that skip their hole -/

namespace Node.Layer
variable {a b : Node} {m : Machine}

/-- On a machine, the layer does not get to its hole: a condition takes the other branch, the left
operand settles the value, the loop ends before, or a fault comes first. -/
def Skips (m : Machine) : Layer → Prop
  | binaryRight left _ => ∀ v m', ExecM.evaluate left m ≠ .ok v m'
  | logicalRight left operator => ∀ v m' op, ExecM.evaluate left m = .ok v m' →
    LogicalOp.ofLexeme? operator = some op → op.settledBy v = true
  | ternaryFirst condition _ => ∀ v m', ExecM.evaluate condition m = .ok v m' → v.isTruthy = false
  | ternarySecond condition _ => ∀ v m', ExecM.evaluate condition m = .ok v m' → v.isTruthy = true
  | block before _ => ∀ m', ¬ Ends (execAll · before) m.nested (.ok ()) m'
  | ifThen condition _ => ∀ v m', ExecM.evaluate condition m = .ok v m' → v.isTruthy = false
  | ifElse condition _ => ∀ v m', ExecM.evaluate condition m = .ok v m' → v.isTruthy = true
  | whileBody condition => ∀ m', ExecM.test (some condition) m ≠ .ok true m'
  | forCondition initializer? _ _ => ∀ m', ¬ Ends (execOption · initializer?) m.nested (.ok ()) m'
  | forIncrement initializer? condition? body => ∀ m₁ m₂ m₃,
    Ends (execOption · initializer?) m.nested (.ok ()) m₁ → ExecM.test condition? m₁ = .ok true m₂ →
      ¬ Ends body.exec m₂ (.ok ()) m₃
  | forBody initializer? condition? _ => ∀ m₁ m₂,
    Ends (execOption · initializer?) m.nested (.ok ()) m₁ → ExecM.test condition? m₁ ≠ .ok true m₂
  | _ => False

/-- A loop that does not begin its first round does the same with any body. -/
theorem repeatWhile_of_not_test {test : ExecM Bool} (h : ∀ m', test m ≠ .ok true m')
    (body body' : ExecM Unit) (rounds : Nat) :
    ExecM.repeatWhile test body' rounds m = ExecM.repeatWhile test body rounds m := by
  refine ExecM.repeatWhile_congr_from (P := (· = m)) (fun _ _ => rfl) ?_ ?_ rounds rfl
  · rintro _ m₁ rfl htest
    exact absurd htest (h m₁)
  · rintro _ m₁ m₂ rfl htest -
    exact absurd htest (h m₁)

/-- Where a layer skips its hole, one node in it does as another. -/
theorem Skips.sameOn {layer : Layer} (h : layer.Skips m) (slot : Slot) :
    slot.SameOn (layer.fill a) (layer.fill b) m := by
  cases slot with
  | expression =>
    show (layer.fill b).eval m.active m.store = (layer.fill a).eval m.active m.store
    cases layer with
    | binaryRight left operator =>
      refine bind_congr_from rfl fun v store hleft => ?_
      exact absurd (ExecM.evaluate_of_ok hleft) (h v _)
    | logicalRight left operator =>
      simp only [fill, eval_logical]
      refine bind_congr_from rfl fun v store hleft => ?_
      cases hoperator : LogicalOp.ofLexeme? operator with
      | none => rfl
      | some op =>
        have hsettled := h v _ op (ExecM.evaluate_of_ok hleft) hoperator
        simp only [hsettled, if_true]
    | ternaryFirst condition second =>
      refine bind_congr_from rfl fun v store hcondition => ?_
      have hv := h v _ (ExecM.evaluate_of_ok hcondition)
      simp [hv]
    | ternarySecond condition first =>
      refine bind_congr_from rfl fun v store hcondition => ?_
      have hv := h v _ (ExecM.evaluate_of_ok hcondition)
      simp [hv]
    | block | ifThen | ifElse | whileBody | forCondition | forIncrement | forBody => rfl
    | grouping | unary | binaryLeft | logicalLeft | ternaryCondition | assign | expression | print
      | varDecl | ifCondition | whileCondition | forInitializer => exact h.elim
  | statement =>
    intro fuel
    cases layer with
    | block before after =>
      refine ExecM.withNewScope_congr_from ?_
      rw [execAll_append, execAll_append]
      refine bind_congr_from rfl fun _ m' hbefore => ?_
      exact absurd ⟨fuel, hbefore⟩ (h m')
    | ifThen condition elseBranch? =>
      refine bind_congr_from rfl fun v m' hcondition => ?_
      simp [h v m' hcondition]
    | ifElse condition thenBranch =>
      refine bind_congr_from rfl fun v m' hcondition => ?_
      simp [h v m' hcondition]
    | whileBody condition => exact repeatWhile_of_not_test h _ _ fuel
    | forCondition initializer? increment? body =>
      refine ExecM.withNewScope_congr_from (bind_congr_from rfl fun _ m₁ hinit => ?_)
      exact absurd ⟨fuel, hinit⟩ (h m₁)
    | forIncrement initializer? condition? body =>
      refine ExecM.withNewScope_congr_from (bind_congr_from rfl fun _ m₁ hinit => ?_)
      -- The first round ends in its body, so there is no second one.
      refine ExecM.repeatWhile_congr_from (P := (· = m₁)) (fun _ _ => rfl) ?_ ?_ fuel rfl
      · rintro _ m₂ rfl htest
        refine bind_congr_from rfl fun _ m₃ hbody => ?_
        exact absurd ⟨fuel, hbody⟩ (h _ m₂ m₃ ⟨fuel, hinit⟩ htest)
      · rintro _ m₂ m₄ rfl htest hround
        obtain ⟨_, m₃, hbody, -⟩ := bind_eq_ok_iff.1 hround
        exact absurd ⟨fuel, hbody⟩ (h _ m₂ m₃ ⟨fuel, hinit⟩ htest)
    | forBody initializer? condition? increment? =>
      refine ExecM.withNewScope_congr_from (bind_congr_from rfl fun _ m₁ hinit => ?_)
      exact repeatWhile_of_not_test (fun m₂ => h m₁ m₂ ⟨fuel, hinit⟩) _ _ fuel
    | binaryRight | logicalRight | ternaryFirst | ternarySecond => rfl
    | grouping | unary | binaryLeft | logicalLeft | ternaryCondition | assign | expression | print
      | varDecl | ifCondition | whileCondition | forInitializer => exact h.elim

end Node.Layer

/-! ## Runs -/

/-- Programs whose statements do the same do the same when they are run. -/
theorem ExecM.run_congr {fuel : Nat} {xs ys : List Node} {m : Machine}
    (h : Node.execAll fuel ys m = Node.execAll fuel xs m) : run fuel ys m = run fuel xs m := by
  have hinterpret : interpret fuel ys m = interpret fuel xs m := by simp only [interpret, h]
  simp only [run, bind, EStateM.bind, hinterpret]

namespace Session
variable {s : Session} {xs ys : List Node} {globals? : Option Nat} {outlet : Outlet}

/-- Two programs make the same runs in a session: the one ends if the other does, and it leaves the
same interpreter and the same session, with all that is printed, reported, recorded and stored. -/
def SameRuns (s : Session) (globals? : Option Nat) (outlet : Outlet) (xs ys : List Node) : Prop :=
  ∀ interpreter s',
    s.Ran xs globals? outlet interpreter s' ↔ s.Ran ys globals? outlet interpreter s'

theorem Ran.congr {fuel : Nat} {completed : Bool} {interpreter : Interpreter} {m : Machine}
    (h : s.Ran xs globals? outlet interpreter (s.afterRun globals? outlet m))
    (hrun : ExecM.run fuel xs (s.runMachine globals?) = .ok completed m)
    (hexec : Node.execAll fuel ys (s.runMachine globals?) =
      Node.execAll fuel xs (s.runMachine globals?)) :
    s.Ran ys globals? outlet interpreter (s.afterRun globals? outlet m) where
  ends := ends_step_run_iff.2
    ⟨completed, m, ⟨fuel, (ExecM.run_congr hexec).trans hrun⟩, rfl, rfl⟩
  interpreter_eq := h.interpreter_eq

/-- Programs whose statements do the same, with every amount of fuel, make the same runs. -/
theorem SameRuns.of_execAll (h : ∀ fuel, Node.execAll fuel ys (s.runMachine globals?) =
    Node.execAll fuel xs (s.runMachine globals?)) : s.SameRuns globals? outlet xs ys := by
  intro interpreter s'
  constructor
  · intro hran
    obtain ⟨completed, m, ⟨fuel, hrun⟩, -, rfl⟩ := hran.exists_machine
    exact hran.congr hrun (h fuel)
  · intro hran
    obtain ⟨completed, m, ⟨fuel, hrun⟩, -, rfl⟩ := hran.exists_machine
    exact hran.congr hrun (h fuel).symm

end Session

/-- A node of an unknown class in the hole of a context: if the run comes to an end, and not because
the node is of an unknown class, then every node in its place makes the same run. -/
theorem Context.ran_fill {C : Context} {className : String} {globals? : Option Nat}
    {outlet : Outlet} {s s' : Session} {interpreter : Interpreter}
    (hran : s.Ran (C.fill (.foreign className)) globals? outlet interpreter s')
    (hcause : ∀ fault m', Node.CutShort (C.fill (.foreign className)) (s.runMachine globals?)
      fault m' → fault.cause ≠ .unsupportedExpression className ∧
        fault.cause ≠ .unsupportedStatement className)
    (node : Node) : s.Ran (C.fill node) globals? outlet interpreter s' := by
  obtain ⟨completed, m, ⟨fuel, hrun⟩, -, rfl⟩ := hran.exists_machine
  have hslot : C.slot.Agrees (fun fault => fault.cause = .unsupportedExpression className ∨
      fault.cause = .unsupportedStatement className) (.foreign className) node := by
    cases C.slot with
    | expression => exact fun frame => AgreesUnless.throw (.inl rfl) _
    | statement => exact fun fuel => AgreesUnless.throw ⟨_, rfl, .inr rfl⟩ _
  refine hran.congr hrun ?_
  rcases Context.agreesUnless_execAll hslot fuel (s.runMachine globals?) with
    ⟨_, m', ⟨fault, rfl, hfault⟩, hexec⟩ | heq
  · obtain ⟨hexpression, hstatement⟩ :=
      hcause fault m' (Node.ends_execAll_error_iff.1 ⟨fuel, hexec⟩)
    exact absurd hfault (not_or.2 ⟨hexpression, hstatement⟩)
  · exact heq

/-- What a run does not come to can be replaced.  If a node of an unknown class is in the hole of a
context, and the run comes to an end, but not because of this node, then every other node in its
place makes the same run.  So does every node in a place that the run does not come to; in
particular in the hole of a layer that skips it on all machines on which the run comes to the layer,
and after statements that do not come to their end. -/
theorem unreached_replaceable (C : Context) (s : Session) (globals? : Option Nat)
    (outlet : Outlet) :
    (∀ className interpreter s',
      s.Ran (C.fill (.foreign className)) globals? outlet interpreter s' →
      (∀ fault m', Node.CutShort (C.fill (.foreign className)) (s.runMachine globals?) fault m' →
        fault.cause ≠ .unsupportedExpression className ∧
          fault.cause ≠ .unsupportedStatement className) →
      ∀ node, s.Ran (C.fill node) globals? outlet interpreter s') ∧
    (∀ hole, (∀ m, ¬ Relation.ReflTransGen Point.Calls
        ⟨.executeAll (C.fill hole), s.runMachine globals?⟩ ⟨C.slot.task hole, m⟩) →
      ∀ node, s.SameRuns globals? outlet (C.fill hole) (C.fill node)) ∧
    (∀ (layer : Node.Layer) (hole : Node), (∀ m, Relation.ReflTransGen Point.Calls
        ⟨.executeAll (C.fill (layer.fill hole)), s.runMachine globals?⟩
        ⟨C.slot.task (layer.fill hole), m⟩ → layer.Skips m) →
      ∀ node, s.SameRuns globals? outlet (C.fill (layer.fill hole)) (C.fill (layer.fill node))) ∧
    ((∀ m, ¬ Ends (Node.execAll · C.before) (s.runMachine globals?) (.ok ()) m) →
      ∀ hole node, s.SameRuns globals? outlet (C.fill hole) (C.fill node)) := by
  refine ⟨fun className interpreter s' hran hcause node => Context.ran_fill hran hcause node,
    fun hole hreached node => ?_, fun layer hole hskips node => ?_, fun hbefore hole node => ?_⟩
  · exact .of_execAll (Context.execAll_fill_congr_from fun m hm => absurd hm (hreached m))
  · exact .of_execAll (Context.execAll_fill_congr_from fun m hm => (hskips m hm).sameOn C.slot)
  · refine .of_execAll fun fuel => ?_
    rw [Context.fill, Context.fill, Node.execAll_append, Node.execAll_append]
    refine bind_congr_from rfl fun _ m hm => ?_
    exact absurd ⟨fuel, hm⟩ (hbefore m)

/-- The branch that a condition leaves out, in a loop before a fault. -/
def skippingContext : Context where
  before := [.varDecl (.bare "x") (some (.literal (.host (.bool true))))]
  layers :=
    [ .ifElse (.var (.bare "x")) (.expression (.assign (.bare "x") (.literal (.host .none)))),
      .block [] [.print (.var (.bare "x"))],
      .whileBody (.var (.bare "x"))]
  after := [.expression (.unary (.bare "-") (.var (.bare "x")))]

/-- The loop goes round once, and the program fails for another reason than the branch.  The second
branch of a ternary with a condition that holds is not inspected, nor is a statement behind a
fault. -/
theorem unreached_replaceable_skippingContext :
    (∃ interpreter s', ({} : Session).Ran (skippingContext.fill (.foreign "Unknown")) none .shared
        interpreter s' ∧
      ({} : Session).Ran (skippingContext.fill (.print (.var (.bare "y")))) none .shared
        interpreter s' ∧
      interpreter.failed = true ∧
      s'.console = ⟨#["nil\n"], #["LoxTypeError: Operand must be a number\n"]⟩) ∧
    ∀ node, ({} : Session).SameRuns none .shared
        [.print (.ternary (.literal (.host (.bool true))) (.var (.bare "x")) (.foreign "Unknown"))]
        [.print (.ternary (.literal (.host (.bool true))) (.var (.bare "x")) node)] ∧
      ({} : Session).SameRuns none .shared
        [.foreign "Fault", .foreign "Unknown"] [.foreign "Fault", node] := by
  refine ⟨?_, fun node => ⟨?_, ?_⟩⟩
  · obtain ⟨interpreter, s', hran, hfailed, hconsole⟩ : ∃ interpreter s',
        ({} : Session).Ran (skippingContext.fill (.foreign "Unknown")) none .shared interpreter s' ∧
        interpreter.failed = true ∧
        s'.console = ⟨#["nil\n"], #["LoxTypeError: Operand must be a number\n"]⟩ :=
      ⟨_, _, ⟨⟨2, by with_unfolding_all rfl⟩, rfl⟩, rfl, by with_unfolding_all rfl⟩
    obtain ⟨m₁, hexec⟩ : ∃ m₁, Ends (Node.execAll · (skippingContext.fill (.foreign "Unknown")))
        (({} : Session).runMachine none) (.error ⟨.numbersRequired 1, .bare "-"⟩) m₁ :=
      ⟨_, 2, by with_unfolding_all rfl⟩
    refine ⟨interpreter, s', hran, ?_, hfailed, hconsole⟩
    refine (unreached_replaceable skippingContext {} none .shared).1 "Unknown" interpreter s' hran
      ?_ _
    intro fault m' hcut
    obtain ⟨heq, -⟩ :=
      (Node.ends_execAll_error_iff.2 hcut).unique (Node.fuelMonotone_execAll _) hexec
    cases heq
    exact ⟨nofun, nofun⟩
  · refine (unreached_replaceable ⟨[], [.print], []⟩ {} none .shared).2.2.1
      (.ternarySecond (.literal (.host (.bool true))) (.var (.bare "x"))) _ (fun m _ => ?_) node
    intro v m' hcondition
    cases hcondition
    rfl
  · refine (unreached_replaceable ⟨[.foreign "Fault"], [], []⟩ {} none .shared).2.1
      (.foreign "Unknown") (fun m hreached => ?_) node
    -- The run comes to the statement that fails, and nowhere from there.
    rcases hreached.cases_head with heq | ⟨p, hcall, hreached⟩
    · cases heq
    · cases hcall with
      | first =>
        rcases hreached.cases_head with heq | ⟨p, hcall, -⟩
        · have htask := congrArg Point.task heq
          simp [Context.slot, Node.slotInside, Slot.task] at htask
        · cases hcall
      | rest hstatement =>
        obtain ⟨fuel, hfuel⟩ := hstatement
        cases hfuel

end Lox
