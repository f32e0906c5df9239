import Lox.Proofs.Lexemes
import Lox.Proofs.Programs
import Mathlib.Data.List.Forall2

/-!
# Programs in other words

A program that a scanner and a parser made has tokens for its operators and names; one that was
put together by hand may have bare texts, or tokens that stand nowhere.  The two are *rewordings*
of each other, and they do the same: they end or do not end together, print the same, leave the
same store, and fail with the same class and message.  The machines that they leave differ in the
blame for a fault at most, which the log and the report show.

Both runs are followed at once, through all expressions and statements.  They stay on the very same
machine until one of them stops, for no state of the machine depends on a lexeme but by its text.
-/

namespace Lox

/-! ## Rewordings -/

namespace Node

/-- The operator that a node itself has. -/
def operator? : Node → Option Lexeme
  | unary operator _ => some operator
  | binary _ operator _ => some operator
  | logical _ operator _ => some operator
  | _ => none

/-- All operators of a node, its own and those below, are consistent. -/
def IsConsistent (node : Node) : Prop :=
  ∀ other ∈ node.nodes, ∀ operator ∈ other.operator?, operator.IsConsistent

instance (node : Node) : Decidable node.IsConsistent :=
  inferInstanceAs (Decidable (∀ other ∈ node.nodes, ∀ operator ∈ other.operator?,
    operator.IsConsistent))

theorem IsConsistent.child {child node : Node} (h : node.IsConsistent)
    (hchild : child ∈ node.children) : child.IsConsistent :=
  fun other hother => h other (nodes_subset hchild hother)

theorem IsConsistent.operator {node : Node} {operator : Lexeme} (h : node.IsConsistent)
    (hoperator : node.operator? = some operator) : operator.IsConsistent :=
  h node (by rw [nodes_eq]; exact List.mem_cons_self) operator hoperator

/-- The second node is the first one with any of its operators and names in another form.  Between
two operands, an operator of compound assignment may be abridged. -/
inductive Rewords : Node → Node → Prop
  | literal (datum : Datum) : Rewords (.literal datum) (.literal datum)
  | grouping {inner inner' : Node} (hinner : Rewords inner inner') :
    Rewords (.grouping inner) (.grouping inner')
  | unary {operator operator' : Lexeme} {right right' : Node}
    (hoperator : operator.Restates operator') (hright : Rewords right right') :
    Rewords (.unary operator right) (.unary operator' right')
  | binary {left left' right right' : Node} {operator operator' : Lexeme}
    (hleft : Rewords left left') (hoperator : operator.RestatesBinary operator')
    (hright : Rewords right right') :
    Rewords (.binary left operator right) (.binary left' operator' right')
  | logical {left left' right right' : Node} {operator operator' : Lexeme}
    (hleft : Rewords left left') (hoperator : operator.Restates operator')
    (hright : Rewords right right') :
    Rewords (.logical left operator right) (.logical left' operator' right')
  | ternary {condition condition' first first' second second' : Node}
    (hcondition : Rewords condition condition') (hfirst : Rewords first first')
    (hsecond : Rewords second second') :
    Rewords (.ternary condition first second) (.ternary condition' first' second')
  | var {name name' : Lexeme} (hname : name.Restates name') : Rewords (.var name) (.var name')
  | assign {name name' : Lexeme} {source source' : Node} (hname : name.Restates name')
    (hsource : Rewords source source') : Rewords (.assign name source) (.assign name' source')
  | expression {inner inner' : Node} (hinner : Rewords inner inner') :
    Rewords (.expression inner) (.expression inner')
  | print {inner inner' : Node} (hinner : Rewords inner inner') :
    Rewords (.print inner) (.print inner')
  | varDecl {name name' : Lexeme} {initializer? initializer?' : Option Node}
    (hname : name.Restates name') (hinitializer : Option.Rel Rewords initializer? initializer?') :
    Rewords (.varDecl name initializer?) (.varDecl name' initializer?')
  | block {statements statements' : List Node}
    (hstatements : List.Forall₂ Rewords statements statements') :
    Rewords (.block statements) (.block statements')
  | ifElse {condition condition' thenBranch thenBranch' : Node}
    {elseBranch? elseBranch?' : Option Node} (hcondition : Rewords condition condition')
    (hthen : Rewords thenBranch thenBranch')
    (helse : Option.Rel Rewords elseBranch? elseBranch?') :
    Rewords (.ifElse condition thenBranch elseBranch?) (.ifElse condition' thenBranch' elseBranch?')
  | whileLoop {condition condition' body body' : Node} (hcondition : Rewords condition condition')
    (hbody : Rewords body body') : Rewords (.whileLoop condition body) (.whileLoop condition' body')
  | forLoop {initializer? initializer?' condition? condition?' increment? increment?' : Option Node}
    {body body' : Node} (hinitializer : Option.Rel Rewords initializer? initializer?')
    (hcondition : Option.Rel Rewords condition? condition?')
    (hincrement : Option.Rel Rewords increment? increment?') (hbody : Rewords body body') :
    Rewords (.forLoop initializer? condition? increment? body)
      (.forLoop initializer?' condition?' increment?' body')
  | foreign (className : String) : Rewords (.foreign className) (.foreign className)

namespace Rewords
variable {node node' : Node}

theorem className_eq (h : node.Rewords node') : node'.className = node.className := by
  cases h <;> rfl

theorem isExpression_eq (h : node.Rewords node') : node'.isExpression = node.isExpression := by
  cases h <;> rfl

theorem isStatement_eq (h : node.Rewords node') : node'.isStatement = node.isStatement := by
  cases h <;> rfl

end Rewords
end Node

/-! ## Expressions -/

namespace EvalM
variable {l l' : Lexeme} {frame : Nat}

theorem agrees_ofExcept {α : Type} {result result' : Except Fault α}
    (h : result'.mapError Fault.saying = result.mapError Fault.saying) :
    AgreesUpTo Fault.saying (ofExcept result) (ofExcept result') := by
  cases result with
  | ok a =>
    cases result' with
    | ok b =>
      cases h
      exact .refl _
    | error fault' => cases h
  | error fault =>
    cases result' with
    | ok b => cases h
    | error fault' => exact .throw (Except.error.inj h).symm

theorem agrees_lookup (h : l.Restates l') :
    AgreesUpTo Fault.saying (lookup frame l) (lookup frame l') := by
  refine .of_cases fun s => ?_
  simp only [lookup, h.text_eq]
  cases s.lookup? frame l.text with
  | some v => exact .inl ⟨v, s, rfl, rfl⟩
  | none => exact .inr ⟨_, _, s, rfl, rfl, (Fault.saying_congr h.text_eq _).symm⟩

theorem agrees_assign (h : l.Restates l') (v : Value) :
    AgreesUpTo Fault.saying (assign frame l v) (assign frame l' v) := by
  refine .of_cases fun s => ?_
  simp only [assign, h.text_eq]
  cases s.owner? frame l.text with
  | some owner => exact .inl ⟨v, _, rfl, rfl⟩
  | none => exact .inr ⟨_, _, s, rfl, rfl, (Fault.saying_congr h.text_eq _).symm⟩

end EvalM

/-- An expression in other words has the same value and the same effect, or a fault that says the
same. -/
theorem Node.Rewords.agrees_eval {node node' : Node} (h : node.Rewords node')
    (hnode : node.IsConsistent) (frame : Nat) :
    AgreesUpTo Fault.saying (node.eval frame) (node'.eval frame) := by
  induction node using expressionInduction generalizing node' with
  | literal datum =>
    cases h
    exact .refl _
  | grouping inner ih =>
    cases h with
    | grouping hinner =>
      have hagrees := ih hinner (hnode.child (by simp))
      exact hagrees
  | unary operator right ih =>
    cases h with
    | unary hoperator hright =>
      refine (ih hright (hnode.child (by simp))).bind fun v => ?_
      exact EvalM.agrees_ofExcept (saying_applyUnary (hnode.operator rfl) hoperator v)
  | binary left operator right ihl ihr =>
    cases h with
    | binary hleft hoperator hright =>
      refine (ihl hleft (hnode.child (by simp))).bind fun a => ?_
      refine (ihr hright (hnode.child (by simp))).bind fun b => ?_
      exact EvalM.agrees_ofExcept (saying_applyBinary (hnode.operator rfl) hoperator _ _)
  | logical left operator right ihl ihr =>
    cases h with
    | logical hleft hoperator hright =>
      rw [eval_logical, eval_logical]
      refine (ihl hleft (hnode.child (by simp))).bind fun v => ?_
      rw [LogicalOp.ofLexeme?_restated (hnode.operator rfl) hoperator]
      cases LogicalOp.ofLexeme? operator with
      | none => exact .throw (Fault.saying_congr hoperator.text_eq _).symm
      | some op =>
        dsimp only
        cases op.settledBy v with
        | true => exact .refl _
        | false => exact ihr hright (hnode.child (by simp))
  | ternary condition first second ihc ihf ihs =>
    cases h with
    | ternary hcondition hfirst hsecond =>
      refine (ihc hcondition (hnode.child (by simp))).bind fun v => ?_
      cases v.isTruthy with
      | true => exact ihf hfirst (hnode.child (by simp))
      | false => exact ihs hsecond (hnode.child (by simp))
  | var name =>
    cases h with
    | var hname => exact EvalM.agrees_lookup hname
  | assign name source ih =>
    cases h with
    | assign hname hsource =>
      exact (ih hsource (hnode.child (by simp))).bind fun v => EvalM.agrees_assign hname v
  | other node hother =>
    rw [eval_of_not_isExpression hother, eval_of_not_isExpression (h.isExpression_eq.trans hother),
      h.className_eq]
    exact .refl _

/-! ## Statements -/

/-- The class and the message of the fault for which a computation stopped. -/
def Stop.saying : Stop → Option (FaultClass × String)
  | fault raised => some raised.saying
  | outOfFuel => none

/-- Computations that agree up to what their faults say have the same outcomes up to that, and
leave the same state. -/
theorem Ends.of_agreesUpTo {σ α : Type} {p q : Nat → EStateM Stop σ α}
    (h : ∀ fuel, AgreesUpTo Stop.saying (p fuel) (q fuel)) {s s' : σ} {outcome : Except Fault α}
    (hp : Ends p s outcome s') :
    ∃ outcome', Ends q s outcome' s' ∧
      outcome'.mapError Fault.saying = outcome.mapError Fault.saying := by
  obtain ⟨fuel, hfuel⟩ := hp
  rcases (h fuel).cases s with ⟨a, s₁, hok, hok'⟩ | ⟨stop, stop', s₁, hstop, hstop', hsaying⟩
  · obtain ⟨rfl, rfl⟩ := eq_of_ok_eq_endedIn (hok.symm.trans hfuel)
    exact ⟨.ok a, ⟨fuel, hok'⟩, rfl⟩
  · cases outcome with
    | ok a => cases hstop.symm.trans hfuel
    | error fault =>
      cases hstop.symm.trans hfuel
      cases stop' with
      | outOfFuel => cases hsaying
      | fault fault' =>
        refine ⟨.error fault', ⟨fuel, hstop'⟩, ?_⟩
        exact congrArg Except.error (Option.some.inj hsaying).symm

theorem Terminates.of_agreesUpTo {σ α : Type} {p q : Nat → EStateM Stop σ α}
    (h : ∀ fuel, AgreesUpTo Stop.saying (p fuel) (q fuel)) {s : σ} (hp : Terminates p s) :
    Terminates q s := by
  obtain ⟨outcome, s', hends⟩ := hp
  obtain ⟨outcome', hends', -⟩ := hends.of_agreesUpTo h
  exact ⟨outcome', s', hends'⟩

namespace ExecM

theorem agrees_evaluate {node node' : Node} (h : node.Rewords node') (hnode : node.IsConsistent) :
    AgreesUpTo Stop.saying (evaluate node) (evaluate node') := by
  refine .of_cases fun m => ?_
  rcases (h.agrees_eval hnode m.active).cases m.store with
    ⟨v, store, hok, hok'⟩ | ⟨fault, fault', store, hfault, hfault', hsaying⟩
  · exact .inl ⟨v, _, evaluate_of_ok hok, evaluate_of_ok hok'⟩
  · exact .inr ⟨_, _, _, evaluate_of_error hfault, evaluate_of_error hfault',
      congrArg some hsaying⟩

theorem agrees_test {condition? condition?' : Option Node}
    (h : Option.Rel Node.Rewords condition? condition?')
    (hnode : ∀ condition ∈ condition?, condition.IsConsistent) :
    AgreesUpTo Stop.saying (test condition?) (test condition?') := by
  cases h with
  | none => exact .refl _
  | some h => exact (agrees_evaluate h (hnode _ rfl)).bind fun v => .refl _

theorem agrees_discard {node? node?' : Option Node} (h : Option.Rel Node.Rewords node? node?')
    (hnode : ∀ node ∈ node?, node.IsConsistent) :
    AgreesUpTo Stop.saying (discard node?) (discard node?') := by
  cases h with
  | none => exact .refl _
  | some h => exact (agrees_evaluate h (hnode _ rfl)).bind fun _ => .refl _

variable {δ : Type} {view : Stop → δ}

theorem agreesUpTo_withNewScope {α : Type} {body body' : ExecM α}
    (h : AgreesUpTo view body body') :
    AgreesUpTo view (withNewScope body) (withNewScope body') := by
  refine .of_cases fun m => ?_
  rcases h.cases (({ m with store := m.store.push (some m.active) }).enter m.store.size) with
    ⟨a, m', hok, hok'⟩ | ⟨stop, stop', m', hstop, hstop', hview⟩
  · exact .inl ⟨a, _, withNewScope_of_ok hok, withNewScope_of_ok hok'⟩
  · exact .inr ⟨stop, stop', _, withNewScope_of_error hstop, withNewScope_of_error hstop', hview⟩

theorem agreesUpTo_repeatWhile {test test' : ExecM Bool} {body body' : ExecM Unit}
    (htest : AgreesUpTo view test test') (hbody : AgreesUpTo view body body') (rounds : Nat) :
    AgreesUpTo view (repeatWhile test body rounds) (repeatWhile test' body' rounds) := by
  induction rounds with
  | zero => exact .refl _
  | succ rounds ih =>
    refine htest.bind fun holds => ?_
    cases holds with
    | true => exact hbody.bind fun _ => ih
    | false => exact .refl _

end ExecM

namespace Node

theorem agrees_execOption {fuel : Nat} {node? node?' : Option Node}
    (h : Option.Rel Rewords node? node?')
    (hexec : ∀ node ∈ node?, ∀ node', node.Rewords node' →
      AgreesUpTo Stop.saying (node.exec fuel) (node'.exec fuel)) :
    AgreesUpTo Stop.saying (execOption fuel node?) (execOption fuel node?') := by
  cases h with
  | none => exact .refl _
  | some h => exact hexec _ rfl _ h

theorem agrees_execAll_of {fuel : Nat} {statements statements' : List Node}
    (h : List.Forall₂ Rewords statements statements')
    (hexec : ∀ statement ∈ statements, ∀ statement', statement.Rewords statement' →
      AgreesUpTo Stop.saying (statement.exec fuel) (statement'.exec fuel)) :
    AgreesUpTo Stop.saying (execAll fuel statements) (execAll fuel statements') := by
  induction h with
  | nil => exact .refl _
  | cons hfirst _ ih =>
    exact (hexec _ List.mem_cons_self _ hfirst).bind fun _ =>
      ih fun statement hmem => hexec statement (List.mem_cons_of_mem _ hmem)

/-- A statement in other words has the same effect on the machine, and raises a fault that says the
same if it raises one. -/
theorem Rewords.agrees_exec {node node' : Node} (h : node.Rewords node')
    (hnode : node.IsConsistent) (fuel : Nat) :
    AgreesUpTo Stop.saying (node.exec fuel) (node'.exec fuel) := by
  have hoption : ∀ {node? : Option Node} {other : Node}, other.IsConsistent →
      (∀ node ∈ node?, node ∈ other.children) → ∀ node ∈ node?, node.IsConsistent :=
    fun hother hchild node hmem => hother.child (hchild node hmem)
  induction node using statementInduction generalizing node' with
  | expression inner =>
    cases h with
    | expression hinner =>
      exact (ExecM.agrees_evaluate hinner (hnode.child (by simp))).bind fun _ => .refl _
  | print inner =>
    cases h with
    | print hinner =>
      exact (ExecM.agrees_evaluate hinner (hnode.child (by simp))).bind fun v => .refl _
  | varDecl name initializer? =>
    cases h with
    | varDecl hname hinitializer =>
      cases hinitializer with
      | none =>
        simp only [exec, hname.text_eq]
        exact .refl _
      | some hinitializer =>
        simp only [exec, hname.text_eq]
        exact (ExecM.agrees_evaluate hinitializer (hnode.child (by simp))).bind fun v => .refl _
  | block statements ih =>
    cases h with
    | block hstatements =>
      refine ExecM.agreesUpTo_withNewScope (agrees_execAll_of hstatements ?_)
      intro statement hmem statement' hstatement
      exact ih statement hmem hstatement (hnode.child (by simpa using hmem))
  | ifElse condition thenBranch elseBranch? ihThen ihElse =>
    cases h with
    | ifElse hcondition hthen helse =>
      refine (ExecM.agrees_evaluate hcondition (hnode.child (by simp))).bind fun v => ?_
      cases v.isTruthy with
      | true => exact ihThen hthen (hnode.child (by simp))
      | false =>
        refine agrees_execOption helse ?_
        intro elseBranch hmem elseBranch' helse
        exact ihElse elseBranch hmem helse (hnode.child (by simp_all))
  | whileLoop condition body ih =>
    cases h with
    | whileLoop hcondition hbody =>
      refine ExecM.agreesUpTo_repeatWhile ?_ (ih hbody (hnode.child (by simp))) fuel
      exact ExecM.agrees_test (.some hcondition) (hoption hnode (by simp))
  | forLoop initializer? condition? increment? body ihInit ihBody =>
    cases h with
    | forLoop hinitializer hcondition hincrement hbody =>
      refine ExecM.agreesUpTo_withNewScope (AgreesUpTo.bind ?_ fun _ => ?_)
      · refine agrees_execOption hinitializer ?_
        intro initializer hmem initializer' hinitializer
        exact ihInit initializer hmem hinitializer (hnode.child (by simp_all))
      · refine ExecM.agreesUpTo_repeatWhile ?_ (AgreesUpTo.bind ?_ fun _ => ?_) fuel
        · exact ExecM.agrees_test hcondition (hoption hnode (by simp_all))
        · exact ihBody hbody (hnode.child (by simp))
        · exact ExecM.agrees_discard hincrement (hoption hnode (by simp_all))
  | other node hother =>
    rw [exec_of_not_isStatement hother, exec_of_not_isStatement (h.isStatement_eq.trans hother),
      h.className_eq]
    exact .refl _

theorem agrees_execAll {program program' : List Node}
    (h : List.Forall₂ Rewords program program')
    (hprogram : ∀ statement ∈ program, statement.IsConsistent) (fuel : Nat) :
    AgreesUpTo Stop.saying (execAll fuel program) (execAll fuel program') :=
  agrees_execAll_of h fun statement hmem _ hstatement =>
    hstatement.agrees_exec (hprogram statement hmem) fuel

end Node

/-! ## Programs -/

/-- The two things are the same, or they are what is made of two faults that say the same. -/
def SayAlike {β : Type} (make : Fault → β) (x y : β) : Prop :=
  y = x ∨ ∃ fault fault', fault'.saying = fault.saying ∧ x = make fault ∧ y = make fault'

/-- The machines have the same store, active frame, fault flag and output.  What they report and
record differs at most in the lexemes that faults are blamed on. -/
structure Machine.SameButBlame (m m' : Machine) : Prop where
  store_eq : m'.store = m.store
  active_eq : m'.active = m.active
  failed_eq : m'.failed = m.failed
  out_eq : m'.console.out = m.console.out
  err : List.Forall₂ (SayAlike Fault.report) m.console.err.toList m'.console.err.toList
  log : List.Forall₂ (SayAlike LogRecord.runtimeError) m.log.toList m'.log.toList

section
variable {β : Type} {make : Fault → β}

theorem SayAlike.forall₂_refl (xs : List β) : List.Forall₂ (SayAlike make) xs xs :=
  List.forall₂_same.2 fun _ _ => .inl rfl

theorem SayAlike.forall₂_concat {xs ys : List β} {x y : β}
    (hlists : List.Forall₂ (SayAlike make) xs ys) (h : SayAlike make x y) :
    List.Forall₂ (SayAlike make) (xs ++ [x]) (ys ++ [y]) :=
  List.rel_append hlists (.cons h .nil)

end

namespace Machine.SameButBlame
variable {m m' : Machine}

theorem refl (m : Machine) : m.SameButBlame m :=
  ⟨rfl, rfl, rfl, rfl, SayAlike.forall₂_refl _, SayAlike.forall₂_refl _⟩

/-- Faults that say the same are taken note of in the same way. -/
theorem fail {fault fault' : Fault} (h : fault'.saying = fault.saying) (m : Machine) :
    (m.fail fault).SameButBlame (m.fail fault') where
  store_eq := rfl
  active_eq := rfl
  failed_eq := rfl
  out_eq := rfl
  err := by
    simp only [Machine.fail, Array.toList_push]
    exact SayAlike.forall₂_concat (SayAlike.forall₂_refl _)
      (.inr ⟨fault, fault', h, rfl, rfl⟩)
  log := by
    simp only [log_fail, Array.toList_push]
    exact SayAlike.forall₂_concat (SayAlike.forall₂_refl _)
      (.inr ⟨fault, fault', h, rfl, rfl⟩)

theorem record (h : m.SameButBlame m') (entry : LogRecord) :
    (m.record entry).SameButBlame (m'.record entry) :=
  { h with
    log := by
      simp only [log_record, Array.toList_push]
      exact SayAlike.forall₂_concat h.log (.inl rfl) }

end Machine.SameButBlame

namespace ExecM

/-- The second computation ends where the first one does, with the same answer and on a machine
that differs in the blame for faults only; and it ends nowhere else. -/
structure EndsAlike (p q : Nat → ExecM Bool) (m : Machine) : Prop where
  terminates_iff : Terminates q m ↔ Terminates p m
  ends : ∀ outcome m₁, Ends p m outcome m₁ → ∃ m₂, Ends q m outcome m₂ ∧ m₁.SameButBlame m₂

variable {program program' : List Node}

theorem sameEnd_interpret {fuel : Nat}
    (h : AgreesUpTo Stop.saying (Node.execAll fuel program) (Node.execAll fuel program'))
    (m : Machine) :
    SameEnd Machine.SameButBlame (interpret fuel program m) (interpret fuel program' m) := by
  simp only [interpret]
  rcases h.cases m with ⟨_, m', hok, hok'⟩ | ⟨stop, stop', m', hstop, hstop', hsaying⟩
  · rw [hok, hok']
    exact ⟨rfl, .refl m'⟩
  · rw [hstop, hstop']
    cases stop with
    | fault fault =>
      cases stop' with
      | fault fault' => exact ⟨rfl, .fail (Option.some.inj hsaying).symm m'⟩
      | outOfFuel => cases hsaying
    | outOfFuel =>
      cases stop' with
      | fault fault' => cases hsaying
      | outOfFuel => exact ⟨rfl, .refl m'⟩

theorem sameEnd_run {fuel : Nat}
    (h : AgreesUpTo Stop.saying (Node.execAll fuel program) (Node.execAll fuel program'))
    (m : Machine) :
    SameEnd Machine.SameButBlame (run fuel program m) (run fuel program' m) := by
  simp only [run]
  rcases (sameEnd_interpret h m).cases with
    ⟨completed, m₁, m₂, hok, hok', hsame⟩ | ⟨stop, m₁, m₂, hstop, hstop', hsame⟩
  · rw [bind_of_ok hok, bind_of_ok hok']
    cases completed with
    | true => exact ⟨rfl, hsame⟩
    | false => exact ⟨rfl, hsame.record .halted⟩
  · rw [bind_of_error hstop, bind_of_error hstop']
    exact ⟨rfl, hsame⟩

theorem EndsAlike.of_sameEnd {p q : Nat → ExecM Bool} {m : Machine}
    (h : ∀ fuel, SameEnd Machine.SameButBlame (p fuel m) (q fuel m))
    (h' : ∀ fuel, SameEnd Machine.SameButBlame (q fuel m) (p fuel m)) : EndsAlike p q m where
  terminates_iff := ⟨.of_sameEnd h', .of_sameEnd h⟩
  ends := fun _ _ hp => hp.of_sameEnd h

end ExecM

/-- A program with consistent operators and any rewording of it.  Executed, they come to the same
machine with every amount of fuel, also where they never end; where they end, they end together,
with the same outcome up to the blame for a fault.  Interpreted or run, they give the same answer,
and leave the same store, output and fault flag; what is reported and recorded differs in the
lexemes that faults are blamed on.  The same goes for expressions, with the values that they
have. -/
theorem rewording_preserves {program program' : List Node}
    (hrewords : List.Forall₂ Node.Rewords program program')
    (hconsistent : ∀ statement ∈ program, statement.IsConsistent) (m : Machine) :
    (∀ fuel, AgreesUpTo Stop.saying (Node.execAll fuel program) (Node.execAll fuel program')) ∧
    (Terminates (Node.execAll · program') m ↔ Terminates (Node.execAll · program) m) ∧
    (∀ outcome m₁, Ends (Node.execAll · program) m outcome m₁ →
      ∃ outcome', Ends (Node.execAll · program') m outcome' m₁ ∧
        outcome'.mapError Fault.saying = outcome.mapError Fault.saying) ∧
    ExecM.EndsAlike (ExecM.interpret · program) (ExecM.interpret · program') m ∧
    ExecM.EndsAlike (ExecM.run · program) (ExecM.run · program') m ∧
    ∀ node node' : Node, node.Rewords node' → node.IsConsistent → ∀ frame,
      AgreesUpTo Fault.saying (node.eval frame) (node'.eval frame) := by
  have hagrees := Node.agrees_execAll hrewords hconsistent
  have hsymm := fun fuel => (hagrees fuel).symm
  refine ⟨hagrees, ⟨.of_agreesUpTo hsymm, .of_agreesUpTo hagrees⟩,
    fun outcome m₁ hends => hends.of_agreesUpTo hagrees, ?_, ?_,
    fun node node' h hnode frame => h.agrees_eval hnode frame⟩
  · exact .of_sameEnd (fun fuel => ExecM.sameEnd_interpret (hagrees fuel) m)
      fun fuel => ExecM.sameEnd_interpret (hsymm fuel) m
  · exact .of_sameEnd (fun fuel => ExecM.sameEnd_run (hagrees fuel) m)
      fun fuel => ExecM.sameEnd_run (hsymm fuel) m

/-- Takes three from a variable, prints it, and changes the sign of what has none. -/
def countingProgram (x minusEqual minus : Lexeme) : List Node :=
  [ .varDecl x (some (.literal (.value (.number (.int 5))))),
    .print (.assign x (.binary (.var x) minusEqual (.literal (.value (.number (.int 3)))))),
    .print (.unary minus (.literal (.value .nil))) ]

/-- Scanned or put together by hand, and with the compound assignment abridged or not, the program
prints the same and fails in the same way, but the place of the fault is known in one form only. -/
theorem rewording_preserves_countingProgram :
    let scanned := countingProgram (.token ⟨"IDENTIFIER", "x", some 1, some 5⟩)
      (.token ⟨"MINUS_EQUAL", "-=", some 2, none⟩) (.token ⟨"MINUS", "-", some 3, some 7⟩)
    let written := countingProgram (.bare "x") (.bare "-") (.bare "-")
    let m : Machine := ⟨Store.empty.push none, 0, false, {}, #[]⟩
    ∃ m₁ m₂, Ends (ExecM.interpret · scanned) m (.ok false) m₁ ∧
      Ends (ExecM.interpret · written) m (.ok false) m₂ ∧ m₁.SameButBlame m₂ ∧
      m₁.console =
        ⟨#["2\n"], #["LoxTypeError: Operand must be a number (line 3, col 7)\n"]⟩ ∧
      m₂.console = ⟨#["2\n"], #["LoxTypeError: Operand must be a number\n"]⟩ := by
  intro scanned written m
  have hrewords : List.Forall₂ Node.Rewords scanned written := by
    refine .cons (.varDecl (.bare _) (.some (.literal _))) (.cons ?_ (.cons ?_ .nil))
    · have hoperator : (Lexeme.token ⟨"MINUS_EQUAL", "-=", some 2, none⟩).RestatesBinary
          (.bare "-") := .abridged (by decide) trivial
      exact .print (.assign (.bare _) (.binary (.var (.bare _)) hoperator (.literal _)))
    · exact .print (.unary (.bare _) (.literal _))
  have hconsistent : ∀ statement ∈ scanned, statement.IsConsistent := by decide +kernel
  have hscanned : Ends (ExecM.interpret · scanned) m (.ok false)
    (finalState (ExecM.interpret 0 scanned m)) := ⟨0, by with_unfolding_all rfl⟩
  have hwritten : Ends (ExecM.interpret · written) m (.ok false)
    (finalState (ExecM.interpret 0 written m)) := ⟨0, by with_unfolding_all rfl⟩
  obtain ⟨-, -, -, hinterpret, -⟩ := rewording_preserves hrewords hconsistent m
  obtain ⟨m₂, hends, hsame⟩ := hinterpret.ends _ _ hscanned
  obtain ⟨-, rfl⟩ := hends.unique (ExecM.fuelMonotone_interpret written) hwritten
  exact ⟨_, _, hscanned, hwritten, hsame, by decide +kernel, by decide +kernel⟩

end Lox
