import Lox.Execution
import Lox.Proofs.Computation
import Lox.Proofs.Syntax

/-!
# Fuel

Fuel is an artefact: a statement that does not run out of fuel does the same with any larger
amount.  So a statement has at most one outcome, and whether it terminates does not depend on the
fuel that it is tried with.
-/

namespace Lox

namespace ExecM
variable {α : Type}

theorem agreesUnless_withScope {E : Stop → Prop} {p p' : ExecM α} (h : AgreesUnless E p p')
    (frame : Nat) : AgreesUnless E (withScope frame p) (withScope frame p') := by
  intro m
  simp only [withScope]
  rcases h (m.enter frame) with ⟨stop, m', hstop, hm⟩ | hm
  · rw [hm]
    exact .inl ⟨stop, _, hstop, rfl⟩
  · rw [hm]
    exact .inr rfl

theorem agreesUnless_withNewScope {E : Stop → Prop} {p p' : ExecM α} (h : AgreesUnless E p p') :
    AgreesUnless E (withNewScope p) (withNewScope p') :=
  (AgreesUnless.refl newFrame).bind (agreesUnless_withScope h)

theorem approximates_withNewScope {p p' : ExecM α} (h : Approximates p p') :
    Approximates (withNewScope p) (withNewScope p') :=
  approximates_iff.2 (agreesUnless_withNewScope (approximates_iff.1 h))

/-- A loop does more with a body that does more, and with more rounds. -/
theorem approximates_repeatWhile {test : ExecM Bool} {body body' : ExecM Unit}
    (h : Approximates body body') {rounds more : Nat} (hle : rounds ≤ more) :
    Approximates (repeatWhile test body rounds) (repeatWhile test body' more) := by
  induction rounds generalizing more with
  | zero => exact fun m => .inl ⟨m, rfl⟩
  | succ rounds ih =>
    obtain ⟨more, rfl⟩ : ∃ k, more = k + 1 := ⟨more - 1, by omega⟩
    refine (Approximates.refl test).bind fun holds => ?_
    cases holds with
    | true => exact h.bind fun _ => ih (by omega)
    | false => exact Approximates.refl _

end ExecM

namespace Node

/-- What is no statement stops at once. -/
theorem exec_of_not_isStatement {node : Node} (h : node.isStatement = false) (fuel : Nat) :
    node.exec fuel = throw (.fault (.unplaced (.unsupportedStatement node.className))) := by
  cases node with
  | expression | print | varDecl | block | ifElse | whileLoop | forLoop =>
    simp [isStatement] at h
  | literal | grouping | unary | binary | logical | ternary | var | assign | foreign => rfl

theorem fuelMonotone_execOption {node? : Option Node}
    (h : ∀ node ∈ node?, FuelMonotone fun fuel => node.exec fuel) :
    FuelMonotone fun fuel => execOption fuel node? := by
  intro fuel more hle
  cases node? with
  | none => exact Approximates.refl _
  | some node => exact h node rfl fuel more hle

theorem fuelMonotone_execAll_of {statements : List Node}
    (h : ∀ statement ∈ statements, FuelMonotone fun fuel => statement.exec fuel) :
    FuelMonotone fun fuel => execAll fuel statements := by
  intro fuel more hle
  induction statements with
  | nil => exact Approximates.refl _
  | cons statement rest ih =>
    exact (h statement List.mem_cons_self fuel more hle).bind fun _ =>
      ih fun other hother => h other (List.mem_cons_of_mem _ hother)

/-- More fuel changes nothing for a statement but running out of it. -/
theorem fuelMonotone_exec (node : Node) : FuelMonotone fun fuel => node.exec fuel := by
  induction node using statementInduction with
  | expression inner => exact fun _ _ _ => Approximates.refl _
  | print inner => exact fun _ _ _ => Approximates.refl _
  | varDecl name initializer? =>
    intro fuel more _
    cases initializer? <;> exact Approximates.refl _
  | block statements ih =>
    exact fun fuel more hle =>
      ExecM.approximates_withNewScope (fuelMonotone_execAll_of ih fuel more hle)
  | ifElse condition thenBranch elseBranch? ihThen ihElse =>
    intro fuel more hle
    refine (Approximates.refl _).bind fun v => ?_
    cases v.isTruthy with
    | true => exact ihThen fuel more hle
    | false => exact fuelMonotone_execOption ihElse fuel more hle
  | whileLoop condition body ih =>
    exact fun fuel more hle => ExecM.approximates_repeatWhile (ih fuel more hle) hle
  | forLoop initializer? condition? increment? body ihInit ihBody =>
    intro fuel more hle
    refine ExecM.approximates_withNewScope
      ((fuelMonotone_execOption ihInit fuel more hle).bind fun _ => ?_)
    exact ExecM.approximates_repeatWhile
      ((ihBody fuel more hle).bind fun _ => Approximates.refl _) hle
  | other node h =>
    intro fuel more _
    show Approximates (node.exec fuel) (node.exec more)
    rw [exec_of_not_isStatement h, exec_of_not_isStatement h]
    exact Approximates.refl _

/-- More fuel changes nothing for a list of statements but running out of it. -/
theorem fuelMonotone_execAll (statements : List Node) :
    FuelMonotone fun fuel => execAll fuel statements :=
  fuelMonotone_execAll_of fun statement _ => fuelMonotone_exec statement

end Node
end Lox
