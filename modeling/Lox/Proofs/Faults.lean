import Lox.Evaluation

/-!
# The faults of operators and literals

An operator can go wrong in few ways, and which ones depends on the operator.
-/

namespace Lox

/-- A literal is a fault because of its type only. -/
theorem Datum.kind_of_coerce {datum : Datum} {fault : Fault} (h : datum.coerce = .error fault) :
    fault.kind = .type := by
  unfold coerce at h
  split at h
  all_goals cases h
  rfl

theorem UnaryOp.kind_of_apply {op : UnaryOp} {v : Value} {cause : Cause}
    (h : op.apply v = .error cause) : cause.kind = .type := by
  cases op with
  | negate =>
    rw [apply_negate] at h
    split at h
    all_goals cases h
    rfl
  | not => cases h

theorem inRange_error {n? : Option Number} {cause : Cause} (h : inRange n? = .error cause) :
    cause = .outOfRange := by
  cases n? with
  | none =>
    cases h
    rfl
  | some n => cases h

/-- An operation on numbers objects to the types of its operands, or as the operation does. -/
theorem onNumbers_error {operation : Number → Number → Except Cause Value} {a b : Datum}
    {cause : Cause} (h : onNumbers operation a b = .error cause) :
    cause = .numbersRequired 2 ∨ ∃ x y, operation x y = .error cause := by
  rw [onNumbers_eq] at h
  split at h
  · exact .inr ⟨_, _, h⟩
  · cases h
    exact .inl rfl

theorem divideNumbers_error {x y : Number} {cause : Cause}
    (h : divideNumbers x y = .error cause) : cause = .divisionByZero ∨ cause = .outOfRange := by
  unfold divideNumbers at h
  split at h
  · cases h
    exact .inl rfl
  · exact .inr (inRange_error h)

theorem addData_error {a b : Datum} {cause : Cause} (h : addData a b = .error cause) :
    cause.kind = .type ∨ cause = .outOfRange := by
  rw [addData_eq] at h
  split at h
  case h_1 => exact .inr (inRange_error h)
  all_goals cases h
  all_goals exact .inl rfl

/-- The operators whose results can be out of range. -/
def BinaryOp.isArithmetic : BinaryOp → Bool
  | subtract => true
  | divide => true
  | multiply => true
  | add => true
  | _ => false

/-- A binary operator objects to the types of its operands, a division to a zero divisor, and
arithmetic to a result out of range. -/
theorem BinaryOp.kind_of_apply {op : BinaryOp} {a b : Datum} {cause : Cause}
    (h : op.apply a b = .error cause) :
    cause.kind = .type ∨ (op = .divide ∧ cause.kind = .divisionByZero) ∨
      (op.isArithmetic = true ∧ cause.kind = .overflow) := by
  have hrange : ∀ {n? : Option Number}, inRange n? = .error cause → cause.kind = .overflow :=
    fun hn => by rw [inRange_error hn]; rfl
  cases op with
  | equal | notEqual => cases h
  | add =>
    rcases addData_error h with htype | rfl
    · exact .inl htype
    · exact .inr (.inr ⟨rfl, rfl⟩)
  | divide =>
    rcases onNumbers_error h with rfl | ⟨x, y, hxy⟩
    · exact .inl rfl
    · rcases divideNumbers_error hxy with rfl | rfl
      · exact .inr (.inl ⟨rfl, rfl⟩)
      · exact .inr (.inr ⟨rfl, rfl⟩)
  | subtract | multiply =>
    rcases onNumbers_error h with rfl | ⟨x, y, hxy⟩
    · exact .inl rfl
    · exact .inr (.inr ⟨rfl, hrange hxy⟩)
  | greater | greaterEqual | less | lessEqual =>
    rcases onNumbers_error h with rfl | ⟨x, y, hxy⟩
    · exact .inl rfl
    · cases hxy

/-- A fault of a unary operator is blamed on its lexeme: no operator is known by it, or the operand
is of another type. -/
theorem applyUnary_error {lexeme : Lexeme} {v : Value} {fault : Fault}
    (h : applyUnary lexeme v = .error fault) :
    fault.lexeme = lexeme ∧ (fault.cause = .unknownUnary ∨ fault.kind = .type) := by
  unfold applyUnary at h
  split at h
  · next op _ =>
    cases hop : op.apply v with
    | ok w =>
      rw [hop] at h
      cases h
    | error cause =>
      rw [hop] at h
      cases h
      exact ⟨rfl, .inr (UnaryOp.kind_of_apply hop)⟩
  · cases h
    exact ⟨rfl, .inl rfl⟩

/-- The operator that a lexeme chooses has the result; its objections are blamed on the lexeme. -/
theorem applyBinary_of_some {lexeme : Lexeme} {op : BinaryOp}
    (h : BinaryOp.ofLexeme? lexeme = some op) (a b : Datum) :
    applyBinary lexeme a b = (op.apply a b).mapError (⟨·, lexeme⟩) := by
  simp only [applyBinary, h]

/-- A fault of a binary operator is blamed on its lexeme: no operator is known by it, or the
operator that it chooses objects. -/
theorem applyBinary_error {lexeme : Lexeme} {a b : Datum} {fault : Fault}
    (h : applyBinary lexeme a b = .error fault) :
    fault.lexeme = lexeme ∧ (fault.cause = .unknownBinary ∨ fault.kind = .type ∨
      (BinaryOp.ofLexeme? lexeme = some .divide ∧ fault.kind = .divisionByZero) ∨
      ∃ op, BinaryOp.ofLexeme? lexeme = some op ∧ op.isArithmetic = true ∧
        fault.kind = .overflow) := by
  unfold applyBinary at h
  split at h
  · next op hlexeme =>
    cases hop : op.apply a b with
    | ok w =>
      rw [hop] at h
      cases h
    | error cause =>
      rw [hop] at h
      cases h
      rcases BinaryOp.kind_of_apply hop with htype | ⟨rfl, hzero⟩ | ⟨harith, hoverflow⟩
      · exact ⟨rfl, .inr (.inl htype)⟩
      · exact ⟨rfl, .inr (.inr (.inl ⟨hlexeme, hzero⟩))⟩
      · exact ⟨rfl, .inr (.inr (.inr ⟨op, hlexeme, harith, hoverflow⟩))⟩
  · cases h
    exact ⟨rfl, .inl rfl⟩

end Lox
