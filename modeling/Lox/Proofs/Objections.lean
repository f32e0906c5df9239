import Lox.Proofs.Doubles
import Lox.Proofs.Faults

/-!
# What binary operators object to

A lexeme chooses the operator of the first row that it fits, and the operator looks at the types of
its operands, then at a zero divisor, then at the range of the numbers.  Here the conditions of the
four objections are stated apart from that order: no two of them hold together, each is met with a
fault of its class, and where none holds there is a result.
-/

namespace Lox

/-! ## Rows -/

/-- Whether a lexeme fits a row. -/
def OperatorRow.Fits {Op : Type} (row : OperatorRow Op) (lexeme : Lexeme) : Prop :=
  lexeme.isOneOf row.kinds row.texts = true

section
variable {Op : Type} {rows : List (OperatorRow Op)} {lexeme : Lexeme}

theorem Lexeme.choose?_eq_none_iff :
    lexeme.choose? rows = none ↔ ∀ row ∈ rows, ¬ row.Fits lexeme := by
  simp [Lexeme.choose?, OperatorRow.Fits]

/-- The first row that a lexeme fits chooses the operator. -/
theorem Lexeme.choose?_eq_some_iff {op : Op} :
    lexeme.choose? rows = some op ↔
      ∃ before row after, rows = before ++ row :: after ∧ row.op = op ∧ row.Fits lexeme ∧
        ∀ other ∈ before, ¬ other.Fits lexeme := by
  simp only [Lexeme.choose?, Option.map_eq_some_iff, List.find?_eq_some_iff_append,
    OperatorRow.Fits]
  constructor
  · rintro ⟨row, ⟨hfits, before, after, hrows, hbefore⟩, hop⟩
    exact ⟨before, row, after, hrows, hop, hfits, fun other hother => by
      simpa using hbefore other hother⟩
  · rintro ⟨before, row, after, hrows, hop, hfits, hbefore⟩
    exact ⟨row, ⟨hfits, before, after, hrows, fun other hother => by
      simpa using hbefore other hother⟩, hop⟩

end

/-! ## Numbers -/

namespace Number

/-- The three zeros. -/
def IsZero (y : Number) : Prop := y = int 0 ∨ y = float 0.0 ∨ y = float (-0.0)

/-- A pair of numbers of which one is a double, and the other an integer that has no double near
it. -/
def OutOfRange : Number → Number → Prop
  | int n, float _ => 2 ^ 1024 - 2 ^ 970 ≤ n.natAbs
  | float _, int n => 2 ^ 1024 - 2 ^ 970 ≤ n.natAbs
  | _, _ => False

/-- Whether a number is an integer. -/
def isInt : Number → Bool
  | int _ => true
  | float _ => false

theorem isZero_iff {y : Number} : y.isZero = true ↔ y.IsZero := by
  cases y with
  | int n => simp [isZero, IsZero]
  | float x => simp [isZero, IsZero, Double.isZero_iff]

/-- Arithmetic has no result exactly where its operands are out of range, and its result is an
integer exactly where both operands are. -/
theorem combine_cases (ints : Int → Int → Int) (floats : Float → Float → Float) (x y : Number) :
    (x.OutOfRange y ∧ combine ints floats x y = none) ∨
      (¬ x.OutOfRange y ∧ ∃ n, combine ints floats x y = some n ∧
        n.isInt = (x.isInt && y.isInt)) := by
  -- one conversion decides it
  have hconvert : ∀ n : Int, (2 ^ 1024 - 2 ^ 970 ≤ n.natAbs ∧ Double.ofInt? n = none) ∨
      (¬ 2 ^ 1024 - 2 ^ 970 ≤ n.natAbs ∧ ∃ x, Double.ofInt? n = some x) := by
    intro n
    rw [← Double.ofInt?_eq_none_iff]
    cases hn : Double.ofInt? n with
    | none => exact .inl ⟨rfl, rfl⟩
    | some x => exact .inr ⟨nofun, x, rfl⟩
  cases x with
  | int m =>
    cases y with
    | int n => exact .inr ⟨id, _, rfl, rfl⟩
    | float y =>
      rcases hconvert m with ⟨hout, hm⟩ | ⟨hin, x, hm⟩
      · exact .inl ⟨hout, by simp [combine, hm]⟩
      · exact .inr ⟨hin, float (floats x y), by simp [combine, hm], rfl⟩
  | float x =>
    cases y with
    | int n =>
      rcases hconvert n with ⟨hout, hn⟩ | ⟨hin, y, hn⟩
      · exact .inl ⟨hout, by simp [combine, hn]⟩
      · exact .inr ⟨hin, float (floats x y), by simp [combine, hn], rfl⟩
    | float y => exact .inr ⟨id, _, rfl, rfl⟩

end Number

/-! ## Operators -/

/-- A datum that is a number of the language. -/
def Datum.IsNumber (datum : Datum) : Prop := ∃ n, datum = .value (.number n)

/-- A datum that is a string of the language. -/
def Datum.IsString (datum : Datum) : Prop := ∃ s, datum = .value (.string s)

namespace BinaryOp

/-- Operands of types that an operator does not take.  Equality takes all, addition takes numbers
and strings but no string after a number, and the other operators take numbers. -/
def Mistyped : BinaryOp → Datum → Datum → Prop
  | equal, _, _ => False
  | notEqual, _, _ => False
  | add, a, b =>
    ¬ (a.IsNumber ∨ a.IsString) ∨ ¬ (b.IsNumber ∨ b.IsString) ∨ (a.IsNumber ∧ b.IsString)
  | _, a, b => ¬ a.IsNumber ∨ ¬ b.IsNumber

/-- What an operator refuses, by the class of the objection. -/
def Refuses (op : BinaryOp) (a b : Datum) : FaultClass → Prop
  | .type => op.Mistyped a b
  | .divisionByZero =>
    op = divide ∧ ∃ x y, a = .value (.number x) ∧ b = .value (.number y) ∧ y.IsZero
  | .overflow =>
    op.isArithmetic = true ∧ ∃ x y, a = .value (.number x) ∧ b = .value (.number y) ∧
      x.OutOfRange y ∧ ¬ (op = divide ∧ y.IsZero)
  | .runtime => False
  | .undefinedVariable => False

/-- The kind of result that an operator has: of comparisons and equality a truth value, of
arithmetic a number, which is an integer if both operands are, and of addition to a string that
string continued. -/
inductive Yields : BinaryOp → Datum → Datum → Value → Prop
  | bool {op a b} (truth : Bool) (h : op.isArithmetic = false) : Yields op a b (.bool truth)
  | number {op x y n} (h : op.isArithmetic = true) (hint : n.isInt = (x.isInt && y.isInt)) :
      Yields op (.value (.number x)) (.value (.number y)) (.number n)
  | string {s v} : Yields add (.value (.string s)) (.value v) (.string (s ++ v.text))

/-- An objection that is due, or a result where none is. -/
def Agrees (op : BinaryOp) (a b : Datum) : Except Cause Value → Prop
  | .ok v => op.Yields a b v ∧ ∀ kind, ¬ op.Refuses a b kind
  | .error cause => op.Refuses a b cause.kind

section
variable {op : BinaryOp} {a b : Datum} {x y : Number}

/-- Operands that are not both numbers are refused for their types only. -/
theorem Refuses.class_of_not_number (h : ¬ a.IsNumber ∨ ¬ b.IsNumber) {kind : FaultClass}
    (hrefuses : op.Refuses a b kind) : kind = .type := by
  cases kind with
  | type => rfl
  | runtime | undefinedVariable => exact hrefuses.elim
  | divisionByZero =>
    obtain ⟨-, x, y, ha, hb, -⟩ := hrefuses
    exact absurd ⟨⟨x, ha⟩, ⟨y, hb⟩⟩ (not_and_or.2 h)
  | overflow =>
    obtain ⟨-, x, y, ha, hb, -⟩ := hrefuses
    exact absurd ⟨⟨x, ha⟩, ⟨y, hb⟩⟩ (not_and_or.2 h)

theorem not_mistyped_numbers : ¬ op.Mistyped (.value (.number x)) (.value (.number y)) := by
  cases op <;> simp [Mistyped, Datum.IsNumber, Datum.IsString]

/-- No two conditions hold together. -/
theorem Refuses.class_unique {kind kind' : FaultClass} (h : op.Refuses a b kind)
    (h' : op.Refuses a b kind') : kind = kind' := by
  by_cases hnumbers : a.IsNumber ∧ b.IsNumber
  · obtain ⟨⟨x, rfl⟩, ⟨y, rfl⟩⟩ := hnumbers
    -- a zero divisor is left out of the condition on the range
    have hdisjoint : op.Refuses (.value (.number x)) (.value (.number y)) .divisionByZero →
        ¬ op.Refuses (.value (.number x)) (.value (.number y)) .overflow := by
      rintro ⟨hop, _, y', -, hy', hzero⟩ ⟨-, _, y'', -, hy'', -, hnonzero⟩
      cases hy'
      cases hy''
      exact hnonzero ⟨hop, hzero⟩
    cases kind with
    | runtime | undefinedVariable => exact h.elim
    | type => exact absurd h not_mistyped_numbers
    | divisionByZero =>
      cases kind' with
      | runtime | undefinedVariable => exact h'.elim
      | type => exact absurd h' not_mistyped_numbers
      | divisionByZero => rfl
      | overflow => exact absurd h' (hdisjoint h)
    | overflow =>
      cases kind' with
      | runtime | undefinedVariable => exact h'.elim
      | type => exact absurd h' not_mistyped_numbers
      | divisionByZero => exact absurd h (hdisjoint h')
      | overflow => rfl
  · rw [not_and_or] at hnumbers
    rw [h.class_of_not_number hnumbers, h'.class_of_not_number hnumbers]

/-- Operands of types that the operator takes are refused in the arithmetic of two numbers only. -/
theorem not_refuses (htypes : ¬ op.Mistyped a b)
    (h : op.isArithmetic = false ∨ ¬ a.IsNumber ∨ ¬ b.IsNumber) (kind : FaultClass) :
    ¬ op.Refuses a b kind := by
  intro hrefuses
  rcases h with hop | hnumbers
  · cases kind with
    | runtime | undefinedVariable => exact hrefuses
    | type => exact htypes hrefuses
    | divisionByZero =>
      obtain ⟨rfl, -⟩ := hrefuses
      cases hop
    | overflow => simp [Refuses, hop] at hrefuses
  · obtain rfl := hrefuses.class_of_not_number hnumbers
    exact htypes hrefuses

/-- Two numbers are refused as a zero divisor and as out of range only. -/
theorem not_refuses_numbers (hzero : ¬ (op = divide ∧ y.IsZero)) (hin : ¬ x.OutOfRange y)
    (kind : FaultClass) : ¬ op.Refuses (.value (.number x)) (.value (.number y)) kind := by
  intro hrefuses
  cases kind with
  | runtime | undefinedVariable => exact hrefuses
  | type => exact not_mistyped_numbers hrefuses
  | divisionByZero =>
    obtain ⟨hop, _, _, -, hy, hz⟩ := hrefuses
    cases hy
    exact hzero ⟨hop, hz⟩
  | overflow =>
    obtain ⟨-, _, _, hx, hy, hout, -⟩ := hrefuses
    cases hx
    cases hy
    exact hin hout

/-- Arithmetic on two numbers, where it is not a division by zero. -/
theorem agrees_inRange (h : op.isArithmetic = true) (hzero : ¬ (op = divide ∧ y.IsZero))
    (ints : Int → Int → Int) (floats : Float → Float → Float) :
    op.Agrees (.value (.number x)) (.value (.number y)) (inRange (x.combine ints floats y)) := by
  rcases Number.combine_cases ints floats x y with ⟨hout, hnone⟩ | ⟨hin, n, hsome, hint⟩
  · rw [hnone]
    exact ⟨h, x, y, rfl, rfl, hout, hzero⟩
  · rw [hsome]
    exact ⟨.number h hint, not_refuses_numbers hzero hin⟩

/-- An operation that takes numbers only agrees on all operands if it does on numbers. -/
theorem agrees_onNumbers {operation : Number → Number → Except Cause Value}
    (htypes : op.Mistyped a b ↔ ¬ a.IsNumber ∨ ¬ b.IsNumber)
    (h : ∀ x y, op.Agrees (.value (.number x)) (.value (.number y)) (operation x y)) :
    op.Agrees a b (onNumbers operation a b) := by
  rw [onNumbers_eq]
  split
  · next x y => exact h x y
  · next hother =>
    refine htypes.2 ?_
    by_contra hnumbers
    simp only [not_or, not_not] at hnumbers
    obtain ⟨⟨x, rfl⟩, ⟨y, rfl⟩⟩ := hnumbers
    exact hother x y rfl rfl

theorem agrees_divideNumbers :
    divide.Agrees (.value (.number x)) (.value (.number y)) (divideNumbers x y) := by
  unfold divideNumbers
  split
  · next hzero => exact ⟨rfl, x, y, rfl, rfl, Number.isZero_iff.1 hzero⟩
  · next hzero => exact agrees_inRange rfl (fun h => hzero (Number.isZero_iff.2 h.2)) _ _

theorem agrees_addData : add.Agrees a b (addData a b) := by
  have hstring : ∀ {s v}, ¬ add.Mistyped (.value (.string s)) (.value v) →
      add.Agrees (.value (.string s)) (.value v) (.ok (.string (s ++ v.text))) :=
    fun htypes => ⟨.string, not_refuses htypes (.inr (.inl (by simp [Datum.IsNumber])))⟩
  rw [addData_eq]
  split
  · exact agrees_inRange rfl (by simp) _ _
  · exact hstring (by simp [Mistyped, Datum.IsNumber, Datum.IsString])
  · exact hstring (by simp [Mistyped, Datum.IsNumber, Datum.IsString])
  · next x s => exact .inr (.inr ⟨⟨x, rfl⟩, ⟨s, rfl⟩⟩)
  · next hnumbers hnumber hstrings hmixed =>
    -- each of the four pairs of admissible types has been dealt with
    change add.Mistyped a b
    by_contra htypes
    obtain ⟨ha, hrest⟩ := not_or.1 htypes
    obtain ⟨hb, -⟩ := not_or.1 hrest
    obtain ⟨x, rfl⟩ | ⟨s, rfl⟩ := not_not.1 ha <;> obtain ⟨y, rfl⟩ | ⟨t, rfl⟩ := not_not.1 hb
    · exact hnumbers x y rfl rfl
    · exact hmixed x t rfl rfl
    · exact hnumber s y rfl rfl
    · exact hstrings s t rfl rfl

theorem agrees_bool (h : op.isArithmetic = false) (htypes : ¬ op.Mistyped a b) (truth : Bool) :
    op.Agrees a b (.ok (.bool truth)) :=
  ⟨.bool truth h, not_refuses htypes (.inl h)⟩

end

/-- An operator objects where it refuses its operands, and has a result elsewhere. -/
theorem agrees_apply (op : BinaryOp) (a b : Datum) : op.Agrees a b (op.apply a b) := by
  cases op with
  | subtract | multiply =>
    exact agrees_onNumbers .rfl fun x y => agrees_inRange rfl (by simp) _ _
  | divide => exact agrees_onNumbers .rfl fun x y => agrees_divideNumbers
  | add => exact agrees_addData
  | greater | greaterEqual | less | lessEqual =>
    exact agrees_onNumbers .rfl fun x y => agrees_bool rfl not_mistyped_numbers _
  | equal | notEqual => exact agrees_bool rfl id _

end BinaryOp

/-! ## Lexemes -/

/-- The objections to a lexeme with two operands, by their class. -/
inductive Lexeme.Refuses (lexeme : Lexeme) (a b : Datum) : FaultClass → Prop
  /-- No row fits. -/
  | unknown (h : BinaryOp.ofLexeme? lexeme = none) : lexeme.Refuses a b .runtime
  /-- The operator refuses its operands. -/
  | operands {op kind} (h : BinaryOp.ofLexeme? lexeme = some op) (hop : op.Refuses a b kind) :
    lexeme.Refuses a b kind

section
variable {lexeme : Lexeme} {a b : Datum}

theorem Lexeme.Refuses.class_unique {kind kind' : FaultClass} (h : lexeme.Refuses a b kind)
    (h' : lexeme.Refuses a b kind') : kind = kind' := by
  cases h with
  | unknown hnone =>
    cases h' with
    | unknown => rfl
    | operands hsome => simp [hnone] at hsome
  | operands hsome hop =>
    cases h' with
    | unknown hnone => simp [hnone] at hsome
    | operands hsome' hop' =>
      obtain rfl : _ = _ := Option.some.inj (hsome.symm.trans hsome')
      exact hop.class_unique hop'

/-- A lexeme with two operands comes to an objection that is due, or to a result. -/
theorem applyBinary_cases (lexeme : Lexeme) (a b : Datum) :
    (∃ fault, applyBinary lexeme a b = .error fault ∧ fault.lexeme = lexeme ∧
      lexeme.Refuses a b fault.kind) ∨
    (∃ op v, BinaryOp.ofLexeme? lexeme = some op ∧ applyBinary lexeme a b = .ok v ∧
      op.Yields a b v ∧ ∀ kind, ¬ lexeme.Refuses a b kind) := by
  cases hop : BinaryOp.ofLexeme? lexeme with
  | none => exact .inl ⟨⟨.unknownBinary, lexeme⟩, by simp [applyBinary, hop], rfl, .unknown hop⟩
  | some op =>
    rw [applyBinary_of_some hop]
    have hagrees := op.agrees_apply a b
    cases happly : op.apply a b with
    | error cause =>
      rw [happly] at hagrees
      exact .inl ⟨⟨cause, lexeme⟩, rfl, rfl, .operands hop hagrees⟩
    | ok v =>
      rw [happly] at hagrees
      refine .inr ⟨op, v, rfl, rfl, hagrees.1, fun kind hrefuses => ?_⟩
      cases hrefuses with
      | unknown hnone => simp [hop] at hnone
      | operands hsome hrefuses =>
        obtain rfl : op = _ := Option.some.inj (hop.symm.trans hsome)
        exact hagrees.2 kind hrefuses

/-- There is a fault of a class exactly where the lexeme refuses its operands for it. -/
theorem exists_fault_iff {kind : FaultClass} :
    (∃ fault, applyBinary lexeme a b = .error fault ∧ fault.kind = kind) ↔
      lexeme.Refuses a b kind := by
  rcases applyBinary_cases lexeme a b with ⟨fault, hfault, -, hrefuses⟩ | ⟨op, v, -, hv, -, hno⟩
  · simp only [hfault, Except.error.injEq, exists_eq_left']
    constructor
    · rintro rfl
      exact hrefuses
    · exact hrefuses.class_unique
  · simp [hv, hno kind]

end

/-- The first row that a lexeme fits is its operator; a binary operator ends in a fault of a class
exactly where it refuses its operands for it, for one class at most, and always blames the lexeme;
where no class refuses the operands, there is a result, of the operator's kind. -/
theorem binary_objections_exact (lexeme : Lexeme) (a b : Datum) :
    (∀ op, BinaryOp.ofLexeme? lexeme = some op ↔
      ∃ before row after, BinaryOp.rows = before ++ row :: after ∧ row.op = op ∧
        row.Fits lexeme ∧ ∀ other ∈ before, ¬ other.Fits lexeme) ∧
    (BinaryOp.ofLexeme? lexeme = none ↔ ∀ row ∈ BinaryOp.rows, ¬ row.Fits lexeme) ∧
    (∀ kind, (∃ fault, applyBinary lexeme a b = .error fault ∧ fault.kind = kind) ↔
      lexeme.Refuses a b kind) ∧
    (∀ kind kind', lexeme.Refuses a b kind → lexeme.Refuses a b kind' → kind = kind') ∧
    (∀ fault, applyBinary lexeme a b = .error fault → fault.lexeme = lexeme) ∧
    ((∀ kind, ¬ lexeme.Refuses a b kind) →
      ∃ op v, BinaryOp.ofLexeme? lexeme = some op ∧ applyBinary lexeme a b = .ok v ∧
        op.Yields a b v) := by
  refine ⟨fun op => Lexeme.choose?_eq_some_iff, Lexeme.choose?_eq_none_iff,
    fun kind => exists_fault_iff, fun kind kind' h h' => h.class_unique h',
    fun fault h => (applyBinary_error h).1, fun hno => ?_⟩
  rcases applyBinary_cases lexeme a b with ⟨fault, -, -, hrefuses⟩ | ⟨op, v, hop, hv, hyields, -⟩
  · exact absurd hrefuses (hno fault.kind)
  · exact ⟨op, v, hop, hv, hyields⟩

/-- The least integer that has no double near it. -/
def leastOutOfRange : Nat := 2 ^ 1024 - 2 ^ 970

theorem leastOutOfRange_pos : 0 < leastOutOfRange := by
  have hpow : ∀ {p q : Nat}, p < q → 2 ^ p < 2 ^ q := Nat.pow_lt_pow_right (by decide)
  exact Nat.sub_pos_of_lt (hpow (by decide))

/-- A token chooses by its text if the row of that text comes before the row of its kind; the least
integer out of range is too large next to an infinity, though not for a zero divisor, which goes
first; and the integer below it is multiplied even by what is not a number. -/
theorem binary_objections_exact_boundary :
    BinaryOp.ofLexeme? (.token ⟨"STAR", "-", none, none⟩) = some .subtract ∧
    (∃ fault, applyBinary (.bare "+") (.value (.number (.int leastOutOfRange)))
      (.value (.number (.float (1.0 / 0.0)))) = .error fault ∧ fault.kind = .overflow) ∧
    (∃ fault, applyBinary (.bare "/") (.value (.number (.int leastOutOfRange)))
      (.value (.number (.float (-0.0)))) = .error fault ∧ fault.kind = .divisionByZero) ∧
    ∃ n, applyBinary (.bare "*") (.value (.number (.int (leastOutOfRange - 1))))
      (.value (.number (.float (0.0 / 0.0)))) = .ok (.number n) ∧ n.isInt = false := by
  have hplus : BinaryOp.ofLexeme? (.bare "+") = some .add := rfl
  have hslash : BinaryOp.ofLexeme? (.bare "/") = some .divide := rfl
  have hstar : BinaryOp.ofLexeme? (.bare "*") = some .multiply := rfl
  refine ⟨?_, ?_, ?_, ?_⟩
  · obtain ⟨hfirst, -⟩ := binary_objections_exact (.token ⟨"STAR", "-", none, none⟩)
      (.value .nil) (.value .nil)
    exact (hfirst .subtract).2 ⟨[], _, _, rfl, rfl, rfl, by simp⟩
  · obtain ⟨-, -, hexact, -⟩ := binary_objections_exact (.bare "+")
      (.value (.number (.int leastOutOfRange))) (.value (.number (.float (1.0 / 0.0))))
    exact (hexact .overflow).2
      (.operands hplus ⟨rfl, _, _, rfl, rfl, Nat.le_refl leastOutOfRange, by simp⟩)
  · obtain ⟨-, -, hexact, -⟩ := binary_objections_exact (.bare "/")
      (.value (.number (.int leastOutOfRange))) (.value (.number (.float (-0.0))))
    exact (hexact .divisionByZero).2 (.operands hslash ⟨rfl, _, _, rfl, rfl, .inr (.inr rfl)⟩)
  · obtain ⟨-, -, -, -, -, hresult⟩ := binary_objections_exact (.bare "*")
      (.value (.number (.int (leastOutOfRange - 1)))) (.value (.number (.float (0.0 / 0.0))))
    obtain ⟨op, v, hop, hv, hyields⟩ := hresult fun kind hrefuses => by
      cases hrefuses with
      | unknown hnone => simp [hstar] at hnone
      | operands hsome hrefuses =>
        cases hstar.symm.trans hsome
        have hbelow : ¬ (Number.int (leastOutOfRange - 1)).OutOfRange (.float (0.0 / 0.0)) := by
          have hpos := leastOutOfRange_pos
          change ¬ leastOutOfRange ≤ (leastOutOfRange - 1 : Int).natAbs
          omega
        exact BinaryOp.not_refuses_numbers (by simp) hbelow kind hrefuses
    cases hstar.symm.trans hop
    cases hyields with
    | bool truth h => cases h
    | number h hint => exact ⟨_, hv, hint⟩

end Lox
