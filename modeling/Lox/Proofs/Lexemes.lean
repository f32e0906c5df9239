import Lox.Proofs.Faults

/-!
# Tokens and bare texts

An operator is chosen by the kind of a token or by the text of any lexeme.  A scanner gives each
text its kind, and the tables of operators are made for such tokens: a row names the kinds of just
those texts that it names.  So whatever a scanner can give chooses by its text alone, and the same
token without its kind, or in another place, chooses the same operator.

The messages of faults quote the text of a lexeme at most.  The place of the lexeme is added to the
message where a fault is reported, and is no part of it.
-/

namespace Lox

/-! ## Consistent lexemes -/

/-- The texts of operators, each with the kind that a scanner gives it. -/
def Token.scanned : List (String × String) :=
  [ ("-", "MINUS"), ("-=", "MINUS_EQUAL"), ("+", "PLUS"), ("+=", "PLUS_EQUAL"), ("/", "SLASH"),
    ("*", "STAR"), (">", "GREATER"), (">=", "GREATER_EQUAL"), ("<", "LESS"),
    ("<=", "LESS_EQUAL"), ("==", "EQUAL_EQUAL"), ("!=", "BANG_EQUAL"), ("!", "BANG"),
    ("and", "AND"), ("or", "OR") ]

/-- A token has the kind that a scanner gives to its text, or is of no operator in either way. -/
def Token.IsConsistent (t : Token) : Prop :=
  (t.text, t.kind) ∈ scanned ∨ t.text ∉ scanned.map Prod.fst ∧ t.kind ∉ scanned.map Prod.snd

instance (t : Token) : Decidable t.IsConsistent := inferInstanceAs (Decidable (_ ∨ _))

namespace Lexeme

/-- A lexeme is no token, or a consistent one. -/
def IsConsistent : Lexeme → Prop
  | token t => t.IsConsistent
  | _ => True

instance : DecidablePred IsConsistent
  | absent => isTrue trivial
  | bare _ => isTrue trivial
  | token t => inferInstanceAs (Decidable t.IsConsistent)

end Lexeme

/-- A row of a table names the texts of operators and just the kinds that belong to them. -/
def OperatorRow.IsScanned {Op : Type} (row : OperatorRow Op) : Prop :=
  (∀ text ∈ row.texts, text ∈ Token.scanned.map Prod.fst) ∧
  (∀ kind ∈ row.kinds, kind ∈ Token.scanned.map Prod.snd) ∧
  ∀ entry ∈ Token.scanned, entry.1 ∈ row.texts ↔ entry.2 ∈ row.kinds

instance {Op : Type} (row : OperatorRow Op) : Decidable row.IsScanned :=
  inferInstanceAs (Decidable (_ ∧ _))

theorem UnaryOp.isScanned_rows : ∀ row ∈ rows, row.IsScanned := by decide

theorem LogicalOp.isScanned_rows : ∀ row ∈ rows, row.IsScanned := by decide

theorem BinaryOp.isScanned_rows : ∀ row ∈ rows, row.IsScanned := by decide

namespace Lexeme
variable {Op : Type} {l l' : Lexeme}

/-- A consistent lexeme fits a row by its text alone. -/
theorem isOneOf_eq_contains {row : OperatorRow Op} (hrow : row.IsScanned) (h : l.IsConsistent) :
    l.isOneOf row.kinds row.texts = row.texts.contains l.text := by
  obtain ⟨htexts, hkinds, hentries⟩ := hrow
  rw [Bool.eq_iff_iff, List.contains_iff_mem]
  cases l with
  | absent =>
    have hnone : "None" ∉ row.texts := fun hmem => absurd (htexts _ hmem) (by decide)
    simpa [isOneOf, text] using hnone
  | bare text => simp [isOneOf]
  | token t =>
    simp only [isOneOf, Bool.or_eq_true, List.contains_iff_mem, text_token, or_iff_right_iff_imp]
    intro hkind
    rcases h with hscanned | ⟨-, hother⟩
    · exact (hentries _ hscanned).2 hkind
    · exact absurd (hkinds _ hkind) hother

/-- Consistent lexemes with the same text choose the same operator. -/
theorem choose?_congr {rows : List (OperatorRow Op)} (hrows : ∀ row ∈ rows, row.IsScanned)
    (h : l.IsConsistent) (h' : l'.IsConsistent) (htext : l'.text = l.text) :
    l'.choose? rows = l.choose? rows := by
  have hfits : ∀ row ∈ rows,
      l'.isOneOf row.kinds row.texts = l.isOneOf row.kinds row.texts := by
    intro row hrow
    rw [isOneOf_eq_contains (hrows row hrow) h, isOneOf_eq_contains (hrows row hrow) h', htext]
  rw [choose?, choose?]
  congr 1
  clear hrows
  induction rows with
  | nil => rfl
  | cons row rest ih =>
    rw [List.find?_cons, List.find?_cons, hfits row List.mem_cons_self,
      ih fun other hother => hfits other (List.mem_cons_of_mem row hother)]

/-! ## Other forms of a lexeme -/

/-- The second lexeme is the first, or the text of the first one, which is a token, or the same
token in another place or in none. -/
inductive Restates : Lexeme → Lexeme → Prop
  | same (l : Lexeme) : Restates l l
  | bare (t : Token) : Restates (.token t) (.bare t.text)
  | moved (t : Token) (line? column? : Option Int) :
    Restates (.token t) (.token { t with line?, column? })

theorem Restates.text_eq (h : l.Restates l') : l'.text = l.text := by
  cases h <;> rfl

theorem Restates.isConsistent (h : l.Restates l') (hl : l.IsConsistent) : l'.IsConsistent := by
  cases h with
  | same => exact hl
  | bare => exact trivial
  | moved => exact hl

/-- Between two operands, the second lexeme may also be the operator that the first one, an
operator of compound assignment, abbreviates. -/
inductive RestatesBinary : Lexeme → Lexeme → Prop
  | restated {l l' : Lexeme} (h : Restates l l') : RestatesBinary l l'
  | abridged {l l' : Lexeme} (h : (l.text, l'.text) ∈ [("-=", "-"), ("+=", "+")])
    (hl' : l'.IsConsistent) : RestatesBinary l l'

end Lexeme

/-! ## What faults say -/

/-- The class and the message of a fault. -/
def Fault.saying (fault : Fault) : FaultClass × String := (fault.kind, fault.message)

/-- What a fault says depends on the text of the lexeme only. -/
theorem Fault.saying_congr {l l' : Lexeme} (h : l'.text = l.text) (cause : Cause) :
    saying ⟨cause, l'⟩ = saying ⟨cause, l⟩ := by
  simp only [saying, kind, message, h]

/-- Messages quote the lexeme where an operator or a name is unknown. -/
theorem Cause.message_eq_of_kind {cause : Cause} (hruntime : cause.kind ≠ .runtime)
    (hundefined : cause.kind ≠ .undefinedVariable) (lexeme lexeme' : String) :
    cause.message lexeme' = cause.message lexeme := by
  cases cause with
  | unknownUnary | unknownBinary | unknownLogical => exact absurd rfl hruntime
  | undefinedVariable => exact absurd rfl hundefined
  | unsupportedLiteral | numbersRequired | numbersOrStringsRequired | stringAddedToNumber
  | divisionByZero | outOfRange | unsupportedExpression | unsupportedStatement | custom => rfl

/-- What a binary operator objects says the same of every lexeme. -/
theorem BinaryOp.saying_of_apply {op : BinaryOp} {a b : Datum} {cause : Cause}
    (h : op.apply a b = .error cause) (l l' : Lexeme) :
    Fault.saying ⟨cause, l'⟩ = Fault.saying ⟨cause, l⟩ := by
  have hkind := kind_of_apply h
  have hmessage : cause.message l'.text = cause.message l.text := by
    apply Cause.message_eq_of_kind
    all_goals
      intro heq
      simp [heq] at hkind
  simp only [Fault.saying, Fault.kind, Fault.message, hmessage]

/-- A result with its fault blamed on another lexeme says the same if every cause does. -/
theorem saying_mapError_congr {result : Except Cause Value} {l l' : Lexeme}
    (h : ∀ cause, result = .error cause →
      Fault.saying ⟨cause, l'⟩ = Fault.saying ⟨cause, l⟩) :
    (result.mapError (Fault.mk · l')).mapError Fault.saying =
      (result.mapError (Fault.mk · l)).mapError Fault.saying := by
  cases result with
  | ok v => rfl
  | error cause => exact congrArg Except.error (h cause rfl)

/-! ## Operators -/

section
variable {l l' : Lexeme}

theorem UnaryOp.ofLexeme?_restated (hl : l.IsConsistent) (h : l.Restates l') :
    ofLexeme? l' = ofLexeme? l :=
  Lexeme.choose?_congr isScanned_rows hl (h.isConsistent hl) h.text_eq

theorem LogicalOp.ofLexeme?_restated (hl : l.IsConsistent) (h : l.Restates l') :
    ofLexeme? l' = ofLexeme? l :=
  Lexeme.choose?_congr isScanned_rows hl (h.isConsistent hl) h.text_eq

/-- An abridged operator of compound assignment is the same operator. -/
theorem BinaryOp.ofLexeme?_abridged (hl : l.IsConsistent) (hl' : l'.IsConsistent)
    (h : (l.text, l'.text) ∈ [("-=", "-"), ("+=", "+")]) :
    ofLexeme? l' = ofLexeme? l ∧ ofLexeme? l ≠ none := by
  have hbare : ∀ {l : Lexeme}, l.IsConsistent → ofLexeme? l = ofLexeme? (.bare l.text) :=
    fun hl => Lexeme.choose?_congr isScanned_rows (l := .bare _) trivial hl rfl
  rw [hbare hl, hbare hl']
  simp only [List.mem_cons, Prod.mk.injEq, List.not_mem_nil, or_false] at h
  rcases h with ⟨hlong, hshort⟩ | ⟨hlong, hshort⟩
  · rw [hlong, hshort]
    decide
  · rw [hlong, hshort]
    decide

/-- A binary operator in another form is the same one; where it is unknown, it has the same
text. -/
theorem BinaryOp.ofLexeme?_restated (hl : l.IsConsistent) (h : l.RestatesBinary l') :
    ofLexeme? l' = ofLexeme? l ∧ (ofLexeme? l = none → l'.text = l.text) := by
  cases h with
  | restated h =>
    have hop := Lexeme.choose?_congr isScanned_rows hl (h.isConsistent hl) h.text_eq
    exact ⟨hop, fun _ => h.text_eq⟩
  | abridged h hl' =>
    obtain ⟨hop, hknown⟩ := ofLexeme?_abridged hl hl' h
    exact ⟨hop, fun hnone => absurd hnone hknown⟩

/-- A unary operator in another form has the same results. -/
theorem saying_applyUnary (hl : l.IsConsistent) (h : l.Restates l') (v : Value) :
    (applyUnary l' v).mapError Fault.saying = (applyUnary l v).mapError Fault.saying := by
  rw [applyUnary, applyUnary, UnaryOp.ofLexeme?_restated hl h]
  cases UnaryOp.ofLexeme? l with
  | none => exact congrArg Except.error (Fault.saying_congr h.text_eq _)
  | some op => exact saying_mapError_congr fun cause _ => Fault.saying_congr h.text_eq cause

/-- A binary operator in another form has the same results. -/
theorem saying_applyBinary (hl : l.IsConsistent) (h : l.RestatesBinary l') (a b : Datum) :
    (applyBinary l' a b).mapError Fault.saying = (applyBinary l a b).mapError Fault.saying := by
  obtain ⟨hop, htext⟩ := BinaryOp.ofLexeme?_restated hl h
  rw [applyBinary, applyBinary, hop]
  cases hknown : BinaryOp.ofLexeme? l with
  | none => exact congrArg Except.error (Fault.saying_congr (htext hknown) _)
  | some op => exact saying_mapError_congr fun cause hcause => BinaryOp.saying_of_apply hcause l l'

end

end Lox
