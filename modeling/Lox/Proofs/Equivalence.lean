import Lox.Proofs.Contexts

/-!
# Equivalent expressions

Two expressions are equivalent if they evaluate to the same value or fault, with the same effect,
against every frame of every store.  Equivalent expressions can take the place of each other in
every program: no run can tell which of the two it met.

The logical operators obey their laws under effects and faults, because each of the two sides
evaluates the same operands in the same order.  A law of truth values holds of values only where
both sides give the very operand that decides.
-/

namespace Lox

/-- Against every frame of every store, both nodes evaluate to the same value or fault and leave
the same store. -/
def Node.Equivalent (a b : Node) : Prop :=
  ∀ (store : Store) (frame : Nat), frame < store.size → a.eval frame store = b.eval frame store

/-! ## Frames that are not there -/

namespace Store
variable {s : Store} {f : Nat}

theorem lookup?_of_size_le (h : s.size ≤ f) (name : String) : s.lookup? f name = none := by
  simp [lookup?, chain_of_size_le h, bindings_of_size_le h]

theorem owner?_of_size_le (h : s.size ≤ f) (name : String) : s.owner? f name = none := by
  simp [owner?, chain_of_size_le h, bindings_of_size_le h, Bindings.holds]

end Store

/-- Against a frame that the store does not have, an expression does what it does against a new
frame without bindings and without a parent; it leaves the store alone. -/
theorem Node.sameEnd_eval_of_size_le {s : Store} {f : Nat} (h : s.size ≤ f) (node : Node) :
    SameEnd (fun t t' => t = s ∧ t' = s.push none) (node.eval f s)
      (node.eval s.size (s.push none)) := by
  have hlookup : ∀ name, (s.push none).lookup? s.size name = none := fun name => by
    simp [Store.lookup?, Store.chain_push_none, Store.bindings_of_size_le]
  have howner : ∀ name, (s.push none).owner? s.size name = none := fun name => by
    simp [Store.owner?, Store.chain_push_none, Store.bindings_of_size_le, Bindings.holds]
  refine node.lockstep_eval_of (R := fun t t' => t = s ∧ t' = s.push none) ?_ ?_ s (s.push none)
    ⟨rfl, rfl⟩
  · rintro name _ _ ⟨rfl, rfl⟩
    simp only [EvalM.lookup, Store.lookup?_of_size_le h, hlookup]
    exact ⟨rfl, rfl, rfl⟩
  · rintro name v _ _ ⟨rfl, rfl⟩
    simp only [EvalM.assign, Store.owner?_of_size_le h, howner]
    exact ⟨rfl, rfl, rfl⟩

namespace Node

/-- Equivalent expressions evaluate alike against every frame, be it in the store or not. -/
theorem Equivalent.eval_eq {a b : Node} (h : a.Equivalent b) (frame : Nat) :
    a.eval frame = b.eval frame := by
  funext s
  rcases Nat.lt_or_ge frame s.size with hlt | hle
  · exact h s frame hlt
  · have hnew : a.eval s.size (s.push none) = b.eval s.size (s.push none) :=
      h (s.push none) s.size (by simp)
    have hb := b.sameEnd_eval_of_size_le hle
    rw [← hnew] at hb
    exact (a.sameEnd_eval_of_size_le hle).left_unique (fun _ _ h => h.1) hb

/-- Nodes that evaluate alike are equivalent. -/
theorem equivalent_of_eval_eq {a b : Node} (h : ∀ frame, a.eval frame = b.eval frame) :
    a.Equivalent b :=
  fun store frame _ => congrFun (h frame) store

/-! ## Programs -/

/-- Equivalent expressions make statements in a row that do the same. -/
theorem Equivalent.execAll_eq {a b : Node} (h : a.Equivalent b) {C : Context}
    (hslot : C.slot = .expression) (fuel : Nat) :
    execAll fuel (C.fill a) = execAll fuel (C.fill b) := by
  have hagrees : C.slot.Agrees (fun _ => False) a b := by
    rw [hslot]
    exact fun frame store => .inr (by rw [h.eval_eq])
  refine ((Context.agreesUnless_execAll hagrees fuel).eq_of_forall_not ?_).symm
  rintro _ ⟨_, -, hfalse⟩
  exact hfalse

/-- Equivalent expressions make programs that do the same. -/
theorem Equivalent.interpret_eq {a b : Node} (h : a.Equivalent b) {C : Context}
    (hslot : C.slot = .expression) (fuel : Nat) :
    ExecM.interpret fuel (C.fill a) = ExecM.interpret fuel (C.fill b) := by
  funext m
  simp only [ExecM.interpret, h.execAll_eq hslot]

end Node

/-! ## Laws -/

namespace LogicalOp

/-- The operator that takes the place of another one when all operands are denied. -/
def dual : LogicalOp → LogicalOp
  | or => and
  | and => or

/-- What settles an operator settles its dual when it is denied. -/
@[simp] theorem settledBy_dual (op : LogicalOp) (v : Value) :
    op.dual.settledBy (.bool (!v.isTruthy)) = op.settledBy v := by
  cases op <;> simp [dual, settledBy]

end LogicalOp

namespace Node

section
variable {a b c x y : Node} {bang bang₁ bang₂ logic logic₁ logic₂ logic₃ : Lexeme} {op : LogicalOp}

theorem eval_not (h : UnaryOp.ofLexeme? bang = some .not) (frame : Nat) :
    (unary bang a).eval frame = (do
      let v ← a.eval frame
      pure (.bool (!v.isTruthy))) := by
  simp only [eval, applyUnary, h]
  rfl

theorem eval_logical_of_some (h : LogicalOp.ofLexeme? logic = some op) (frame : Nat) :
    (logical a logic b).eval frame = (do
      let v ← a.eval frame
      if op.settledBy v then pure v else b.eval frame) := by
  simp only [eval_logical, h]

theorem eval_ternary (frame : Nat) :
    (ternary a x y).eval frame = (do
      let v ← a.eval frame
      if v.isTruthy then x.eval frame else y.eval frame) := by
  simp only [eval]

/-- Parentheses change nothing. -/
theorem equivalent_grouping (a : Node) : (grouping a).Equivalent a :=
  equivalent_of_eval_eq fun _ => rfl

/-- To deny a conjunction or a disjunction is to deny its operands and to take the other one of
the two operators; the right operand is left out in the same cases. -/
theorem equivalent_not_logical (hbang : UnaryOp.ofLexeme? bang = some .not)
    (hbang₁ : UnaryOp.ofLexeme? bang₁ = some .not) (hbang₂ : UnaryOp.ofLexeme? bang₂ = some .not)
    (hlogic : LogicalOp.ofLexeme? logic = some op)
    (hlogic₁ : LogicalOp.ofLexeme? logic₁ = some op.dual) :
    (unary bang (logical a logic b)).Equivalent
      (logical (unary bang₁ a) logic₁ (unary bang₂ b)) := by
  refine equivalent_of_eval_eq fun frame => ?_
  simp only [eval_not hbang, eval_not hbang₁, eval_not hbang₂, eval_logical_of_some hlogic,
    eval_logical_of_some hlogic₁, bind_assoc, pure_bind, LogicalOp.settledBy_dual]
  congr 1
  funext v
  -- the denied left operand settles the right side where the left operand settles the left side
  cases op.settledBy v <;> simp

/-- The operand that settles a chain of conjunctions, or of disjunctions, does not depend on the
parentheses. -/
theorem equivalent_logical_assoc (hlogic : LogicalOp.ofLexeme? logic = some op)
    (hlogic₁ : LogicalOp.ofLexeme? logic₁ = some op)
    (hlogic₂ : LogicalOp.ofLexeme? logic₂ = some op)
    (hlogic₃ : LogicalOp.ofLexeme? logic₃ = some op) :
    (logical (logical a logic b) logic₁ c).Equivalent
      (logical a logic₂ (logical b logic₃ c)) := by
  refine equivalent_of_eval_eq fun frame => ?_
  simp only [eval_logical_of_some hlogic, eval_logical_of_some hlogic₁,
    eval_logical_of_some hlogic₂, eval_logical_of_some hlogic₃, bind_assoc]
  congr 1
  funext v
  cases hv : op.settledBy v <;> simp [hv]

/-- A choice by a conjunction is one choice inside another. -/
theorem equivalent_ternary_and (hlogic : LogicalOp.ofLexeme? logic = some .and) :
    (ternary (logical a logic b) x y).Equivalent (ternary a (ternary b x y) y) := by
  refine equivalent_of_eval_eq fun frame => ?_
  simp only [eval_ternary, eval_logical_of_some hlogic, bind_assoc]
  congr 1
  funext v
  cases hv : v.isTruthy <;> simp [LogicalOp.settledBy, hv]

/-- A choice by a denied condition is the other choice. -/
theorem equivalent_ternary_not (hbang : UnaryOp.ofLexeme? bang = some .not) :
    (ternary (unary bang a) x y).Equivalent (ternary a y x) := by
  refine equivalent_of_eval_eq fun frame => ?_
  simp only [eval_ternary, eval_not hbang, bind_assoc, pure_bind]
  congr 1
  funext v
  cases v.isTruthy <;> simp

end

end Node

/-! ## The congruence and its laws -/

/-- Equivalent expressions make programs that cannot be told apart: in the place of an expression,
one for the other changes nothing in any run.  Parentheses, the dualities of the logical operators,
their associativity, and choices by conjunctions and denials are equivalences, whichever lexemes
stand for the operators. -/
theorem equivalence_congruence_laws :
    (∀ a b : Node, a.Equivalent b → ∀ C : Context, C.slot = .expression →
      ∀ globals? outlet s outcome s',
        Ends (Session.step · (.run (C.fill a) globals? outlet)) s outcome s' ↔
          Ends (Session.step · (.run (C.fill b) globals? outlet)) s outcome s') ∧
    ∀ (a b c x y : Node) (bang bang₁ bang₂ conj conj₁ conj₂ conj₃ disj disj₁ disj₂ disj₃ : Lexeme),
      (∀ lexeme ∈ [bang, bang₁, bang₂], UnaryOp.ofLexeme? lexeme = some .not) →
      (∀ lexeme ∈ [conj, conj₁, conj₂, conj₃], LogicalOp.ofLexeme? lexeme = some .and) →
      (∀ lexeme ∈ [disj, disj₁, disj₂, disj₃], LogicalOp.ofLexeme? lexeme = some .or) →
      (Node.grouping a).Equivalent a ∧
      (Node.unary bang (.logical a conj b)).Equivalent
        (.logical (.unary bang₁ a) disj (.unary bang₂ b)) ∧
      (Node.unary bang (.logical a disj b)).Equivalent
        (.logical (.unary bang₁ a) conj (.unary bang₂ b)) ∧
      (Node.logical (.logical a conj b) conj₁ c).Equivalent
        (.logical a conj₂ (.logical b conj₃ c)) ∧
      (Node.logical (.logical a disj b) disj₁ c).Equivalent
        (.logical a disj₂ (.logical b disj₃ c)) ∧
      (Node.ternary (.logical a conj b) x y).Equivalent (.ternary a (.ternary b x y) y) ∧
      (Node.ternary (.unary bang a) x y).Equivalent (.ternary a y x) := by
  constructor
  · intro a b h C hslot globals? outlet s outcome s'
    simp only [Session.step, ExecM.run, h.interpret_eq hslot]
  · intro a b c x y bang bang₁ bang₂ conj conj₁ conj₂ conj₃ disj disj₁ disj₂ disj₃ hbang hconj hdisj
    simp only [List.forall_mem_cons] at hbang hconj hdisj
    obtain ⟨hbang, hbang₁, hbang₂, -⟩ := hbang
    obtain ⟨hconj, hconj₁, hconj₂, hconj₃, -⟩ := hconj
    obtain ⟨hdisj, hdisj₁, hdisj₂, hdisj₃, -⟩ := hdisj
    exact ⟨Node.equivalent_grouping a,
      Node.equivalent_not_logical hbang hbang₁ hbang₂ hconj hdisj,
      Node.equivalent_not_logical hbang hbang₁ hbang₂ hdisj hconj,
      Node.equivalent_logical_assoc hconj hconj₁ hconj₂ hconj₃,
      Node.equivalent_logical_assoc hdisj hdisj₁ hdisj₂ hdisj₃,
      Node.equivalent_ternary_and hconj, Node.equivalent_ternary_not hbang⟩

/-- The condition of a loop that assigns to the name it looks at, and prints it. -/
def assigningLoop : Context where
  before := [.varDecl (.bare "x") none]
  layers :=
    [.whileCondition (.print (.assign (.bare "x") (.literal (.host (.string "a")))))]
  after := [.print (.unary (.bare "-") (.var (.bare "x")))]

/-- A denied conjunction, its operators bare, and the disjunction that it is equivalent to, its
operators tokens, make loops that print and fail alike. -/
theorem equivalence_congruence_laws_assigningLoop :
    ∃ outcome s',
      Ends (Session.step · (.run (assigningLoop.fill (.unary (.bare "!")
        (.logical (.var (.bare "x")) (.bare "and") (.assign (.bare "x") (.var (.bare "x"))))))
        none .shared)) {} outcome s' ∧
      Ends (Session.step · (.run (assigningLoop.fill (.logical
        (.unary (.token ⟨"BANG", "!", some 1, some 8⟩) (.var (.bare "x")))
        (.token ⟨"OR", "or", some 1, some 11⟩)
        (.unary (.token ⟨"BANG", "!", none, none⟩) (.assign (.bare "x") (.var (.bare "x"))))))
        none .shared)) {} outcome s' ∧
      s'.console = ⟨#["a\n"], #["LoxTypeError: Operand must be a number\n"]⟩ := by
  obtain ⟨hcongr, hlaws⟩ := equivalence_congruence_laws
  obtain ⟨-, hnot, -⟩ := hlaws (.var (.bare "x")) (.assign (.bare "x") (.var (.bare "x")))
    (.literal (.host .none)) (.literal (.host .none)) (.literal (.host .none))
    (.bare "!") (.token ⟨"BANG", "!", some 1, some 8⟩) (.token ⟨"BANG", "!", none, none⟩)
    (.bare "and") (.bare "and") (.bare "and") (.bare "and")
    (.token ⟨"OR", "or", some 1, some 11⟩) (.bare "or") (.bare "or") (.bare "or")
    (by decide) (by decide) (by decide)
  obtain ⟨outcome, s', hrun, hconsole⟩ : ∃ outcome s',
      Ends (Session.step · (.run (assigningLoop.fill (.unary (.bare "!")
        (.logical (.var (.bare "x")) (.bare "and") (.assign (.bare "x") (.var (.bare "x"))))))
        none .shared)) {} outcome s' ∧
      s'.console = ⟨#["a\n"], #["LoxTypeError: Operand must be a number\n"]⟩ :=
    ⟨.ok (.interpreter 0), _, ⟨2, by with_unfolding_all rfl⟩, by with_unfolding_all rfl⟩
  exact ⟨outcome, s', hrun, (hcongr _ _ hnot assigningLoop rfl none .shared {} outcome s').1 hrun,
    hconsole⟩

end Lox
