import Lox.Proofs.Contexts
import Lox.Proofs.Faults
import Lox.Proofs.Points

/-!
# Where faults come from

A fault leaves the evaluation or execution that raised it unchanged, through any number of
operands, branches, rounds and scopes.  So its cause is a node of the program: an operator that
the fault is blamed on, a name that no frame in reach holds, a literal of a foreign type, or a node
in a place that is not meant for it.  Frames gain names and never lose any, and a frame inside
another one reaches all that the other one reaches.  So a name that was out of reach where the
fault was raised is out of reach from the frame that execution began in, then as well as before.
-/

namespace Lox

/-! ## Places -/

/-- Whether a node is meant for a place. -/
def Slot.accepts (node : Node) : Slot → Bool
  | expression => node.isExpression
  | statement => node.isStatement

/-- A node stands in a place of the program that another node makes in a given place.  Nothing
below a node counts if the node is not meant for its place, because nothing goes below it. -/
inductive Node.Stands (root : Node) (place : Slot) : Slot → Node → Prop
  | here : Stands root place place root
  | child {slot slot' : Slot} {node child : Node} (hnode : Stands root place slot node)
    (haccepts : slot.accepts node = true) (hchild : child ∈ node.childrenAt slot') :
    Stands root place slot' child

/-- With a node that is meant for its place, the nodes below it stand in theirs. -/
def ClosedBelow (stands : Slot → Node → Prop) : Prop :=
  ∀ {slot slot' : Slot} {node child : Node}, stands slot node → slot.accepts node = true →
    child ∈ node.childrenAt slot' → stands slot' child

theorem Node.closedBelow_stands (root : Node) (place : Slot) : ClosedBelow (root.Stands place) :=
  .child

/-! ## Names out of reach -/

namespace Store
variable {s s' s₁ s₂ s₃ : Store} {f g : Nat} {name : String}

/-- No frame that is reached from frame `f` holds the name. -/
def Lacks (s : Store) (f : Nat) (name : String) : Prop :=
  ∀ g ∈ s.chain f, name ∉ (s.bindings g).names

theorem lacks_iff : s.Lacks f name ↔ s.owner? f name = none := by
  simp [Lacks, owner?, ← Bindings.holds_iff]

theorem lacks_of_lookup? (h : s.lookup? f name = none) : s.Lacks f name := by
  simpa [Lacks, lookup?, ← Bindings.get?_eq_none_iff] using h

/-- A frame reaches what the frames around it reach. -/
theorem chain_subset (hg : g ∈ s.chain f) : s.chain g ⊆ s.chain f := by
  induction f using Nat.strongRecOn with
  | ind f ih =>
    rw [chain_eq, List.mem_cons] at hg
    rcases hg with rfl | hg
    · exact List.Subset.refl _
    · rw [chain_eq s f]
      split at hg
      · next p hp => exact List.subset_cons_of_subset _ (ih p (lt_of_parent? hp) hg)
      · cases hg

/-- The second store has the frames of the first one, with all names that they held. -/
structure Gains (s s' : Store) : Prop extends s.Grows s' where
  names_subset : ∀ g, (s.bindings g).names ⊆ (s'.bindings g).names

namespace Gains

theorem refl (s : Store) : s.Gains s := ⟨.refl s, fun _ => List.Subset.refl _⟩

theorem trans (h : s₁.Gains s₂) (h' : s₂.Gains s₃) : s₁.Gains s₃ where
  toGrows := h.toGrows.trans h'.toGrows
  names_subset := fun g => List.Subset.trans (h.names_subset g) (h'.names_subset g)

theorem define (s : Store) (f : Nat) (name : String) (v : Value) :
    s.Gains (s.define f name v) where
  toGrows := .define s f name v
  names_subset := by
    intro g
    rw [bindings_define]
    split
    · rw [Bindings.names_insert]
      split
      · exact List.Subset.refl _
      · exact List.subset_append_left _ _
    · exact List.Subset.refl _

theorem push (s : Store) (parent? : Option Nat) : s.Gains (s.push parent?) where
  toGrows := .push s parent?
  names_subset := by simp

end Gains

/-- What a frame lacks it lacked in every earlier store. -/
theorem Lacks.of_gains (h : s'.Lacks f name) (hs : s.Gains s') (hf : f < s.size) :
    s.Lacks f name := by
  intro g hg hname
  rw [← chain_of_grows hs.toGrows hf] at hg
  exact h g hg (hs.names_subset g hname)

/-- From frame `f` of the first store, execution can have come to frame `e` of the second one:
the store was only added to, and frame `e` is frame `f` or inside of it. -/
structure ComesTo (s : Store) (f : Nat) (s' : Store) (e : Nat) : Prop where
  gains : s.Gains s'
  lt_size : e < s'.size
  mem_chain : f ∈ s'.chain e

namespace ComesTo
variable {e : Nat}

theorem refl (hf : f < s.size) : s.ComesTo f s f := ⟨.refl s, hf, s.mem_chain_self f⟩

/-- A later store, with the same frame. -/
theorem later (h : s.ComesTo f s₁ e) (hgains : s₁.Gains s₂) : s.ComesTo f s₂ e where
  gains := h.gains.trans hgains
  lt_size := Nat.lt_of_lt_of_le h.lt_size hgains.size_le
  mem_chain := by
    rw [chain_of_grows hgains.toGrows h.lt_size]
    exact h.mem_chain

/-- A new frame inside the one that execution has come to. -/
theorem nested (h : s.ComesTo f s' e) : s.ComesTo f (s'.push (some e)) s'.size where
  gains := h.gains.trans (.push s' _)
  lt_size := by simp
  mem_chain := by
    rw [chain_push_size h.lt_size]
    exact List.mem_cons_of_mem _ h.mem_chain

/-- What the inner frame lacks is out of reach from the outer one. -/
theorem lacks (h : s.ComesTo f s' e) (hlacks : s'.Lacks e name) : s'.Lacks f name :=
  fun g hg => hlacks g (chain_subset h.mem_chain hg)

end ComesTo
end Store

/-! ## Faults and their causes -/

/-- A node that stands in a place causes the fault, or the place that it stands in does.  A fault
about a name says that frame `f` lacks it in both stores, before execution and after it. -/
inductive Fault.CausedBy (stands : Slot → Node → Prop) (f : Nat) (s s' : Store) (fault : Fault) :
    Prop
  /-- A name that is looked up or assigned. -/
  | name {name : Lexeme}
    (hnode : stands .expression (.var name) ∨
      ∃ source, stands .expression (.assign name source))
    (hlexeme : fault.lexeme = name) (hkind : fault.kind = .undefinedVariable)
    (hbefore : s.Lacks f name.text) (hafter : s'.Lacks f name.text)
  /-- An operator on one operand. -/
  | unary {operator : Lexeme} {right : Node} (hnode : stands .expression (.unary operator right))
    (hlexeme : fault.lexeme = operator)
    (hcause : fault.cause = .unknownUnary ∨ fault.kind = .type)
  /-- An operator on two operands. -/
  | binary {left right : Node} {operator : Lexeme}
    (hnode : stands .expression (.binary left operator right)) (hlexeme : fault.lexeme = operator)
    (hcause : fault.cause = .unknownBinary ∨ fault.kind = .type ∨
      (BinaryOp.ofLexeme? operator = some .divide ∧ fault.kind = .divisionByZero) ∨
      ∃ op, BinaryOp.ofLexeme? operator = some op ∧ op.isArithmetic = true ∧
        fault.kind = .overflow)
  /-- An operator that may leave out its right operand. -/
  | logical {left right : Node} {operator : Lexeme}
    (hnode : stands .expression (.logical left operator right))
    (hlexeme : fault.lexeme = operator) (hcause : fault.cause = .unknownLogical)
  /-- A literal of a foreign type. -/
  | literal {typeName : String}
    (hnode : stands .expression (.literal (.host (.other typeName))))
    (hlexeme : fault.lexeme = .absent) (hkind : fault.kind = .type)
    (hmessage : fault.message = "Unsupported literal type " ++ typeName)
  /-- A node in the place of an expression. -/
  | noExpression {node : Node} (hnode : stands .expression node)
    (hplace : node.isExpression = false) (hlexeme : fault.lexeme = .absent)
    (hkind : fault.kind = .runtime)
    (hmessage : fault.message = "Unsupported expression node " ++ node.className)
  /-- A node in the place of a statement. -/
  | noStatement {node : Node} (hnode : stands .statement node)
    (hplace : node.isStatement = false) (hlexeme : fault.lexeme = .absent)
    (hkind : fault.kind = .runtime)
    (hmessage : fault.message = "Unsupported statement node " ++ node.className)

section
variable {stands : Slot → Node → Prop} {s₀ : Store} {f e : Nat} {α β : Type}

/-! ## Expressions -/

namespace EvalM

/-- Evaluated against frame `e`, wherever execution can have come to by then from frame `f` of the
first store, the computation raises only faults that have a cause. -/
def Accounts (stands : Slot → Node → Prop) (s₀ : Store) (f e : Nat) (p : EvalM α) : Prop :=
  Ensures (s₀.ComesTo f · e) p (fun _ s => s₀.ComesTo f s e)
    fun fault s => fault.CausedBy stands f s₀ s

theorem Accounts.bind {p : EvalM α} {q : α → EvalM β} (hp : Accounts stands s₀ f e p)
    (hq : ∀ a, Accounts stands s₀ f e (q a)) : Accounts stands s₀ f e (p >>= q) :=
  Ensures.bind hp hq

/-- A fault whose cause does not depend on the store. -/
theorem accounts_throw {fault : Fault} (h : ∀ s, fault.CausedBy stands f s₀ s) :
    Accounts stands s₀ f e (throw fault : EvalM α) :=
  Ensures.throw fun s _ => h s

theorem accounts_ofExcept {result : Except Fault α}
    (h : ∀ fault, result = .error fault → ∀ s, fault.CausedBy stands f s₀ s) :
    Accounts stands s₀ f e (ofExcept result) := by
  cases result with
  | ok a => exact Ensures.pure fun _ hs => hs
  | error fault => exact accounts_throw (h fault rfl)

/-- A name that is out of reach where it is needed is out of reach from the frame that execution
began in. -/
theorem causedBy_of_lacks (hf : f < s₀.size) {s : Store} {name : Lexeme}
    (hnode : stands .expression (.var name) ∨ ∃ source, stands .expression (.assign name source))
    (hs : s₀.ComesTo f s e) (hlacks : s.Lacks e name.text) :
    Fault.CausedBy stands f s₀ s ⟨.undefinedVariable, name⟩ :=
  have hafter := hs.lacks hlacks
  .name hnode rfl rfl (hafter.of_gains hs.gains hf) hafter

theorem accounts_lookup (hf : f < s₀.size) {name : Lexeme}
    (hnode : stands .expression (.var name)) : Accounts stands s₀ f e (lookup e name) := by
  refine Ensures.of_results fun s hs => ?_
  unfold lookup
  cases hlookup : s.lookup? e name.text with
  | some v => exact hs
  | none => exact causedBy_of_lacks hf (.inl hnode) hs (Store.lacks_of_lookup? hlookup)

theorem accounts_assign (hf : f < s₀.size) {name : Lexeme} {source : Node}
    (hnode : stands .expression (.assign name source)) (v : Value) :
    Accounts stands s₀ f e (assign e name v) := by
  refine Ensures.of_results fun s hs => ?_
  unfold assign
  cases howner : s.owner? e name.text with
  | some owner => exact hs.later (.define s owner name.text v)
  | none => exact causedBy_of_lacks hf (.inr ⟨source, hnode⟩) hs (Store.lacks_iff.2 howner)

end EvalM

/-- A literal that stands for no value is of a foreign type. -/
theorem Datum.coerce_error {datum : Datum} {fault : Fault} (h : datum.coerce = .error fault) :
    ∃ typeName, datum = .host (.other typeName) ∧
      fault = .unplaced (.unsupportedLiteral typeName) := by
  unfold coerce at h
  split at h
  case h_6 typeName =>
    cases h
    exact ⟨typeName, rfl, rfl⟩
  all_goals cases h

/-- Every fault of an expression has a cause in it. -/
theorem Node.accounts_eval (hstands : ClosedBelow stands) (hf : f < s₀.size) {node : Node}
    (hnode : stands .expression node) : EvalM.Accounts stands s₀ f e (node.eval e) := by
  induction node using expressionInduction with
  | literal datum =>
    refine EvalM.accounts_ofExcept fun fault hfault s => ?_
    obtain ⟨typeName, rfl, rfl⟩ := Datum.coerce_error hfault
    exact .literal hnode rfl rfl rfl
  | grouping inner ih => exact ih (hstands hnode rfl (by simp [childrenAt]))
  | unary operator right ih =>
    refine (ih (hstands hnode rfl (by simp [childrenAt]))).bind fun v => ?_
    refine EvalM.accounts_ofExcept fun fault hfault s => ?_
    obtain ⟨hlexeme, hcause⟩ := applyUnary_error hfault
    exact .unary hnode hlexeme hcause
  | binary left operator right ihl ihr =>
    refine (ihl (hstands hnode rfl (by simp [childrenAt]))).bind fun a => ?_
    refine (ihr (hstands hnode rfl (by simp [childrenAt]))).bind fun b => ?_
    refine EvalM.accounts_ofExcept fun fault hfault s => ?_
    obtain ⟨hlexeme, hcause⟩ := applyBinary_error hfault
    exact .binary hnode hlexeme hcause
  | logical left operator right ihl ihr =>
    rw [eval_logical]
    refine (ihl (hstands hnode rfl (by simp [childrenAt]))).bind fun v => ?_
    cases LogicalOp.ofLexeme? operator with
    | none => exact EvalM.accounts_throw fun s => .logical hnode rfl rfl
    | some op =>
      dsimp only
      cases op.settledBy v with
      | true => exact Ensures.pure fun _ hs => hs
      | false => exact ihr (hstands hnode rfl (by simp [childrenAt]))
  | ternary condition first second ihc ihf ihs =>
    refine (ihc (hstands hnode rfl (by simp [childrenAt]))).bind fun v => ?_
    cases v.isTruthy with
    | true => exact ihf (hstands hnode rfl (by simp [childrenAt]))
    | false => exact ihs (hstands hnode rfl (by simp [childrenAt]))
  | var name => exact EvalM.accounts_lookup hf hnode
  | assign name source ih =>
    exact (ih (hstands hnode rfl (by simp [childrenAt]))).bind (EvalM.accounts_assign hf hnode)
  | other node hother =>
    rw [eval_of_not_isExpression hother]
    exact EvalM.accounts_throw fun s => .noExpression hnode hother rfl rfl rfl

/-! ## Statements -/

namespace ExecM

/-- Wherever execution can have come to from frame `f` of the first store, the computation raises
only faults that have a cause. -/
def Accounts (stands : Slot → Node → Prop) (s₀ : Store) (f : Nat) (p : ExecM α) : Prop :=
  Ensures (fun m => s₀.ComesTo f m.store m.active) p (fun _ m => s₀.ComesTo f m.store m.active)
    fun stop m => ∀ fault, stop = .fault fault → fault.CausedBy stands f s₀ m.store

namespace Accounts

theorem pure (a : α) : Accounts stands s₀ f (Pure.pure a) := Ensures.pure fun _ hm => hm

theorem bind {p : ExecM α} {q : α → ExecM β} (hp : Accounts stands s₀ f p)
    (hq : ∀ a, Accounts stands s₀ f (q a)) : Accounts stands s₀ f (p >>= q) :=
  Ensures.bind hp hq

theorem repeatWhile {test : ExecM Bool} {body : ExecM Unit} (htest : Accounts stands s₀ f test)
    (hbody : Accounts stands s₀ f body) (rounds : Nat) :
    Accounts stands s₀ f (repeatWhile test body rounds) := by
  induction rounds with
  | zero => exact Ensures.throw fun m _ fault hfault => by cases hfault
  | succ rounds ih =>
    refine htest.bind fun holds => ?_
    cases holds with
    | true => exact hbody.bind fun _ => ih
    | false => exact pure ()

/-- A scope of its own passes faults on, and gives the active frame back. -/
theorem withNewScope {body : ExecM Unit} (hbody : Accounts stands s₀ f body)
    (hkeeps : Leads Machine.Keeps body) : Accounts stands s₀ f (withNewScope body) := by
  refine Ensures.of_results fun m hm => ?_
  have hend := hbody m.nested hm.nested
  have hgrows := (hkeeps m.nested).grows
  cases hinside : body m.nested with
  | ok a m' =>
    rw [hinside] at hgrows
    rw [withNewScope_of_ok hinside]
    have hm' := hend.1 a m' hinside
    have hlater : m.store.Grows m'.store := (Store.Grows.push m.store _).trans hgrows
    refine ⟨hm'.gains, Nat.lt_of_lt_of_le hm.lt_size hlater.size_le, ?_⟩
    show f ∈ m'.store.chain m.active
    rw [Store.chain_of_grows hlater hm.lt_size]
    exact hm.mem_chain
  | error stop m' =>
    rw [withNewScope_of_error hinside]
    exact hend.2 stop m' hinside

end Accounts

theorem accounts_evaluate (hstands : ClosedBelow stands) (hf : f < s₀.size) {node : Node}
    (hnode : stands .expression node) : Accounts stands s₀ f (evaluate node) := by
  refine Ensures.of_results fun m hm => ?_
  have hend := Node.accounts_eval hstands hf hnode m.store hm
  cases heval : node.eval m.active m.store with
  | ok v store =>
    rw [evaluate_of_ok heval]
    exact hend.1 v store heval
  | error fault store =>
    rw [evaluate_of_error heval]
    rintro _ ⟨⟩
    exact hend.2 fault store heval

theorem accounts_test (hstands : ClosedBelow stands) (hf : f < s₀.size) {condition? : Option Node}
    (hnode : ∀ condition ∈ condition?, stands .expression condition) :
    Accounts stands s₀ f (test condition?) := by
  cases condition? with
  | none => exact .pure true
  | some condition =>
    exact (accounts_evaluate hstands hf (hnode condition rfl)).bind fun v => .pure _

theorem accounts_discard (hstands : ClosedBelow stands) (hf : f < s₀.size) {node? : Option Node}
    (hnode : ∀ node ∈ node?, stands .expression node) :
    Accounts stands s₀ f (discard node?) := by
  cases node? with
  | none => exact .pure ()
  | some node => exact (accounts_evaluate hstands hf (hnode node rfl)).bind fun _ => .pure ()

theorem accounts_print (piece : String) : Accounts stands s₀ f (print piece) :=
  Ensures.of_results fun _ hm => hm

theorem accounts_define (name : String) (v : Value) : Accounts stands s₀ f (define name v) :=
  Ensures.of_results fun m hm => hm.later (.define m.store m.active name v)

end ExecM

namespace Node

theorem accounts_execOption {fuel : Nat} {node? : Option Node}
    (h : ∀ node ∈ node?, ExecM.Accounts stands s₀ f (node.exec fuel)) :
    ExecM.Accounts stands s₀ f (execOption fuel node?) := by
  cases node? with
  | none => exact .pure ()
  | some node => exact h node rfl

theorem accounts_execAll_of {fuel : Nat} {statements : List Node}
    (h : ∀ statement ∈ statements, ExecM.Accounts stands s₀ f (statement.exec fuel)) :
    ExecM.Accounts stands s₀ f (execAll fuel statements) := by
  induction statements with
  | nil => exact .pure ()
  | cons statement rest ih =>
    exact (h statement List.mem_cons_self).bind fun _ =>
      ih fun other hother => h other (List.mem_cons_of_mem _ hother)

/-- Every fault of a statement has a cause in it. -/
theorem accounts_exec (hstands : ClosedBelow stands) (hf : f < s₀.size) (fuel : Nat) {node : Node}
    (hnode : stands .statement node) : ExecM.Accounts stands s₀ f (node.exec fuel) := by
  induction node using statementInduction with
  | expression inner =>
    exact ExecM.accounts_discard hstands hf fun node hmem =>
      hstands hnode rfl (by simp_all [childrenAt])
  | print inner =>
    exact (ExecM.accounts_evaluate hstands hf (hstands hnode rfl (by simp [childrenAt]))).bind
      fun v => ExecM.accounts_print _
  | varDecl name initializer? =>
    cases initializer? with
    | none => exact ExecM.accounts_define name.text .nil
    | some initializer =>
      exact (ExecM.accounts_evaluate hstands hf (hstands hnode rfl (by simp [childrenAt]))).bind
        (ExecM.accounts_define name.text)
  | block statements ih =>
    refine .withNewScope (accounts_execAll_of fun statement hmem => ?_)
      (leads_execAll fuel statements)
    exact ih statement hmem (hstands hnode rfl hmem)
  | ifElse condition thenBranch elseBranch? ihThen ihElse =>
    refine (ExecM.accounts_evaluate hstands hf
      (hstands hnode rfl (by simp [childrenAt]))).bind fun v => ?_
    cases v.isTruthy with
    | true => exact ihThen (hstands hnode rfl (by simp [childrenAt]))
    | false =>
      exact accounts_execOption fun elseBranch hmem =>
        ihElse elseBranch hmem (hstands hnode rfl (by simp_all [childrenAt]))
  | whileLoop condition body ih =>
    have hcondition : ExecM.Accounts stands s₀ f (ExecM.test (some condition)) :=
      ExecM.accounts_test hstands hf fun node hmem => hstands hnode rfl (by simp_all [childrenAt])
    exact .repeatWhile hcondition (ih (hstands hnode rfl (by simp [childrenAt]))) fuel
  | forLoop initializer? condition? increment? body ihInit ihBody =>
    have hinit := accounts_execOption fun initializer hmem =>
      ihInit initializer hmem (hstands hnode rfl (by simp_all [childrenAt]))
    have hcondition : ExecM.Accounts stands s₀ f (ExecM.test condition?) :=
      ExecM.accounts_test hstands hf fun node hmem => hstands hnode rfl (by simp_all [childrenAt])
    have hincrement : ExecM.Accounts stands s₀ f (ExecM.discard increment?) :=
      ExecM.accounts_discard hstands hf fun node hmem =>
        hstands hnode rfl (by simp_all [childrenAt])
    have hbody := ihBody (hstands hnode rfl (by simp [childrenAt]))
    have hkeeps := ExecM.operationsLead_keeps
    refine .withNewScope (hinit.bind fun _ => ?_)
      ((leads_execOption fun node _ => leads_exec fuel node).bind fun _ => ?_)
    · exact .repeatWhile hcondition (hbody.bind fun _ => hincrement) fuel
    · exact ExecM.leads_repeatWhile (hkeeps.test condition?)
        ((leads_exec fuel body).bind fun _ => hkeeps.discard increment?) fuel
  | other node hother =>
    rw [exec_of_not_isStatement hother]
    refine Ensures.throw fun m _ => ?_
    rintro _ ⟨⟩
    exact .noStatement hnode hother rfl rfl rfl

/-- Every fault of statements in a row has a cause in one of them. -/
theorem accounts_execAll (hstands : ClosedBelow stands) (hf : f < s₀.size) (fuel : Nat)
    {statements : List Node} (hnodes : ∀ statement ∈ statements, stands .statement statement) :
    ExecM.Accounts stands s₀ f (execAll fuel statements) :=
  accounts_execAll_of fun statement hmem => accounts_exec hstands hf fuel (hnodes statement hmem)

end Node

/-- A fault that ends a computation with enough fuel has a cause. -/
theorem ExecM.Accounts.causedBy {run : Nat → ExecM α}
    (h : ∀ fuel, Accounts stands s₀ f (run fuel)) {m m' : Machine} {fault : Fault}
    (hm : s₀.ComesTo f m.store m.active) (hends : Ends run m (.error fault) m') :
    fault.CausedBy stands f s₀ m'.store := by
  obtain ⟨fuel, hfuel⟩ := hends
  exact (h fuel m hm).2 _ m' hfuel fault rfl

end

/-- A fault that an expression or a statement ends in, or that a program reports, is caused by a
node in a place of it.  If the fault is about a name, no frame in reach of the active one held this
name before, and none holds it afterwards. -/
theorem faults_have_causes (m : Machine) (hm : m.active < m.store.size) :
    (∀ (node : Node) fault s', node.eval m.active m.store = .error fault s' →
      fault.CausedBy (node.Stands .expression) m.active m.store s') ∧
    (∀ (statement : Node) fault m', Ends (Node.exec · statement) m (.error fault) m' →
      fault.CausedBy (statement.Stands .statement) m.active m.store m'.store) ∧
    ∀ program m', Ends (ExecM.interpret · program) m (.ok false) m' →
      ∃ (fault : Fault) (m₁ : Machine), m' = m₁.fail fault ∧ fault.CausedBy
        (fun slot node => ∃ statement ∈ program, statement.Stands .statement slot node)
        m.active m.store m₁.store := by
  have hstart := Store.ComesTo.refl hm
  refine ⟨fun node fault s' heval => ?_, fun statement fault m' hends => ?_,
    fun program m' hends => ?_⟩
  · exact (node.accounts_eval (node.closedBelow_stands .expression) hm .here m.store hstart).2
      fault s' heval
  · exact ExecM.Accounts.causedBy (fun fuel => statement.accounts_exec
      (statement.closedBelow_stands .statement) hm fuel .here) hstart hends
  · obtain ⟨fault, m₁, hcut, rfl⟩ := ExecM.ends_interpret_false_iff.1 hends
    refine ⟨fault, m₁, rfl, ?_⟩
    have hclosed : ClosedBelow
        fun slot node => ∃ statement ∈ program, statement.Stands .statement slot node :=
      fun ⟨statement, hmem, hnode⟩ haccepts hchild =>
        ⟨statement, hmem, hnode.child haccepts hchild⟩
    exact ExecM.Accounts.causedBy (fun fuel => Node.accounts_execAll hclosed hm fuel
      fun statement hmem => ⟨statement, hmem, .here⟩) hstart (Node.ends_execAll_error_iff.2 hcut)

/-- A name that a block declares, and that a loop after the block assigns in its second round. -/
def leavingProgram : List Node :=
  let x : Lexeme := .token ⟨"IDENTIFIER", "x", some 4, some 9⟩
  [ .varDecl (.bare "first") (some (.literal (.host (.bool true)))),
    .block [.varDecl x none, .expression (.assign x (.var (.bare "first")))],
    .whileLoop (.literal (.host (.bool true)))
      (.ifElse (.var (.bare "first"))
        (.expression (.assign (.bare "first") (.literal (.host .none))))
        (some (.expression (.assign x (.literal (.host (.string "late"))))))) ]

/-- The fault is blamed on the name in the assignment, and the frame that held the name is out of
reach by then. -/
theorem faults_have_causes_leavingProgram :
    let m : Machine := ⟨Store.empty.push none, 0, false, {}, #[]⟩
    m.active < m.store.size ∧ ∃ (fault : Fault) (m₁ : Machine),
      Ends (ExecM.interpret · leavingProgram) m (.ok false) (m₁.fail fault) ∧
      (m₁.fail fault).console.err =
        #["LoxUndefinedVariable: Undefined variable \x27x\x27 (line 4, col 9)\n"] ∧
      fault.CausedBy (fun slot node => ∃ statement ∈ leavingProgram,
        statement.Stands .statement slot node) m.active m.store m₁.store ∧
      (m₁.store.bindings 0).names = ["first"] ∧ (m₁.store.bindings 1).names = ["x"] := by
  intro m
  have hm : m.active < m.store.size := by decide
  obtain ⟨m', hends, herr, hfirst, hsecond⟩ : ∃ m',
      Ends (ExecM.interpret · leavingProgram) m (.ok false) m' ∧
      m'.console.err =
        #["LoxUndefinedVariable: Undefined variable \x27x\x27 (line 4, col 9)\n"] ∧
      (m'.store.bindings 0).names = ["first"] ∧ (m'.store.bindings 1).names = ["x"] :=
    ⟨_, ⟨2, by with_unfolding_all rfl⟩, by with_unfolding_all rfl, by with_unfolding_all rfl,
      by with_unfolding_all rfl⟩
  obtain ⟨fault, m₁, rfl, hcause⟩ := (faults_have_causes m hm).2.2 leavingProgram m' hends
  exact ⟨hm, fault, m₁, hends, herr, hcause, hfirst, hsecond⟩

end Lox
