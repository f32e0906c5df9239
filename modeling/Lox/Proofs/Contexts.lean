import Lox.Proofs.Runs

/-!
# Programs with a hole

A context is a program with a hole in the place of one of its nodes.  What the program does with a
node in the hole depends on what this node does when it is reached, and on nothing else: two nodes
that agree in the place of the hole, except where the first ends in certain faults, make programs
that agree except where the first ends in these faults.

## Main definitions

* `Node.Layer` — a node with a hole in the place of one of the nodes directly below it.
* `Context` — a program with a hole, as the layers around the hole and the statements around these.
* `Slot.Agrees` — two nodes that agree in a place, except where the first ends in certain faults.
-/

namespace Lox

/-! ## Layers -/

/-- Where a node stands: in the place of an expression or in the place of a statement. -/
inductive Slot
  | expression
  | statement
  deriving DecidableEq

namespace Node

/-- A node with a hole in the place of one of the nodes directly below it. -/
inductive Layer
  | grouping
  | unary (operator : Lexeme)
  | binaryLeft (operator : Lexeme) (right : Node)
  | binaryRight (left : Node) (operator : Lexeme)
  | logicalLeft (operator : Lexeme) (right : Node)
  | logicalRight (left : Node) (operator : Lexeme)
  | ternaryCondition (first second : Node)
  | ternaryFirst (condition second : Node)
  | ternarySecond (condition first : Node)
  | assign (name : Lexeme)
  | expression
  | print
  | varDecl (name : Lexeme)
  | block (before after : List Node)
  | ifCondition (thenBranch : Node) (elseBranch? : Option Node)
  | ifThen (condition : Node) (elseBranch? : Option Node)
  | ifElse (condition thenBranch : Node)
  | whileCondition (body : Node)
  | whileBody (condition : Node)
  | forInitializer (condition? increment? : Option Node) (body : Node)
  | forCondition (initializer? increment? : Option Node) (body : Node)
  | forIncrement (initializer? condition? : Option Node) (body : Node)
  | forBody (initializer? condition? increment? : Option Node)

namespace Layer

/-- The layer with a node in its hole. -/
def fill (node : Node) : Layer → Node
  | grouping => .grouping node
  | unary operator => .unary operator node
  | binaryLeft operator right => .binary node operator right
  | binaryRight left operator => .binary left operator node
  | logicalLeft operator right => .logical node operator right
  | logicalRight left operator => .logical left operator node
  | ternaryCondition first second => .ternary node first second
  | ternaryFirst condition second => .ternary condition node second
  | ternarySecond condition first => .ternary condition first node
  | assign name => .assign name node
  | expression => .expression node
  | print => .print node
  | varDecl name => .varDecl name (some node)
  | block before after => .block (before ++ node :: after)
  | ifCondition thenBranch elseBranch? => .ifElse node thenBranch elseBranch?
  | ifThen condition elseBranch? => .ifElse condition node elseBranch?
  | ifElse condition thenBranch => .ifElse condition thenBranch (some node)
  | whileCondition body => .whileLoop node body
  | whileBody condition => .whileLoop condition node
  | forInitializer condition? increment? body => .forLoop (some node) condition? increment? body
  | forCondition initializer? increment? body => .forLoop initializer? (some node) increment? body
  | forIncrement initializer? condition? body => .forLoop initializer? condition? (some node) body
  | forBody initializer? condition? increment? =>
    .forLoop initializer? condition? increment? node

/-- What the hole is the place of. -/
def slot : Layer → Slot
  | block _ _ => .statement
  | ifThen _ _ => .statement
  | ifElse _ _ => .statement
  | whileBody _ => .statement
  | forInitializer _ _ _ => .statement
  | forBody _ _ _ => .statement
  | _ => .expression

end Layer

/-- The nodes directly below a node in a given place. -/
def childrenAt (node : Node) : Slot → List Node
  | .expression => node.expressions
  | .statement => node.statements

theorem mem_children_iff_exists_slot {node child : Node} :
    child ∈ node.children ↔ ∃ slot, child ∈ node.childrenAt slot := by
  rw [mem_children]
  constructor
  · rintro (h | h)
    · exact ⟨.expression, h⟩
    · exact ⟨.statement, h⟩
  · rintro ⟨slot, h⟩
    cases slot with
    | expression => exact .inl h
    | statement => exact .inr h

/-- The nodes directly below a node are those that fill a layer to it, in the place of its hole. -/
theorem Layer.exists_fill_iff {node child : Node} {slot : Slot} :
    (∃ layer : Layer, layer.slot = slot ∧ layer.fill child = node) ↔
      child ∈ node.childrenAt slot := by
  constructor
  · rintro ⟨layer, rfl, rfl⟩
    cases layer <;> simp [Layer.slot, fill, childrenAt]
  · intro h
    cases slot with
    | expression =>
      cases node with
      | literal | var | block | foreign => cases h
      | grouping inner =>
        obtain rfl := List.mem_singleton.1 h
        exact ⟨.grouping, rfl, rfl⟩
      | unary operator right =>
        obtain rfl := List.mem_singleton.1 h
        exact ⟨.unary operator, rfl, rfl⟩
      | binary left operator right =>
        have h : child = left ∨ child = right := by simpa [childrenAt] using h
        rcases h with rfl | rfl
        · exact ⟨.binaryLeft operator right, rfl, rfl⟩
        · exact ⟨.binaryRight left operator, rfl, rfl⟩
      | logical left operator right =>
        have h : child = left ∨ child = right := by simpa [childrenAt] using h
        rcases h with rfl | rfl
        · exact ⟨.logicalLeft operator right, rfl, rfl⟩
        · exact ⟨.logicalRight left operator, rfl, rfl⟩
      | ternary condition first second =>
        have h : child = condition ∨ child = first ∨ child = second := by
          simpa [childrenAt] using h
        rcases h with rfl | rfl | rfl
        · exact ⟨.ternaryCondition first second, rfl, rfl⟩
        · exact ⟨.ternaryFirst condition second, rfl, rfl⟩
        · exact ⟨.ternarySecond condition first, rfl, rfl⟩
      | assign name source =>
        obtain rfl := List.mem_singleton.1 h
        exact ⟨.assign name, rfl, rfl⟩
      | expression inner =>
        obtain rfl := List.mem_singleton.1 h
        exact ⟨.expression, rfl, rfl⟩
      | print inner =>
        obtain rfl := List.mem_singleton.1 h
        exact ⟨.print, rfl, rfl⟩
      | varDecl name initializer? =>
        obtain rfl := Option.mem_toList.1 h
        exact ⟨.varDecl name, rfl, rfl⟩
      | ifElse condition thenBranch elseBranch? =>
        obtain rfl := List.mem_singleton.1 h
        exact ⟨.ifCondition thenBranch elseBranch?, rfl, rfl⟩
      | whileLoop condition body =>
        obtain rfl := List.mem_singleton.1 h
        exact ⟨.whileCondition body, rfl, rfl⟩
      | forLoop initializer? condition? increment? body =>
        rcases List.mem_append.1 h with h | h
        · obtain rfl := Option.mem_toList.1 h
          exact ⟨.forCondition initializer? increment? body, rfl, rfl⟩
        · obtain rfl := Option.mem_toList.1 h
          exact ⟨.forIncrement initializer? condition? body, rfl, rfl⟩
    | statement =>
      cases node with
      | literal | grouping | unary | binary | logical | ternary | var | assign | expression | print
        | varDecl | foreign => cases h
      | block statements =>
        obtain ⟨before, after, rfl⟩ := List.append_of_mem h
        exact ⟨.block before after, rfl, rfl⟩
      | ifElse condition thenBranch elseBranch? =>
        rcases List.mem_cons.1 h with rfl | h
        · exact ⟨.ifThen condition elseBranch?, rfl, rfl⟩
        · obtain rfl := Option.mem_toList.1 h
          exact ⟨.ifElse condition thenBranch, rfl, rfl⟩
      | whileLoop condition body =>
        obtain rfl := List.mem_singleton.1 h
        exact ⟨.whileBody condition, rfl, rfl⟩
      | forLoop initializer? condition? increment? body =>
        rcases List.mem_append.1 h with h | h
        · obtain rfl := Option.mem_toList.1 h
          exact ⟨.forInitializer condition? increment? body, rfl, rfl⟩
        · obtain rfl := List.mem_singleton.1 h
          exact ⟨.forBody initializer? condition? increment?, rfl, rfl⟩

end Node

/-! ## Contexts -/

/-- A program with a hole in the place of one of its nodes: the layers around the hole, the
innermost first, and the statements before and after the one that they make. -/
structure Context where
  before : List Node
  layers : List Node.Layer
  after : List Node

/-- The node that layers, the innermost first, make around another one. -/
def Node.inside (layers : List Node.Layer) (node : Node) : Node :=
  layers.foldl (fun node layer => layer.fill node) node

/-- What a hole with layers around it is the place of; the statements of a program need no layer. -/
def Node.slotInside : List Node.Layer → Slot
  | [] => .statement
  | layer :: _ => layer.slot

namespace Context

/-- The program with a node in its hole. -/
def fill (C : Context) (node : Node) : List Node :=
  C.before ++ node.inside C.layers :: C.after

/-- What the hole of a context is the place of. -/
def slot (C : Context) : Slot := Node.slotInside C.layers

end Context

/-- Layers keep all nodes of what they are put around. -/
theorem Node.nodes_subset_inside (layers : List Node.Layer) (node : Node) :
    node.nodes ⊆ (node.inside layers).nodes := by
  induction layers generalizing node with
  | nil => exact List.Subset.refl _
  | cons layer rest ih =>
    have hchild : node ∈ (layer.fill node).children :=
      mem_children_iff_exists_slot.2 ⟨layer.slot, Layer.exists_fill_iff.1 ⟨layer, rfl, rfl⟩⟩
    exact List.Subset.trans (nodes_subset hchild) (ih (layer.fill node))

/-- The nodes of a node are those that layers make it of. -/
theorem Node.exists_inside_iff {node outer : Node} :
    (∃ layers, node.inside layers = outer) ↔ node ∈ outer.nodes := by
  constructor
  · rintro ⟨layers, rfl⟩
    exact node.nodes_subset_inside layers (by rw [nodes_eq]; exact List.mem_cons_self)
  · intro h
    induction outer using childInduction with
    | step outer ih =>
      rw [nodes_eq, List.mem_cons, List.mem_flatMap] at h
      rcases h with rfl | ⟨child, hchild, h⟩
      · exact ⟨[], rfl⟩
      · obtain ⟨layers, rfl⟩ := ih child hchild h
        obtain ⟨slot, hslot⟩ := mem_children_iff_exists_slot.1 hchild
        obtain ⟨layer, -, rfl⟩ := Layer.exists_fill_iff.2 hslot
        exact ⟨layers ++ [layer], List.foldl_append⟩

/-- The nodes of a program are those that fill a context to it. -/
theorem Context.exists_fill_iff {program : List Node} {node : Node} :
    (∃ C : Context, C.fill node = program) ↔ ∃ statement ∈ program, node ∈ statement.nodes := by
  constructor
  · rintro ⟨C, rfl⟩
    exact ⟨node.inside C.layers, by simp [fill], Node.exists_inside_iff.1 ⟨C.layers, rfl⟩⟩
  · rintro ⟨statement, hmem, hnode⟩
    obtain ⟨layers, rfl⟩ := Node.exists_inside_iff.2 hnode
    obtain ⟨before, after, rfl⟩ := List.append_of_mem hmem
    exact ⟨⟨before, layers, after⟩, rfl⟩

/-! ## Agreement -/

/-- The ways of stopping with one of the given faults. -/
def Stop.Among (E : Fault → Prop) (stop : Stop) : Prop := ∃ fault, stop = .fault fault ∧ E fault

/-- In the given slot, the second node does what the first does, wherever the first does not end
in one of the given faults. -/
def Slot.Agrees (E : Fault → Prop) (a b : Node) : Slot → Prop
  | expression => ∀ frame, AgreesUnless E (a.eval frame) (b.eval frame)
  | statement => ∀ fuel, AgreesUnless (Stop.Among E) (a.exec fuel) (b.exec fuel)

section
variable {E : Fault → Prop} {a b : Node}

namespace ExecM

theorem agreesUnless_evaluate (h : ∀ frame, AgreesUnless E (a.eval frame) (b.eval frame)) :
    AgreesUnless (Stop.Among E) (evaluate a) (evaluate b) := by
  intro m
  rcases h m.active m.store with ⟨fault, store, hfault, ha⟩ | heq
  · exact .inl ⟨.fault fault, _, ⟨fault, rfl, hfault⟩, evaluate_of_error ha⟩
  · exact .inr (by simp only [evaluate, heq])

theorem agreesUnless_test (h : ∀ frame, AgreesUnless E (a.eval frame) (b.eval frame)) :
    AgreesUnless (Stop.Among E) (test (some a)) (test (some b)) :=
  (agreesUnless_evaluate h).bind fun _ => .refl _

theorem agreesUnless_discard (h : ∀ frame, AgreesUnless E (a.eval frame) (b.eval frame)) :
    AgreesUnless (Stop.Among E) (discard (some a)) (discard (some b)) :=
  (agreesUnless_evaluate h).bind fun _ => .refl _

theorem agreesUnless_repeatWhile {S : Stop → Prop} {test test' : ExecM Bool}
    {body body' : ExecM Unit} (htest : AgreesUnless S test test')
    (hbody : AgreesUnless S body body') (rounds : Nat) :
    AgreesUnless S (repeatWhile test body rounds) (repeatWhile test' body' rounds) := by
  induction rounds with
  | zero => exact .refl _
  | succ rounds ih =>
    refine htest.bind fun holds => ?_
    cases holds with
    | true => exact hbody.bind fun _ => ih
    | false => exact .refl _

end ExecM

namespace Node

/-- Statements in a row agree if one of them does and all others are the same. -/
theorem agreesUnless_execAll {S : Stop → Prop} {fuel : Nat}
    (h : AgreesUnless S (a.exec fuel) (b.exec fuel)) (before after : List Node) :
    AgreesUnless S (execAll fuel (before ++ a :: after)) (execAll fuel (before ++ b :: after)) := by
  rw [execAll_append, execAll_append]
  exact (AgreesUnless.refl _).bind fun _ => h.bind fun _ => .refl _

/-- Nodes that agree in an expression's place make nodes that agree there. -/
theorem Layer.agrees_eval (layer : Layer) (h : layer.slot.Agrees E a b) (frame : Nat) :
    AgreesUnless E ((layer.fill a).eval frame) ((layer.fill b).eval frame) := by
  cases layer with
  | grouping => exact h frame
  | unary operator => exact (h frame).bind fun _ => .refl _
  | binaryLeft operator right => exact (h frame).bind fun _ => .refl _
  | binaryRight left operator =>
    exact (AgreesUnless.refl (left.eval frame)).bind fun _ => (h frame).bind fun _ => .refl _
  | logicalLeft operator right => exact (h frame).bind fun _ => .refl _
  | logicalRight left operator =>
    show AgreesUnless E ((logical left operator a).eval frame)
      ((logical left operator b).eval frame)
    rw [eval_logical, eval_logical]
    refine (AgreesUnless.refl (left.eval frame)).bind fun v => ?_
    cases LogicalOp.ofLexeme? operator with
    | none => exact .refl _
    | some op =>
      dsimp only
      cases op.settledBy v with
      | true => exact .refl _
      | false => exact h frame
  | ternaryCondition first second => exact (h frame).bind fun _ => .refl _
  | ternaryFirst condition second =>
    refine (AgreesUnless.refl (condition.eval frame)).bind fun v => ?_
    cases v.isTruthy with
    | true => exact h frame
    | false => exact .refl _
  | ternarySecond condition first =>
    refine (AgreesUnless.refl (condition.eval frame)).bind fun v => ?_
    cases v.isTruthy with
    | true => exact .refl _
    | false => exact h frame
  | assign name => exact (h frame).bind fun _ => .refl _
  | expression | print | varDecl | block | ifCondition | ifThen | ifElse | whileCondition
    | whileBody | forInitializer | forCondition | forIncrement | forBody => exact .refl _

/-- Nodes that agree in the hole of a layer make statements that agree. -/
theorem Layer.agrees_exec (layer : Layer) (h : layer.slot.Agrees E a b) (fuel : Nat) :
    AgreesUnless (Stop.Among E) ((layer.fill a).exec fuel) ((layer.fill b).exec fuel) := by
  cases layer with
  | expression => exact ExecM.agreesUnless_discard h
  | print => exact (ExecM.agreesUnless_evaluate h).bind fun _ => .refl _
  | varDecl name => exact (ExecM.agreesUnless_evaluate h).bind fun _ => .refl _
  | block before after => exact ExecM.agreesUnless_withNewScope (agreesUnless_execAll (h fuel) _ _)
  | ifCondition thenBranch elseBranch? =>
    exact (ExecM.agreesUnless_evaluate h).bind fun _ => .refl _
  | ifThen condition elseBranch? =>
    refine (AgreesUnless.refl (ExecM.evaluate condition)).bind fun v => ?_
    cases v.isTruthy with
    | true => exact h fuel
    | false => exact .refl _
  | ifElse condition thenBranch =>
    refine (AgreesUnless.refl (ExecM.evaluate condition)).bind fun v => ?_
    cases v.isTruthy with
    | true => exact .refl _
    | false => exact h fuel
  | whileCondition body =>
    exact ExecM.agreesUnless_repeatWhile (ExecM.agreesUnless_test h) (.refl _) fuel
  | whileBody condition => exact ExecM.agreesUnless_repeatWhile (.refl _) (h fuel) fuel
  | forInitializer condition? increment? body =>
    exact ExecM.agreesUnless_withNewScope ((h fuel).bind fun _ => .refl _)
  | forCondition initializer? increment? body =>
    refine ExecM.agreesUnless_withNewScope ((AgreesUnless.refl _).bind fun _ => ?_)
    exact ExecM.agreesUnless_repeatWhile (ExecM.agreesUnless_test h) (.refl _) fuel
  | forIncrement initializer? condition? body =>
    refine ExecM.agreesUnless_withNewScope ((AgreesUnless.refl _).bind fun _ => ?_)
    exact ExecM.agreesUnless_repeatWhile (.refl _)
      ((AgreesUnless.refl _).bind fun _ => ExecM.agreesUnless_discard h) fuel
  | forBody initializer? condition? increment? =>
    refine ExecM.agreesUnless_withNewScope ((AgreesUnless.refl _).bind fun _ => ?_)
    exact ExecM.agreesUnless_repeatWhile (.refl _) ((h fuel).bind fun _ => .refl _) fuel
  | grouping | unary | binaryLeft | binaryRight | logicalLeft | logicalRight | ternaryCondition
    | ternaryFirst | ternarySecond | assign => exact .refl _

/-- Nodes that agree in the hole of a layer make nodes that agree in every place. -/
theorem Layer.agrees_fill (layer : Layer) (h : layer.slot.Agrees E a b) (slot : Slot) :
    slot.Agrees E (layer.fill a) (layer.fill b) := by
  cases slot with
  | expression => exact layer.agrees_eval h
  | statement => exact layer.agrees_exec h

theorem agrees_inside {layers : List Layer} (h : (slotInside layers).Agrees E a b) :
    Slot.statement.Agrees E (a.inside layers) (b.inside layers) := by
  induction layers generalizing a b with
  | nil => exact h
  | cons layer rest ih => exact ih (layer.agrees_fill h _)

end Node

/-- Nodes that agree in the place of the hole make programs that agree. -/
theorem Context.agreesUnless_execAll {C : Context} (h : C.slot.Agrees E a b) (fuel : Nat) :
    AgreesUnless (Stop.Among E) (Node.execAll fuel (C.fill a)) (Node.execAll fuel (C.fill b)) :=
  Node.agreesUnless_execAll (Node.agrees_inside h fuel) C.before C.after

end

end Lox
