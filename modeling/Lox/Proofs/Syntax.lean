import Lox.Node

/-!
# The parts of a node

A node has other nodes directly below it, some in the place of an expression and some in the place
of a statement.  From these two lists follow an induction over nodes and the list of all nodes of
a program, which in turn gives the names that a program mentions and the names that it assigns.

Which names a statement can define in the scope around it is a matter of nesting: declarations in
branches and in the body of a `while` loop count, those inside a block or a `for` loop do not.
-/

namespace Lox
namespace Node

/-- The nodes directly below a node in the place of an expression. -/
@[simp]
def expressions : Node → List Node
  | literal _ => []
  | grouping inner => [inner]
  | unary _ right => [right]
  | binary left _ right => [left, right]
  | logical left _ right => [left, right]
  | ternary condition first second => [condition, first, second]
  | var _ => []
  | assign _ source => [source]
  | expression inner => [inner]
  | print inner => [inner]
  | varDecl _ initializer? => initializer?.toList
  | block _ => []
  | ifElse condition _ _ => [condition]
  | whileLoop condition _ => [condition]
  | forLoop _ condition? increment? _ => condition?.toList ++ increment?.toList
  | foreign _ => []

/-- The nodes directly below a node in the place of a statement. -/
@[simp]
def statements : Node → List Node
  | block statements => statements
  | ifElse _ thenBranch elseBranch? => thenBranch :: elseBranch?.toList
  | whileLoop _ body => [body]
  | forLoop initializer? _ _ body => initializer?.toList ++ [body]
  | _ => []

/-- The nodes directly below a node. -/
def children (node : Node) : List Node := node.expressions ++ node.statements

@[simp] theorem mem_children {child node : Node} :
    child ∈ node.children ↔ child ∈ node.expressions ∨ child ∈ node.statements :=
  List.mem_append

/-- Whether a node is meant for the place of an expression. -/
def isExpression : Node → Bool
  | literal _ => true
  | grouping _ => true
  | unary _ _ => true
  | binary _ _ _ => true
  | logical _ _ _ => true
  | ternary _ _ _ => true
  | var _ => true
  | assign _ _ => true
  | _ => false

/-- Whether a node is meant for the place of a statement. -/
def isStatement : Node → Bool
  | expression _ => true
  | print _ => true
  | varDecl _ _ => true
  | block _ => true
  | ifElse _ _ _ => true
  | whileLoop _ _ => true
  | forLoop _ _ _ _ => true
  | _ => false

/-! ## Induction -/

theorem sizeOf_lt_of_mem_toList {child : Node} {node? : Option Node}
    (h : child ∈ node?.toList) : sizeOf child < sizeOf node? := by
  rw [Option.mem_toList.1 h, Option.some.sizeOf_spec]
  omega

theorem sizeOf_lt_of_mem_children {child node : Node} (h : child ∈ node.children) :
    sizeOf child < sizeOf node := by
  cases node with
  | block statements =>
    have hmem : child ∈ statements := h
    have := List.sizeOf_lt_of_mem hmem
    simp only [block.sizeOf_spec]
    omega
  | varDecl name initializer? =>
    have hmem : child ∈ initializer?.toList := by simpa using h
    have := sizeOf_lt_of_mem_toList hmem
    simp only [varDecl.sizeOf_spec]
    omega
  | ifElse condition thenBranch elseBranch? =>
    simp only [children, expressions, statements, List.cons_append, List.nil_append,
      List.mem_cons] at h
    simp only [ifElse.sizeOf_spec]
    rcases h with rfl | rfl | h
    · omega
    · omega
    · have := sizeOf_lt_of_mem_toList h
      omega
  | forLoop initializer? condition? increment? body =>
    simp only [children, expressions, statements, List.mem_append, List.mem_singleton] at h
    simp only [forLoop.sizeOf_spec]
    rcases h with (h | h) | (h | rfl)
    · have := sizeOf_lt_of_mem_toList h
      omega
    · have := sizeOf_lt_of_mem_toList h
      omega
    · have := sizeOf_lt_of_mem_toList h
      omega
    · omega
  | literal | var | foreign => simp at h
  | grouping | unary | binary | logical | ternary | assign | expression | print | whileLoop =>
    simp only [children, expressions, statements, List.append_nil, List.cons_append,
      List.nil_append, List.mem_cons, List.not_mem_nil, or_false] at h
    grind

/-- Induction over nodes, from the nodes directly below one to the node itself. -/
theorem childInduction {P : Node → Prop}
    (step : ∀ node, (∀ child ∈ node.children, P child) → P node) (node : Node) : P node :=
  step node fun child _h => childInduction step child
termination_by sizeOf node
decreasing_by exact sizeOf_lt_of_mem_children _h

/-- Induction over expressions: a node of any other kind is a case of its own, and so is every
kind of expression, with an assumption for each operand. -/
@[elab_as_elim]
theorem expressionInduction {P : Node → Prop}
    (literal : ∀ datum, P (.literal datum))
    (grouping : ∀ inner, P inner → P (.grouping inner))
    (unary : ∀ operator right, P right → P (.unary operator right))
    (binary : ∀ left operator right, P left → P right → P (.binary left operator right))
    (logical : ∀ left operator right, P left → P right → P (.logical left operator right))
    (ternary : ∀ condition first second, P condition → P first → P second →
      P (.ternary condition first second))
    (var : ∀ name, P (.var name))
    (assign : ∀ name source, P source → P (.assign name source))
    (other : ∀ node, node.isExpression = false → P node)
    (node : Node) : P node := by
  induction node using childInduction with
  | step node ih =>
    have ih : ∀ child ∈ node.expressions, P child := fun child h =>
      ih child (List.mem_append_left _ h)
    cases node with
    | literal datum => exact literal datum
    | grouping inner => exact grouping inner (ih _ (by simp))
    | unary operator right => exact unary operator right (ih _ (by simp))
    | binary left operator right =>
      exact binary left operator right (ih _ (by simp))
        (ih _ (by simp))
    | logical left operator right =>
      exact logical left operator right (ih _ (by simp))
        (ih _ (by simp))
    | ternary condition first second =>
      exact ternary condition first second (ih _ (by simp))
        (ih _ (by simp)) (ih _ (by simp))
    | var name => exact var name
    | assign name source => exact assign name source (ih _ (by simp))
    | expression | print | varDecl | block | ifElse | whileLoop | forLoop | foreign =>
      exact other _ rfl

/-- Induction over statements: a node of any other kind is a case of its own, and so is every
kind of statement, with an assumption for each statement in it. -/
@[elab_as_elim]
theorem statementInduction {P : Node → Prop}
    (expression : ∀ inner, P (.expression inner))
    (print : ∀ inner, P (.print inner))
    (varDecl : ∀ name initializer?, P (.varDecl name initializer?))
    (block : ∀ statements, (∀ statement ∈ statements, P statement) → P (.block statements))
    (ifElse : ∀ condition thenBranch elseBranch?, P thenBranch →
      (∀ elseBranch ∈ elseBranch?, P elseBranch) → P (.ifElse condition thenBranch elseBranch?))
    (whileLoop : ∀ condition body, P body → P (.whileLoop condition body))
    (forLoop : ∀ initializer? condition? increment? body,
      (∀ initializer ∈ initializer?, P initializer) → P body →
        P (.forLoop initializer? condition? increment? body))
    (other : ∀ node, node.isStatement = false → P node)
    (node : Node) : P node := by
  induction node using childInduction with
  | step node ih =>
    have ih : ∀ child ∈ node.statements, P child := fun child h =>
      ih child (List.mem_append_right _ h)
    cases node with
    | expression inner => exact expression inner
    | print inner => exact print inner
    | varDecl name initializer? => exact varDecl name initializer?
    | block statements => exact block statements ih
    | ifElse condition thenBranch elseBranch? =>
      exact ifElse condition thenBranch elseBranch? (ih _ (by simp))
        fun elseBranch h => ih _ (by simp [Option.mem_def.1 h])
    | whileLoop condition body => exact whileLoop condition body (ih _ (by simp))
    | forLoop initializer? condition? increment? body =>
      exact forLoop initializer? condition? increment? body
        (fun initializer h => ih _ (by simp [Option.mem_def.1 h]))
        (ih _ (by simp))
    | literal | grouping | unary | binary | logical | ternary | var | assign | foreign =>
      exact other _ rfl

/-! ## All nodes of a program -/

/-- A node and all nodes below it. -/
def nodes (node : Node) : List Node :=
  node :: node.children.attach.flatMap fun child => child.1.nodes
termination_by sizeOf node
decreasing_by exact sizeOf_lt_of_mem_children child.2

theorem nodes_eq (node : Node) : node.nodes = node :: node.children.flatMap nodes := by
  rw [nodes, List.flatMap_subtype (g := nodes) (fun _ _ => rfl), List.unattach_attach]

/-- A node below a node is among its nodes, with all nodes below. -/
theorem nodes_subset {child node : Node} (h : child ∈ node.children) :
    child.nodes ⊆ node.nodes := by
  intro other hother
  rw [nodes_eq node]
  exact List.mem_cons_of_mem _ (List.mem_flatMap.2 ⟨child, h, hother⟩)

/-! ## Names -/

/-- The name that a node itself mentions. -/
def ownName? : Node → Option String
  | var name => some name.text
  | assign name _ => some name.text
  | varDecl name _ => some name.text
  | _ => none

/-- The name that a node itself assigns. -/
def target? : Node → Option String
  | assign name _ => some name.text
  | _ => none

/-- The names that a node mentions, itself or below: those looked up, assigned or declared. -/
def names (node : Node) : List String := node.nodes.filterMap ownName?

/-- The names that a node assigns, itself or below. -/
def assigned (node : Node) : List String := node.nodes.filterMap target?

/-- The names that a statement can define in the scope around it: those of the declarations in it
that no block and no `for` loop encloses. -/
def declared : Node → List String
  | varDecl name _ => [name.text]
  | ifElse _ thenBranch (some elseBranch) => thenBranch.declared ++ elseBranch.declared
  | ifElse _ thenBranch none => thenBranch.declared
  | whileLoop _ body => body.declared
  | _ => []

/-- Whether a statement runs in a scope of its own, as blocks and `for` loops do. -/
def encloses : Node → Bool
  | block _ => true
  | forLoop _ _ _ _ => true
  | _ => false

theorem declared_of_encloses {node : Node} (h : node.encloses = true) : node.declared = [] := by
  cases node with
  | block | forLoop => rfl
  | literal | grouping | unary | binary | logical | ternary | var | assign | expression | print
  | varDecl | ifElse | whileLoop | foreign => cases h

/-- Names that hold all names of a node hold those of the nodes below. -/
theorem names_subset {child node : Node} {N : List String} (hN : node.names ⊆ N)
    (h : child ∈ node.children) : child.names ⊆ N :=
  List.Subset.trans (List.filterMap_subset _ (nodes_subset h)) hN

/-- Names that hold all assigned names of a node hold those of the nodes below. -/
theorem assigned_subset {child node : Node} {A : List String} (hA : node.assigned ⊆ A)
    (h : child ∈ node.children) : child.assigned ⊆ A :=
  List.Subset.trans (List.filterMap_subset _ (nodes_subset h)) hA

theorem ownName_mem_names {node : Node} {name : String} (h : node.ownName? = some name) :
    name ∈ node.names :=
  List.mem_filterMap.2 ⟨node, by rw [nodes_eq]; exact List.mem_cons_self, h⟩

theorem target_mem_assigned {node : Node} {name : String} (h : node.target? = some name) :
    name ∈ node.assigned :=
  List.mem_filterMap.2 ⟨node, by rw [nodes_eq]; exact List.mem_cons_self, h⟩

/-- What is assigned is mentioned. -/
theorem assigned_subset_names (node : Node) : node.assigned ⊆ node.names := by
  intro name hname
  obtain ⟨other, hother, htarget⟩ := List.mem_filterMap.1 hname
  refine List.mem_filterMap.2 ⟨other, hother, ?_⟩
  cases other with
  | assign => exact htarget
  | literal | grouping | unary | binary | logical | ternary | var | expression | print | varDecl
  | block | ifElse | whileLoop | forLoop | foreign => cases htarget

/-- What is declared is mentioned. -/
theorem declared_subset_names (node : Node) : node.declared ⊆ node.names := by
  induction node using statementInduction with
  | varDecl name initializer? =>
    intro other hother
    rw [declared, List.mem_singleton] at hother
    rw [hother]
    exact ownName_mem_names rfl
  | ifElse condition thenBranch elseBranch? ihThen ihElse =>
    have hthen : thenBranch.declared ⊆ (ifElse condition thenBranch elseBranch?).names :=
      List.Subset.trans ihThen (names_subset (List.Subset.refl _) (by simp))
    cases elseBranch? with
    | none => exact hthen
    | some elseBranch =>
      refine List.append_subset.2 ⟨hthen, ?_⟩
      exact List.Subset.trans (ihElse elseBranch rfl)
        (names_subset (List.Subset.refl _) (by simp))
  | whileLoop condition body ih =>
    exact List.Subset.trans ih (names_subset (List.Subset.refl _) (by simp))
  | expression | print | block | forLoop => exact List.nil_subset _
  | other node h =>
    cases node with
    | literal | grouping | unary | binary | logical | ternary | var | assign | foreign =>
      exact List.nil_subset _
    | expression | print | varDecl | block | ifElse | whileLoop | forLoop => cases h

/-- What a node declares is mentioned around it. -/
theorem declared_subset {child node : Node} (h : child ∈ node.children) :
    child.declared ⊆ node.names :=
  List.Subset.trans child.declared_subset_names (names_subset (List.Subset.refl _) h)

end Node
end Lox
