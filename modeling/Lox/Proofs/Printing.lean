import Lox.Proofs.Contexts
import Lox.Proofs.Points

/-!
# Printing only observes

To mute a print statement is to have its expression evaluated and not printed.  A program does the
same whichever of its print statements are muted: what it prints is all that is missing, and it
is missing piece by piece.  So the pieces of a run can be signed, each with the print statement
that it comes from, in such a way that every choice of statements leaves out the pieces with their
signatures and no other.  This settles the signatures: with all print statements but one muted,
only the pieces of that one are left.

A print statement in the place of an expression prints nothing and is a fault where it is reached.
The fault names the class of the node, so it tells whether the node was muted.  It is signed as
well, with the statement that a node of an unknown class can take the place of and end the run in
its stead.
-/

namespace Lox

/-! ## Paths -/

/-- The way from a node down to another one, the last step first.  Each step goes to one of the
nodes in the place of an expression or of a statement. -/
abbrev Path := List (Slot × Nat)

/-- The node at the end of a path. -/
def Node.below? (root : Node) : Path → Option Node
  | [] => some root
  | (slot, index) :: path => (root.below? path).bind fun node => (node.childrenAt slot)[index]?

theorem Node.below?_cons {root node child : Node} {path : Path} {slot : Slot} {index : Nat}
    (hnode : root.below? path = some node) (hchild : (node.childrenAt slot)[index]? = some child) :
    root.below? ((slot, index) :: path) = some child := by
  rw [below?, hnode, Option.bind_some, hchild]

/-! ## Edits -/

/-- What becomes of a print statement. -/
inductive Edit
  | keep
  | mute
  /-- A node of an unknown class takes its place. -/
  | mark (className : String)
  deriving DecidableEq

/-- What becomes of the print statement at each path. -/
abbrev Edits := Path → Edit

namespace Edit

/-- The node in the place of a print statement. -/
def apply (inner : Node) : Edit → Node
  | keep => .print inner
  | mute => .expression inner
  | mark className => .foreign className

/-- The name of the class of that node. -/
def className : Edit → String
  | keep => "PrintStmt"
  | mute => "ExpressionStmt"
  | mark className => className

/-- Whether the statement goes on without printing. -/
def mutes : Edit → Bool
  | mute => true
  | _ => false

@[simp] theorem className_apply (inner : Node) (edit : Edit) :
    (edit.apply inner).className = edit.className := by
  cases edit <;> rfl

@[simp] theorem isExpression_apply (inner : Node) (edit : Edit) :
    (edit.apply inner).isExpression = false := by
  cases edit <;> rfl

/-- A print statement that is kept or muted evaluates its expression. -/
theorem exec_apply {edit : Edit} (h : ∀ className, edit ≠ .mark className) (fuel : Nat)
    (inner : Node) :
    (edit.apply inner).exec fuel = (do
      let v ← ExecM.evaluate inner
      if edit.mutes then pure () else ExecM.print (v.text ++ "\n")) := by
  cases edit with
  | keep => rfl
  | mute => rfl
  | mark className => exact absurd rfl (h className)

end Edit

namespace Edits

/-- The print statements at the chosen paths are muted. -/
def muting (chosen : Path → Bool) : Edits := fun path => if chosen path then .mute else .keep

/-- A node of an unknown class takes the place of the print statement at a path. -/
def marking (className : String) (path : Path) : Edits :=
  fun other => if other = path then .mark className else .keep

/-- Whether the print statement at a path is muted. -/
def mutes (edits : Edits) (path : Path) : Bool := (edits path).mutes

@[simp] theorem mutes_muting (chosen : Path → Bool) : (muting chosen).mutes = chosen := by
  funext path
  rw [mutes, muting]
  cases chosen path <;> rfl

/-- What stands in the place of a statement is kept or muted. -/
def Spare (edits : Edits) : Prop :=
  ∀ index path className, edits ((.statement, index) :: path) ≠ .mark className

theorem spare_muting (chosen : Path → Bool) : (muting chosen).Spare := by
  intro index path className
  rw [muting]
  split <;> nofun

theorem spare_marking (className : String) (index : Nat) (path : Path) :
    (marking className ((.expression, index) :: path)).Spare :=
  fun other rest name => by simp [marking]

end Edits

namespace Node

mutual

/-- The node with its print statements edited.  The path is that of the node itself. -/
def edit (edits : Edits) (path : Path) : Node → Node
  | literal datum => literal datum
  | grouping inner => grouping (inner.edit edits ((.expression, 0) :: path))
  | unary operator right => unary operator (right.edit edits ((.expression, 0) :: path))
  | binary left operator right =>
    binary (left.edit edits ((.expression, 0) :: path)) operator
      (right.edit edits ((.expression, 1) :: path))
  | logical left operator right =>
    logical (left.edit edits ((.expression, 0) :: path)) operator
      (right.edit edits ((.expression, 1) :: path))
  | ternary condition first second =>
    ternary (condition.edit edits ((.expression, 0) :: path))
      (first.edit edits ((.expression, 1) :: path))
      (second.edit edits ((.expression, 2) :: path))
  | var name => var name
  | assign name source => assign name (source.edit edits ((.expression, 0) :: path))
  | expression inner => expression (inner.edit edits ((.expression, 0) :: path))
  | print inner => (edits path).apply (inner.edit edits ((.expression, 0) :: path))
  | varDecl name initializer? =>
    varDecl name (editOption edits ((.expression, 0) :: path) initializer?)
  | block statements => block (editAll edits path 0 statements)
  | ifElse condition thenBranch elseBranch? =>
    ifElse (condition.edit edits ((.expression, 0) :: path))
      (thenBranch.edit edits ((.statement, 0) :: path))
      (editOption edits ((.statement, 1) :: path) elseBranch?)
  | whileLoop condition body =>
    whileLoop (condition.edit edits ((.expression, 0) :: path))
      (body.edit edits ((.statement, 0) :: path))
  | forLoop initializer? condition? increment? body =>
    forLoop (editOption edits ((.statement, 0) :: path) initializer?)
      (editOption edits ((.expression, 0) :: path) condition?)
      (editOption edits ((.expression, condition?.toList.length) :: path) increment?)
      (body.edit edits ((.statement, initializer?.toList.length) :: path))
  | foreign className => foreign className

/-- As `edit`, for a node that may be absent. -/
def editOption (edits : Edits) (path : Path) : Option Node → Option Node
  | some node => some (node.edit edits path)
  | none => none

/-- As `edit`, for statements in a row.  The path is that of the node around them, and the number
that of the first one. -/
def editAll (edits : Edits) (path : Path) (index : Nat) : List Node → List Node
  | [] => []
  | statement :: rest =>
    statement.edit edits ((.statement, index) :: path) :: editAll edits path (index + 1) rest

end

/-- The program with the print statements at the chosen paths muted. -/
def muteAll (chosen : Path → Bool) (program : List Node) : List Node :=
  editAll (.muting chosen) [] 0 program

/-- The program with a node of an unknown class in the place of the print statement at a path. -/
def markAll (className : String) (path : Path) (program : List Node) : List Node :=
  editAll (.marking className path) [] 0 program

/-- Nothing changes if everything is kept. -/
theorem edit_keep (path : Path) (node : Node) : node.edit (fun _ => .keep) path = node := by
  induction node using childInduction generalizing path with
  | step node ih =>
    have hoption : ∀ (node? : Option Node) (path : Path), (∀ child ∈ node?, child ∈ node.children) →
        editOption (fun _ => .keep) path node? = node? := by
      intro node? path h
      cases node? with
      | none => rfl
      | some child => rw [editOption, ih child (h child rfl)]
    have hall : ∀ (nodes : List Node) (index : Nat), (∀ child ∈ nodes, child ∈ node.children) →
        editAll (fun _ => .keep) path index nodes = nodes := by
      intro nodes index h
      induction nodes generalizing index with
      | nil => rfl
      | cons child rest ihrest =>
        rw [editAll, ih child (h child List.mem_cons_self),
          ihrest (index + 1) fun other hother => h other (List.mem_cons_of_mem _ hother)]
    cases node with
    | literal | var | foreign => rfl
    | block statements => rw [edit, hall statements 0 (by simp)]
    | varDecl name initializer? => rw [edit, hoption initializer? _ (by simp)]
    | ifElse condition thenBranch elseBranch? =>
      rw [edit, ih condition (by simp), ih thenBranch (by simp),
        hoption elseBranch? _ (by simp +contextual)]
    | forLoop initializer? condition? increment? body =>
      rw [edit, ih body (by simp), hoption initializer? _ (by simp +contextual),
        hoption condition? _ (by simp +contextual), hoption increment? _ (by simp +contextual)]
    | grouping | unary | binary | logical | ternary | assign | expression | print | whileLoop =>
      simp only [edit]
      simp [ih, Edit.apply]

theorem editAll_keep (program : List Node) : editAll (fun _ => .keep) [] 0 program = program := by
  have hblock := edit_keep [] (.block program)
  rw [edit] at hblock
  exact block.inj hblock

/-- What is no expression does not become one. -/
theorem isExpression_edit {node : Node} (h : node.isExpression = false) (edits : Edits)
    (path : Path) : (node.edit edits path).isExpression = false := by
  cases node with
  | print inner => exact Edit.isExpression_apply _ _
  | expression | varDecl | block | ifElse | whileLoop | forLoop | foreign => rfl
  | literal | grouping | unary | binary | logical | ternary | var | assign => cases h

end Node

/-! ## Expressions -/

/-- Why a computation stops early, in terms that all edits have in common. -/
inductive Reason
  /-- A fault that is the same whatever the edits are. -/
  | common (fault : Fault)
  | misplaced (index : Nat) (path : Path)
  | outOfFuel

/-- Why the edited computation stops. -/
def Reason.under (edits : Edits) : Reason → Stop
  | common fault => .fault fault
  | misplaced index path =>
    .fault (.unplaced (.unsupportedExpression (edits ((.expression, index) :: path)).className))
  | outOfFuel => .outOfFuel

section
variable {root : Node} {α β : Type}

namespace EvalM

/-- A computation gives one answer in its forms for all edits, or stops for one reason. -/
def Uniform (p : Edits → EvalM α) : Prop :=
  ∀ s, (∃ a s', ∀ edits, p edits s = .ok a s') ∨
    ∃ (reason : Reason) (s' : Store), ∀ edits, ∃ fault,
      reason.under edits = .fault fault ∧ p edits s = .error fault s'

namespace Uniform
variable {p : Edits → EvalM α}

theorem const (p : EvalM α) : Uniform fun _ => p := by
  intro s
  cases h : p s with
  | ok a s' => exact .inl ⟨a, s', fun _ => h⟩
  | error fault s' => exact .inr ⟨.common fault, s', fun _ => ⟨fault, rfl, h⟩⟩

theorem bind {f : Edits → α → EvalM β} (hp : Uniform p)
    (hf : ∀ a, Uniform fun edits => f edits a) : Uniform fun edits => p edits >>= f edits := by
  intro s
  rcases hp s with ⟨a, s', h⟩ | ⟨reason, s', h⟩
  · rcases hf a s' with ⟨b, s'', h'⟩ | ⟨reason, s'', h'⟩
    · exact .inl ⟨b, s'', fun edits => (bind_of_ok (h edits)).trans (h' edits)⟩
    · refine .inr ⟨reason, s'', fun edits => ?_⟩
      obtain ⟨fault, hfault, heq⟩ := h' edits
      exact ⟨fault, hfault, (bind_of_ok (h edits)).trans heq⟩
  · refine .inr ⟨reason, s', fun edits => ?_⟩
    obtain ⟨fault, hfault, heq⟩ := h edits
    exact ⟨fault, hfault, bind_of_error heq⟩

end Uniform
end EvalM

/-- An expression gives one value however the print statements in it are edited, or stops for one
reason. -/
theorem Node.uniform_eval (frame : Nat) (node : Node) (index : Nat) (path : Path) :
    EvalM.Uniform fun edits =>
      (node.edit edits ((.expression, index) :: path)).eval frame := by
  induction node using expressionInduction generalizing index path with
  | literal | var => exact .const _
  | grouping inner ih => exact ih _ _
  | unary operator right ih => exact (ih _ _).bind fun v => .const _
  | binary left operator right ihl ihr =>
    exact (ihl _ _).bind fun a => (ihr _ _).bind fun b => .const _
  | logical left operator right ihl ihr =>
    simp only [edit, eval_logical]
    refine (ihl _ _).bind fun v => ?_
    cases LogicalOp.ofLexeme? operator with
    | none => exact .const _
    | some op =>
      dsimp only
      cases op.settledBy v with
      | true => exact .const _
      | false => exact ihr _ _
  | ternary condition first second ihc ihf ihs =>
    refine (ihc _ _).bind fun v => ?_
    cases v.isTruthy with
    | true => exact ihf _ _
    | false => exact ihs _ _
  | assign name source ih => exact (ih _ _).bind fun v => .const _
  | other node h =>
    simp only [eval_of_not_isExpression (isExpression_edit h _ _)]
    cases node with
    | print inner =>
      simp only [edit, Edit.className_apply]
      exact fun s => .inr ⟨.misplaced index path, s, fun edits => ⟨_, rfl, rfl⟩⟩
    | expression | varDecl | block | ifElse | whileLoop | forLoop | foreign =>
      simp only [edit, className]
      exact .const _
    | literal | grouping | unary | binary | logical | ternary | var | assign => cases h

/-! ## Pieces -/

/-- Pieces of text, each signed with the path to the print statement that it comes from. -/
abbrev Pieces := List (Path × String)

namespace Pieces
variable {chosen : Path → Bool}

/-- What is printed of the pieces when the print statements at the chosen paths are muted. -/
def kept (chosen : Path → Bool) (pieces : Pieces) : Array String :=
  ((pieces.filter fun piece => !chosen piece.1).map Prod.snd).toArray

/-- Every piece is signed with the path to a print statement. -/
def SignedIn (root : Node) (pieces : Pieces) : Prop :=
  ∀ piece ∈ pieces, ∃ inner, root.below? piece.1 = some (.print inner)

@[simp] theorem kept_nil : kept chosen [] = #[] := rfl

@[simp] theorem kept_append (pieces pieces' : Pieces) :
    kept chosen (pieces ++ pieces') = kept chosen pieces ++ kept chosen pieces' := by
  simp [kept]

theorem kept_none (pieces : Pieces) :
    kept (fun _ => false) pieces = (pieces.map Prod.snd).toArray := by
  have hall : (pieces.filter fun _ => !false) = pieces := List.filter_eq_self.2 fun _ _ => rfl
  rw [kept, hall]

theorem signedIn_nil : SignedIn root [] := nofun

theorem SignedIn.append {pieces pieces' : Pieces} (h : SignedIn root pieces)
    (h' : SignedIn root pieces') : SignedIn root (pieces ++ pieces') := by
  intro piece hpiece
  rcases List.mem_append.1 hpiece with hpiece | hpiece
  · exact h piece hpiece
  · exact h' piece hpiece

end Pieces

/-! ## Statements -/

/-- The machine with other output. -/
def Machine.withOut (out : Array String) (m : Machine) : Machine :=
  { m with console := ⟨out, m.console.err⟩ }

namespace ExecM

/-- A computation, in its forms for all edits, prints the pieces on a machine and adds them to
whatever was printed before, except for those whose statements are muted.  In all else the forms
agree, up to the reason for which they stop. -/
inductive PrintsPieces (p : Edits → ExecM α) (m : Machine) (pieces : Pieces) : Prop
  | ok (a : α) (m' : Machine) (h : ∀ edits out, edits.Spare →
      p edits (m.withOut out) = .ok a (m'.withOut (out ++ pieces.kept edits.mutes)))
  | error (reason : Reason) (m' : Machine) (h : ∀ edits out, edits.Spare →
      p edits (m.withOut out) =
        .error (reason.under edits) (m'.withOut (out ++ pieces.kept edits.mutes)))

/-- A computation prints pieces that can be signed. -/
def Prints (root : Node) (p : Edits → ExecM α) : Prop :=
  ∀ m, ∃ pieces, Pieces.SignedIn root pieces ∧ PrintsPieces p m pieces

namespace Prints

/-- A computation that prints nothing and sees nothing of what was printed. -/
theorem const {p : ExecM α}
    (h : ∀ m : Machine,
      (∃ (a : α) (m' : Machine), ∀ out, p (m.withOut out) = .ok a (m'.withOut out)) ∨
      ∃ (reason : Reason) (m' : Machine), ∀ edits out,
        p (m.withOut out) = .error (reason.under edits) (m'.withOut out)) :
    Prints root fun _ => p := by
  intro m
  refine ⟨[], Pieces.signedIn_nil, ?_⟩
  rcases h m with ⟨a, m', h⟩ | ⟨reason, m', h⟩
  · exact .ok a m' fun edits out _ => by rw [h, Pieces.kept_nil, Array.append_empty]
  · exact .error reason m' fun edits out _ => by rw [h edits, Pieces.kept_nil, Array.append_empty]

theorem pure (a : α) : Prints root fun _ => Pure.pure a :=
  const fun m => .inl ⟨a, m, fun _ => rfl⟩

theorem outOfFuel : Prints root fun _ => (throw .outOfFuel : ExecM α) :=
  const fun m => .inr ⟨.outOfFuel, m, fun _ _ => rfl⟩

theorem fault (fault : Fault) : Prints root fun _ => (throw (.fault fault) : ExecM α) :=
  const fun m => .inr ⟨.common fault, m, fun _ _ => rfl⟩

/-- It is enough to look at the edits that spare statements. -/
theorem congr {p q : Edits → ExecM α} (hp : Prints root p)
    (h : ∀ edits : Edits, edits.Spare → q edits = p edits) : Prints root q := by
  intro m
  obtain ⟨pieces, hsigned, hpieces⟩ := hp m
  refine ⟨pieces, hsigned, ?_⟩
  cases hpieces with
  | ok a m' hp => exact .ok a m' fun edits out hspare => by rw [h edits hspare, hp edits out hspare]
  | error reason m' hp =>
    exact .error reason m' fun edits out hspare => by rw [h edits hspare, hp edits out hspare]

/-- The pieces of two computations in a row are those of the first and then those of the second. -/
theorem bind {p : Edits → ExecM α} {f : Edits → α → ExecM β}
    (hp : Prints root p) (hf : ∀ a, Prints root fun edits => f edits a) :
    Prints root fun edits => p edits >>= f edits := by
  intro m
  obtain ⟨pieces, hsigned, hpieces⟩ := hp m
  cases hpieces with
  | ok a m₁ h =>
    obtain ⟨pieces', hsigned', hpieces'⟩ := hf a m₁
    refine ⟨pieces ++ pieces', hsigned.append hsigned', ?_⟩
    cases hpieces' with
    | ok b m₂ h' =>
      refine .ok b m₂ fun edits out hspare => ?_
      rw [bind_of_ok (h edits out hspare), h' edits _ hspare, Pieces.kept_append,
        Array.append_assoc]
    | error reason m₂ h' =>
      refine .error reason m₂ fun edits out hspare => ?_
      rw [bind_of_ok (h edits out hspare), h' edits _ hspare, Pieces.kept_append,
        Array.append_assoc]
  | error reason m₁ h =>
    exact ⟨pieces, hsigned, .error reason m₁ fun edits out hspare =>
      bind_of_error (h edits out hspare)⟩

theorem repeatWhile {test : Edits → ExecM Bool} {body : Edits → ExecM Unit}
    (htest : Prints root test) (hbody : Prints root body) (rounds : Nat) :
    Prints root fun edits => repeatWhile (test edits) (body edits) rounds := by
  induction rounds with
  | zero => exact outOfFuel
  | succ rounds ih =>
    refine htest.bind fun holds => ?_
    cases holds with
    | true => exact hbody.bind fun _ => ih
    | false => exact pure ()

theorem withNewScope {body : Edits → ExecM Unit} (hbody : Prints root body) :
    Prints root fun edits => withNewScope (body edits) := by
  intro m
  obtain ⟨pieces, hsigned, hpieces⟩ := hbody m.nested
  refine ⟨pieces, hsigned, ?_⟩
  cases hpieces with
  | ok a m₁ h =>
    exact .ok a (m₁.leave m.active) fun edits out hspare =>
      withNewScope_of_ok (m := m.withOut out) (h edits out hspare)
  | error reason m₁ h =>
    exact .error reason (m₁.leave m.active) fun edits out hspare =>
      withNewScope_of_error (m := m.withOut out) (h edits out hspare)

end Prints

theorem prints_define (name : String) (v : Value) : Prints root fun _ => define name v :=
  .const fun m => .inl ⟨(), { m with store := m.store.define m.active name v }, fun _ => rfl⟩

/-- What a print statement prints is signed with its path, and missing if it is muted. -/
theorem prints_print {path : Path} {inner : Node} (hpath : root.below? path = some (.print inner))
    (piece : String) :
    Prints root fun edits => if edits.mutes path then Pure.pure () else print piece := by
  refine fun m => ⟨[(path, piece)], ?_, .ok () m fun edits out _ => ?_⟩
  · rintro _ (_ | ⟨_, ⟨⟩⟩)
    exact ⟨inner, hpath⟩
  · cases hmutes : edits.mutes path with
    | true =>
      simp [Pieces.kept, hmutes]
      rfl
    | false =>
      simp [Pieces.kept, hmutes]
      rfl

theorem prints_evaluate (node : Node) (index : Nat) (path : Path) :
    Prints root fun edits => evaluate (node.edit edits ((.expression, index) :: path)) := by
  refine fun m => ⟨[], Pieces.signedIn_nil, ?_⟩
  rcases Node.uniform_eval m.active node index path m.store with ⟨v, store, h⟩ | ⟨reason, store, h⟩
  · refine .ok v { m with store } fun edits out _ => ?_
    rw [Pieces.kept_nil, Array.append_empty]
    exact evaluate_of_ok (m := m.withOut out) (h edits)
  · refine .error reason { m with store } fun edits out _ => ?_
    obtain ⟨fault, hfault, heval⟩ := h edits
    rw [hfault, Pieces.kept_nil, Array.append_empty]
    exact evaluate_of_error (m := m.withOut out) heval

theorem prints_test (condition? : Option Node) (index : Nat) (path : Path) :
    Prints root fun edits =>
      test (Node.editOption edits ((.expression, index) :: path) condition?) := by
  cases condition? with
  | none => exact .pure true
  | some condition => exact (prints_evaluate condition index path).bind fun v => .pure _

theorem prints_discard (node? : Option Node) (index : Nat) (path : Path) :
    Prints root fun edits =>
      discard (Node.editOption edits ((.expression, index) :: path) node?) := by
  cases node? with
  | none => exact .pure ()
  | some node => exact (prints_evaluate node index path).bind fun _ => .pure ()

end ExecM

namespace Node

theorem prints_execOption {fuel : Nat} {node? : Option Node} {path : Path}
    (h : ∀ node ∈ node?, ExecM.Prints root fun edits => (node.edit edits path).exec fuel) :
    ExecM.Prints root fun edits => execOption fuel (editOption edits path node?) := by
  cases node? with
  | none => exact .pure ()
  | some node => exact h node rfl

theorem prints_execAll_of {fuel : Nat} {statements : List Node} {path : Path} {index : Nat}
    (h : ∀ i (statement : Node), statements[i]? = some statement → ExecM.Prints root fun edits =>
      (statement.edit edits ((.statement, index + i) :: path)).exec fuel) :
    ExecM.Prints root fun edits => execAll fuel (editAll edits path index statements) := by
  induction statements generalizing index with
  | nil => exact .pure ()
  | cons statement rest ih =>
    refine (h 0 statement rfl).bind fun _ => ih fun i other hother => ?_
    rw [Nat.add_right_comm, Nat.add_assoc]
    exact h (i + 1) other hother

/-- The pieces that a statement prints can be signed. -/
theorem prints_exec (fuel : Nat) {node : Node} {index : Nat} {path : Path}
    (hpath : root.below? ((.statement, index) :: path) = some node) :
    ExecM.Prints root fun edits =>
      (node.edit edits ((.statement, index) :: path)).exec fuel := by
  induction node using statementInduction generalizing index path with
  | expression inner => exact (ExecM.prints_evaluate inner 0 _).bind fun _ => .pure ()
  | print inner =>
    have hprints : ExecM.Prints root fun edits => (do
        let v ← ExecM.evaluate (inner.edit edits ((.expression, 0) :: (.statement, index) :: path))
        if edits.mutes ((.statement, index) :: path) then pure ()
        else ExecM.print (v.text ++ "\n")) :=
      (ExecM.prints_evaluate inner 0 _).bind fun v => ExecM.prints_print hpath _
    refine hprints.congr fun edits hspare => ?_
    rw [edit, Edit.exec_apply (hspare index path)]
    rfl
  | varDecl name initializer? =>
    cases initializer? with
    | none => exact ExecM.prints_define name.text .nil
    | some initializer =>
      exact (ExecM.prints_evaluate initializer 0 _).bind (ExecM.prints_define name.text)
  | block statements ih =>
    refine .withNewScope (prints_execAll_of fun i statement hi => ?_)
    rw [Nat.zero_add]
    exact ih statement (List.mem_of_getElem? hi) (below?_cons hpath hi)
  | ifElse condition thenBranch elseBranch? ihThen ihElse =>
    refine (ExecM.prints_evaluate condition 0 _).bind fun v => ?_
    cases v.isTruthy with
    | true => exact ihThen (below?_cons hpath rfl)
    | false =>
      refine prints_execOption fun elseBranch hmem => ?_
      obtain rfl := Option.mem_def.1 hmem
      exact ihElse elseBranch rfl (below?_cons hpath rfl)
  | whileLoop condition body ih =>
    exact (ExecM.prints_test (some condition) 0 _).repeatWhile (ih (below?_cons hpath rfl)) fuel
  | forLoop initializer? condition? increment? body ihInit ihBody =>
    have hinit : ExecM.Prints root fun edits => execOption fuel
        (editOption edits ((.statement, 0) :: (.statement, index) :: path) initializer?) :=
      prints_execOption fun initializer hmem => ihInit initializer hmem
        (below?_cons hpath (by simp [childrenAt, Option.mem_def.1 hmem]))
    have hbody : ExecM.Prints root fun edits => (body.edit edits
        ((.statement, initializer?.toList.length) :: (.statement, index) :: path)).exec fuel :=
      ihBody (below?_cons hpath (by simp [childrenAt]))
    refine .withNewScope (hinit.bind fun _ => ?_)
    exact (ExecM.prints_test condition? 0 _).repeatWhile
      (hbody.bind fun _ => ExecM.prints_discard increment? _ _) fuel
  | other node h =>
    cases node with
    | expression | print | varDecl | block | ifElse | whileLoop | forLoop => cases h
    | literal | grouping | unary | binary | logical | ternary | var | assign | foreign =>
      simp only [edit, exec, className]
      exact .fault _

end Node
end

/-! ## Programs -/

/-- What is wrong with a print statement in the place of an expression, muted or not. -/
def Fault.misplaced (muted : Bool) : Fault :=
  .unplaced (.unsupportedExpression (if muted then "ExpressionStmt" else "PrintStmt"))

/-- The print statement at the path ends the program, in the place of an expression: a node of
whatever unknown class that takes its place ends the program as well, and by a fault that names this
class. -/
def Node.EndsAt (program : List Node) (m : Machine) (path : Path) : Prop :=
  (∃ index rest, path = (.expression, index) :: rest) ∧
    ∀ className, ∃ m', CutShort (markAll className path program) m
      (.unplaced (.unsupportedExpression className)) m'

/-- The machine that a program leaves, and the one that it leaves when it is muted.  They differ in
what was printed.  If the program was ended by the print statement with the given signature, they
differ as well in what is said of it if it is muted. -/
def Machine.MutesTo (signature? : Option Path) (chosen : Path → Bool) (out : Array String)
    (m m' : Machine) : Prop :=
  match signature? with
  | none => m' = m.withOut out
  | some path => ∃ m₁ : Machine, m = m₁.fail (.misplaced false) ∧
    m' = (m₁.fail (.misplaced (chosen path))).withOut out

theorem Reason.under_muting_misplaced (chosen : Path → Bool) (index : Nat) (path : Path) :
    (misplaced index path).under (.muting chosen) =
      .fault (.misplaced (chosen ((.expression, index) :: path))) := by
  rw [under, Edits.muting, Fault.misplaced]
  cases chosen ((.expression, index) :: path) <;> rfl

theorem Reason.exists_under_eq_fault {reason : Reason} (h : reason ≠ .outOfFuel) (edits : Edits) :
    ∃ fault, reason.under edits = .fault fault := by
  cases reason with
  | common fault => exact ⟨fault, rfl⟩
  | misplaced index path => exact ⟨_, rfl⟩
  | outOfFuel => exact absurd rfl h

/-- The signature of the statement that a reason blames. -/
def Reason.signature? : Reason → Option Path
  | misplaced index path => some ((.expression, index) :: path)
  | _ => none

/-- Only the statement that is blamed can lend its name to the fault, whatever the name is. -/
theorem Reason.signature?_of_under_marking {reason : Reason} {path : Path}
    (h : ∀ className, reason.under (.marking className path) =
      .fault (.unplaced (.unsupportedExpression className))) : reason.signature? = some path := by
  have hx := h "x"
  have hy := h "y"
  cases reason with
  | common fault => exact absurd (hx.symm.trans hy) (by simp [Fault.unplaced])
  | misplaced index rest =>
    by_cases hsame : (.expression, index) :: rest = path
    · exact congrArg some hsame
    · simp only [under, Edits.marking, if_neg hsame] at hx hy
      exact absurd (hx.symm.trans hy) (by simp [Fault.unplaced])
  | outOfFuel => cases hx

namespace ExecM
variable {m m' : Machine} {program : List Node} {pieces : Pieces} {fuel : Nat}

/-- Statements in a row, edited in whatever way. -/
theorem exists_printsPieces (fuel : Nat) (program : List Node) (m : Machine) :
    ∃ pieces, Pieces.SignedIn (.block program) pieces ∧
      PrintsPieces (fun edits => Node.execAll fuel (Node.editAll edits [] 0 program)) m pieces := by
  refine Node.prints_execAll_of (fun i statement hi => ?_) m
  rw [Nat.zero_add]
  exact Node.prints_exec fuel (Node.below?_cons rfl hi)

/-- If a program stops for a reason and is ended by the print statement at a path, then the reason
names whatever takes the place of this statement. -/
theorem under_of_endsAt {reason : Reason} (hreason : reason ≠ .outOfFuel)
    (h : ∀ edits : Edits, edits.Spare → ∃ m',
      Node.execAll fuel (Node.editAll edits [] 0 program) m = .error (reason.under edits) m')
    {index : Nat} {rest : Path} (hends : Node.EndsAt program m ((.expression, index) :: rest))
    (className : String) : reason.under (.marking className ((.expression, index) :: rest)) =
      .fault (.unplaced (.unsupportedExpression className)) := by
  obtain ⟨m₁, hcut⟩ := hends.2 className
  obtain ⟨m₂, hexec⟩ := h _ (Edits.spare_marking className index rest)
  obtain ⟨fault, hstop⟩ := reason.exists_under_eq_fault hreason
    (.marking className ((.expression, index) :: rest))
  rw [hstop] at hexec ⊢
  have hmarked : Ends (Node.execAll · (Node.markAll className ((.expression, index) :: rest)
      program)) m (.error fault) m₂ := ⟨fuel, hexec⟩
  obtain ⟨heq, -⟩ := hmarked.unique (Node.fuelMonotone_execAll _)
    (Node.ends_execAll_error_iff.2 hcut)
  rw [Except.error.inj heq]

/-- A program that stops for a reason is ended by the statement that the reason blames, and by no
other. -/
theorem endsAt_iff (reason : Reason) (hreason : reason ≠ .outOfFuel)
    (h : ∀ edits : Edits, edits.Spare → ∃ m',
      Node.execAll fuel (Node.editAll edits [] 0 program) m = .error (reason.under edits) m')
    (path : Path) : Node.EndsAt program m path ↔ reason.signature? = some path := by
  constructor
  · intro hends
    obtain ⟨index, rest, rfl⟩ := hends.1
    exact Reason.signature?_of_under_marking (under_of_endsAt hreason h hends)
  · intro hsignature
    cases reason with
    | misplaced index rest =>
      cases hsignature
      refine ⟨⟨index, rest, rfl⟩, fun className => ?_⟩
      obtain ⟨m', hexec⟩ := h _ (Edits.spare_marking className index rest)
      refine ⟨m', Node.ends_execAll_error_iff.1 ⟨fuel, hexec.trans ?_⟩⟩
      simp [Reason.under, Edits.marking, Edit.className, endedIn]
    | common | outOfFuel => cases hsignature

/-- A program that comes to its end is ended by no statement. -/
theorem not_endsAt (h : ∀ edits : Edits, edits.Spare → ∃ m',
      Node.execAll fuel (Node.editAll edits [] 0 program) m = .ok () m') (path : Path) :
    ¬ Node.EndsAt program m path := by
  rintro ⟨⟨index, rest, rfl⟩, hends⟩
  obtain ⟨m₁, hcut⟩ := hends ""
  obtain ⟨m₂, hexec⟩ := h _ (Edits.spare_marking "" index rest)
  have hends : Ends (Node.execAll · (Node.markAll "" ((.expression, index) :: rest) program)) m
      (.ok ()) m₂ := ⟨fuel, hexec⟩
  obtain ⟨heq, -⟩ := hends.unique (Node.fuelMonotone_execAll _)
    (Node.ends_execAll_error_iff.2 hcut)
  cases heq

theorem muteAll_none (program : List Node) : Node.muteAll (fun _ => false) program = program :=
  Node.editAll_keep program

theorem editAll_muting (chosen : Path → Bool) (program : List Node) :
    Node.editAll (.muting chosen) [] 0 program = Node.muteAll chosen program := rfl

theorem interpret_of_outOfFuel (h : Node.execAll fuel program m = .error .outOfFuel m') :
    interpret fuel program m = .error .outOfFuel m' := by
  simp only [interpret, h]

/-- With a given amount of fuel, a program and its muted forms all end, with the same answer, or
all use up the fuel. -/
theorem interpret_muteAll (fuel : Nat) (program : List Node) (m : Machine) :
    (∃ pieces signature? completed m', Pieces.SignedIn (.block program) pieces ∧
      (∀ path, Node.EndsAt program m path ↔ signature? = some path) ∧
      interpret fuel program m = .ok completed m' ∧
      m'.console.out = m.console.out ++ (pieces.map Prod.snd).toArray ∧
      ∀ chosen, ∃ m'', interpret fuel (Node.muteAll chosen program) m = .ok completed m'' ∧
        m'.MutesTo signature? chosen (m.console.out ++ pieces.kept chosen) m'') ∨
    ∀ chosen, ∃ m'', interpret fuel (Node.muteAll chosen program) m = .error .outOfFuel m'' := by
  obtain ⟨pieces, hsigned, hpieces⟩ := exists_printsPieces fuel program m
  cases hpieces with
  | ok a m₁ h =>
    have hmuted := fun chosen => h _ m.console.out (Edits.spare_muting chosen)
    simp only [Edits.mutes_muting, editAll_muting] at hmuted
    have hplain := hmuted fun _ => false
    rw [Pieces.kept_none, muteAll_none] at hplain
    refine .inl ⟨pieces, none, true, _, hsigned, fun path => ?_, interpret_eq_true_iff.2 hplain,
      rfl, fun chosen => ⟨_, interpret_eq_true_iff.2 (hmuted chosen), rfl⟩⟩
    have hnone := not_endsAt (fun edits hspare => ⟨_, h edits m.console.out hspare⟩) path
    exact ⟨fun hends => absurd hends hnone, nofun⟩
  | error reason m₁ h =>
    have hmuted := fun chosen => h _ m.console.out (Edits.spare_muting chosen)
    simp only [Edits.mutes_muting, editAll_muting] at hmuted
    have hplain := hmuted fun _ => false
    rw [Pieces.kept_none, muteAll_none] at hplain
    have hspared : ∀ edits : Edits, edits.Spare → ∃ m', Node.execAll fuel
        (Node.editAll edits [] 0 program) m = .error (reason.under edits) m' :=
      fun edits hspare => ⟨_, h edits m.console.out hspare⟩
    cases reason with
    | common fault =>
      exact .inl ⟨pieces, none, false, _, hsigned, endsAt_iff (.common fault) nofun hspared,
        interpret_eq_false_iff.2 ⟨fault, _, hplain, rfl⟩, rfl,
        fun chosen => ⟨_, interpret_eq_false_iff.2 ⟨fault, _, hmuted chosen, rfl⟩, rfl⟩⟩
    | misplaced index path =>
      simp only [Reason.under_muting_misplaced] at hmuted hplain
      exact .inl ⟨pieces, some _, false, _, hsigned,
        endsAt_iff (.misplaced index path) nofun hspared,
        interpret_eq_false_iff.2 ⟨_, _, hplain, rfl⟩, rfl,
        fun chosen => ⟨_, interpret_eq_false_iff.2 ⟨_, _, hmuted chosen, rfl⟩, _, rfl, rfl⟩⟩
    | outOfFuel => exact .inr fun chosen => ⟨_, interpret_of_outOfFuel (hmuted chosen)⟩

end ExecM

/-- One print statement: its expression is evaluated once, and what it prints is the text of the
value and the end of a line; nothing is printed if there is no value. -/
theorem exec_print (fuel : Nat) (inner : Node) (m : Machine) :
    (Node.print inner).exec fuel m =
      match inner.eval m.active m.store with
      | .ok v store => .ok () ({ m with store }.print (v.text ++ "\n"))
      | .error fault store => .error (.fault fault) { m with store } := by
  cases heval : inner.eval m.active m.store with
  | ok v store =>
    rw [Node.exec, bind_of_ok (ExecM.evaluate_of_ok heval)]
    rfl
  | error fault store =>
    rw [Node.exec, bind_of_error (ExecM.evaluate_of_error heval)]

/-- A program and its forms with chosen print statements muted all end or none does.  If they end,
then with the same answer and on the same machine but for what was printed: the pieces of the
program can be signed with its print statements so that every choice leaves out those pieces that
it signed, and keeps the others in order.  If a print statement in the place of an expression ends
the program, it signs the report, and the report is another one if it is chosen, and only then. -/
theorem muting_removes_pieces (m : Machine) (program : List Node) :
    (∀ chosen, Terminates (ExecM.interpret · (Node.muteAll chosen program)) m ↔
      Terminates (ExecM.interpret · program) m) ∧
    (∀ completed m', Ends (ExecM.interpret · program) m (.ok completed) m' →
      ∃ pieces signature?, Pieces.SignedIn (.block program) pieces ∧
        (∀ path, Node.EndsAt program m path ↔ signature? = some path) ∧
        m'.console.out = m.console.out ++ (pieces.map Prod.snd).toArray ∧
        ∀ chosen, ∃ m'',
          Ends (ExecM.interpret · (Node.muteAll chosen program)) m (.ok completed) m'' ∧
          m'.MutesTo signature? chosen (m.console.out ++ pieces.kept chosen) m'') ∧
    ∀ fuel inner, (Node.print inner).exec fuel m =
      match inner.eval m.active m.store with
      | .ok v store => .ok () ({ m with store }.print (v.text ++ "\n"))
      | .error fault store => .error (.fault fault) { m with store } := by
  have houtOfFuel : ∀ {fuel : Nat} {outcome : Except Fault Bool} {m' : Machine}
      {chosen : Path → Bool}, ExecM.interpret fuel (Node.muteAll chosen program) m =
        endedIn outcome m' → ¬ ∀ chosen, ∃ m'',
          ExecM.interpret fuel (Node.muteAll chosen program) m = .error .outOfFuel m'' := by
    intro fuel outcome m' chosen hfuel hout
    obtain ⟨m'', hmuted⟩ := hout chosen
    exact endedIn_ne_outOfFuel _ _ _ (hfuel.symm.trans hmuted)
  refine ⟨fun chosen => ?_, fun completed m' hends => ?_, fun fuel inner => exec_print fuel inner m⟩
  · constructor
    · rintro ⟨outcome, m', fuel, hfuel⟩
      rcases ExecM.interpret_muteAll fuel program m with
        ⟨_, _, completed, m₁, -, -, hplain, -⟩ | hout
      · exact ⟨.ok completed, m₁, fuel, hplain⟩
      · exact absurd hout (houtOfFuel hfuel)
    · rintro ⟨outcome, m', fuel, hfuel⟩
      rcases ExecM.interpret_muteAll fuel program m with
        ⟨_, _, completed, m₁, -, -, -, -, hmuted⟩ | hout
      · obtain ⟨m'', hmuted, -⟩ := hmuted chosen
        exact ⟨.ok completed, m'', fuel, hmuted⟩
      · rw [← ExecM.muteAll_none program] at hfuel
        exact absurd hout (houtOfFuel hfuel)
  · obtain ⟨fuel, hfuel⟩ := hends
    rcases ExecM.interpret_muteAll fuel program m with
      ⟨pieces, signature?, completed', m₁, hsigned, hsignature, hplain, hout, hmuted⟩ | hout
    · obtain ⟨heq, rfl⟩ := eq_of_ok_eq_endedIn (hplain.symm.trans hfuel)
      cases heq
      refine ⟨pieces, signature?, hsigned, hsignature, hout, fun chosen => ?_⟩
      obtain ⟨m'', hmuted, hmutes⟩ := hmuted chosen
      exact ⟨m'', ⟨fuel, hmuted⟩, hmutes⟩
    · rw [← ExecM.muteAll_none program] at hfuel
      exact absurd hout (houtOfFuel hfuel)

/-- A loop that prints what it assigns, and after it a print of what has no value. -/
def growingProgram : List Node :=
  [ .varDecl (.bare "a") (some (.literal (.host (.string "x")))),
    .whileLoop (.binary (.var (.bare "a")) (.bare "!=") (.literal (.host (.string "xxx"))))
      (.block
        [ .print (.assign (.bare "a")
            (.binary (.var (.bare "a")) (.bare "+") (.literal (.host (.string "x"))))),
          .print (.literal (.host (.bool true))) ]),
    .print (.unary (.bare "-") (.assign (.bare "a") (.literal (.host .none)))) ]

/-- A print statement in the place of an expression. -/
def misplacedPrint : List Node := [.expression (.print (.literal (.host (.string "x"))))]

/-- With the first print statement muted, the loop goes round as often and the program reports the
same; the second print statement keeps its pieces.  A muted print statement in the place of an
expression is reported under another name. -/
theorem muting_removes_pieces_growingProgram :
    let m : Machine := ⟨Store.empty.push none, 0, false, {}, #[]⟩
    let first : Path → Bool := fun path =>
      decide (path = [(.statement, 0), (.statement, 0), (.statement, 1)])
    let misplaced : Path := [(.expression, 0), (.statement, 0)]
    (∃ m' m'', Ends (ExecM.interpret · growingProgram) m (.ok false) m' ∧
      Ends (ExecM.interpret · (Node.muteAll first growingProgram)) m (.ok false) m'' ∧
      m'.console = ⟨#["xx\n", "true\n", "xxx\n", "true\n"],
        #["LoxTypeError: Operand must be a number\n"]⟩ ∧
      m'' = m'.withOut #["true\n", "true\n"] ∧
      (m''.store.bindings 0).get? "a" = some .nil) ∧
    ∃ m₁ m'' : Machine,
      Ends (ExecM.interpret · misplacedPrint) m (.ok false) (m₁.fail (.misplaced false)) ∧
      Ends (ExecM.interpret · (Node.muteAll (fun path => decide (path = misplaced)) misplacedPrint))
        m (.ok false) m'' ∧
      m'' = (m₁.fail (.misplaced true)).withOut #[] := by
  intro m first misplaced
  constructor
  · obtain ⟨m', hends, hconsole, hstore⟩ : ∃ m',
        Ends (ExecM.interpret · growingProgram) m (.ok false) m' ∧
        m'.console = ⟨#["xx\n", "true\n", "xxx\n", "true\n"],
          #["LoxTypeError: Operand must be a number\n"]⟩ ∧
        (m'.store.bindings 0).get? "a" = some .nil :=
      ⟨_, ⟨3, by with_unfolding_all rfl⟩, by with_unfolding_all rfl, by with_unfolding_all rfl⟩
    obtain ⟨_, hmuted, hout⟩ : ∃ m₁,
        Ends (ExecM.interpret · (Node.muteAll first growingProgram)) m (.ok false) m₁ ∧
        m₁.console.out = #["true\n", "true\n"] :=
      ⟨_, ⟨3, by with_unfolding_all rfl⟩, by with_unfolding_all rfl⟩
    obtain ⟨pieces, signature?, -, -, -, hpieces⟩ :=
      (muting_removes_pieces m growingProgram).2.1 false m' hends
    obtain ⟨m'', hmuted', hmutes⟩ := hpieces first
    obtain ⟨-, rfl⟩ := hmuted.unique (ExecM.fuelMonotone_interpret _) hmuted'
    refine ⟨m', _, hends, hmuted, hconsole, ?_⟩
    cases signature? with
    | none =>
      obtain rfl : _ = m'.withOut _ := hmutes
      rw [← hout]
      exact ⟨rfl, hstore⟩
    | some path =>
      obtain ⟨m₁, heq, -⟩ := hmutes
      have herr : #["LoxTypeError: Operand must be a number\n"] =
          m₁.console.err.push (Fault.misplaced false).report := by
        rw [heq] at hconsole
        exact (congrArg Console.err hconsole).symm
      have hlast := congrArg Array.back? herr
      rw [Array.back?_push] at hlast
      exact absurd hlast (by decide)
  · obtain ⟨m', hends, hout⟩ : ∃ m', Ends (ExecM.interpret · misplacedPrint) m (.ok false) m' ∧
        m'.console.out = #[] := ⟨_, ⟨0, by with_unfolding_all rfl⟩, rfl⟩
    obtain ⟨pieces, signature?, -, hsignature, hplain, hpieces⟩ :=
      (muting_removes_pieces m misplacedPrint).2.1 false m' hends
    have hends' : Node.EndsAt misplacedPrint m misplaced :=
      ⟨⟨0, [(.statement, 0)], rfl⟩, fun className =>
        ⟨_, Node.ends_execAll_error_iff.1 ⟨0, by with_unfolding_all rfl⟩⟩⟩
    obtain ⟨m'', hmuted, hmutes⟩ := hpieces fun path => decide (path = misplaced)
    rw [(hsignature misplaced).1 hends'] at hmutes
    obtain ⟨m₁, rfl, rfl⟩ := hmutes
    refine ⟨m₁, _, hends, hmuted, ?_⟩
    -- Nothing was printed, so nothing is kept.
    have hnil : pieces = [] := by
      have hsize := congrArg Array.size (hplain.symm.trans hout)
      simpa [m] using hsize
    simp [hnil]
    rfl

/-- What is reported of the statement shows whether it is muted. -/
theorem report_shows_muting :
    let m : Machine := ⟨Store.empty.push none, 0, false, {}, #[]⟩
    let chosen : Path → Bool := fun path =>
      decide (path = [(.expression, 0), (.statement, 0)])
    ∃ m' m'', Ends (ExecM.interpret · misplacedPrint) m (.ok false) m' ∧
      Ends (ExecM.interpret · (Node.muteAll chosen misplacedPrint)) m (.ok false) m'' ∧
      m'.console.err = #["LoxRuntimeError: Unsupported expression node PrintStmt\n"] ∧
      m''.console.err = #["LoxRuntimeError: Unsupported expression node ExpressionStmt\n"] ∧
      m''.console.err ≠ m'.console.err := by
  intro m chosen
  exact ⟨_, _, ⟨0, by with_unfolding_all rfl⟩, ⟨0, by with_unfolding_all rfl⟩,
    by with_unfolding_all rfl, by with_unfolding_all rfl, by with_unfolding_all decide⟩

end Lox
