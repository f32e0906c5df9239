import Lox.Proofs.Growth
import Lox.Proofs.Scopes.Evaluator

/-!
# Frames implement scopes

Execution on a store of frames does what evaluation on a stack of scopes says, the stack being the
bindings along the chain of the active frame.  The two run in lockstep, fuel for fuel: they end
alike, print the same, and leave on the chain what is left on the stack.  Frames that are not on
the chain are not touched, though they may share parents with it.
-/

namespace Lox

/-! ## Operations on a list of frames -/

namespace Store

/-- The stack of scopes that a frame sees: the bindings of the frames of its chain. -/
def scopes (s : Store) (f : Nat) : Scopes := (s.chain f).map s.bindings

theorem lookup?_eq (s : Store) (f : Nat) (name : String) :
    s.lookup? f name = Scopes.lookup? name (s.scopes f) := by
  unfold lookup? scopes
  induction s.chain f with
  | nil => rfl
  | cons g rest ih =>
    rw [List.findSome?_cons, List.map_cons, Scopes.lookup?_cons, ← ih]
    cases (s.bindings g).get? name <;> rfl

/-- Every frame sees its own scope at least. -/
theorem scopes_ne_nil (s : Store) (f : Nat) : s.scopes f ≠ [] :=
  mt List.map_eq_nil_iff.1 (List.ne_nil_of_mem (s.mem_chain_self f))

theorem map_bindings_define {s : Store} {f : Nat} {frames : List Nat} (h : f ∉ frames)
    (name : String) (v : Value) :
    frames.map (s.define f name v).bindings = frames.map s.bindings := by
  refine List.map_congr_left fun g hg => bindings_define_of_ne ?_ name v
  rintro rfl
  exact h hg

/-- Giving a name a value in the first of some frames that holds it assigns the name in the stack
of their bindings. -/
theorem assign?_map {s : Store} {frames : List Nat} (hnodup : frames.Nodup)
    (hsize : ∀ g ∈ frames, g < s.size) (name : String) (v : Value) :
    Scopes.assign? name v (frames.map s.bindings) =
      (frames.find? fun g => (s.bindings g).holds name).map fun owner =>
        frames.map (s.define owner name v).bindings := by
  induction frames with
  | nil => rfl
  | cons g rest ih =>
    obtain ⟨hg, hrest⟩ := List.nodup_cons.1 hnodup
    have ih := ih hrest fun f hf => hsize f (List.mem_cons_of_mem g hf)
    cases hget : (s.bindings g).get? name with
    | some w =>
      have hholds : (s.bindings g).holds name = true := by rw [Bindings.holds, hget]; rfl
      rw [List.map_cons, Scopes.assign?_cons_of_some hget]
      simp only [List.find?_cons, hholds, Option.map_some, List.map_cons, map_bindings_define hg,
        bindings_define_self (hsize g List.mem_cons_self)]
    | none =>
      have hholds : (s.bindings g).holds name = false := by rw [Bindings.holds, hget]; rfl
      rw [List.map_cons, Scopes.assign?_cons_of_none hget, ih]
      simp only [List.find?_cons, hholds]
      cases howner : rest.find? fun g => (s.bindings g).holds name with
      | none => rfl
      | some owner =>
        have hne : owner ≠ g := by
          rintro rfl
          exact hg (List.mem_of_find?_eq_some howner)
        simp only [Option.map_some, List.map_cons, bindings_define_of_ne hne]

end Store

/-! ## Stores that show scopes -/

/-- The second store grew out of the first one, with nothing changed off the chain of a frame, and
has the given scopes on this chain. -/
structure Store.Shows (s₀ : Store) (f : Nat) (s : Store) (scopes : Scopes) : Prop where
  grows : s₀.Grows s
  untouched : ∀ g < s₀.size, g ∉ s₀.chain f → s.bindings g = s₀.bindings g
  scopes_eq : (s₀.chain f).map s.bindings = scopes

namespace Store.Shows
variable {s₀ s : Store} {f : Nat} {scopes : Scopes}

theorem refl (s : Store) (f : Nat) : s.Shows f s (s.scopes f) :=
  ⟨Store.Grows.refl s, fun _ _ _ => rfl, rfl⟩

theorem scopes_of_lt (h : s₀.Shows f s scopes) (hf : f < s₀.size) : s.scopes f = scopes := by
  rw [Store.scopes, chain_of_grows h.grows hf, h.scopes_eq]

/-- A change of one frame of the chain leaves the frames off the chain alone. -/
theorem define (h : s₀.Shows f s scopes) {g : Nat} (hg : g ∈ s₀.chain f) (name : String)
    (v : Value) :
    s₀.Shows f (s.define g name v) ((s₀.chain f).map (s.define g name v).bindings) where
  grows := h.grows.trans (Store.Grows.define s g name v)
  untouched := by
    intro other hother hmem
    have hne : g ≠ other := by
      rintro rfl
      exact hmem hg
    rw [bindings_define_of_ne hne, h.untouched other hother hmem]
  scopes_eq := rfl

/-- A new frame inside the frame shows a new scope. -/
theorem push (h : s₀.Shows f s scopes) (hf : f < s₀.size) :
    (s.push (some f)).Shows s.size (s.push (some f)) (∅ :: scopes) where
  grows := Store.Grows.refl _
  untouched := fun _ _ _ => rfl
  scopes_eq := by
    have hfs : f < s.size := Nat.lt_of_lt_of_le hf h.grows.size_le
    have hnew : s.bindings s.size = ∅ := by simp [bindings, size]
    rw [chain_push_size hfs, List.map_cons, bindings_push, hnew, ← h.scopes_of_lt hf, Store.scopes]
    exact congrArg _ (List.map_congr_left fun g _ => bindings_push s g _)

/-- What happened on the chain of a new frame happened, as far as older frames go, on the chain
around it. -/
theorem pop {s' : Store} {scopes' : Scopes} (h : s₀.Shows f s scopes) (hf : f < s₀.size)
    (h' : (s.push (some f)).Shows s.size s' scopes') : s₀.Shows f s' scopes'.tail := by
  have hfs : f < s.size := Nat.lt_of_lt_of_le hf h.grows.size_le
  have hchain : (s.push (some f)).chain s.size = s.size :: s₀.chain f := by
    rw [chain_push_size hfs, chain_of_grows h.grows hf]
  refine ⟨h.grows.trans ((Store.Grows.push s _).trans h'.grows), fun g hg hmem => ?_, ?_⟩
  · have hgs : g < s.size := Nat.lt_of_lt_of_le hg h.grows.size_le
    have hmem' : g ∉ (s.push (some f)).chain s.size := by
      rw [hchain, List.mem_cons, not_or]
      exact ⟨Nat.ne_of_lt hgs, hmem⟩
    rw [h'.untouched g (by rw [size_push]; omega) hmem', bindings_push, h.untouched g hg hmem]
  · rw [← h'.scopes_eq, hchain, List.map_cons, List.tail_cons]

end Store.Shows

namespace EvalM
variable {s₀ : Store} {f : Nat}

theorem lockstep_ofExcept (result : Except Fault Value) :
    Lockstep (s₀.Shows f) (ofExcept result) (Scopes.ofExcept result) := by
  cases result with
  | ok v => exact Lockstep.pure v
  | error fault => exact Lockstep.throw fault

theorem lockstep_lookup (hf : f < s₀.size) (name : Lexeme) :
    Lockstep (s₀.Shows f) (lookup f name) (Scopes.lookup name) := by
  intro s scopes h
  have heq := s.lookup?_eq f name.text
  rw [h.scopes_of_lt hf] at heq
  simp only [lookup, Scopes.lookup, heq]
  cases Scopes.lookup? name.text scopes with
  | none => exact ⟨rfl, h⟩
  | some v => exact ⟨rfl, h⟩

theorem lockstep_assign (hf : f < s₀.size) (name : Lexeme) (v : Value) :
    Lockstep (s₀.Shows f) (assign f name v) (Scopes.assign name v) := by
  intro s scopes h
  have heq := Store.assign?_map (s := s) (s₀.chain_nodup f)
    (fun g hg => Nat.lt_of_lt_of_le (Store.lt_size_of_mem_chain hf hg) h.grows.size_le) name.text v
  rw [h.scopes_eq] at heq
  simp only [assign, Scopes.assign, Store.owner?, Store.chain_of_grows h.grows hf, heq]
  cases howner : (s₀.chain f).find? fun g => (s.bindings g).holds name.text with
  | none => exact ⟨rfl, h⟩
  | some owner => exact ⟨rfl, h.define (List.mem_of_find?_eq_some howner) name.text v⟩

end EvalM

/-- On scopes, too, the right operand counts unless the left one settles the value. -/
theorem Scopes.eval_logical (left right : Node) (operator : Lexeme) :
    eval (.logical left operator right) = (do
      let v ← eval left
      match LogicalOp.ofLexeme? operator with
      | some op => if op.settledBy v then pure v else eval right
      | none => throw ⟨.unknownLogical, operator⟩) := by
  simp only [eval]
  congr 1
  funext v
  cases LogicalOp.ofLexeme? operator with
  | none => rfl
  | some op =>
    cases op with
    | or => rfl
    | and => cases hv : v.isTruthy <;> simp [LogicalOp.settledBy, hv]

theorem Scopes.eval_of_not_isExpression {node : Node} (h : node.isExpression = false) :
    Scopes.eval node = throw (.unplaced (.unsupportedExpression node.className)) := by
  cases node with
  | literal | grouping | unary | binary | logical | ternary | var | assign =>
    simp [Node.isExpression] at h
  | expression | print | varDecl | block | ifElse | whileLoop | forLoop | foreign => rfl

theorem Scopes.exec_of_not_isStatement {node : Node} (h : node.isStatement = false) (fuel : Nat) :
    Scopes.exec fuel node =
      throw (.fault (.unplaced (.unsupportedStatement node.className))) := by
  cases node with
  | expression | print | varDecl | block | ifElse | whileLoop | forLoop =>
    simp [Node.isStatement] at h
  | literal | grouping | unary | binary | logical | ternary | var | assign | foreign => rfl

/-- Evaluation against a frame runs in lockstep with evaluation on the scopes it sees. -/
theorem Node.lockstep_eval {s₀ : Store} {f : Nat} (hf : f < s₀.size) (node : Node) :
    Lockstep (s₀.Shows f) (node.eval f) (Scopes.eval node) := by
  induction node using expressionInduction with
  | literal datum => exact EvalM.lockstep_ofExcept _
  | grouping inner ih => exact ih
  | unary operator right ih => exact ih.bind fun v => EvalM.lockstep_ofExcept _
  | binary left operator right ihl ihr =>
    exact ihl.bind fun a => ihr.bind fun b => EvalM.lockstep_ofExcept _
  | logical left operator right ihl ihr =>
    rw [eval_logical, Scopes.eval_logical]
    refine ihl.bind fun v => ?_
    cases LogicalOp.ofLexeme? operator with
    | none => exact Lockstep.throw _
    | some op =>
      dsimp only
      cases op.settledBy v with
      | true => exact Lockstep.pure v
      | false => exact ihr
  | ternary condition first second ihc ihf ihs =>
    refine ihc.bind fun v => ?_
    cases v.isTruthy with
    | true => exact ihf
    | false => exact ihs
  | var name => exact EvalM.lockstep_lookup hf name
  | assign name source ih => exact ih.bind fun v => EvalM.lockstep_assign hf name v
  | other node h =>
    rw [eval_of_not_isExpression h, Scopes.eval_of_not_isExpression h]
    exact Lockstep.throw _

/-! ## Machines that show scopes -/

/-- The machine has the given frame active, its store shows the scopes, and it printed the given
pieces after those that it began with. -/
structure Machine.Shows (s₀ : Store) (f : Nat) (out₀ : Array String) (m : Machine)
    (state : Scopes.State) : Prop where
  active_eq : m.active = f
  store : s₀.Shows f m.store state.scopes
  out_eq : m.console.out = out₀ ++ state.printed

theorem Machine.Shows.refl (m : Machine) :
    m.Shows m.store m.active m.console.out ⟨m.store.scopes m.active, #[]⟩ :=
  ⟨rfl, Store.Shows.refl m.store m.active, by simp⟩

/-- A computation on the machine does what one on scopes does, whichever frame is active. -/
def Implements {α : Type} (p : ExecM α) (q : Scopes.ScopesM α) : Prop :=
  ∀ s₀ f out₀, f < s₀.size → Lockstep (Machine.Shows s₀ f out₀) p q

namespace Implements
variable {α β : Type}

theorem pure (a : α) : Implements (Pure.pure a) (Pure.pure a) := fun _ _ _ _ => Lockstep.pure a

theorem throw (stop : Stop) :
    Implements (MonadExcept.throw stop : ExecM α) (MonadExcept.throw stop) :=
  fun _ _ _ _ => Lockstep.throw stop

theorem bind {p : ExecM α} {q : Scopes.ScopesM α} {p' : α → ExecM β} {q' : α → Scopes.ScopesM β}
    (h : Implements p q) (h' : ∀ a, Implements (p' a) (q' a)) :
    Implements (p >>= p') (q >>= q') :=
  fun s₀ f out₀ hf => (h s₀ f out₀ hf).bind fun a => h' a s₀ f out₀ hf

theorem evaluate (node : Node) : Implements (ExecM.evaluate node) (Scopes.evaluate node) := by
  intro s₀ f out₀ hf m state h
  have heval := node.lockstep_eval hf m.store state.scopes h.store
  rw [← h.active_eq] at heval
  rcases heval.cases with ⟨v, s, scopes, hs, hscopes, hshows⟩ | ⟨e, s, scopes, hs, hscopes, hshows⟩
  · rw [ExecM.evaluate_of_ok hs]
    simp only [Scopes.evaluate, hscopes]
    rw [h.active_eq] at hshows
    exact ⟨rfl, h.active_eq, hshows, h.out_eq⟩
  · rw [ExecM.evaluate_of_error hs]
    simp only [Scopes.evaluate, hscopes]
    rw [h.active_eq] at hshows
    exact ⟨rfl, h.active_eq, hshows, h.out_eq⟩

theorem test (condition? : Option Node) :
    Implements (ExecM.test condition?) (Scopes.holds condition?) := by
  cases condition? with
  | none => exact pure true
  | some condition => exact (evaluate condition).bind fun v => pure _

theorem discard (node? : Option Node) :
    Implements (ExecM.discard node?) (Scopes.discard node?) := by
  cases node? with
  | none => exact pure ()
  | some node => exact (evaluate node).bind fun _ => pure ()

theorem print (v : Value) : Implements (ExecM.print (v.text ++ "\n")) (Scopes.printLine v) := by
  intro s₀ f out₀ _ m state h
  refine ⟨rfl, h.active_eq, h.store, ?_⟩
  change m.console.out.push _ = out₀ ++ state.printed.push _
  rw [h.out_eq, Array.append_push]

/-- A definition in the active frame is one in the innermost scope. -/
theorem define (name : Lexeme) (v : Value) :
    Implements (ExecM.define name.text v) (Scopes.declare name v) := by
  intro s₀ f out₀ hf m state h
  obtain ⟨rest, hchain, hrest⟩ := s₀.exists_chain_eq_cons f
  have hfs : f < m.store.size := Nat.lt_of_lt_of_le hf h.store.grows.size_le
  have hscopes : (s₀.chain f).map (m.store.define f name.text v).bindings =
      Scopes.define name.text v state.scopes := by
    rw [← h.store.scopes_eq, hchain, List.map_cons, List.map_cons, Scopes.define,
      Store.bindings_define_self hfs, Store.map_bindings_define hrest]
  have hstore := h.store.define (s₀.mem_chain_self f) name.text v
  rw [hscopes, ← h.active_eq] at hstore
  refine ⟨rfl, h.active_eq, ?_, h.out_eq⟩
  rw [← h.active_eq]
  exact hstore

/-- A new frame for a computation is a new scope for it. -/
theorem withNewScope {p : ExecM Unit} {q : Scopes.ScopesM Unit} (h : Implements p q) :
    Implements (ExecM.withNewScope p) (Scopes.enclosed q) := by
  intro s₀ f out₀ hf m state hm
  obtain rfl := hm.active_eq
  have hlt : m.store.size < (m.store.push (some m.active)).size := by simp
  have hbody := h _ m.store.size out₀ hlt
    (({ m with store := m.store.push (some m.active) }).enter m.store.size)
    { state with scopes := ∅ :: state.scopes } ⟨rfl, hm.store.push hf, hm.out_eq⟩
  rcases hbody.cases with
    ⟨a, m', state', hp, hq, hm'⟩ | ⟨stop, m', state', hp, hq, hm'⟩
  · rw [ExecM.withNewScope_of_ok hp]
    simp only [Scopes.enclosed, hq]
    exact ⟨rfl, rfl, hm.store.pop hf hm'.store, hm'.out_eq⟩
  · rw [ExecM.withNewScope_of_error hp]
    simp only [Scopes.enclosed, hq]
    exact ⟨rfl, rfl, hm.store.pop hf hm'.store, hm'.out_eq⟩

/-- Rounds on the machine are rounds on scopes. -/
theorem repeatWhile {condition? : Option Node} {body : ExecM Unit} {round : Scopes.ScopesM Unit}
    (h : Implements body round) (rounds : Nat) :
    Implements (ExecM.repeatWhile (ExecM.test condition?) body rounds)
      (Scopes.loop condition? round rounds) := by
  induction rounds with
  | zero => exact throw _
  | succ rounds ih =>
    refine (test condition?).bind fun holds => ?_
    cases holds with
    | true => exact h.bind fun _ => ih
    | false => exact pure ()

theorem execOption {fuel : Nat} {node? : Option Node}
    (h : ∀ node ∈ node?, Implements (node.exec fuel) (Scopes.exec fuel node)) :
    Implements (Node.execOption fuel node?) (Scopes.execOption fuel node?) := by
  cases node? with
  | none => exact pure ()
  | some node => exact h node rfl

theorem execAll {fuel : Nat} {statements : List Node}
    (h : ∀ statement ∈ statements, Implements (statement.exec fuel) (Scopes.exec fuel statement)) :
    Implements (Node.execAll fuel statements) (Scopes.execAll fuel statements) := by
  induction statements with
  | nil => exact pure ()
  | cons statement rest ih =>
    exact (h statement List.mem_cons_self).bind fun _ =>
      ih fun other hother => h other (List.mem_cons_of_mem _ hother)

end Implements

/-- Execution on frames runs in lockstep with its counterpart on scopes. -/
theorem Node.implements_exec (fuel : Nat) (node : Node) :
    Implements (node.exec fuel) (Scopes.exec fuel node) := by
  induction node using statementInduction with
  | expression inner => exact Implements.discard (some inner)
  | print inner => exact (Implements.evaluate inner).bind fun v => Implements.print v
  | varDecl name initializer? =>
    cases initializer? with
    | none => exact Implements.define name .nil
    | some initializer =>
      exact (Implements.evaluate initializer).bind fun v => Implements.define name v
  | block statements ih => exact (Implements.execAll ih).withNewScope
  | ifElse condition thenBranch elseBranch? ihThen ihElse =>
    refine (Implements.evaluate condition).bind fun v => ?_
    cases v.isTruthy with
    | true => exact ihThen
    | false => exact Implements.execOption ihElse
  | whileLoop condition body ih => exact ih.repeatWhile fuel
  | forLoop initializer? condition? increment? body ihInit ihBody =>
    refine Implements.withNewScope ((Implements.execOption ihInit).bind fun _ => ?_)
    exact (ihBody.bind fun _ => Implements.discard increment?).repeatWhile fuel
  | other node h =>
    rw [exec_of_not_isStatement h, Scopes.exec_of_not_isStatement h]
    exact Implements.throw _

/-! ## The refinement -/

/-- A frame is what its parent and its bindings make it. -/
theorem Store.frames_eq_of {s s' : Store} {f : Nat} (hf : f < s.size) (hf' : f < s'.size)
    (hparent : s'.parent? f = s.parent? f) (hbindings : s'.bindings f = s.bindings f) :
    s'.frames[f]? = s.frames[f]? := by
  have hs : s.frames[f]? = some s.frames[f] := Array.getElem?_eq_getElem hf
  have hs' : s'.frames[f]? = some s'.frames[f] := Array.getElem?_eq_getElem hf'
  simp only [parent?, hs, hs', Option.bind_some] at hparent
  simp only [bindings, hs, hs'] at hbindings
  rw [hs, hs']
  congr 1
  exact Frame.ext hparent hbindings

/-- A machine that shows the scopes of another one leaves the frames off its chain alone. -/
theorem Store.Shows.frames_eq {s₀ s : Store} {f g : Nat} {scopes : Scopes}
    (h : s₀.Shows f s scopes) (hg : g < s₀.size) (hmem : g ∉ s₀.chain f) :
    s.frames[g]? = s₀.frames[g]? :=
  frames_eq_of hg (Nat.lt_of_lt_of_le hg h.grows.size_le) (h.grows.parent?_eq g hg)
    (h.untouched g hg hmem)

/-- What a statement does to a machine, it does to the scopes that the active frame sees. -/
theorem Node.ends_scopes {m m' : Machine} (hm : m.active < m.store.size) {statement : Node}
    {outcome : Except Fault Unit} (h : Ends (Node.exec · statement) m outcome m') :
    ∃ state, Ends (Scopes.exec · statement) ⟨m.store.scopes m.active, #[]⟩ outcome state ∧
      m'.Shows m.store m.active m.console.out state :=
  Ends.of_lockstep (fun fuel => statement.implements_exec fuel _ _ _ hm) (Machine.Shows.refl m) h

/-- What a statement does to the scopes that the active frame sees, it does to the machine. -/
theorem Node.ends_exec {m : Machine} (hm : m.active < m.store.size) {statement : Node}
    {outcome : Except Fault Unit} {state : Scopes.State}
    (h : Ends (Scopes.exec · statement) ⟨m.store.scopes m.active, #[]⟩ outcome state) :
    ∃ m', Ends (Node.exec · statement) m outcome m' ∧
      m'.Shows m.store m.active m.console.out state :=
  Ends.of_lockstep (fun fuel => (statement.implements_exec fuel _ _ _ hm).symm)
    (Machine.Shows.refl m) h

/-- From any frame of any store, a statement terminates if and only if it does on the scopes that
the frame sees, and then both end alike and print the same, the frames of the chain hold what is
left of the scopes, and all other frames are as they were. -/
theorem exec_refines_scopes (m : Machine) (hm : m.active < m.store.size) (statement : Node) :
    (Terminates (Node.exec · statement) m ↔
      Terminates (Scopes.exec · statement) ⟨m.store.scopes m.active, #[]⟩) ∧
    ∀ outcome m' outcome' state, Ends (Node.exec · statement) m outcome m' →
      Ends (Scopes.exec · statement) ⟨m.store.scopes m.active, #[]⟩ outcome' state →
      outcome = outcome' ∧
      m'.console.out = m.console.out ++ state.printed ∧
      (m.store.chain m.active).map m'.store.bindings = state.scopes ∧
      ∀ g < m.store.size, g ∉ m.store.chain m.active →
        m'.store.frames[g]? = m.store.frames[g]? := by
  refine ⟨⟨fun ⟨outcome, m', h⟩ => ?_, fun ⟨outcome, state, h⟩ => ?_⟩,
    fun outcome m' outcome' state h h' => ?_⟩
  · obtain ⟨state, hstate, -⟩ := Node.ends_scopes hm h
    exact ⟨outcome, state, hstate⟩
  · obtain ⟨m', hm', -⟩ := Node.ends_exec hm h
    exact ⟨outcome, m', hm'⟩
  · obtain ⟨m'', h'', hshows⟩ := Node.ends_exec hm h'
    obtain ⟨rfl, rfl⟩ := h.unique statement.fuelMonotone_exec h''
    exact ⟨rfl, hshows.out_eq, hshows.store.scopes_eq, fun g hg => hshows.store.frames_eq hg⟩

/-- A machine whose active frame is inside one that holds a name. -/
def nestedMachine : Machine where
  store := (((∅ : Store).push none).define 0 "x" (.string "a")).push (some 0)
  active := 1
  failed := false
  console := {}
  log := #[]

/-- A block that assigns to a name of the outer frame, prints it and fails. -/
def failingBlock : Node :=
  .block [
    .expression (.assign (.bare "x")
      (.binary (.var (.bare "x")) (.bare "+") (.literal (.host (.string "b"))))),
    .print (.var (.bare "x")),
    .foreign "Unknown"]

/-- The assignment and the print before a fault are there on both sides. -/
theorem exec_refines_scopes_failingBlock :
    ∃ fault m' state, Ends (Node.exec · failingBlock) nestedMachine (.error fault) m' ∧
      Ends (Scopes.exec · failingBlock)
        ⟨nestedMachine.store.scopes nestedMachine.active, #[]⟩ (.error fault) state ∧
      m'.console.out = #["ab\n"] ∧
      (nestedMachine.store.chain nestedMachine.active).map m'.store.bindings =
        [∅, .ofList [("x", .string "ab")]] := by
  obtain ⟨m', hexec⟩ : ∃ m', Ends (Node.exec · failingBlock) nestedMachine
      (.error (.unplaced (.unsupportedStatement "Unknown"))) m' :=
    ⟨_, 1, by with_unfolding_all rfl⟩
  have hscopes : Ends (Scopes.exec · failingBlock)
      ⟨nestedMachine.store.scopes nestedMachine.active, #[]⟩
      (.error (.unplaced (.unsupportedStatement "Unknown")))
      ⟨[∅, .ofList [("x", .string "ab")]], #["ab\n"]⟩ := ⟨1, by with_unfolding_all rfl⟩
  obtain ⟨-, hout, hchain, -⟩ :=
    (exec_refines_scopes nestedMachine (by decide) failingBlock).2 _ _ _ _ hexec hscopes
  exact ⟨_, m', _, hexec, hscopes, hout, hchain⟩

end Lox
