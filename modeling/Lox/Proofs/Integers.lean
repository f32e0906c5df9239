import Lox.Environment.Chain
import Lox.Proofs.Faults
import Lox.Proofs.Points

/-!
# Programs without doubles

Doubles come from doubles only.  A program without a double among its literals, run on frames that
hold none, meets none at any point, and so arithmetic is never out of range.  Its integers have any
size, and the operators on them are exact; division rounds down, so that the remainder has the sign
of the divisor.
-/

namespace Lox

/-! ## Values -/

/-- Whether a value is no double. -/
def Value.isFloatFree : Value → Bool
  | number (.float _) => false
  | _ => true

/-- Whether a datum stands for no double. -/
def Datum.isFloatFree : Datum → Bool
  | value v => v.isFloatFree
  | host (.number (.float _)) => false
  | host _ => true

theorem Datum.isFloatFree_of_coerce {datum : Datum} (h : datum.isFloatFree = true) {v : Value}
    (hcoerce : datum.coerce = .ok v) : v.isFloatFree = true := by
  unfold coerce at hcoerce
  split at hcoerce
  case h_4 n =>
    cases hcoerce
    cases n with
    | int n => rfl
    | float x => cases h
  all_goals cases hcoerce
  all_goals first | rfl | exact h

/-- A value that is no double, or an objection to anything but the range. -/
def FloatFreeResult {ε : Type} (kind : ε → FaultClass) : Except ε Value → Prop
  | .ok v => v.isFloatFree = true
  | .error e => kind e ≠ .overflow

/-- Who is to blame for an objection does not count. -/
theorem FloatFreeResult.mapError {result : Except Cause Value}
    (h : FloatFreeResult Cause.kind result) (lexeme : Lexeme) :
    FloatFreeResult Fault.kind (result.mapError (⟨·, lexeme⟩)) := by
  cases result with
  | ok v => exact h
  | error cause => exact h

theorem UnaryOp.floatFree_apply {op : UnaryOp} {v : Value} (hv : v.isFloatFree = true) :
    FloatFreeResult Cause.kind (op.apply v) := by
  cases op with
  | not => rfl
  | negate =>
    cases v with
    | nil | bool | string => exact nofun
    | number n =>
      cases n with
      | int n => rfl
      | float x => cases hv

/-- Numbers that are no doubles are integers. -/
theorem floatFree_onNumbers {operation : Number → Number → Except Cause Value}
    (h : ∀ m n : Int, FloatFreeResult Cause.kind (operation (.int m) (.int n))) {a b : Value}
    (ha : a.isFloatFree = true) (hb : b.isFloatFree = true) :
    FloatFreeResult Cause.kind (onNumbers operation (.value a) (.value b)) := by
  rw [onNumbers_eq]
  split
  · next x y hx hy =>
    cases hx
    cases hy
    cases x with
    | float x => cases ha
    | int m =>
      cases y with
      | float y => cases hb
      | int n => exact h m n
  · exact nofun

theorem floatFree_divideNumbers (m n : Int) :
    FloatFreeResult Cause.kind (divideNumbers (.int m) (.int n)) := by
  unfold divideNumbers
  split
  · exact nofun
  · rfl

theorem floatFree_addData {a b : Value} (ha : a.isFloatFree = true) (hb : b.isFloatFree = true) :
    FloatFreeResult Cause.kind (addData (.value a) (.value b)) := by
  rw [addData_eq]
  split
  · next x y hx hy =>
    cases hx
    cases hy
    cases x with
    | float x => cases ha
    | int m =>
      cases y with
      | float y => cases hb
      | int n => rfl
  · rfl
  · rfl
  · exact nofun
  · exact nofun

/-- Operators make no double of values that are none, and do not find integers out of range. -/
theorem BinaryOp.floatFree_apply {op : BinaryOp} {a b : Value} (ha : a.isFloatFree = true)
    (hb : b.isFloatFree = true) :
    FloatFreeResult Cause.kind (op.apply (.value a) (.value b)) := by
  cases op with
  | subtract | multiply | greater | greaterEqual | less | lessEqual =>
    refine floatFree_onNumbers (fun m n => ?_) ha hb
    rfl
  | divide => exact floatFree_onNumbers floatFree_divideNumbers ha hb
  | add => exact floatFree_addData ha hb
  | equal | notEqual => rfl

theorem floatFree_applyUnary (lexeme : Lexeme) {v : Value} (hv : v.isFloatFree = true) :
    FloatFreeResult Fault.kind (applyUnary lexeme v) := by
  unfold applyUnary
  split
  · exact (UnaryOp.floatFree_apply hv).mapError lexeme
  · exact nofun

theorem floatFree_applyBinary (lexeme : Lexeme) {a b : Value} (ha : a.isFloatFree = true)
    (hb : b.isFloatFree = true) :
    FloatFreeResult Fault.kind (applyBinary lexeme (.value a) (.value b)) := by
  unfold applyBinary
  split
  · exact (BinaryOp.floatFree_apply ha hb).mapError lexeme
  · exact nofun

/-! ## Stores -/

/-- No frame holds a double. -/
def Store.FloatFree (s : Store) : Prop :=
  ∀ f name v, (s.bindings f).get? name = some v → v.isFloatFree = true

namespace Store.FloatFree
variable {s : Store}

theorem define (h : s.FloatFree) (f : Nat) (name : String) {v : Value}
    (hv : v.isFloatFree = true) : (s.define f name v).FloatFree := by
  intro g other w hw
  rw [bindings_define] at hw
  split at hw
  · rw [Bindings.get?_insert] at hw
    split at hw
    · cases hw
      exact hv
    · exact h g other w hw
  · exact h g other w hw

theorem push (h : s.FloatFree) (parent? : Option Nat) : (s.push parent?).FloatFree := by
  intro g name v hv
  rw [bindings_push] at hv
  exact h g name v hv

theorem lookup? (h : s.FloatFree) {f : Nat} {name : String} {v : Value}
    (hv : s.lookup? f name = some v) : v.isFloatFree = true := by
  obtain ⟨g, -, hg⟩ := List.exists_of_findSome?_eq_some hv
  exact h g name v hg

end Store.FloatFree

/-! ## Expressions -/

namespace Node

/-- The datum that a node itself embeds. -/
def ownDatum? : Node → Option Datum
  | literal datum => some datum
  | _ => none

/-- Whether no literal stands for a double, neither the node itself nor one below. -/
def isFloatFree (node : Node) : Bool := (node.nodes.filterMap ownDatum?).all Datum.isFloatFree

theorem isFloatFree_child {node : Node} (h : node.isFloatFree = true) :
    ∀ child ∈ node.children, child.isFloatFree = true := by
  intro child hchild
  rw [isFloatFree, List.all_eq_true] at h ⊢
  exact fun datum hdatum => h datum (List.filterMap_subset _ (nodes_subset hchild) hdatum)

theorem isFloatFree_literal {datum : Datum} (h : (literal datum).isFloatFree = true) :
    datum.isFloatFree = true := by
  rw [isFloatFree, List.all_eq_true, nodes_eq] at h
  exact h datum (by simp [ownDatum?])

end Node

/-- From stores without doubles, a computation gives no double and is not out of range, and it
leaves such a store. -/
def EvalM.FloatFree (p : EvalM Value) : Prop :=
  Ensures Store.FloatFree p (fun v s => v.isFloatFree = true ∧ s.FloatFree)
    fun fault s => fault.kind ≠ .overflow ∧ s.FloatFree

namespace EvalM.FloatFree

theorem bind {p : EvalM Value} {f : Value → EvalM Value} (hp : EvalM.FloatFree p)
    (hf : ∀ v, v.isFloatFree = true → EvalM.FloatFree (f v)) : EvalM.FloatFree (p >>= f) :=
  Ensures.bind hp fun v s h => hf v h.1 s h.2

theorem throw {fault : Fault} (h : fault.kind ≠ .overflow) :
    EvalM.FloatFree (MonadExcept.throw fault) :=
  Ensures.throw fun _ hs => ⟨h, hs⟩

theorem ofExcept {result : Except Fault Value} (h : FloatFreeResult Fault.kind result) :
    EvalM.FloatFree (ofExcept result) := by
  cases result with
  | ok v => exact Ensures.pure fun _ hs => ⟨h, hs⟩
  | error fault => exact throw h

theorem lookup (frame : Nat) (name : Lexeme) : EvalM.FloatFree (lookup frame name) := by
  refine Ensures.of_results fun s hs => ?_
  unfold EvalM.lookup
  cases hv : s.lookup? frame name.text with
  | some v => exact ⟨hs.lookup? hv, hs⟩
  | none => exact ⟨nofun, hs⟩

theorem assign (frame : Nat) (name : Lexeme) {v : Value} (hv : v.isFloatFree = true) :
    EvalM.FloatFree (assign frame name v) := by
  refine Ensures.of_results fun s hs => ?_
  unfold EvalM.assign
  cases s.owner? frame name.text with
  | some owner => exact ⟨hv, hs.define owner name.text hv⟩
  | none => exact ⟨nofun, hs⟩

end EvalM.FloatFree

/-- An expression without doubles makes none. -/
theorem Node.floatFree_eval {node : Node} (h : node.isFloatFree = true) (frame : Nat) :
    EvalM.FloatFree (node.eval frame) := by
  induction node using expressionInduction with
  | literal datum =>
    refine EvalM.FloatFree.ofExcept ?_
    cases hcoerce : datum.coerce with
    | ok v =>
      exact Datum.isFloatFree_of_coerce (isFloatFree_literal h) hcoerce
    | error fault => simp [FloatFreeResult, Datum.kind_of_coerce hcoerce]
  | grouping inner ih => exact ih (isFloatFree_child h inner (by simp))
  | unary operator right ih =>
    exact (ih (isFloatFree_child h right (by simp))).bind fun v hv =>
      .ofExcept (floatFree_applyUnary operator hv)
  | binary left operator right ihl ihr =>
    exact (ihl (isFloatFree_child h left (by simp))).bind fun a ha =>
      (ihr (isFloatFree_child h right (by simp))).bind fun b hb =>
        .ofExcept (floatFree_applyBinary operator ha hb)
  | logical left operator right ihl ihr =>
    have ihr := ihr (isFloatFree_child h right (by simp))
    rw [eval_logical]
    refine (ihl (isFloatFree_child h left (by simp))).bind fun v hv => ?_
    cases LogicalOp.ofLexeme? operator with
    | none => exact .throw nofun
    | some op =>
      dsimp only
      cases op.settledBy v with
      | true => exact Ensures.pure fun _ hs => ⟨hv, hs⟩
      | false => exact ihr
  | ternary condition first second ihc ihf ihs =>
    refine (ihc (isFloatFree_child h condition (by simp))).bind fun v _ => ?_
    cases v.isTruthy with
    | true => exact ihf (isFloatFree_child h first (by simp))
    | false => exact ihs (isFloatFree_child h second (by simp))
  | var name => exact .lookup frame name
  | assign name source ih =>
    exact (ih (isFloatFree_child h source (by simp))).bind fun v hv => .assign frame name hv
  | other node hother =>
    rw [eval_of_not_isExpression hother]
    exact .throw nofun

/-! ## Runs -/

/-- The operations of statements keep stores without doubles, and are never out of range. -/
theorem ExecM.operationsKeep_floatFree :
    OperationsKeep (fun node => node.isFloatFree = true) (fun v => v.isFloatFree = true)
      (fun m => m.store.FloatFree)
      (fun stop => ∀ fault, stop = .fault fault → fault.kind ≠ .overflow) where
  child := Node.isFloatFree_child
  evaluate := by
    refine fun h => Ensures.of_results fun m hm => ?_
    obtain ⟨hok, herror⟩ := Node.floatFree_eval h m.active m.store hm
    cases heval : Node.eval m.active _ m.store with
    | ok v store =>
      rw [evaluate_of_ok heval]
      exact hok v store heval
    | error fault store =>
      rw [evaluate_of_error heval]
      obtain ⟨hfault, hstore⟩ := herror fault store heval
      refine ⟨?_, hstore⟩
      rintro _ ⟨⟩
      exact hfault
  print := fun _ _ hm => hm
  define := fun _ _ m hv hm => hm.define m.active _ hv
  nil := rfl
  nested := fun m hm => hm.push (some m.active)
  leave := fun _ _ hm => hm
  outOfFuel := nofun
  unsupported := by
    rintro className _ ⟨⟩
    exact nofun

/-- No frame holds a double when the task of a point begins, and none does when the task ends,
whatever fuel it is given.  A value that it gives is no double, and a fault is not about the
range. -/
structure Point.FloatFree (p : Point) : Prop where
  store : p.machine.store.FloatFree
  ok : ∀ fuel v? m, p.task.run fuel p.machine = .ok v? m →
    (∀ v ∈ v?, v.isFloatFree = true) ∧ m.store.FloatFree
  error : ∀ fuel stop m, p.task.run fuel p.machine = .error stop m →
    (∀ fault, stop = .fault fault → fault.kind ≠ .overflow) ∧ m.store.FloatFree

/-- No point that a run without doubles reaches has any. -/
theorem Point.FloatFree.of_reached {program : List Node} {m : Machine} {p : Point}
    (hprogram : ∀ node ∈ program, node.isFloatFree = true) (hm : m.store.FloatFree)
    (hreached : Relation.ReflTransGen Point.Calls ⟨.executeAll program, m⟩ p) : p.FloatFree := by
  have hfirst : Point.Meets (fun node => node.isFloatFree = true) (fun m => m.store.FloatFree)
      ⟨.executeAll program, m⟩ := ⟨hprogram, hm⟩
  have hmeets := hfirst.of_reached ExecM.operationsKeep_floatFree hreached
  have hrun := Task.preserves_run ExecM.operationsKeep_floatFree hmeets.nodes
  exact {
    store := hmeets.machine
    ok := fun fuel v? m' h => (hrun fuel p.machine hmeets.machine).1 v? m' h
    error := fun fuel stop m' h => (hrun fuel p.machine hmeets.machine).2 stop m' h }

/-- A program without doubles leaves none in the store, whatever fuel it is given. -/
theorem ExecM.floatFree_interpret {program : List Node} {m : Machine}
    (hprogram : ∀ node ∈ program, node.isFloatFree = true) (hm : m.store.FloatFree) (fuel : Nat) :
    (finalState (interpret fuel program m)).store.FloatFree := by
  obtain ⟨hok, herror⟩ := OperationsKeep.preserves_execAll_of (fun statement hmem =>
    operationsKeep_floatFree.preserves_exec (hprogram statement hmem) fuel) m hm
  unfold interpret
  split
  · next m' hexec => exact (hok () m' hexec).2
  · next fault m' hexec => exact (herror (.fault fault) m' hexec).2
  · next m' hexec => exact (herror .outOfFuel m' hexec).2

/-! ## Exact arithmetic -/

/-- The remainder of a division that rounds down: there is none, or it has the sign of the divisor
and is smaller. -/
theorem sign_fmod (a : Int) {b : Int} (hb : b ≠ 0) :
    a.fmod b = 0 ∨ ((a.fmod b).sign = b.sign ∧ (a.fmod b).natAbs < b.natAbs) := by
  have hnonneg := Int.emod_nonneg a hb
  have hlt := Int.emod_lt a hb
  have hfmod : a.fmod b = a % b + if 0 ≤ b ∨ b ∣ a then 0 else b := Int.fmod_eq_emod
  simp only [Int.dvd_iff_emod_eq_zero] at hfmod
  rcases Int.lt_or_lt_of_ne hb with hneg | hpos
  · -- what is left over the Euclidean remainder is made up by the negative divisor
    by_cases hdvd : a % b = 0
    · exact .inl (by simpa [hdvd] using hfmod)
    · rw [if_neg (by omega)] at hfmod
      refine .inr ⟨?_, by omega⟩
      rw [Int.sign_eq_neg_one_of_neg hneg, Int.sign_eq_neg_one_of_neg (by omega)]
  · rw [if_pos (by omega)] at hfmod
    by_cases hzero : a % b = 0
    · exact .inl (by omega)
    · refine .inr ⟨?_, by omega⟩
      rw [Int.sign_eq_one_of_pos hpos, Int.sign_eq_one_of_pos (by omega)]

/-- The quotient of two integers, and what is left over. -/
theorem applyBinary_divide {lexeme : Lexeme} (h : BinaryOp.ofLexeme? lexeme = some .divide)
    (a : Int) {b : Int} (hb : b ≠ 0) :
    applyBinary lexeme (.value (.number (.int a))) (.value (.number (.int b))) =
      .ok (.number (.int (a.fdiv b))) := by
  have hzero : (Number.int b).isZero = false := by simpa [Number.isZero] using hb
  rw [applyBinary_of_some h]
  simp only [BinaryOp.apply, onNumbers_eq, divideNumbers, hzero]
  rfl

/-- Run on frames without doubles, a program without doubles meets none at any point, whether the
run completes, fails or goes on for ever, and no result is out of range.  The arithmetic of
integers, of any size, is exact, and the quotient of two integers is rounded down. -/
theorem integers_stay_integers :
    (∀ (program : List Node) (m : Machine), (∀ node ∈ program, node.isFloatFree = true) →
      m.store.FloatFree →
        (∀ p, Relation.ReflTransGen Point.Calls ⟨.executeAll program, m⟩ p → p.FloatFree) ∧
        ∀ fuel, (finalState (ExecM.interpret fuel program m)).store.FloatFree) ∧
    (∀ (lexeme : Lexeme) (a b : Int),
      (UnaryOp.ofLexeme? lexeme = some .negate →
        applyUnary lexeme (.number (.int a)) = .ok (.number (.int (-a)))) ∧
      (BinaryOp.ofLexeme? lexeme = some .add →
        applyBinary lexeme (.value (.number (.int a))) (.value (.number (.int b))) =
          .ok (.number (.int (a + b)))) ∧
      (BinaryOp.ofLexeme? lexeme = some .subtract →
        applyBinary lexeme (.value (.number (.int a))) (.value (.number (.int b))) =
          .ok (.number (.int (a - b)))) ∧
      (BinaryOp.ofLexeme? lexeme = some .multiply →
        applyBinary lexeme (.value (.number (.int a))) (.value (.number (.int b))) =
          .ok (.number (.int (a * b)))) ∧
      (BinaryOp.ofLexeme? lexeme = some .divide → b ≠ 0 →
        ∃ q r, applyBinary lexeme (.value (.number (.int a))) (.value (.number (.int b))) =
            .ok (.number (.int q)) ∧
          a = q * b + r ∧ (r = 0 ∨ (r.sign = b.sign ∧ r.natAbs < b.natAbs)))) ∧
    UnaryOp.ofLexeme? (.bare "-") = some .negate ∧
    (∀ text ∈ ["+", "+="], BinaryOp.ofLexeme? (.bare text) = some .add) ∧
    (∀ text ∈ ["-", "-="], BinaryOp.ofLexeme? (.bare text) = some .subtract) ∧
    BinaryOp.ofLexeme? (.bare "*") = some .multiply ∧
    BinaryOp.ofLexeme? (.bare "/") = some .divide := by
  refine ⟨fun program m hprogram hm =>
    ⟨fun p hreached => .of_reached hprogram hm hreached, ExecM.floatFree_interpret hprogram hm⟩,
    fun lexeme a b => ⟨fun h => ?_, fun h => ?_, fun h => ?_, fun h => ?_, fun h hb => ?_⟩,
    rfl, by decide, by decide, rfl, rfl⟩
  · simp only [applyUnary, h]
    rfl
  · rw [applyBinary_of_some h]
    rfl
  · rw [applyBinary_of_some h]
    rfl
  · rw [applyBinary_of_some h]
    rfl
  · refine ⟨a.fdiv b, a.fmod b, applyBinary_divide h a hb, ?_, sign_fmod a hb⟩
    rw [Int.mul_comm]
    exact (Int.mul_fdiv_add_fmod a b).symm

/-- The assignment of a quotient. -/
def halving : Node :=
  .assign (.bare "x")
    (.binary (.unary (.bare "-") (.var (.bare "x"))) (.bare "/")
      (.literal (.value (.number (.int 2)))))

/-- A loop that assigns quotients, and then the use of a name that no frame holds. -/
def halvingProgram : List Node :=
  [.varDecl (.bare "x") (some (.literal (.host (.number (.int 7))))),
   .whileLoop (.binary (.var (.bare "x")) (.bare ">") (.literal (.host (.number (.int 0)))))
     (.block [.expression halving, .print (.literal (.host (.string "halved")))]),
   .print (.var (.bare "y"))]

/-- One frame, without names. -/
def halvingMachine : Machine := ⟨(∅ : Store).push none, 0, false, {}, #[]⟩

/-- The program fails, and has met no double by then: not where the quotient is assigned, and not
in the frames that it leaves. -/
theorem integers_stay_integers_halvingProgram :
    ∃ m, Ends (ExecM.interpret · halvingProgram) halvingMachine (.ok false) m ∧
      m.console.out = #["halved\n"] ∧
      (m.store.bindings 0).get? "x" = some (.number (.int (-4))) ∧ m.store.FloatFree ∧
      ∃ p, Relation.ReflTransGen Point.Calls ⟨.executeAll halvingProgram, halvingMachine⟩ p ∧
        p.task = .evaluate halving ∧ p.FloatFree := by
  have hprogram : ∀ node ∈ halvingProgram, node.isFloatFree = true :=
    List.all_eq_true.1 (by with_unfolding_all rfl)
  have hstore : halvingMachine.store.FloatFree := by
    intro f name v hv
    rw [halvingMachine, Store.bindings_push] at hv
    cases hv
  obtain ⟨hpoints, hinterpret⟩ :=
    integers_stay_integers.1 halvingProgram halvingMachine hprogram hstore
  obtain ⟨m, hend, hout, hx⟩ : ∃ m, ExecM.interpret 3 halvingProgram halvingMachine = .ok false m ∧
      m.console.out = #["halved\n"] ∧
      (m.store.bindings 0).get? "x" = some (.number (.int (-4))) :=
    ⟨_, by with_unfolding_all rfl, by with_unfolding_all rfl, by with_unfolding_all rfl⟩
  have hleft := hinterpret 3
  rw [hend] at hleft
  obtain ⟨p, hreached, htask⟩ : ∃ p,
      Relation.ReflTransGen Point.Calls ⟨.executeAll halvingProgram, halvingMachine⟩ p ∧
        p.task = .evaluate halving := by
    refine ⟨_, .head (.rest ⟨0, by with_unfolding_all rfl⟩) (.head .first (.head .whileLoop
      (.head (.loopBody (by with_unfolding_all rfl)) (.head .block (.head .first
        (.single .expression)))))), rfl⟩
  exact ⟨m, ⟨3, hend⟩, hout, hx, hleft, p, hreached, htask, hpoints p hreached⟩

end Lox
