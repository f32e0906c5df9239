import Lox.Proofs.Faults
import Lox.Proofs.FixedNames
import Mathlib.Algebra.Order.Floor.Semiring
import Mathlib.Data.Rat.Floor

/-!
# Loops that count

A `for` loop whose header counts a name from one integer up to another, by a positive step, runs
its body once for each value, as long as the body leaves the name alone.  The body may do anything
else: declare other names in the frame of the loop, assign to names further out, contain loops.

The number of rounds does not depend on the body, and in each round the name has the value of that
round, at all points of the body.  The loop ends with the last round, or in the first round in
which the body fails.
-/

namespace Lox

/-- The parts of a header that counts a name from one integer up to another. -/
structure Counter (name : String) (start stop step : Int) where
  declared : { lexeme : Lexeme // lexeme.text = name }
  compared : { lexeme : Lexeme // lexeme.text = name }
  assigned : { lexeme : Lexeme // lexeme.text = name }
  increased : { lexeme : Lexeme // lexeme.text = name }
  less : { lexeme : Lexeme // BinaryOp.ofLexeme? lexeme = some .less }
  plus : { lexeme : Lexeme // BinaryOp.ofLexeme? lexeme = some .add }
  startDatum : { datum : Datum // datum.coerce = .ok (.number (.int start)) }
  stopDatum : { datum : Datum // datum.coerce = .ok (.number (.int stop)) }
  stepDatum : { datum : Datum // datum.coerce = .ok (.number (.int step)) }

namespace Counter
variable {name : String} {start stop step : Int} (c : Counter name start stop step)

/-- Declares the name with the first value. -/
def initializer : Node := .varDecl c.declared (some (.literal c.startDatum))

/-- Whether the name is less than the limit. -/
def condition : Node := .binary (.var c.compared) c.less (.literal c.stopDatum)

/-- Adds the step to the name. -/
def increment : Node :=
  .assign c.assigned (.binary (.var c.increased) c.plus (.literal c.stepDatum))

/-- The loop with this header and the given body. -/
def loop (body : Node) : Node :=
  .forLoop (some c.initializer) (some c.condition) (some c.increment) body

end Counter

/-- How many integers there are from the start to below the stop, in the given steps. -/
def countedRounds (start stop step : Int) : Nat := ⌈((stop - start : Int) : ℚ) / step⌉₊

theorem lt_countedRounds_iff {start stop step : Int} (hstep : 0 < step) {j : Nat} :
    j < countedRounds start stop step ↔ start + j * step < stop := by
  have hpos : (0 : ℚ) < step := Int.cast_pos.2 hstep
  rw [countedRounds, Nat.lt_ceil, lt_div_iff₀ hpos]
  constructor
  · intro h
    have h : (j * step : Int) < stop - start := by exact_mod_cast h
    omega
  · intro h
    have h : (j * step : Int) < stop - start := by omega
    exact_mod_cast h

/-- The first value that is not counted. -/
theorem countedRounds_not_lt {start stop step : Int} (hstep : 0 < step) :
    ¬ start + countedRounds start stop step * step < stop :=
  mt (lt_countedRounds_iff hstep).2 (Nat.lt_irrefl _)

/-- The machine with another value for a name in the active frame. -/
def Machine.define (name : String) (v : Value) (m : Machine) : Machine :=
  { m with store := m.store.define m.active name v }

/-! ## The header -/

namespace Node

theorem eval_literal {datum : Datum} {v : Value} (h : datum.coerce = .ok v) (frame : Nat)
    (store : Store) : (literal datum).eval frame store = .ok v store := by
  simp only [eval, h]
  rfl

/-- The value of a name and that of a literal, combined by an operator. -/
theorem eval_binary_var_literal {operand operator : Lexeme} {datum : Datum} {a b v : Value}
    {frame : Nat} {store : Store} (ha : store.lookup? frame operand.text = some a)
    (hb : datum.coerce = .ok b) (hv : applyBinary operator (.value a) (.value b) = .ok v) :
    (binary (.var operand) operator (.literal datum)).eval frame store = .ok v store := by
  have hvar : (var operand).eval frame store = .ok a store := EvalM.lookup_eq_ok_iff.2 ha
  rw [eval, bind_of_ok hvar, bind_of_ok (eval_literal hb frame store), hv]
  rfl

end Node

namespace Counter
variable {name : String} {start stop step : Int} (c : Counter name start stop step)

theorem exec_initializer (fuel : Nat) (m : Machine) :
    c.initializer.exec fuel m = .ok () (m.define name (.number (.int start))) := by
  have heval := Node.eval_literal c.startDatum.2 m.active m.store
  rw [initializer, Node.exec, bind_of_ok (ExecM.evaluate_of_ok heval), c.declared.2]
  rfl

theorem test_condition {m : Machine} {n : Int}
    (h : m.store.lookup? m.active name = some (.number (.int n))) :
    ExecM.test (some c.condition) m = .ok (decide (n < stop)) m := by
  have hless : applyBinary c.less (.value (.number (.int n))) (.value (.number (.int stop))) =
      .ok (.bool (decide (n < stop))) := by
    rw [applyBinary_of_some c.less.2]
    simp [BinaryOp.apply, onNumbers_eq, comparison, Number.less, Number.compare?, beq_eq_decide,
      Except.mapError, compare_lt_iff_lt]
  have heval : c.condition.eval m.active m.store = .ok (.bool (decide (n < stop))) m.store :=
    Node.eval_binary_var_literal (by rw [c.compared.2, h]) c.stopDatum.2 hless
  exact bind_of_ok (ExecM.evaluate_of_ok heval)

theorem discard_increment {m : Machine} {n : Int}
    (h : m.store.Fixes m.active name (.number (.int n))) :
    ExecM.discard (some c.increment) m = .ok () (m.define name (.number (.int (n + step)))) := by
  have hlookup := h.lookup?_eq (m.store.mem_chain_self m.active)
  have hplus : applyBinary c.plus (.value (.number (.int n))) (.value (.number (.int step))) =
      .ok (.number (.int (n + step))) := by
    rw [applyBinary_of_some c.plus.2]
    rfl
  have hsum : (Node.binary (.var c.increased) c.plus (.literal c.stepDatum)).eval m.active m.store =
      .ok (.number (.int (n + step))) m.store :=
    Node.eval_binary_var_literal (by rw [c.increased.2, hlookup]) c.stepDatum.2 hplus
  have howner : m.store.IsOwner m.active c.assigned.1.text m.active := by
    rw [c.assigned.2]
    exact h.isOwner (m.store.mem_chain_self m.active)
  have heval : c.increment.eval m.active m.store = .ok (.number (.int (n + step)))
      (m.store.define m.active name (.number (.int (n + step)))) := by
    rw [increment, Node.eval, bind_of_ok hsum, EvalM.assign_of_isOwner howner, c.assigned.2]
  exact bind_of_ok (ExecM.evaluate_of_ok heval)

end Counter

/-! ## Rounds -/

/-- The machine on which the body begins the round with a given number: the first round in a new
frame inside the active one, where the name has the first value, and each later one after the body
has come to the end of the round before, with the next value. -/
inductive RoundBegins (name : String) (start step : Int) (body : Node) (m : Machine) :
    Nat → Machine → Prop
  | first : RoundBegins name start step body m 0 (m.nested.define name (.number (.int start)))
  | next {j : Nat} {m₁ m₂ : Machine} (begins : RoundBegins name start step body m j m₁)
    (ends : Ends body.exec m₁ (.ok ()) m₂) :
    RoundBegins name start step body m (j + 1)
      (m₂.define name (.number (.int (start + (j + 1 : Nat) * step))))

section
variable {name : String} {start stop step : Int} {body : Node} {m m₁ m₂ : Machine} {j : Nat}

/-- There is one machine on which a round can begin. -/
theorem RoundBegins.unique (h : RoundBegins name start step body m j m₁)
    (h' : RoundBegins name start step body m j m₂) : m₁ = m₂ := by
  induction h generalizing m₂ with
  | first =>
    cases h'
    rfl
  | next begins ends ih =>
    cases h' with
    | next begins' ends' =>
      obtain rfl := ih begins'
      obtain ⟨-, rfl⟩ := ends.unique (Node.fuelMonotone_exec body) ends'
      rfl

/-- In each round, the active frame fixes the name, with the value of the round. -/
theorem RoundBegins.fixes (hname : name ∉ body.bound)
    (h : RoundBegins name start step body m j m₁) :
    m₁.store.Fixes m₁.active name (.number (.int (start + j * step))) := by
  induction h with
  | first =>
    have hnested : m.nested.store.size = m.nested.active + 1 := by simp
    simpa [Machine.define] using Store.Fixes.of_newest hnested (.number (.int start))
  | next begins ends ih => exact (Node.fixes_of_ends hname ih ends).define _

/-- At every point of the body, the name stands for the value of the round. -/
theorem RoundBegins.lookup?_eq (hname : name ∉ body.bound)
    (h : RoundBegins name start step body m j m₁) {p : Point}
    (hreached : Relation.ReflTransGen Point.Calls ⟨.execute body, m₁⟩ p) :
    p.machine.store.lookup? p.machine.active name = some (.number (.int (start + j * step))) :=
  Point.lookup?_of_reached (p := ⟨.execute body, m₁⟩) (List.forall_mem_singleton.2 hname)
    (h.fixes hname) hreached

/-! ## The loop -/

variable (c : Counter name start stop step)

/-- The rounds of the loop, of which there are at most the given number. -/
def Counter.repeats (body : Node) (fuel rounds : Nat) : ExecM Unit :=
  ExecM.repeatWhile (ExecM.test (some c.condition))
    (do
      body.exec fuel
      ExecM.discard (some c.increment))
    rounds

theorem Counter.test_of_begins (hname : name ∉ body.bound)
    (h : RoundBegins name start step body m j m₁) :
    ExecM.test (some c.condition) m₁ = .ok (decide (start + j * step < stop)) m₁ :=
  c.test_condition ((h.fixes hname).lookup?_eq (m₁.store.mem_chain_self m₁.active))

/-- A round in which the body comes to its end is followed by the next one. -/
theorem Counter.repeats_of_ok (hname : name ∉ body.bound)
    (h : RoundBegins name start step body m j m₁) (hlt : start + j * step < stop) {fuel : Nat}
    (hbody : body.exec fuel m₁ = .ok () m₂) (rounds : Nat) :
    c.repeats body fuel (rounds + 1) m₁ = c.repeats body fuel rounds
      (m₂.define name (.number (.int (start + (j + 1 : Nat) * step)))) := by
  have htest := c.test_of_begins hname h
  rw [decide_eq_true hlt] at htest
  have hincrement := c.discard_increment (Node.fixes_of_ends hname (h.fixes hname) ⟨fuel, hbody⟩)
  have hvalue : start + j * step + step = start + (j + 1 : Nat) * step := by
    push_cast
    ring
  rw [hvalue] at hincrement
  have hround : (do body.exec fuel; ExecM.discard (some c.increment)) m₁ = .ok () _ :=
    (bind_of_ok hbody).trans hincrement
  rw [repeats, ExecM.repeatWhile, bind_of_ok htest]
  exact bind_of_ok hround

/-- A round in which the body fails is the last one. -/
theorem Counter.repeats_of_error (hname : name ∉ body.bound)
    (h : RoundBegins name start step body m j m₁) (hlt : start + j * step < stop) {fuel : Nat}
    {reason : Stop} (hbody : body.exec fuel m₁ = .error reason m₂) (rounds : Nat) :
    c.repeats body fuel (rounds + 1) m₁ = .error reason m₂ := by
  have htest := c.test_of_begins hname h
  rw [decide_eq_true hlt] at htest
  rw [repeats, ExecM.repeatWhile, bind_of_ok htest]
  exact bind_of_error (bind_of_error hbody)

/-- Once the limit is reached there are no more rounds. -/
theorem Counter.repeats_of_not_lt (hname : name ∉ body.bound)
    (h : RoundBegins name start step body m j m₁) (hlt : ¬ start + j * step < stop)
    (fuel rounds : Nat) : c.repeats body fuel (rounds + 1) m₁ = .ok () m₁ := by
  have htest := c.test_of_begins hname h
  rw [decide_eq_false hlt] at htest
  rw [repeats, ExecM.repeatWhile, bind_of_ok htest]
  rfl

/-- From the first round on, the loop comes to every round that begins. -/
theorem Counter.repeats_of_begins (hstep : 0 < step) (hname : name ∉ body.bound)
    (h : RoundBegins name start step body m j m₁) (hj : j ≤ countedRounds start stop step) :
    ∃ enough, ∀ fuel, enough ≤ fuel → ∀ rounds,
      c.repeats body fuel (rounds + j) (m.nested.define name (.number (.int start))) =
        c.repeats body fuel rounds m₁ := by
  induction h with
  | first => exact ⟨0, fun fuel _ rounds => rfl⟩
  | @next j m₁ m₂ begins ends ih =>
    obtain ⟨n, hn⟩ := ih (by omega)
    obtain ⟨n', hn'⟩ := ends.exists_forall_le (Node.fuelMonotone_exec body)
    have hlt := (lt_countedRounds_iff hstep).1 (Nat.lt_of_succ_le hj)
    refine ⟨max n n', fun fuel hle rounds => ?_⟩
    rw [show rounds + (j + 1) = rounds + 1 + j by omega, hn fuel (by omega)]
    exact c.repeats_of_ok hname begins hlt (hn' fuel (by omega)) rounds

/-- The rounds end after the last one, or in one in which the body fails. -/
theorem Counter.repeats_cases (hstep : 0 < step) (hname : name ∉ body.bound)
    (h : RoundBegins name start step body m j m₁) (hj : j ≤ countedRounds start stop step)
    {fuel rounds : Nat} {outcome : Except Fault Unit}
    (hends : c.repeats body fuel rounds m₁ = endedIn outcome m₂) :
    (outcome = .ok () ∧ RoundBegins name start step body m (countedRounds start stop step) m₂) ∨
      ∃ i < countedRounds start stop step, ∃ m₃ fault,
        RoundBegins name start step body m i m₃ ∧ Ends body.exec m₃ (.error fault) m₂ ∧
          outcome = .error fault := by
  induction rounds generalizing j m₁ with
  | zero => exact absurd hends.symm (endedIn_ne_outOfFuel outcome m₂ m₁)
  | succ rounds ih =>
    rcases Nat.lt_or_eq_of_le hj with hlt | rfl
    · have hvalue := (lt_countedRounds_iff hstep).1 hlt
      cases hbody : body.exec fuel m₁ with
      | ok _ m₃ =>
        rw [c.repeats_of_ok hname h hvalue hbody] at hends
        exact ih (.next h ⟨fuel, hbody⟩) hlt hends
      | error reason m₃ =>
        rw [c.repeats_of_error hname h hvalue hbody] at hends
        cases reason with
        | outOfFuel => exact absurd hends.symm (endedIn_ne_outOfFuel outcome m₂ m₃)
        | fault fault =>
          obtain ⟨rfl, rfl⟩ := endedIn_inj (o := .error fault) hends
          exact .inr ⟨j, hlt, m₁, fault, h, ⟨fuel, hbody⟩, rfl⟩
    · rw [c.repeats_of_not_lt hname h (countedRounds_not_lt hstep)] at hends
      obtain ⟨rfl, rfl⟩ := endedIn_inj (o := .ok ()) hends
      exact .inl ⟨rfl, h⟩

/-- The loop is the rounds, in a scope of their own. -/
theorem Counter.exec_loop_eq_iff {fuel : Nat} {outcome : Except Fault Unit} {m' : Machine} :
    (c.loop body).exec fuel m = endedIn outcome m' ↔
      ∃ m₁, c.repeats body fuel fuel (m.nested.define name (.number (.int start))) =
        endedIn outcome m₁ ∧ m' = m₁.leave m.active := by
  rw [loop, Node.exec, ExecM.withNewScope_eq_endedIn_iff, Node.execOption,
    bind_of_ok (c.exec_initializer fuel m.nested)]
  rfl

/-- The loop ends once the last round is over. -/
theorem Counter.ends_loop_ok (hstep : 0 < step) (hname : name ∉ body.bound)
    (h : RoundBegins name start step body m (countedRounds start stop step) m₁) :
    Ends (c.loop body).exec m (.ok ()) (m₁.leave m.active) := by
  obtain ⟨n, hn⟩ := c.repeats_of_begins hstep hname h (Nat.le_refl _)
  refine ⟨n + 1 + countedRounds start stop step, c.exec_loop_eq_iff.2 ⟨m₁, ?_, rfl⟩⟩
  rw [hn _ (by omega), c.repeats_of_not_lt hname h (countedRounds_not_lt hstep)]
  rfl

/-- The loop ends in a round in which the body fails. -/
theorem Counter.ends_loop_error (hstep : 0 < step) (hname : name ∉ body.bound)
    (hj : j < countedRounds start stop step) (h : RoundBegins name start step body m j m₁)
    {fault : Fault} (hbody : Ends body.exec m₁ (.error fault) m₂) :
    Ends (c.loop body).exec m (.error fault) (m₂.leave m.active) := by
  obtain ⟨n, hn⟩ := c.repeats_of_begins hstep hname h (Nat.le_of_lt hj)
  obtain ⟨n', hn'⟩ := hbody.exists_forall_le (Node.fuelMonotone_exec body)
  have hvalue := (lt_countedRounds_iff hstep).1 hj
  refine ⟨n + n' + 1 + j, c.exec_loop_eq_iff.2 ⟨m₂, ?_, rfl⟩⟩
  rw [hn _ (by omega), c.repeats_of_error hname h hvalue (hn' _ (by omega))]
  rfl

/-- Where the body comes to an end in each round, every round begins, unless the body fails
before. -/
theorem RoundBegins.exists_or_error {n : Nat}
    (hbody : ∀ i < n, ∀ m₁, RoundBegins name start step body m i m₁ → Terminates body.exec m₁) :
    (∃ m₁, RoundBegins name start step body m n m₁) ∨
      ∃ i < n, ∃ m₁ fault m₂, RoundBegins name start step body m i m₁ ∧
        Ends body.exec m₁ (.error fault) m₂ := by
  induction n with
  | zero => exact .inl ⟨_, .first⟩
  | succ n ih =>
    rcases ih fun i hi => hbody i (Nat.lt_succ_of_lt hi) with ⟨m₁, h⟩ | ⟨i, hi, herror⟩
    · obtain ⟨outcome, m₂, hends⟩ := hbody n (Nat.lt_succ_self n) m₁ h
      cases outcome with
      | ok => exact .inl ⟨_, .next h hends⟩
      | error fault => exact .inr ⟨n, Nat.lt_succ_self n, m₁, fault, m₂, h, hends⟩
    · exact .inr ⟨i, Nat.lt_succ_of_lt hi, herror⟩

end

/-- A loop that counts a name which its body neither assigns nor declares, at any depth.  The loop
ends after the last round, or in a round in which the body fails, and in no other way.  There is one
way for a round to begin, and at each point of it the name stands for the value of that round.  If
the body always comes to an end so does the loop, and after the last round if the body never
fails. -/
theorem counted_loop {name : String} {start stop step : Int} (hstep : 0 < step)
    (c : Counter name start stop step) (body : Node) (hname : name ∉ body.bound) (m : Machine) :
    (∀ outcome m', Ends (c.loop body).exec m outcome m' ↔
      (outcome = .ok () ∧ ∃ m₁,
        RoundBegins name start step body m (countedRounds start stop step) m₁ ∧
          m' = m₁.leave m.active) ∨
      ∃ j < countedRounds start stop step, ∃ m₁ fault m₂,
        RoundBegins name start step body m j m₁ ∧ Ends body.exec m₁ (.error fault) m₂ ∧
          outcome = .error fault ∧ m' = m₂.leave m.active) ∧
    (∀ j m₁ m₂, RoundBegins name start step body m j m₁ →
      RoundBegins name start step body m j m₂ → m₁ = m₂) ∧
    (∀ j m₁, RoundBegins name start step body m j m₁ →
      ∀ p, Relation.ReflTransGen Point.Calls ⟨.execute body, m₁⟩ p →
        p.machine.store.lookup? p.machine.active name =
          some (.number (.int (start + j * step)))) ∧
    ((∀ j < countedRounds start stop step, ∀ m₁, RoundBegins name start step body m j m₁ →
      Terminates body.exec m₁) → Terminates (c.loop body).exec m) ∧
    ((∀ j < countedRounds start stop step, ∀ m₁, RoundBegins name start step body m j m₁ →
      ∃ m₂, Ends body.exec m₁ (.ok ()) m₂) →
        ∃ m₁, RoundBegins name start step body m (countedRounds start stop step) m₁ ∧
          Ends (c.loop body).exec m (.ok ()) (m₁.leave m.active)) := by
  refine ⟨fun outcome m' => ⟨?_, ?_⟩, fun j m₁ m₂ h h' => h.unique h',
    fun j m₁ h p hp => h.lookup?_eq hname hp, ?_, ?_⟩
  · rintro ⟨fuel, hfuel⟩
    obtain ⟨m₁, hrounds, rfl⟩ := c.exec_loop_eq_iff.1 hfuel
    rcases c.repeats_cases hstep hname .first (Nat.zero_le _) hrounds with
      ⟨houtcome, hlast⟩ | ⟨j, hj, m₃, fault, h, hbody, houtcome⟩
    · exact .inl ⟨houtcome, m₁, hlast, rfl⟩
    · exact .inr ⟨j, hj, m₃, fault, m₁, h, hbody, houtcome, rfl⟩
  · rintro (⟨rfl, m₁, h, rfl⟩ | ⟨j, hj, m₁, fault, m₂, h, hbody, rfl, rfl⟩)
    · exact c.ends_loop_ok hstep hname h
    · exact c.ends_loop_error hstep hname hj h hbody
  · intro hbody
    rcases RoundBegins.exists_or_error hbody with ⟨m₁, h⟩ | ⟨j, hj, m₁, fault, m₂, h, herror⟩
    · exact ⟨_, _, c.ends_loop_ok hstep hname h⟩
    · exact ⟨_, _, c.ends_loop_error hstep hname hj h herror⟩
  · intro hbody
    have hterminates : ∀ j < countedRounds start stop step, ∀ m₁,
        RoundBegins name start step body m j m₁ → Terminates body.exec m₁ := by
      intro j hj m₁ h
      obtain ⟨m₂, hends⟩ := hbody j hj m₁ h
      exact ⟨_, m₂, hends⟩
    rcases RoundBegins.exists_or_error hterminates with ⟨m₁, h⟩ | ⟨j, hj, m₁, fault, m₂, h, herror⟩
    · exact ⟨m₁, h, c.ends_loop_ok hstep hname h⟩
    · obtain ⟨m₃, hends⟩ := hbody j hj m₁ h
      obtain ⟨houtcome, -⟩ := hends.unique (Node.fuelMonotone_exec body) herror
      cases houtcome

/-- A header that counts from 7 in steps of 5. -/
def countByFive (stop : Int) : Counter "i" 7 stop 5 where
  declared := ⟨.bare "i", rfl⟩
  compared := ⟨.bare "i", rfl⟩
  assigned := ⟨.bare "i", rfl⟩
  increased := ⟨.bare "i", rfl⟩
  less := ⟨.bare "<", by decide⟩
  plus := ⟨.bare "+", by decide⟩
  startDatum := ⟨.host (.number (.int 7)), rfl⟩
  stopDatum := ⟨.host (.number (.int stop)), rfl⟩
  stepDatum := ⟨.host (.number (.int 5)), rfl⟩

/-- A declaration in the frame of the loop, with an assignment further out.  It fails where the
counted name is 17. -/
def quotientBody : Node :=
  .varDecl (.bare "last") (some (.assign (.bare "x")
    (.binary (.var (.bare "x")) (.bare "+")
      (.binary (.literal (.host (.number (.int 60)))) (.bare "/")
        (.binary (.literal (.host (.number (.int 17)))) (.bare "-") (.var (.bare "i")))))))

/-- One frame, which holds a name. -/
def countingMachine : Machine :=
  ⟨((∅ : Store).push none).define 0 "x" (.number (.int 0)), 0, false, {}, #[]⟩

/-- Below 17 there are two values to count, and the loop comes to its end; below 18 there are
three, and the body fails in the last round. -/
theorem counted_loop_quotients :
    (0 < (5 : Int) ∧ "i" ∉ quotientBody.bound) ∧
    countedRounds 7 17 5 = 2 ∧ countedRounds 7 18 5 = 3 ∧
    (∃ m₁, Ends ((countByFive 17).loop quotientBody).exec countingMachine (.ok ()) m₁ ∧
      (m₁.store.bindings 0).get? "x" = some (.number (.int 18))) ∧
    ∃ m₁ fault, ∃ m₂ : Machine, RoundBegins "i" 7 5 quotientBody countingMachine 2 m₁ ∧
      m₁.store.lookup? m₁.active "i" = some (.number (.int 17)) ∧
      fault.cause = .divisionByZero ∧
      Ends ((countByFive 18).loop quotientBody).exec countingMachine (.error fault) m₂ ∧
      (m₂.store.bindings 0).get? "x" = some (.number (.int 18)) := by
  have hname : "i" ∉ quotientBody.bound := by with_unfolding_all decide
  have htwo : countedRounds 7 17 5 = 2 := by norm_num [countedRounds]
  have hthree : countedRounds 7 18 5 = 3 := by rw [countedRounds, Nat.ceil_eq_iff] <;> norm_num
  -- the first two rounds are the same in both loops
  obtain ⟨m₁, hm₁, hx, fault, m₂, hfault, hcause, hx'⟩ : ∃ m₁,
      RoundBegins "i" 7 5 quotientBody countingMachine 2 m₁ ∧
      (m₁.store.bindings 0).get? "x" = some (.number (.int 18)) ∧
      ∃ fault m₂, Ends quotientBody.exec m₁ (.error fault) m₂ ∧ fault.cause = .divisionByZero ∧
        (m₂.store.bindings 0).get? "x" = some (.number (.int 18)) :=
    ⟨_, .next (.next .first ⟨0, by with_unfolding_all rfl⟩) ⟨0, by with_unfolding_all rfl⟩,
      by with_unfolding_all rfl, _, _, ⟨0, by with_unfolding_all rfl⟩, rfl,
      by with_unfolding_all rfl⟩
  obtain ⟨hends, -, hpoints, -⟩ :=
    counted_loop (by decide) (countByFive 17) quotientBody hname countingMachine
  obtain ⟨hends', -⟩ :=
    counted_loop (by decide) (countByFive 18) quotientBody hname countingMachine
  refine ⟨⟨by decide, hname⟩, htwo, hthree, ⟨m₁.leave 0, ?_, hx⟩, m₁, fault, m₂.leave 0, hm₁, ?_,
    hcause, ?_, hx'⟩
  · rw [hends, htwo]
    exact .inl ⟨rfl, m₁, hm₁, rfl⟩
  · exact hpoints 2 m₁ hm₁ ⟨.execute quotientBody, m₁⟩ .refl
  · rw [hends', hthree]
    exact .inr ⟨2, Nat.lt_succ_self 2, m₁, fault, m₂, hm₁, hfault, rfl, rfl⟩

end Lox
