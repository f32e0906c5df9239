import Lox.Proofs.Scopes.Simulation

/-!
# `for` loops in terms of `while` loops

A `for` loop is a block that executes the initializer and then a `while` loop, whose body ends with
the increment.  Without an increment the two are the same computation.  With one, the body of the
`while` loop is a block of its own, and so each round has a scope that the `for` loop does not
make.  A body that declares nothing in the scope around it leaves this scope empty, and then only
the log and the number of frames tell the two loops apart.
-/

namespace Lox

/-- A `for` loop as a block: the initializer, and then a `while` loop.  With an increment, the body
of this loop is a block of the body and the increment.  The literal stands in for an absent
condition. -/
def Node.asWhile (truth : Datum) (initializer? condition? increment? : Option Node) (body : Node) :
    Node :=
  let condition := condition?.getD (literal truth)
  match increment? with
  | none => block (initializer?.toList ++ [whileLoop condition body])
  | some increment =>
    block (initializer?.toList ++ [whileLoop condition (block [body, expression increment])])

/-! ## Without an increment -/

/-- A condition that is literally true is as good as none. -/
theorem ExecM.test_literal {truth : Datum} (h : truth.coerce = .ok (.bool true)) :
    test (some (.literal truth)) = test none := by
  funext m
  have heval : Node.eval m.active (.literal truth) m.store = .ok (.bool true) m.store := by
    simp only [Node.eval, h]
    rfl
  exact bind_of_ok (evaluate_of_ok heval)

theorem ExecM.test_getD {truth : Datum} (h : truth.coerce = .ok (.bool true))
    (condition? : Option Node) :
    test (some (condition?.getD (.literal truth))) = test condition? := by
  cases condition? with
  | none => exact test_literal h
  | some condition => rfl

theorem Node.execAll_toList_append (fuel : Nat) (node? : Option Node) (rest : List Node) :
    execAll fuel (node?.toList ++ rest) = (do execOption fuel node?; execAll fuel rest) := by
  cases node? with
  | none => exact (pure_bind () fun _ => execAll fuel rest).symm
  | some node => rfl

/-- Without an increment, a `for` loop does what its form as a `while` loop does. -/
theorem Node.exec_asWhile_none {truth : Datum} (htruth : truth.coerce = .ok (.bool true))
    (initializer? condition? : Option Node) (body : Node) (fuel : Nat) :
    (asWhile truth initializer? condition? none body).exec fuel =
      (forLoop initializer? condition? none body).exec fuel := by
  have hround : (do body.exec fuel; ExecM.discard none) = body.exec fuel := bind_pure_unit
  have hloop : execAll fuel [whileLoop (condition?.getD (literal truth)) body] =
      ExecM.repeatWhile (ExecM.test condition?) (body.exec fuel) fuel := by
    rw [← ExecM.test_getD htruth condition?]
    exact bind_pure_unit
  simp only [asWhile, exec, hround]
  rw [execAll_toList_append, hloop]

/-! ## An empty scope -/

namespace Scopes

/-- The second stack has an empty scope more than the first one, inside of which there are as many
scopes as given. -/
inductive Padded : Nat → Scopes → Scopes → Prop
  | here (scopes : Scopes) : Padded 0 scopes (∅ :: scopes)
  | under {depth : Nat} {scopes scopes' : Scopes} (b : Bindings)
      (rest : Padded depth scopes scopes') : Padded (depth + 1) (b :: scopes) (b :: scopes')

namespace Padded
variable {depth : Nat} {scopes scopes' : Scopes}

/-- The empty scope holds no name. -/
theorem lookup?_eq (h : Padded depth scopes scopes') (name : String) :
    lookup? name scopes' = lookup? name scopes := by
  induction h with
  | here scopes => rfl
  | under b _ ih => rw [lookup?_cons, lookup?_cons, ih]

/-- An assignment passes the empty scope. -/
theorem assign? (h : Padded depth scopes scopes') (name : String) (v : Value) :
    (Scopes.assign? name v scopes = none ∧ Scopes.assign? name v scopes' = none) ∨
      ∃ scopes₁ scopes₁', Scopes.assign? name v scopes = some scopes₁ ∧
        Scopes.assign? name v scopes' = some scopes₁' ∧ Padded depth scopes₁ scopes₁' := by
  induction h with
  | here scopes =>
    rw [assign?_cons_of_none (Bindings.get?_empty name)]
    cases hassign : Scopes.assign? name v scopes with
    | none => exact .inl ⟨rfl, rfl⟩
    | some scopes₁ => exact .inr ⟨scopes₁, _, rfl, rfl, .here scopes₁⟩
  | under b rest ih =>
    cases hget : b.get? name with
    | some w =>
      exact .inr ⟨_, _, assign?_cons_of_some hget v _, assign?_cons_of_some hget v _,
        .under (b.insert name v) rest⟩
    | none =>
      rw [assign?_cons_of_none hget, assign?_cons_of_none hget]
      rcases ih with ⟨hnone, hnone'⟩ | ⟨scopes₁, scopes₁', hsome, hsome', h₁⟩
      · exact .inl ⟨by rw [hnone]; rfl, by rw [hnone']; rfl⟩
      · exact .inr ⟨b :: scopes₁, b :: scopes₁', by rw [hsome]; rfl, by rw [hsome']; rfl,
          .under b h₁⟩

end Padded

/-- Runs that define nothing in the empty scope keep it empty. -/
theorem simulation_padded (N : List String) : Simulation N [] id Padded where
  lookup := by
    intro depth name _ scopes scopes' h
    simp only [lookup, id_eq, h.lookup?_eq]
    cases lookup? name.text scopes with
    | none => exact ⟨rfl, h⟩
    | some v => exact ⟨rfl, h⟩
  assign := by
    intro depth name _ v scopes scopes' h
    rcases h.assign? name.text v with ⟨hnone, hnone'⟩ | ⟨scopes₁, scopes₁', hsome, hsome', h₁⟩
    · simp only [assign, id_eq, hnone, hnone']
      exact ⟨rfl, h⟩
    · simp only [assign, id_eq, hsome, hsome']
      exact ⟨rfl, h₁⟩
  define := by
    intro depth name _ hD v scopes scopes' h
    cases h with
    | here scopes => exact absurd (hD rfl) List.not_mem_nil
    | under b rest => exact .under (b.insert name.text v) rest
  push := fun h => .under ∅ h
  pop := by
    intro depth scopes scopes' h
    cases h with
    | under b rest => exact rest

/-- What keeps an empty scope empty does not need it. -/
theorem enclosed_eq_self {body : ScopesM Unit}
    (h : Lockstep (State.Related (Padded 0)) body body) : enclosed body = body := by
  funext state
  have hpadded : State.Related (Padded 0) state { state with scopes := ∅ :: state.scopes } :=
    ⟨.here state.scopes, rfl⟩
  -- dropping the empty scope gives the state of the run without it
  have hdrop : ∀ {s t : State}, State.Related (Padded 0) s t →
      { t with scopes := t.scopes.tail } = s := by
    rintro ⟨scopes, printed⟩ ⟨scopes', printed'⟩ ⟨hscopes, hprinted⟩
    cases hscopes with
    | here scopes =>
      cases hprinted
      rfl
  rcases (h _ _ hpadded).cases with ⟨a, s, t, hs, ht, hst⟩ | ⟨stop, s, t, hs, ht, hst⟩
  · simp only [enclosed, hs, ht, hdrop hst]
  · simp only [enclosed, hs, ht, hdrop hst]

/-! ## With an increment -/

/-- A condition that is literally true is as good as none. -/
theorem holds_getD {truth : Datum} (h : truth.coerce = .ok (.bool true))
    (condition? : Option Node) :
    holds (some (condition?.getD (.literal truth))) = holds condition? := by
  cases condition? with
  | some condition => rfl
  | none =>
    funext state
    have heval : eval (.literal truth) state.scopes = .ok (.bool true) state.scopes := by
      simp only [eval, h]
      rfl
    have hevaluate : evaluate (.literal truth) state = .ok (.bool true) state := by
      simp only [evaluate, heval]
    exact bind_of_ok hevaluate

theorem loop_congr {condition? condition?' : Option Node} {round : ScopesM Unit}
    (h : holds condition? = holds condition?') (rounds : Nat) :
    loop condition? round rounds = loop condition?' round rounds := by
  induction rounds with
  | zero => rfl
  | succ rounds ih => rw [loop, loop, h, ih]

theorem execAll_toList_append (fuel : Nat) (node? : Option Node) (rest : List Node) :
    execAll fuel (node?.toList ++ rest) = (do execOption fuel node?; execAll fuel rest) := by
  cases node? with
  | none => exact (pure_bind () fun _ => execAll fuel rest).symm
  | some node => rfl

/-- A round needs no scope of its own unless its body declares something in it. -/
theorem exec_round {body : Node} (hbody : body.declared = []) (increment : Node) (fuel : Nat) :
    exec fuel (.block [body, .expression increment]) =
      (do exec fuel body; discard (some increment)) := by
  have hround : execAll fuel [body, .expression increment] =
      (do exec fuel body; discard (some increment)) := by
    simp only [execAll, exec, bind_pure_unit]
  have hincrement : Lockstep (State.Related (Padded 0)) (exec fuel (.expression increment))
      (exec fuel (.expression increment)) :=
    (simulation_padded _).exec_self (List.Subset.refl _) (fun _ => List.Subset.refl _) fuel
  rw [exec, hround]
  refine enclosed_eq_self (Lockstep.bind ?_ fun _ => hincrement)
  exact (simulation_padded _).exec_self (List.Subset.refl _)
    (fun _ => hbody ▸ List.Subset.refl []) fuel

/-- With an increment, a `for` loop does to scopes what its form as a `while` loop does. -/
theorem exec_asWhile_some {truth : Datum} (htruth : truth.coerce = .ok (.bool true))
    {body : Node} (hbody : body.declared = []) (initializer? condition? : Option Node)
    (increment : Node) (fuel : Nat) :
    exec fuel (Node.asWhile truth initializer? condition? (some increment) body) =
      exec fuel (.forLoop initializer? condition? (some increment) body) := by
  have hloop : execAll fuel
      [.whileLoop (condition?.getD (.literal truth)) (.block [body, .expression increment])] =
        loop condition? (do exec fuel body; discard (some increment)) fuel := by
    rw [← exec_round hbody, ← loop_congr (holds_getD htruth condition?)]
    exact bind_pure_unit
  simp only [Node.asWhile, exec]
  rw [execAll_toList_append, hloop]

end Scopes

/-! ## Both cases -/

/-- Without an increment, a `for` loop and its form as a `while` loop cannot be told apart: from
every machine they end alike, in the same machine.  With an increment, and a body that declares
nothing outside of blocks and `for` loops in it, the two can take the place of each other. -/
theorem forLoop_desugars (initializer? condition? : Option Node) (body : Node) (truth : Datum)
    (htruth : truth.coerce = .ok (.bool true)) :
    (∀ m outcome m',
      Ends (Node.exec · (.forLoop initializer? condition? none body)) m outcome m' ↔
        Ends (Node.exec · (.asWhile truth initializer? condition? none body)) m outcome m') ∧
    ∀ increment, body.declared = [] →
      Node.Interchangeable (.forLoop initializer? condition? (some increment) body)
        (.asWhile truth initializer? condition? (some increment) body) := by
  refine ⟨fun m outcome m' => ?_, fun increment hbody => ?_⟩
  · simp only [Node.exec_asWhile_none htruth]
  · refine Node.interchangeable_of_exec_eq fun fuel => ?_
    rw [Scopes.exec_asWhile_some htruth hbody]

/-- Declares the name whose value the loop appends. -/
def appendedName : Node := .varDecl (.bare "y") (some (.literal (.host (.string "b"))))

/-- Takes that value away. -/
def forgetAppended : Node := .assign (.bare "y") (.literal (.host .none))

/-- Prints a string and appends to it. -/
def appendingBody : Node :=
  .block [
    .print (.var (.bare "x")),
    .expression (.assign (.bare "x")
      (.binary (.var (.bare "x")) (.bare "+") (.var (.bare "y"))))]

/-- A loop without a condition, which fails in the second round because of the increment after the
first one: as a `while` loop it has printed and assigned the same by then.  Without initializer and
increment it fails in the first round, in the same machine as the `while` loop. -/
theorem forLoop_desugars_appendingBody :
    (∃ fault m₁ m₂,
      Ends (Node.exec · (.forLoop (some appendedName) none (some forgetAppended) appendingBody))
        nestedMachine (.error fault) m₁ ∧
      Ends (Node.exec · (.asWhile (.host (.bool true)) (some appendedName) none
        (some forgetAppended) appendingBody)) nestedMachine (.error fault) m₂ ∧
      m₂.console.out = #["a\n", "ab\n"] ∧
      m₂.store.frames[0]? = some ⟨none, .ofList [("x", .string "ab")]⟩) ∧
    ∃ fault m₁,
      Ends (Node.exec · (.forLoop none none none appendingBody)) nestedMachine (.error fault) m₁ ∧
      Ends (Node.exec · (.asWhile (.host (.bool true)) none none none appendingBody))
        nestedMachine (.error fault) m₁ := by
  constructor
  · obtain ⟨m₁, hfor, hout, hframe⟩ : ∃ m₁, Ends (Node.exec ·
        (.forLoop (some appendedName) none (some forgetAppended) appendingBody)) nestedMachine
        (.error ⟨.numbersOrStringsRequired, .bare "+"⟩) m₁ ∧
        m₁.console.out = #["a\n", "ab\n"] ∧
        m₁.store.frames[0]? = some ⟨none, .ofList [("x", .string "ab")]⟩ :=
      ⟨_, ⟨2, by with_unfolding_all rfl⟩, rfl, by with_unfolding_all rfl⟩
    obtain ⟨hiff, hsame⟩ := (forLoop_desugars (some appendedName) none appendingBody
      (.host (.bool true)) rfl).2 forgetAppended rfl nestedMachine (by decide)
    obtain ⟨outcome, m₂, hwhile⟩ := hiff.1 ⟨_, m₁, hfor⟩
    obtain ⟨rfl, hagree⟩ := hsame _ _ _ _ hfor hwhile
    exact ⟨_, m₁, m₂, hfor, hwhile, by rw [hagree.console_eq, hout],
      by rw [hagree.frames_eq 0 (by decide), hframe]⟩
  · obtain ⟨m₁, hfor⟩ : ∃ m₁, Ends (Node.exec · (.forLoop none none none appendingBody))
        nestedMachine (.error ⟨.undefinedVariable, .bare "y"⟩) m₁ :=
      ⟨_, 1, by with_unfolding_all rfl⟩
    have hwhile := ((forLoop_desugars none none appendingBody (.host (.bool true)) rfl).1
      nestedMachine _ m₁).1 hfor
    exact ⟨_, m₁, hfor, hwhile⟩

end Lox
