import Lox.Proofs.Scopes.Refinement

/-!
# Two runs on stacks of scopes

Some questions compare a run of a statement with another one: of the same statement on another
stack of scopes, or of the statement with other names.  What they have in common is a relation
between the two stacks for every number of scopes that were pushed since the runs began.  Where
looking up, assigning and defining a name keep the two stacks related, and pushing and dropping a
scope lead from each relation to the next one and back, the two runs end alike.  The induction over
expressions and statements is made here, for any such family of relations.

Statements that do the same on every stack of scopes can take the place of each other in a store
of frames: nobody who knew the frames before can tell which of the two was executed.

## Main definitions

* `Node.mapNames` — a node with other names.
* `Scopes.Simulation` — families of relations that runs keep.
* `Node.Interchangeable` — statements with the same effect on all frames that were there before.
-/

namespace Lox

/-! ## Other names -/

namespace Node

mutual

/-- The node with every name in it replaced, be it looked up, assigned or declared. -/
def mapNames (ρ : Lexeme → Lexeme) : Node → Node
  | literal datum => literal datum
  | grouping inner => grouping (inner.mapNames ρ)
  | unary operator right => unary operator (right.mapNames ρ)
  | binary left operator right => binary (left.mapNames ρ) operator (right.mapNames ρ)
  | logical left operator right => logical (left.mapNames ρ) operator (right.mapNames ρ)
  | ternary condition first second =>
    ternary (condition.mapNames ρ) (first.mapNames ρ) (second.mapNames ρ)
  | var name => var (ρ name)
  | assign name source => assign (ρ name) (source.mapNames ρ)
  | expression inner => expression (inner.mapNames ρ)
  | print inner => print (inner.mapNames ρ)
  | varDecl name initializer? => varDecl (ρ name) (mapNamesOption ρ initializer?)
  | block statements => block (mapNamesAll ρ statements)
  | ifElse condition thenBranch elseBranch? =>
    ifElse (condition.mapNames ρ) (thenBranch.mapNames ρ) (mapNamesOption ρ elseBranch?)
  | whileLoop condition body => whileLoop (condition.mapNames ρ) (body.mapNames ρ)
  | forLoop initializer? condition? increment? body =>
    forLoop (mapNamesOption ρ initializer?) (mapNamesOption ρ condition?)
      (mapNamesOption ρ increment?) (body.mapNames ρ)
  | foreign className => foreign className

/-- As `mapNames`, for a node that may be absent. -/
def mapNamesOption (ρ : Lexeme → Lexeme) : Option Node → Option Node
  | some node => some (node.mapNames ρ)
  | none => none

/-- As `mapNames`, for each of several nodes. -/
def mapNamesAll (ρ : Lexeme → Lexeme) : List Node → List Node
  | [] => []
  | node :: rest => node.mapNames ρ :: mapNamesAll ρ rest

end

variable (ρ : Lexeme → Lexeme)

@[simp] theorem mapNamesOption_eq (node? : Option Node) :
    mapNamesOption ρ node? = node?.map (mapNames ρ) := by
  cases node? <;> rfl

@[simp] theorem mapNamesAll_eq (nodes : List Node) :
    mapNamesAll ρ nodes = nodes.map (mapNames ρ) := by
  induction nodes with
  | nil => rfl
  | cons node rest ih => rw [mapNamesAll, ih, List.map_cons]

/-- Other names do not make another kind of node. -/
theorem isExpression_mapNames (node : Node) :
    (node.mapNames ρ).isExpression = node.isExpression := by
  cases node <;> rfl

theorem isStatement_mapNames (node : Node) : (node.mapNames ρ).isStatement = node.isStatement := by
  cases node <;> rfl

theorem className_mapNames (node : Node) : (node.mapNames ρ).className = node.className := by
  cases node <;> rfl

/-- To replace every name by itself changes nothing. -/
theorem mapNames_id (node : Node) : node.mapNames id = node := by
  induction node using childInduction with
  | step node ih =>
    have hsome : ∀ node? : Option Node, (∀ child ∈ node?.toList, child ∈ node.children) →
        node?.map (mapNames id) = node? := by
      intro node? h
      cases node? with
      | none => rfl
      | some child => rw [Option.map_some, ih child (h child (by simp))]
    cases node with
    | literal | var | foreign => rfl
    | block statements =>
      have hall : statements.map (mapNames id) = statements.map id :=
        List.map_congr_left fun child h => ih child (by simpa using h)
      rw [mapNames, mapNamesAll_eq, hall, List.map_id]
    | varDecl name initializer? =>
      rw [mapNames, mapNamesOption_eq, hsome initializer? (by simp)]
      rfl
    | ifElse condition thenBranch elseBranch? =>
      rw [mapNames, mapNamesOption_eq, ih condition (by simp), ih thenBranch (by simp),
        hsome elseBranch? (by simp +contextual)]
    | forLoop initializer? condition? increment? body =>
      rw [mapNames, mapNamesOption_eq, mapNamesOption_eq, mapNamesOption_eq, ih body (by simp),
        hsome initializer? (by simp +contextual), hsome condition? (by simp +contextual),
        hsome increment? (by simp +contextual)]
    | grouping | unary | binary | logical | ternary | assign | expression | print | whileLoop =>
      simp only [mapNames]
      simp [ih]

end Node

/-! ## Simulations -/

namespace Scopes

/-- A family of relations between stacks that two runs keep, one relation for every number of
scopes pushed since the runs began.  The names of the first run are among `N`, those of the second
one are given by `ρ`, and what is defined before any scope is pushed is among `D`. -/
structure Simulation (N D : List String) (ρ : Lexeme → Lexeme)
    (R : Nat → Scopes → Scopes → Prop) : Prop where
  lookup : ∀ {depth : Nat} {name : Lexeme}, name.text ∈ N →
    Lockstep (R depth) (lookup name) (lookup (ρ name))
  assign : ∀ {depth : Nat} {name : Lexeme}, name.text ∈ N → ∀ v,
    Lockstep (R depth) (assign name v) (assign (ρ name) v)
  define : ∀ {depth : Nat} {name : Lexeme}, name.text ∈ N → (depth = 0 → name.text ∈ D) →
    ∀ v {scopes scopes' : Scopes}, R depth scopes scopes' →
      R depth (define name.text v scopes) (define (ρ name).text v scopes')
  push : ∀ {depth : Nat} {scopes scopes' : Scopes}, R depth scopes scopes' →
    R (depth + 1) (∅ :: scopes) (∅ :: scopes')
  pop : ∀ {depth : Nat} {scopes scopes' : Scopes}, R (depth + 1) scopes scopes' →
    R depth scopes.tail scopes'.tail

/-- The states have related stacks of scopes, and the same was printed. -/
structure State.Related (R : Scopes → Scopes → Prop) (state state' : State) : Prop where
  scopes : R state.scopes state'.scopes
  printed_eq : state.printed = state'.printed

/-! ### Parts of statements

Two statements run in lockstep where their parts do. -/

section
variable {R : Scopes → Scopes → Prop}

theorem lockstep_ofExcept (result : Except Fault Value) :
    Lockstep R (ofExcept result) (ofExcept result) := by
  cases result with
  | ok v => exact Lockstep.pure v
  | error fault => exact Lockstep.throw fault

theorem lockstep_evaluate {node node' : Node} (h : Lockstep R (eval node) (eval node')) :
    Lockstep (State.Related R) (evaluate node) (evaluate node') := by
  intro state state' hstate
  rcases (h _ _ hstate.scopes).cases with
    ⟨v, scopes, scopes', heval, heval', hR⟩ | ⟨fault, scopes, scopes', heval, heval', hR⟩
  · simp only [evaluate, heval, heval']
    exact ⟨rfl, hR, hstate.printed_eq⟩
  · simp only [evaluate, heval, heval']
    exact ⟨rfl, hR, hstate.printed_eq⟩

theorem lockstep_holds {f : Node → Node} {condition? : Option Node}
    (h : ∀ condition ∈ condition?, Lockstep R (eval condition) (eval (f condition))) :
    Lockstep (State.Related R) (holds condition?) (holds (condition?.map f)) := by
  cases condition? with
  | none => exact Lockstep.pure true
  | some condition => exact (lockstep_evaluate (h condition rfl)).bind fun v => Lockstep.pure _

theorem lockstep_discard {f : Node → Node} {node? : Option Node}
    (h : ∀ node ∈ node?, Lockstep R (eval node) (eval (f node))) :
    Lockstep (State.Related R) (discard node?) (discard (node?.map f)) := by
  cases node? with
  | none => exact Lockstep.pure ()
  | some node => exact (lockstep_evaluate (h node rfl)).bind fun _ => Lockstep.pure ()

theorem lockstep_printLine (v : Value) :
    Lockstep (State.Related R) (printLine v) (printLine v) := by
  intro state state' h
  refine ⟨rfl, h.scopes, ?_⟩
  change state.printed.push _ = state'.printed.push _
  rw [h.printed_eq]

theorem lockstep_loop {condition? condition?' : Option Node} {round round' : ScopesM Unit}
    (hholds : Lockstep (State.Related R) (holds condition?) (holds condition?'))
    (hround : Lockstep (State.Related R) round round') (rounds : Nat) :
    Lockstep (State.Related R) (loop condition? round rounds) (loop condition?' round' rounds) := by
  induction rounds with
  | zero => exact Lockstep.throw _
  | succ rounds ih =>
    refine hholds.bind fun holds => ?_
    cases holds with
    | true => exact hround.bind fun _ => ih
    | false => exact Lockstep.pure ()

theorem lockstep_execOption {f : Node → Node} {fuel : Nat} {node? : Option Node}
    (h : ∀ node ∈ node?,
      Lockstep (State.Related R) (exec fuel node) (exec fuel (f node))) :
    Lockstep (State.Related R) (execOption fuel node?) (execOption fuel (node?.map f)) := by
  cases node? with
  | none => exact Lockstep.pure ()
  | some node => exact h node rfl

theorem lockstep_execAll {f : Node → Node} {fuel : Nat} {statements : List Node}
    (h : ∀ statement ∈ statements,
      Lockstep (State.Related R) (exec fuel statement) (exec fuel (f statement))) :
    Lockstep (State.Related R) (execAll fuel statements) (execAll fuel (statements.map f)) := by
  induction statements with
  | nil => exact Lockstep.pure ()
  | cons statement rest ih =>
    exact (h statement List.mem_cons_self).bind fun _ =>
      ih fun other hother => h other (List.mem_cons_of_mem _ hother)

end

/-! ### Whole statements -/

namespace Simulation
variable {N D : List String} {ρ : Lexeme → Lexeme} {R : Nat → Scopes → Scopes → Prop}
variable {depth : Nat}

/-- An expression and the one with other names give the same value or fault. -/
theorem eval (h : Simulation N D ρ R) {node : Node} (hN : node.names ⊆ N) :
    Lockstep (R depth) (eval node) (eval (node.mapNames ρ)) := by
  induction node using Node.expressionInduction with
  | literal datum => exact lockstep_ofExcept _
  | grouping inner ih => exact ih (Node.names_subset hN (by simp))
  | unary operator right ih =>
    exact (ih (Node.names_subset hN (by simp))).bind fun v => lockstep_ofExcept _
  | binary left operator right ihl ihr =>
    exact (ihl (Node.names_subset hN (by simp))).bind fun a =>
      (ihr (Node.names_subset hN (by simp))).bind fun b => lockstep_ofExcept _
  | logical left operator right ihl ihr =>
    rw [Node.mapNames, eval_logical, eval_logical]
    refine (ihl (Node.names_subset hN (by simp))).bind fun v => ?_
    have ihr := ihr (Node.names_subset hN (by simp))
    cases LogicalOp.ofLexeme? operator with
    | none => exact Lockstep.throw _
    | some op =>
      dsimp only
      cases op.settledBy v with
      | true => exact Lockstep.pure v
      | false => exact ihr
  | ternary condition first second ihc ihf ihs =>
    refine (ihc (Node.names_subset hN (by simp))).bind fun v => ?_
    cases v.isTruthy with
    | true => exact ihf (Node.names_subset hN (by simp))
    | false => exact ihs (Node.names_subset hN (by simp))
  | var name => exact h.lookup (hN (Node.ownName_mem_names rfl))
  | assign name source ih =>
    exact (ih (Node.names_subset hN (by simp))).bind fun v =>
      h.assign (hN (Node.ownName_mem_names rfl)) v
  | other node hnode =>
    have hnode' : (node.mapNames ρ).isExpression = false := by
      rw [Node.isExpression_mapNames, hnode]
    rw [eval_of_not_isExpression hnode, eval_of_not_isExpression hnode', Node.className_mapNames]
    exact Lockstep.throw _

theorem declare (h : Simulation N D ρ R) {name : Lexeme} (hN : name.text ∈ N)
    (hD : depth = 0 → name.text ∈ D) (v : Value) :
    Lockstep (State.Related (R depth)) (declare name v) (declare (ρ name) v) :=
  fun _ _ hstate => ⟨rfl, h.define hN hD v hstate.scopes, hstate.printed_eq⟩

/-- What runs in lockstep one scope deeper runs in lockstep in a scope of its own. -/
theorem enclosed (h : Simulation N D ρ R) {body body' : ScopesM Unit}
    (hbody : Lockstep (State.Related (R (depth + 1))) body body') :
    Lockstep (State.Related (R depth)) (enclosed body) (enclosed body') := by
  intro state state' hstate
  have hpushed : State.Related (R (depth + 1)) { state with scopes := ∅ :: state.scopes }
      { state' with scopes := ∅ :: state'.scopes } := ⟨h.push hstate.scopes, hstate.printed_eq⟩
  rcases (hbody _ _ hpushed).cases with
    ⟨a, state₁, state₁', hend, hend', h₁⟩ | ⟨stop, state₁, state₁', hend, hend', h₁⟩
  · simp only [Scopes.enclosed, hend, hend']
    exact ⟨rfl, h.pop h₁.scopes, h₁.printed_eq⟩
  · simp only [Scopes.enclosed, hend, hend']
    exact ⟨rfl, h.pop h₁.scopes, h₁.printed_eq⟩

/-- A statement and the one with other names end alike, and keep the stacks related. -/
theorem exec (h : Simulation N D ρ R) {node : Node} (hN : node.names ⊆ N)
    (hD : depth = 0 → node.declared ⊆ D) (fuel : Nat) :
    Lockstep (State.Related (R depth)) (exec fuel node) (exec fuel (node.mapNames ρ)) := by
  induction node using Node.statementInduction generalizing depth with
  | expression inner =>
    exact (lockstep_evaluate (h.eval (Node.names_subset hN (by simp)))).bind fun _ =>
      Lockstep.pure ()
  | print inner =>
    exact (lockstep_evaluate (h.eval (Node.names_subset hN (by simp)))).bind fun v =>
      lockstep_printLine v
  | varDecl name initializer? =>
    have hname : name.text ∈ N := hN (Node.ownName_mem_names rfl)
    have hdeclared : depth = 0 → name.text ∈ D := fun h0 => hD h0 (by simp [Node.declared])
    cases initializer? with
    | none => exact h.declare hname hdeclared .nil
    | some initializer =>
      exact (lockstep_evaluate (h.eval (Node.names_subset hN (by simp)))).bind fun v =>
        h.declare hname hdeclared v
  | block statements ih =>
    rw [Node.mapNames, Node.mapNamesAll_eq]
    refine h.enclosed (lockstep_execAll fun statement hmem => ?_)
    exact ih statement hmem (Node.names_subset hN (by simpa using hmem)) (by simp)
  | ifElse condition thenBranch elseBranch? ihThen ihElse =>
    rw [Node.mapNames, Node.mapNamesOption_eq]
    refine (lockstep_evaluate (h.eval (Node.names_subset hN (by simp)))).bind fun v => ?_
    cases v.isTruthy with
    | true =>
      refine ihThen (Node.names_subset hN (by simp)) fun h0 => List.Subset.trans ?_ (hD h0)
      cases elseBranch? <;> simp [Node.declared]
    | false =>
      refine lockstep_execOption fun elseBranch helse => ?_
      cases helse
      exact ihElse elseBranch rfl (Node.names_subset hN (by simp)) fun h0 =>
        List.Subset.trans (by simp [Node.declared]) (hD h0)
  | whileLoop condition body ih =>
    have hcondition : Lockstep (State.Related (R depth)) (holds (some condition))
        (holds (some (condition.mapNames ρ))) :=
      (lockstep_evaluate (h.eval (Node.names_subset hN (by simp)))).bind fun v => Lockstep.pure _
    exact lockstep_loop hcondition (ih (Node.names_subset hN (by simp)) hD) fuel
  | forLoop initializer? condition? increment? body ihInit ihBody =>
    rw [Node.mapNames, Node.mapNamesOption_eq, Node.mapNamesOption_eq, Node.mapNamesOption_eq]
    have hinit : Lockstep (State.Related (R (depth + 1))) (execOption fuel initializer?)
        (execOption fuel (initializer?.map (Node.mapNames ρ))) := by
      refine lockstep_execOption fun initializer hmem => ?_
      cases hmem
      exact ihInit initializer rfl (Node.names_subset hN (by simp)) (by simp)
    have hcondition : Lockstep (State.Related (R (depth + 1))) (holds condition?)
        (holds (condition?.map (Node.mapNames ρ))) := by
      refine lockstep_holds fun condition hmem => ?_
      cases hmem
      exact h.eval (Node.names_subset hN (by simp))
    have hincrement : Lockstep (State.Related (R (depth + 1))) (discard increment?)
        (discard (increment?.map (Node.mapNames ρ))) := by
      refine lockstep_discard fun increment hmem => ?_
      cases hmem
      exact h.eval (Node.names_subset hN (by simp))
    have hbody : Lockstep (State.Related (R (depth + 1))) (Scopes.exec fuel body)
        (Scopes.exec fuel (body.mapNames ρ)) :=
      ihBody (Node.names_subset hN (by simp)) (by simp)
    exact h.enclosed (hinit.bind fun _ =>
      lockstep_loop hcondition (hbody.bind fun _ => hincrement) fuel)
  | other node hnode =>
    have hnode' : (node.mapNames ρ).isStatement = false := by
      rw [Node.isStatement_mapNames, hnode]
    rw [exec_of_not_isStatement hnode, exec_of_not_isStatement hnode', Node.className_mapNames]
    exact Lockstep.throw _

/-- The same names on both sides: a statement ends alike on related stacks. -/
theorem exec_self (h : Simulation N D id R) {node : Node} (hN : node.names ⊆ N)
    (hD : depth = 0 → node.declared ⊆ D) (fuel : Nat) :
    Lockstep (State.Related (R depth)) (Scopes.exec fuel node) (Scopes.exec fuel node) := by
  have hexec := h.exec hN hD fuel
  rw [Node.mapNames_id] at hexec
  exact hexec

end Simulation
end Scopes

/-! ## Statements with the same effect -/

/-- The machines differ at most in their logs and in frames that are not among the oldest ones. -/
structure Machine.AgreeBelow (size : Nat) (m m' : Machine) : Prop where
  active_eq : m'.active = m.active
  failed_eq : m'.failed = m.failed
  console_eq : m'.console = m.console
  frames_eq : ∀ f < size, m'.store.frames[f]? = m.store.frames[f]?

/-- From every machine the two statements both terminate or both do not, and if they do they end
alike and leave machines that agree on all frames that were there before. -/
def Node.Interchangeable (statement statement' : Node) : Prop :=
  ∀ m : Machine, m.active < m.store.size →
    (Terminates (exec · statement) m ↔ Terminates (exec · statement') m) ∧
    ∀ outcome outcome' m₁ m₁', Ends (exec · statement) m outcome m₁ →
      Ends (exec · statement') m outcome' m₁' →
      outcome = outcome' ∧ Machine.AgreeBelow m.store.size m₁ m₁'

/-- Two machines that show the same scopes agree on all frames that were there before. -/
theorem Machine.Shows.agreeBelow {m m₁ m₁' : Machine} {state : Scopes.State}
    (h : m₁.Shows m.store m.active m.console.out state)
    (h' : m₁'.Shows m.store m.active m.console.out state) (hkeeps : m.Keeps m₁)
    (hkeeps' : m.Keeps m₁') : Machine.AgreeBelow m.store.size m₁ m₁' := by
  have hout : m₁'.console.out = m₁.console.out := h'.out_eq.trans h.out_eq.symm
  have herr : m₁'.console.err = m₁.console.err := hkeeps'.err_eq.trans hkeeps.err_eq.symm
  have hchain : ∀ f ∈ m.store.chain m.active, m₁'.store.bindings f = m₁.store.bindings f :=
    List.map_inj_left.1 (h'.store.scopes_eq.trans h.store.scopes_eq.symm)
  refine ⟨h'.active_eq.trans h.active_eq.symm, hkeeps'.failed_eq.trans hkeeps.failed_eq.symm,
    Console.ext hout herr, fun f hf => ?_⟩
  by_cases hmem : f ∈ m.store.chain m.active
  · refine Store.frames_eq_of (Nat.lt_of_lt_of_le hf h.store.grows.size_le)
      (Nat.lt_of_lt_of_le hf h'.store.grows.size_le) ?_ (hchain f hmem)
    rw [h'.store.grows.parent?_eq f hf, h.store.grows.parent?_eq f hf]
  · rw [h'.store.frames_eq hf hmem, h.store.frames_eq hf hmem]

/-- Statements with the same effect on every stack of scopes can take the place of each other. -/
theorem Node.interchangeable_of_exec_eq {statement statement' : Node}
    (h : ∀ fuel, Scopes.exec fuel statement = Scopes.exec fuel statement') :
    Interchangeable statement statement' := by
  intro m hm
  have hends : ∀ outcome m₁, Ends (exec · statement) m outcome m₁ →
      ∃ m₁', Ends (exec · statement') m outcome m₁' ∧
        Machine.AgreeBelow m.store.size m₁ m₁' := by
    intro outcome m₁ hexec
    obtain ⟨state, hstate, hshows⟩ := ends_scopes hm hexec
    simp only [h] at hstate
    obtain ⟨m₁', hexec', hshows'⟩ := ends_exec hm hstate
    exact ⟨m₁', hexec', hshows.agreeBelow hshows' (hexec.leads fun fuel => leads_exec fuel _)
      (hexec'.leads fun fuel => leads_exec fuel _)⟩
  refine ⟨⟨fun ⟨outcome, m₁, hexec⟩ => ?_, fun ⟨outcome, m₁', hexec'⟩ => ?_⟩,
    fun outcome outcome' m₁ m₁' hexec hexec' => ?_⟩
  · obtain ⟨m₁', hexec', -⟩ := hends outcome m₁ hexec
    exact ⟨outcome, m₁', hexec'⟩
  · obtain ⟨state, hstate, -⟩ := ends_scopes hm hexec'
    simp only [← h] at hstate
    obtain ⟨m₁, hexec, -⟩ := ends_exec hm hstate
    exact ⟨outcome, m₁, hexec⟩
  · obtain ⟨m₂, hexec₂, hagree⟩ := hends outcome m₁ hexec
    obtain ⟨rfl, rfl⟩ := hexec'.unique statement'.fuelMonotone_exec hexec₂
    exact ⟨rfl, hagree⟩

end Lox
