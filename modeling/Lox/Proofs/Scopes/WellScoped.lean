import Lox.Proofs.Faults
import Lox.Proofs.Programs
import Lox.Proofs.Scopes.Footprint

/-!
# Programs without undefined variables

Whether each name is declared before it is used can be read off a program, by the rules by which
scopes are nested: a declaration counts for the rest of its own sequence, and for the rest of a
`for` loop that it initializes.  Such a program never meets an undefined variable, as long as the
names that it takes for granted are in scope when it starts.  It may go wrong in any other way.

The reason is that a name that was in scope at some point of a sequence stays so: statements take
no name out of a scope, and what a statement pushes it drops again.
-/

namespace Lox

/-! ## Names in scope -/

namespace Node

/-- Whether an expression looks up and assigns none but the given names.  What is no expression is
not evaluated, and so it uses no name. -/
def usesOnly (G : List String) : Node → Bool
  | grouping inner => inner.usesOnly G
  | unary _ right => right.usesOnly G
  | binary left _ right => left.usesOnly G && right.usesOnly G
  | logical left _ right => left.usesOnly G && right.usesOnly G
  | ternary condition first second =>
    condition.usesOnly G && first.usesOnly G && second.usesOnly G
  | var name => G.contains name.text
  | assign name source => source.usesOnly G && G.contains name.text
  | _ => true

/-- The names in scope after a statement: a declaration adds its own. -/
def scopeAfter (G : List String) : Node → List String
  | varDecl name _ => name.text :: G
  | _ => G

/-- The names in scope after a statement that may be absent. -/
def scopeAfterOption (G : List String) : Option Node → List String
  | some statement => statement.scopeAfter G
  | none => G

mutual

/-- Whether a statement uses only names in scope, with the given names in scope before. -/
def wellScoped (G : List String) : Node → Bool
  | expression inner => inner.usesOnly G
  | print inner => inner.usesOnly G
  | varDecl _ initializer? => initializer?.all (usesOnly G)
  | block statements => wellScopedAll G statements
  | ifElse condition thenBranch elseBranch? =>
    condition.usesOnly G && thenBranch.wellScoped G && wellScopedOption G elseBranch?
  | whileLoop condition body => condition.usesOnly G && body.wellScoped G
  | forLoop initializer? condition? increment? body =>
    wellScopedOption G initializer? &&
      condition?.all (usesOnly (scopeAfterOption G initializer?)) &&
      body.wellScoped (scopeAfterOption G initializer?) &&
      increment?.all (usesOnly (scopeAfterOption G initializer?))
  | _ => true

/-- As `wellScoped`, for a statement that may be absent. -/
def wellScopedOption (G : List String) : Option Node → Bool
  | some statement => statement.wellScoped G
  | none => true

/-- As `wellScoped`, for statements one after the other. -/
def wellScopedAll (G : List String) : List Node → Bool
  | [] => true
  | statement :: rest => statement.wellScoped G && wellScopedAll (statement.scopeAfter G) rest

end

theorem subset_scopeAfter (G : List String) (node : Node) : G ⊆ node.scopeAfter G := by
  cases node with
  | varDecl name initializer? => exact List.subset_cons_self name.text G
  | literal | grouping | unary | binary | logical | ternary | var | assign | expression | print
  | block | ifElse | whileLoop | forLoop | foreign => exact List.Subset.refl G

theorem subset_scopeAfterOption (G : List String) (node? : Option Node) :
    G ⊆ scopeAfterOption G node? := by
  cases node? with
  | none => exact List.Subset.refl G
  | some node => exact node.subset_scopeAfter G

end Node

/-! ## Stacks that cover names -/

namespace Scopes

/-- Each of the names is in scope, and there is a scope to define others in. -/
structure Covers (G : List String) (scopes : Scopes) : Prop where
  ne_nil : scopes ≠ []
  held : ∀ name ∈ G, lookup? name scopes ≠ none

namespace Covers
variable {G : List String} {scopes scopes' : Scopes}

theorem mono {G' : List String} (h : Covers G scopes) (hG : G' ⊆ G) : Covers G' scopes :=
  ⟨h.ne_nil, fun name hname => h.held name (hG hname)⟩

theorem push (h : Covers G scopes) : Covers G (∅ :: scopes) where
  ne_nil := List.cons_ne_nil _ _
  held := by
    intro name hname
    rw [lookup?_cons, Bindings.get?_empty]
    exact h.held name hname

theorem define (h : Covers G scopes) (name : String) (v : Value) :
    Covers (name :: G) (Scopes.define name v scopes) where
  ne_nil := define_ne_nil h.ne_nil name v
  held := by
    intro other hother
    rw [lookup?_define h.ne_nil]
    split
    · exact Option.some_ne_none v
    · next hne => exact h.held other ((List.mem_cons.1 hother).resolve_left hne)

theorem assign? (h : Covers G scopes) {name : String} {v : Value}
    (hassign : Scopes.assign? name v scopes = some scopes') : Covers G scopes' where
  ne_nil := ne_nil_of_assign? hassign
  held := by
    intro other hother
    rw [lookup?_of_assign? hassign]
    split
    · exact Option.some_ne_none v
    · exact h.held other hother

end Covers

/-- A name in scope stays in scope while the scopes evolve. -/
theorem Evolves.lookup?_ne_none {A D : List String} {scopes scopes' : Scopes}
    (h : Scopes.Evolves A D scopes scopes') {name : String}
    (hname : lookup? name scopes ≠ none) : lookup? name scopes' ≠ none := by
  induction h with
  | nil => exact hname
  | @cons D b b' rest rest' head _ ih =>
    rw [lookup?_cons, ne_eq, Option.or_eq_none_iff] at hname ⊢
    rintro ⟨hb', hrest'⟩
    refine hname ⟨?_, Classical.not_not.1 fun hrest => ih hrest hrest'⟩
    obtain ⟨added, hnames, -⟩ := head.names
    rw [Bindings.get?_eq_none_iff, hnames] at hb'
    exact Bindings.get?_eq_none_iff.2 fun hmem => hb' (List.mem_append_left added hmem)

theorem Covers.of_evolves {A D G : List String} {scopes scopes' : Scopes}
    (h : Covers G scopes) (hevolves : Scopes.Evolves A D scopes scopes') : Covers G scopes' where
  ne_nil := by
    cases hevolves with
    | nil => exact h.ne_nil
    | cons _ _ => exact List.cons_ne_nil _ _
  held := fun name hname => hevolves.lookup?_ne_none (h.held name hname)

/-! ## Expressions -/

variable {G : List String}

theorem ensures_ofExcept {result : Except Fault Value}
    (h : ∀ fault, result = .error fault → fault.kind ≠ .undefinedVariable) :
    Ensures (Covers G) (ofExcept result) (fun _ => Covers G)
      (fun fault _ => fault.kind ≠ .undefinedVariable) := by
  cases result with
  | ok v => exact Ensures.pure fun _ hcovers => hcovers
  | error fault => exact Ensures.throw fun _ _ => h fault rfl

theorem ensures_applyUnary (operator : Lexeme) (v : Value) :
    Ensures (Covers G) (ofExcept (applyUnary operator v)) (fun _ => Covers G)
      (fun fault _ => fault.kind ≠ .undefinedVariable) := by
  refine ensures_ofExcept fun fault h => ?_
  rcases (applyUnary_error h).2 with hcause | hkind
  · simp [Fault.kind, hcause, Cause.kind]
  · simp [hkind]

theorem ensures_applyBinary (operator : Lexeme) (a b : Datum) :
    Ensures (Covers G) (ofExcept (applyBinary operator a b)) (fun _ => Covers G)
      (fun fault _ => fault.kind ≠ .undefinedVariable) := by
  refine ensures_ofExcept fun fault h => ?_
  rcases (applyBinary_error h).2 with hcause | hkind | ⟨-, hkind⟩ | ⟨op, -, -, hkind⟩
  · simp [Fault.kind, hcause, Cause.kind]
  all_goals simp [hkind]

theorem ensures_lookup {name : Lexeme} (hname : name.text ∈ G) :
    Ensures (Covers G) (lookup name) (fun _ => Covers G)
      (fun fault _ => fault.kind ≠ .undefinedVariable) := by
  refine Ensures.of_results fun scopes hcovers => ?_
  obtain ⟨v, hv⟩ := Option.ne_none_iff_exists'.1 (hcovers.held name.text hname)
  simp only [lookup, hv]
  exact hcovers

theorem ensures_assign {name : Lexeme} (hname : name.text ∈ G) (v : Value) :
    Ensures (Covers G) (assign name v) (fun _ => Covers G)
      (fun fault _ => fault.kind ≠ .undefinedVariable) := by
  refine Ensures.of_results fun scopes hcovers => ?_
  cases hassign : assign? name.text v scopes with
  | none =>
    exact absurd ((assign?_eq_none_iff name.text v scopes).1 hassign)
      (hcovers.held name.text hname)
  | some scopes₁ =>
    simp only [assign, hassign]
    exact hcovers.assign? hassign

/-- An expression whose names are in scope meets no undefined variable. -/
theorem ensures_eval {node : Node} (h : node.usesOnly G = true) :
    Ensures (Covers G) (eval node) (fun _ => Covers G)
      (fun fault _ => fault.kind ≠ .undefinedVariable) := by
  induction node using Node.expressionInduction with
  | literal datum =>
    refine ensures_ofExcept fun fault hfault => ?_
    simp [Datum.kind_of_coerce hfault]
  | grouping inner ih => exact ih h
  | unary operator right ih => exact (ih h).bind fun v => ensures_applyUnary operator v
  | binary left operator right ihl ihr =>
    obtain ⟨hl, hr⟩ := Bool.and_eq_true_iff.1 h
    exact (ihl hl).bind fun a => (ihr hr).bind fun b => ensures_applyBinary operator _ _
  | logical left operator right ihl ihr =>
    obtain ⟨hl, hr⟩ := Bool.and_eq_true_iff.1 h
    have ihr := ihr hr
    rw [eval_logical]
    refine (ihl hl).bind fun v => ?_
    cases LogicalOp.ofLexeme? operator with
    | none => exact Ensures.throw fun _ _ => by simp [Fault.kind, Cause.kind]
    | some op =>
      dsimp only
      cases op.settledBy v with
      | true => exact Ensures.pure fun _ hcovers => hcovers
      | false => exact ihr
  | ternary condition first second ihc ihf ihs =>
    obtain ⟨hcf, hs⟩ := Bool.and_eq_true_iff.1 h
    obtain ⟨hc, hf⟩ := Bool.and_eq_true_iff.1 hcf
    refine (ihc hc).bind fun v => ?_
    cases v.isTruthy with
    | true => exact ihf hf
    | false => exact ihs hs
  | var name => exact ensures_lookup (List.contains_iff_mem.1 h)
  | assign name source ih =>
    obtain ⟨hsource, hname⟩ := Bool.and_eq_true_iff.1 h
    exact (ih hsource).bind fun v => ensures_assign (List.contains_iff_mem.1 hname) v
  | other node hnode =>
    rw [eval_of_not_isExpression hnode]
    exact Ensures.throw fun _ _ => by simp [Fault.kind, Fault.unplaced, Cause.kind]

/-! ## Statements -/

/-- From states whose scopes cover the first names, a computation is not stopped by an undefined
variable, and comes to its end in states whose scopes cover the second names. -/
def Secure {α : Type} (G G' : List String) (p : ScopesM α) : Prop :=
  Ensures (fun state => Covers G state.scopes) p (fun _ state => Covers G' state.scopes)
    fun stop _ => ∀ fault, stop = .fault fault → fault.kind ≠ .undefinedVariable

theorem secure_evaluate {node : Node} (h : node.usesOnly G = true) :
    Secure G G (evaluate node) := by
  refine Ensures.of_results fun state hstate => ?_
  obtain ⟨hok, herror⟩ := ensures_eval h state.scopes hstate
  simp only [evaluate]
  cases heval : eval node state.scopes with
  | ok v scopes => exact hok v scopes heval
  | error fault scopes =>
    rintro _ ⟨⟩
    exact herror fault scopes heval

theorem Secure.mono {α : Type} {G₁ G₂ : List String} {p : ScopesM α} (h : Secure G G₁ p)
    (hG : G₂ ⊆ G₁) : Secure G G₂ p := by
  intro state hstate
  obtain ⟨hok, herror⟩ := h state hstate
  exact ⟨fun a state' heq => (hok a state' heq).mono hG, herror⟩

theorem secure_pure {α : Type} (a : α) : Secure G G (pure a : ScopesM α) :=
  Ensures.pure fun _ hcovers => hcovers

theorem secure_holds {condition? : Option Node} (h : condition?.all (Node.usesOnly G) = true) :
    Secure G G (holds condition?) := by
  cases condition? with
  | none => exact secure_pure true
  | some condition => exact (secure_evaluate h).bind fun v => secure_pure _

theorem secure_discard {node? : Option Node} (h : node?.all (Node.usesOnly G) = true) :
    Secure G G (discard node?) := by
  cases node? with
  | none => exact secure_pure ()
  | some node => exact (secure_evaluate h).bind fun _ => secure_pure ()

theorem secure_printLine (v : Value) : Secure G G (printLine v) :=
  Ensures.of_results fun _ hstate => hstate

/-- A declaration brings its name into scope. -/
theorem secure_declare (name : Lexeme) (v : Value) :
    Secure G (name.text :: G) (declare name v) :=
  Ensures.of_results fun _ hstate => hstate.define name.text v

/-- Whatever comes into scope inside a scope of its own, the names around it stay in scope. -/
theorem secure_enclosed {A D G' : List String} {body : ScopesM Unit} (h : Secure G G' body)
    (hevolves : Leads (State.Evolves A D) (enclosed body)) : Secure G G (enclosed body) := by
  refine Ensures.of_leads (fun state hstate => ⟨fun _ _ _ => trivial, ?_⟩) hevolves
    fun _ _ hstate hlead _ => hstate.of_evolves hlead
  obtain ⟨-, herror⟩ := h { state with scopes := ∅ :: state.scopes } hstate.push
  intro stop state' heq
  simp only [enclosed] at heq
  cases hbody : body { state with scopes := ∅ :: state.scopes } with
  | ok a state₁ =>
    rw [hbody] at heq
    cases heq
  | error stop₁ state₁ =>
    rw [hbody] at heq
    cases heq
    exact herror stop state₁ hbody

theorem secure_loop {condition? : Option Node} {round : ScopesM Unit}
    (hcondition : condition?.all (Node.usesOnly G) = true) (hround : Secure G G round)
    (rounds : Nat) : Secure G G (loop condition? round rounds) := by
  induction rounds with
  | zero =>
    refine Ensures.throw fun _ _ fault hfault => ?_
    cases hfault
  | succ rounds ih =>
    refine (secure_holds hcondition).bind fun holds => ?_
    cases holds with
    | true => exact hround.bind fun _ => ih
    | false => exact secure_pure ()

theorem secure_execOption {fuel : Nat} {node? : Option Node}
    (h : Node.wellScopedOption G node? = true)
    (ih : ∀ node ∈ node?, node.wellScoped G = true →
      Secure G (node.scopeAfter G) (exec fuel node)) :
    Secure G (Node.scopeAfterOption G node?) (execOption fuel node?) := by
  cases node? with
  | none => exact secure_pure ()
  | some node => exact ih node rfl h

/-- Each statement of a sequence finds in scope what those before it declared. -/
theorem secure_execAll {fuel : Nat} {statements : List Node}
    (h : Node.wellScopedAll G statements = true)
    (ih : ∀ statement ∈ statements, ∀ G, statement.wellScoped G = true →
      Secure G (statement.scopeAfter G) (exec fuel statement)) :
    ∃ G', Secure G G' (execAll fuel statements) := by
  induction statements generalizing G with
  | nil => exact ⟨G, secure_pure ()⟩
  | cons statement rest ihRest =>
    obtain ⟨hstatement, hrest⟩ := Bool.and_eq_true_iff.1 h
    obtain ⟨G', hsecure⟩ := ihRest hrest fun other hother =>
      ih other (List.mem_cons_of_mem _ hother)
    exact ⟨G', (ih statement List.mem_cons_self G hstatement).bind fun _ => hsecure⟩

/-- A statement whose names are in scope meets no undefined variable, and what it declares is in
scope after it. -/
theorem secure_exec {node : Node} (h : node.wellScoped G = true) (fuel : Nat) :
    Secure G (node.scopeAfter G) (exec fuel node) := by
  induction node using Node.statementInduction generalizing G with
  | expression inner => exact (secure_evaluate h).bind fun _ => secure_pure ()
  | print inner => exact (secure_evaluate h).bind fun v => secure_printLine v
  | varDecl name initializer? =>
    cases initializer? with
    | none => exact secure_declare name .nil
    | some initializer => exact (secure_evaluate h).bind fun v => secure_declare name v
  | block statements ih =>
    obtain ⟨G', hstatements⟩ := secure_execAll h fun statement hmem G hstatement =>
      ih statement hmem hstatement
    have hevolves : Leads (State.Evolves _ _) (exec fuel (.block statements)) :=
      evolves_exec (List.Subset.refl _) (List.Subset.refl _) fuel
    exact secure_enclosed hstatements hevolves
  | ifElse condition thenBranch elseBranch? ihThen ihElse =>
    obtain ⟨hboth, helse⟩ := Bool.and_eq_true_iff.1 h
    obtain ⟨hcondition, hthen⟩ := Bool.and_eq_true_iff.1 hboth
    refine (secure_evaluate hcondition).bind fun v => ?_
    cases v.isTruthy with
    | true => exact (ihThen hthen).mono (thenBranch.subset_scopeAfter G)
    | false =>
      exact (secure_execOption helse fun node hnode => ihElse node hnode).mono
        (Node.subset_scopeAfterOption G elseBranch?)
  | whileLoop condition body ih =>
    obtain ⟨hcondition, hbody⟩ := Bool.and_eq_true_iff.1 h
    have hsome : Option.all (Node.usesOnly G) (some condition) = true := hcondition
    exact secure_loop hsome ((ih hbody).mono (body.subset_scopeAfter G)) fuel
  | forLoop initializer? condition? increment? body ihInit ihBody =>
    obtain ⟨hrest, hincrement⟩ := Bool.and_eq_true_iff.1 h
    obtain ⟨hheader, hbody⟩ := Bool.and_eq_true_iff.1 hrest
    obtain ⟨hinit, hcondition⟩ := Bool.and_eq_true_iff.1 hheader
    -- What the body declares is in scope for the increment, which does not count on it.
    have hround := ((ihBody hbody).mono (body.subset_scopeAfter _)).bind fun _ =>
      secure_discard hincrement
    have hloop := (secure_execOption hinit fun node hnode => ihInit node hnode).bind fun _ =>
      secure_loop hcondition hround fuel
    have hevolves : Leads (State.Evolves _ _)
        (exec fuel (.forLoop initializer? condition? increment? body)) :=
      evolves_exec (List.Subset.refl _) (List.Subset.refl _) fuel
    exact secure_enclosed hloop hevolves
  | other node hnode =>
    rw [exec_of_not_isStatement hnode]
    refine Ensures.throw fun _ _ fault hfault => ?_
    cases hfault
    simp [Fault.kind, Fault.unplaced, Cause.kind]

end Scopes

/-! ## Runs of programs -/

/-- A run of a well-scoped program, cut off after any amount of fuel, has met no undefined
variable, as long as the active frame sees each name that the program takes for granted: executing
the statements raises no such fault, and interpreting the program reports none. -/
theorem wellScoped_never_undefined (G : List String) (program : List Node)
    (hprogram : Node.wellScopedAll G program = true) (m : Machine)
    (hm : m.active < m.store.size) (hG : ∀ name ∈ G, m.store.lookup? m.active name ≠ none)
    (fuel : Nat) :
    (∀ fault m', Node.execAll fuel program m = .error (.fault fault) m' →
      fault.kind ≠ .undefinedVariable) ∧
    ∀ m', ExecM.interpret fuel program m = .ok false m' →
      ∃ (fault : Fault) (m'' : Machine), fault.kind ≠ .undefinedVariable ∧ m' = m''.fail fault := by
  have hcovers : Scopes.Covers G (m.store.scopes m.active) :=
    ⟨m.store.scopes_ne_nil m.active, fun name hname => by
      rw [← Store.lookup?_eq]
      exact hG name hname⟩
  have hexec : ∀ fault m', Node.execAll fuel program m = .error (.fault fault) m' →
      fault.kind ≠ .undefinedVariable := by
    intro fault m' hfault
    have himplements : Implements (Node.execAll fuel program) (Scopes.execAll fuel program) :=
      Implements.execAll fun statement _ => statement.implements_exec fuel
    have hlock := himplements m.store m.active m.console.out hm m ⟨m.store.scopes m.active, #[]⟩
      (Machine.Shows.refl m)
    obtain ⟨G', hsecure⟩ := Scopes.secure_execAll hprogram fun statement _ _ h =>
      Scopes.secure_exec h fuel
    rw [hfault] at hlock
    rcases hlock.cases with ⟨a, m₁, state, heq, -, -⟩ | ⟨stop, m₁, state, heq, hstop, -⟩
    · cases heq
    · cases heq
      exact (hsecure _ hcovers).2 _ state hstop fault rfl
  refine ⟨hexec, fun m' hfalse => ?_⟩
  obtain ⟨fault, m'', hrun, rfl⟩ := ExecM.interpret_eq_false_iff.1 hfalse
  exact ⟨fault, m'', hexec fault m'' hrun, rfl⟩

/-- A block declares for itself only. -/
example : Node.wellScopedAll []
    [.block [.varDecl (.bare "x") none], .print (.var (.bare "x"))] = false := by decide

/-- Declares a variable, shadows it inside a loop, and goes wrong with it afterwards. -/
def scopedProgram : List Node :=
  [ .varDecl (.bare "y") (some (.var (.bare "x"))),
    .forLoop (some (.varDecl (.bare "z") (some (.var (.bare "y"))))) (some (.var (.bare "z")))
      (some (.assign (.bare "z") (.literal (.host .none))))
      (.block [.varDecl (.bare "y") none, .print (.var (.bare "z"))]),
    .expression (.unary (.bare "-") (.var (.bare "y")))]

/-- What the program reports is another fault. -/
theorem wellScoped_never_undefined_scopedProgram :
    ∃ m', ExecM.interpret 2 scopedProgram nestedMachine = .ok false m' ∧
      m'.console.out = #["a\n"] ∧
      ∃ (fault : Fault) (m'' : Machine),
        fault.kind ≠ .undefinedVariable ∧ m' = m''.fail fault := by
  have hscoped : Node.wellScopedAll ["x"] scopedProgram = true := by decide
  have hx : nestedMachine.store.lookup? nestedMachine.active "x" = some (.string "a") := by
    with_unfolding_all rfl
  have hG : ∀ name ∈ ["x"], nestedMachine.store.lookup? nestedMachine.active name ≠ none := by
    intro name hname
    rw [List.mem_singleton.1 hname, hx]
    exact Option.some_ne_none _
  obtain ⟨m', hrun, hout⟩ : ∃ m', ExecM.interpret 2 scopedProgram nestedMachine = .ok false m' ∧
      m'.console.out = #["a\n"] := ⟨_, by with_unfolding_all rfl, by with_unfolding_all rfl⟩
  exact ⟨m', hrun, hout, (wellScoped_never_undefined ["x"] scopedProgram hscoped nestedMachine
    (by decide) hG 2).2 m' hrun⟩

end Lox
