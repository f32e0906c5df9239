import Lox.Proofs.Scopes.Refinement

/-!
# The footprint of a statement

Which names a statement can define, and which it can give other values, is read off its text.
Names stay where they are: the innermost scope keeps its names in their order and may get names
that the statement declares outside of blocks and `for` loops, and the scopes around it keep
exactly their names.  Values change for names that the statement assigns, and in the innermost
scope for names that it declares.
-/

namespace Lox

/-! ## Bindings -/

/-- The second bindings have the names of the first in their order, followed by names to declare
only, and other values for names to assign or to declare only. -/
structure Bindings.Evolves (A D : List String) (b b' : Bindings) : Prop where
  names : ∃ added, b'.names = b.names ++ added ∧ ∀ name ∈ added, name ∈ D
  values : ∀ name, b'.get? name ≠ b.get? name → name ∈ A ∨ name ∈ D

namespace Bindings.Evolves
variable {A D : List String} {b b₁ b₂ b₃ : Bindings}

theorem refl (b : Bindings) : b.Evolves A D b :=
  ⟨⟨[], by simp⟩, fun _ h => absurd rfl h⟩

theorem trans (h : b₁.Evolves A D b₂) (h' : b₂.Evolves A D b₃) : b₁.Evolves A D b₃ where
  names := by
    obtain ⟨added, hnames, hadded⟩ := h.names
    obtain ⟨added', hnames', hadded'⟩ := h'.names
    refine ⟨added ++ added', by rw [hnames', hnames, List.append_assoc], fun name hname => ?_⟩
    rcases List.mem_append.1 hname with hname | hname
    · exact hadded name hname
    · exact hadded' name hname
  values := by
    intro name hne
    by_cases heq : b₂.get? name = b₁.get? name
    · rw [← heq] at hne
      exact h'.values name hne
    · exact h.values name heq

/-- More names may be declared. -/
theorem mono {D' : List String} (h : b₁.Evolves A D b₂) (hD : D ⊆ D') : b₁.Evolves A D' b₂ where
  names := by
    obtain ⟨added, hnames, hadded⟩ := h.names
    exact ⟨added, hnames, fun name hname => hD (hadded name hname)⟩
  values := fun name hne => (h.values name hne).imp_right fun hname => hD hname

/-- Bindings without names to declare keep their names. -/
theorem names_eq (h : b₁.Evolves A [] b₂) : b₂.names = b₁.names := by
  obtain ⟨added, hnames, hadded⟩ := h.names
  have hnil : added = [] := List.eq_nil_iff_forall_not_mem.2 fun name hname => by
    cases hadded name hname
  rw [hnames, hnil, List.append_nil]

/-- A name that is neither assigned nor declared keeps its value. -/
theorem get?_eq (h : b₁.Evolves A D b₂) {name : String} (hA : name ∉ A) (hD : name ∉ D) :
    b₂.get? name = b₁.get? name := by
  by_cases heq : b₂.get? name = b₁.get? name
  · exact heq
  · rcases h.values name heq with hname | hname
    · exact absurd hname hA
    · exact absurd hname hD

/-- A name to declare may be given any value. -/
theorem insert {name : String} (hname : name ∈ D) (v : Value) :
    b.Evolves A D (b.insert name v) where
  names := by
    rw [names_insert]
    split
    · exact ⟨[], by simp⟩
    · exact ⟨[name], rfl, by simpa using hname⟩
  values := by
    intro other hne
    rw [get?_insert] at hne
    split at hne
    · next heq => exact .inr (heq ▸ hname)
    · exact absurd rfl hne

/-- A known name to assign may be given any value. -/
theorem insert_of_get? {name : String} {w : Value} (hname : name ∈ A) (h : b.get? name = some w)
    (v : Value) : b.Evolves A D (b.insert name v) where
  names := by
    have hmem : name ∈ b.names := holds_iff.1 (by rw [holds, h]; rfl)
    rw [names_insert, if_pos hmem]
    exact ⟨[], by simp⟩
  values := by
    intro other hne
    rw [get?_insert] at hne
    split at hne
    · next heq => exact .inl (heq ▸ hname)
    · exact absurd rfl hne

end Bindings.Evolves

/-! ## Stacks of scopes -/

/-- Every scope evolves, the innermost with names to declare and the others without. -/
inductive Scopes.Evolves (A : List String) : List String → Scopes → Scopes → Prop
  | nil {D : List String} : Evolves A D [] []
  | cons {D : List String} {b b' : Bindings} {rest rest' : Scopes} (head : b.Evolves A D b')
      (tail : Evolves A [] rest rest') : Evolves A D (b :: rest) (b' :: rest')

namespace Scopes.Evolves
variable {A D : List String} {scopes scopes₁ scopes₂ scopes₃ : Scopes}

theorem refl (scopes : Scopes) : scopes.Evolves A D scopes := by
  induction scopes generalizing D with
  | nil => exact .nil
  | cons b rest ih => exact .cons (Bindings.Evolves.refl b) ih

theorem trans (h : Scopes.Evolves A D scopes₁ scopes₂) (h' : Scopes.Evolves A D scopes₂ scopes₃) :
    Scopes.Evolves A D scopes₁ scopes₃ := by
  induction h generalizing scopes₃ with
  | nil => exact h'
  | cons head _ ih =>
    cases h' with
    | cons head' tail' => exact .cons (head.trans head') (ih tail')

theorem mono {D' : List String} (h : Scopes.Evolves A D scopes₁ scopes₂) (hD : D ⊆ D') :
    Scopes.Evolves A D' scopes₁ scopes₂ := by
  cases h with
  | nil => exact .nil
  | cons head tail => exact .cons (head.mono hD) tail

theorem define {name : String} (hname : name ∈ D) (v : Value) (scopes : Scopes) :
    Scopes.Evolves A D scopes (Scopes.define name v scopes) := by
  cases scopes with
  | nil => exact .nil
  | cons b rest => exact .cons (Bindings.Evolves.insert hname v) (refl rest)

theorem assign? {name : String} {v : Value} (hname : name ∈ A)
    (h : Scopes.assign? name v scopes₁ = some scopes₂) : Scopes.Evolves A D scopes₁ scopes₂ := by
  induction scopes₁ generalizing D scopes₂ with
  | nil => cases h
  | cons b rest ih =>
    cases hget : b.get? name with
    | some w =>
      rw [assign?_cons_of_some hget] at h
      cases h
      exact .cons (Bindings.Evolves.insert_of_get? hname hget v) (refl rest)
    | none =>
      rw [assign?_cons_of_none hget] at h
      obtain ⟨rest', hrest, rfl⟩ := Option.map_eq_some_iff.1 h
      exact .cons (Bindings.Evolves.refl b) (ih hrest)

/-- What evolves inside a new scope evolves around it, where nothing is declared. -/
theorem tail {b : Bindings} (h : Scopes.Evolves A D (b :: scopes₁) scopes₂) :
    Scopes.Evolves A [] scopes₁ scopes₂.tail := by
  cases h with
  | cons _ tail => exact tail

/-- A name that is neither assigned nor declared is looked up as before. -/
theorem lookup?_eq (h : Scopes.Evolves A D scopes₁ scopes₂) {name : String} (hA : name ∉ A)
    (hD : name ∉ D) : lookup? name scopes₂ = lookup? name scopes₁ := by
  induction h with
  | nil => rfl
  | cons head _ ih => rw [lookup?_cons, lookup?_cons, head.get?_eq hA hD, ih List.not_mem_nil]

/-- The bindings of frames evolve frame by frame. -/
theorem of_map {s s' : Store} {frames : List Nat}
    (h : Scopes.Evolves A D (frames.map s.bindings) (frames.map s'.bindings)) {g : Nat}
    (hg : g ∈ frames) : (s.bindings g).Evolves A D (s'.bindings g) := by
  induction frames generalizing D with
  | nil => cases hg
  | cons f rest ih =>
    cases h with
    | cons head tail =>
      rcases List.mem_cons.1 hg with rfl | hg
      · exact head
      · exact (ih tail hg).mono (List.nil_subset D)

end Scopes.Evolves

instance {A D : List String} : Std.Refl (Scopes.Evolves A D) := ⟨Scopes.Evolves.refl⟩

instance {A D : List String} :
    Trans (Scopes.Evolves A D) (Scopes.Evolves A D) (Scopes.Evolves A D) :=
  ⟨Scopes.Evolves.trans⟩

/-! ## Expressions -/

namespace Scopes
variable {A D : List String}

theorem evolves_ofExcept (result : Except Fault Value) :
    Leads (Scopes.Evolves A D) (ofExcept result) := by
  cases result with
  | ok v => exact Leads.pure v
  | error fault => exact Leads.throw fault

theorem evolves_lookup (name : Lexeme) : Leads (Scopes.Evolves A D) (lookup name) := by
  intro scopes
  simp only [lookup]
  cases lookup? name.text scopes with
  | none => exact Evolves.refl scopes
  | some v => exact Evolves.refl scopes

theorem evolves_assign {name : Lexeme} (hname : name.text ∈ A) (v : Value) :
    Leads (Scopes.Evolves A D) (assign name v) := by
  intro scopes
  simp only [assign]
  cases h : assign? name.text v scopes with
  | none => exact Evolves.refl scopes
  | some scopes' => exact Evolves.assign? hname h

/-- An expression keeps all names, and gives other values only to names that it assigns. -/
theorem evolves_eval {node : Node} (hA : node.assigned ⊆ A) :
    Leads (Scopes.Evolves A D) (eval node) := by
  induction node using Node.expressionInduction with
  | literal datum => exact evolves_ofExcept _
  | grouping inner ih => exact ih (Node.assigned_subset hA (by simp))
  | unary operator right ih =>
    exact (ih (Node.assigned_subset hA (by simp))).bind fun v => evolves_ofExcept _
  | binary left operator right ihl ihr =>
    exact (ihl (Node.assigned_subset hA (by simp))).bind fun a =>
      (ihr (Node.assigned_subset hA (by simp))).bind fun b => evolves_ofExcept _
  | logical left operator right ihl ihr =>
    rw [eval_logical]
    refine (ihl (Node.assigned_subset hA (by simp))).bind fun v => ?_
    have ihr := ihr (Node.assigned_subset hA (by simp))
    cases LogicalOp.ofLexeme? operator with
    | none => exact Leads.throw _
    | some op =>
      dsimp only
      cases op.settledBy v with
      | true => exact Leads.pure v
      | false => exact ihr
  | ternary condition first second ihc ihf ihs =>
    refine (ihc (Node.assigned_subset hA (by simp))).bind fun v => ?_
    cases v.isTruthy with
    | true => exact ihf (Node.assigned_subset hA (by simp))
    | false => exact ihs (Node.assigned_subset hA (by simp))
  | var name => exact evolves_lookup name
  | assign name source ih =>
    exact (ih (Node.assigned_subset hA (by simp))).bind fun v =>
      evolves_assign (hA (Node.target_mem_assigned rfl)) v
  | other node h =>
    rw [eval_of_not_isExpression h]
    exact Leads.throw _

/-! ## Statements -/

/-- The scopes of the second state evolved out of those of the first. -/
def State.Evolves (A D : List String) (state state' : State) : Prop :=
  Scopes.Evolves A D state.scopes state'.scopes

instance : Std.Refl (State.Evolves A D) := ⟨fun state => Evolves.refl state.scopes⟩

instance : Trans (State.Evolves A D) (State.Evolves A D) (State.Evolves A D) :=
  ⟨fun h h' => Evolves.trans h h'⟩

theorem evolves_evaluate {node : Node} (hA : node.assigned ⊆ A) :
    Leads (State.Evolves A D) (evaluate node) := by
  intro state
  have hscopes := evolves_eval (D := D) hA state.scopes
  simp only [evaluate]
  cases h : eval node state.scopes with
  | ok v scopes =>
    rw [h] at hscopes
    exact hscopes
  | error fault scopes =>
    rw [h] at hscopes
    exact hscopes

theorem evolves_holds {condition? : Option Node}
    (hA : ∀ condition ∈ condition?, condition.assigned ⊆ A) :
    Leads (State.Evolves A D) (holds condition?) := by
  cases condition? with
  | none => exact Leads.pure true
  | some condition => exact (evolves_evaluate (hA condition rfl)).bind fun v => Leads.pure _

theorem evolves_discard {node? : Option Node} (hA : ∀ node ∈ node?, node.assigned ⊆ A) :
    Leads (State.Evolves A D) (discard node?) := by
  cases node? with
  | none => exact Leads.pure ()
  | some node => exact (evolves_evaluate (hA node rfl)).bind fun _ => Leads.pure ()

theorem evolves_printLine (v : Value) : Leads (State.Evolves A D) (printLine v) :=
  fun state => Evolves.refl state.scopes

theorem evolves_declare {name : Lexeme} (hname : name.text ∈ D) (v : Value) :
    Leads (State.Evolves A D) (declare name v) :=
  fun state => Evolves.define hname v state.scopes

/-- Whatever is declared in a scope of its own, nothing is declared around it. -/
theorem evolves_enclosed {D' : List String} {body : ScopesM Unit}
    (h : Leads (State.Evolves A D') body) : Leads (State.Evolves A D) (enclosed body) := by
  intro state
  have hbody := h { state with scopes := ∅ :: state.scopes }
  simp only [enclosed]
  cases hend : body { state with scopes := ∅ :: state.scopes } with
  | ok a state' =>
    rw [hend] at hbody
    exact (Evolves.tail hbody).mono (List.nil_subset D)
  | error stop state' =>
    rw [hend] at hbody
    exact (Evolves.tail hbody).mono (List.nil_subset D)

theorem evolves_loop {condition? : Option Node} {round : ScopesM Unit}
    (hA : ∀ condition ∈ condition?, condition.assigned ⊆ A)
    (h : Leads (State.Evolves A D) round) (rounds : Nat) :
    Leads (State.Evolves A D) (loop condition? round rounds) := by
  induction rounds with
  | zero => exact Leads.throw _
  | succ rounds ih =>
    refine (evolves_holds hA).bind fun holds => ?_
    cases holds with
    | true => exact h.bind fun _ => ih
    | false => exact Leads.pure ()

theorem evolves_execOption {fuel : Nat} {node? : Option Node}
    (h : ∀ node ∈ node?, Leads (State.Evolves A D) (exec fuel node)) :
    Leads (State.Evolves A D) (execOption fuel node?) := by
  cases node? with
  | none => exact Leads.pure ()
  | some node => exact h node rfl

theorem evolves_execAll {fuel : Nat} {statements : List Node}
    (h : ∀ statement ∈ statements, Leads (State.Evolves A D) (exec fuel statement)) :
    Leads (State.Evolves A D) (execAll fuel statements) := by
  induction statements with
  | nil => exact Leads.pure ()
  | cons statement rest ih =>
    exact (h statement List.mem_cons_self).bind fun _ =>
      ih fun other hother => h other (List.mem_cons_of_mem _ hother)

/-- A statement changes scopes as its names to assign and to declare allow. -/
theorem evolves_exec {node : Node} (hA : node.assigned ⊆ A) (hD : node.declared ⊆ D) (fuel : Nat) :
    Leads (State.Evolves A D) (exec fuel node) := by
  induction node using Node.statementInduction generalizing D with
  | expression inner =>
    refine evolves_discard fun node hnode => ?_
    cases hnode
    exact Node.assigned_subset hA (by simp)
  | print inner =>
    exact (evolves_evaluate (Node.assigned_subset hA (by simp))).bind fun v => evolves_printLine v
  | varDecl name initializer? =>
    have hname : name.text ∈ D := hD (by simp [Node.declared])
    cases initializer? with
    | none => exact evolves_declare hname .nil
    | some initializer =>
      exact (evolves_evaluate (Node.assigned_subset hA (by simp))).bind fun v =>
        evolves_declare hname v
  | block statements ih =>
    -- inside the block all that is mentioned may be declared, as its scope is dropped
    have hbody : Leads (State.Evolves A (Node.block statements).names)
        (execAll fuel statements) := by
      refine evolves_execAll fun statement hmem => ?_
      have hchild : statement ∈ (Node.block statements).children := by simpa using hmem
      exact ih statement hmem (Node.assigned_subset hA hchild) (Node.declared_subset hchild)
    exact evolves_enclosed hbody
  | ifElse condition thenBranch elseBranch? ihThen ihElse =>
    refine (evolves_evaluate (Node.assigned_subset hA (by simp))).bind fun v => ?_
    cases v.isTruthy with
    | true =>
      refine ihThen (Node.assigned_subset hA (by simp)) (List.Subset.trans ?_ hD)
      cases elseBranch? <;> simp [Node.declared]
    | false =>
      refine evolves_execOption fun elseBranch h => ?_
      cases h
      exact ihElse elseBranch rfl (Node.assigned_subset hA (by simp))
        (List.Subset.trans (by simp [Node.declared]) hD)
  | whileLoop condition body ih =>
    refine evolves_loop ?_ (ih (Node.assigned_subset hA (by simp)) hD) fuel
    intro node hnode
    cases hnode
    exact Node.assigned_subset hA (by simp)
  | forLoop initializer? condition? increment? body ihInit ihBody =>
    have hinit : Leads (State.Evolves A
        (Node.forLoop initializer? condition? increment? body).names)
        (execOption fuel initializer?) := by
      refine evolves_execOption fun initializer h => ?_
      cases h
      exact ihInit initializer rfl (Node.assigned_subset hA (by simp))
        (Node.declared_subset (by simp))
    have hround : Leads (State.Evolves A
        (Node.forLoop initializer? condition? increment? body).names)
        (do exec fuel body; discard increment?) := by
      refine Leads.bind (ihBody (Node.assigned_subset hA (by simp))
        (Node.declared_subset (by simp))) fun _ => ?_
      refine evolves_discard fun increment h => ?_
      cases h
      exact Node.assigned_subset hA (by simp)
    refine evolves_enclosed (hinit.bind fun _ => evolves_loop (fun condition h => ?_) hround fuel)
    cases h
    exact Node.assigned_subset hA (by simp)
  | other node h =>
    rw [exec_of_not_isStatement h]
    exact Leads.throw _

end Scopes

/-! ## Stores -/

/-- The second store is what a statement with the given active frame may make of the first one. -/
structure Node.Footprint (statement : Node) (f : Nat) (s s' : Store) : Prop where
  /-- Every frame keeps its parent. -/
  parent?_eq : ∀ g < s.size, s'.parent? g = s.parent? g
  /-- Frames off the chain stay as they are. -/
  frames_eq : ∀ g < s.size, g ∉ s.chain f → s'.frames[g]? = s.frames[g]?
  /-- The frames around the active one keep their names, in their order. -/
  outer_names : ∀ g ∈ s.chain f, g ≠ f → (s'.bindings g).names = (s.bindings g).names
  /-- The active frame keeps its names, in their order, and may get declared ones after them. -/
  names : ∃ added, (s'.bindings f).names = (s.bindings f).names ++ added ∧
    ∀ name ∈ added, name ∈ statement.declared
  /-- A statement with a scope of its own gives no frame another name. -/
  enclosed_names : statement.encloses = true →
    ∀ g < s.size, (s'.bindings g).names = (s.bindings g).names
  /-- Other frames than the active one get other values for assigned names only. -/
  outer_values : ∀ g < s.size, g ≠ f → ∀ name,
    (s'.bindings g).get? name ≠ (s.bindings g).get? name → name ∈ statement.assigned
  /-- The active frame gets other values for assigned and for declared names only. -/
  values : ∀ name, (s'.bindings f).get? name ≠ (s.bindings f).get? name →
    name ∈ statement.assigned ∨ name ∈ statement.declared

/-- A statement leaves its footprint on the scopes that the active frame sees. -/
theorem Node.evolves_scopes {m m' : Machine} (hm : m.active < m.store.size) {statement : Node}
    {outcome : Except Fault Unit} (h : Ends (Node.exec · statement) m outcome m') :
    Scopes.Evolves statement.assigned statement.declared
      ((m.store.chain m.active).map m.store.bindings)
      ((m.store.chain m.active).map m'.store.bindings) := by
  obtain ⟨state, hstate, hshows⟩ := Node.ends_scopes hm h
  rw [hshows.store.scopes_eq]
  exact hstate.leads (R := Scopes.State.Evolves statement.assigned statement.declared)
    fun fuel => Scopes.evolves_exec (List.Subset.refl _) (List.Subset.refl _) fuel

/-- The bindings of the active frame, and those of the frames around it. -/
theorem Node.evolves_bindings {m m' : Machine} (hm : m.active < m.store.size) {statement : Node}
    {outcome : Except Fault Unit} (h : Ends (Node.exec · statement) m outcome m') :
    (m.store.bindings m.active).Evolves statement.assigned statement.declared
      (m'.store.bindings m.active) ∧
    ∀ g ∈ m.store.chain m.active, g ≠ m.active →
      (m.store.bindings g).Evolves statement.assigned [] (m'.store.bindings g) := by
  obtain ⟨rest, hchain, -⟩ := m.store.exists_chain_eq_cons m.active
  have hscopes := Node.evolves_scopes hm h
  rw [hchain, List.map_cons, List.map_cons] at hscopes
  cases hscopes with
  | cons head tail =>
    refine ⟨head, fun g hg hne => ?_⟩
    rw [hchain, List.mem_cons] at hg
    exact tail.of_map (hg.resolve_left hne)

/-- However a statement ends, it has changed the store only as its text says: in the frames of the
chain, for names that it assigns, and in the active frame also for names that it declares outside
of blocks and `for` loops. -/
theorem exec_footprint (m m' : Machine) (hm : m.active < m.store.size) (statement : Node)
    (outcome : Except Fault Unit) (h : Ends (Node.exec · statement) m outcome m') :
    statement.Footprint m.active m.store m'.store := by
  obtain ⟨state, -, hshows⟩ := Node.ends_scopes hm h
  obtain ⟨hactive, houter⟩ := Node.evolves_bindings hm h
  have hoff : ∀ g < m.store.size, g ∉ m.store.chain m.active →
      m'.store.bindings g = m.store.bindings g := hshows.store.untouched
  constructor
  case parent?_eq => exact hshows.store.grows.parent?_eq
  case frames_eq => exact fun g hg => hshows.store.frames_eq hg
  case outer_names => exact fun g hg hne => (houter g hg hne).names_eq
  case names => exact hactive.names
  case enclosed_names =>
    intro hencloses g hg
    by_cases hmem : g ∈ m.store.chain m.active
    · by_cases heq : g = m.active
      · subst heq
        rw [Node.declared_of_encloses hencloses] at hactive
        exact hactive.names_eq
      · exact (houter g hmem heq).names_eq
    · rw [hoff g hg hmem]
  case outer_values =>
    intro g hg hne name hchanged
    by_cases hmem : g ∈ m.store.chain m.active
    · rcases (houter g hmem hne).values name hchanged with hname | hname
      · exact hname
      · cases hname
    · exact absurd (by rw [hoff g hg hmem]) hchanged
  case values => exact hactive.values

/-- A branch that assigns to a name of an outer frame and then declares another one. -/
def declaringBranch : Node :=
  .ifElse (.var (.bare "x"))
    (.varDecl (.bare "y") (some (.assign (.bare "x") (.literal (.host (.string "b"))))))
    none

/-- The declaration reaches the active frame and the assignment the one around it. -/
theorem exec_footprint_declaringBranch :
    ∃ m', Ends (Node.exec · declaringBranch) nestedMachine (.ok ()) m' ∧
      declaringBranch.Footprint nestedMachine.active nestedMachine.store m'.store ∧
      (m'.store.bindings 1).names = ["y"] ∧
      (m'.store.bindings 0).get? "x" = some (.string "b") := by
  have hexec : Ends (Node.exec · declaringBranch) nestedMachine (.ok ()) _ :=
    ⟨0, by with_unfolding_all rfl⟩
  exact ⟨_, hexec, exec_footprint nestedMachine _ (by decide) declaringBranch _ hexec,
    by with_unfolding_all rfl, by with_unfolding_all rfl⟩

end Lox
