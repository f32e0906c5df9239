import Lox.Machine

/-!
# Computations on a state

Expressions and statements are computations that change a state and may stop early.  Six
questions about such computations recur, and each has its own closure under sequencing.

A computation *leads* along a relation if the state that it leaves is always related to the state
it began in; this says what a computation preserves, on every way out.  It *ensures* properties of
its answers and errors if these hold whenever it begins in a state as required.  Two computations
run in *lockstep* if from related states they end alike in related states.  One computation
*agrees* with another *unless* it ends in certain errors if both do the same wherever it does not;
it *approximates* the other if running out of fuel is the only such error.  Two computations agree
*up to* a view of their errors if no more than the rest of an error tells them apart.  A family of
computations that grows with its fuel has at most one outcome.

## Main definitions

* `finalState` — the state that a computation leaves.
* `Leads`, `Ensures` — what a single computation does to the state, and what it gives.
* `SameEnd`, `Lockstep` — two computations side by side.
* `AgreesUnless` — two computations that may differ where the first one ends in certain errors.
* `AgreesUpTo` — two computations that may differ in what a view of their errors leaves out.
* `Approximates`, `FuelMonotone` — the effect of more fuel.
* `Ends`, `Terminates` — the outcome of a computation that is given enough fuel.
-/

namespace Lox

variable {ε σ τ α β : Type}

theorem bind_of_ok {p : EStateM ε σ α} {f : α → EStateM ε σ β} {s s' : σ} {a : α}
    (h : p s = .ok a s') : (p >>= f) s = f a s' := by
  change EStateM.bind p f s = f a s'
  simp only [EStateM.bind, h]

theorem bind_of_error {p : EStateM ε σ α} {f : α → EStateM ε σ β} {s s' : σ} {e : ε}
    (h : p s = .error e s') : (p >>= f) s = .error e s' := by
  change EStateM.bind p f s = .error e s'
  simp only [EStateM.bind, h]

/-- An answer of two computations in a row is one of the second after one of the first. -/
theorem bind_eq_ok_iff {p : EStateM ε σ α} {f : α → EStateM ε σ β} {s s' : σ} {b : β} :
    (p >>= f) s = .ok b s' ↔ ∃ a s₁, p s = .ok a s₁ ∧ f a s₁ = .ok b s' := by
  cases hs : p s with
  | ok a s₁ =>
    rw [bind_of_ok hs]
    refine ⟨fun h => ⟨a, s₁, rfl, h⟩, ?_⟩
    rintro ⟨a', s₁', heq, h⟩
    cases heq
    exact h
  | error e s₁ => simp [bind_of_error hs]

/-! ## What a computation leaves -/

/-- The state that a computation leaves, however it ends. -/
def finalState : EStateM.Result ε σ α → σ
  | .ok _ s => s
  | .error _ s => s

@[simp] theorem finalState_ok (a : α) (s : σ) :
    finalState (.ok a s : EStateM.Result ε σ α) = s := rfl
@[simp] theorem finalState_error (e : ε) (s : σ) :
    finalState (.error e s : EStateM.Result ε σ α) = s := rfl

/-- The state that a computation leaves is related to the one it began in, on every way out. -/
def Leads (R : σ → σ → Prop) (p : EStateM ε σ α) : Prop := ∀ s, R s (finalState (p s))

namespace Leads
variable {R : σ → σ → Prop}

theorem pure [Std.Refl R] (a : α) : Leads R (Pure.pure a : EStateM ε σ α) :=
  fun s => Std.Refl.refl s

theorem throw [Std.Refl R] (e : ε) : Leads R (MonadExcept.throw e : EStateM ε σ α) :=
  fun s => Std.Refl.refl s

theorem bind [Trans R R R] {p : EStateM ε σ α} {f : α → EStateM ε σ β} (hp : Leads R p)
    (hf : ∀ a, Leads R (f a)) : Leads R (p >>= f) := by
  intro s
  have hs := hp s
  cases h : p s with
  | ok a s' =>
    rw [h] at hs
    rw [bind_of_ok h]
    exact Trans.trans hs (hf a s')
  | error e s' =>
    rw [h] at hs
    rw [bind_of_error h]
    exact hs

/-- The state that comes with an answer is related to the one before. -/
theorem of_ok {p : EStateM ε σ α} (hp : Leads R p) {s s' : σ} {a : α} (h : p s = .ok a s') :
    R s s' := by
  have hs := hp s
  rwa [h] at hs

/-- A weaker relation holds too. -/
theorem mono {R' : σ → σ → Prop} {p : EStateM ε σ α} (hp : Leads R p)
    (h : ∀ s s', R s s' → R' s s') : Leads R' p :=
  fun s => h s _ (hp s)

end Leads

/-! ## What a computation ensures -/

/-- From states with the first property, an answer comes with a state that the second property
allows, and an error with one that the third property allows. -/
def Ensures (P : σ → Prop) (p : EStateM ε σ α) (Q : α → σ → Prop) (E : ε → σ → Prop) : Prop :=
  ∀ s, P s → (∀ a s', p s = .ok a s' → Q a s') ∧ ∀ e s', p s = .error e s' → E e s'

namespace Ensures
variable {P : σ → Prop} {Q : α → σ → Prop} {E : ε → σ → Prop}

/-- What is ensured can be read off the results. -/
theorem of_results {p : EStateM ε σ α}
    (h : ∀ s, P s → match p s with
      | .ok a s' => Q a s'
      | .error e s' => E e s') : Ensures P p Q E := by
  intro s hs
  have hresult := h s hs
  refine ⟨fun a s' heq => ?_, fun e s' heq => ?_⟩
  · rwa [heq] at hresult
  · rwa [heq] at hresult

theorem pure {a : α} (h : ∀ s, P s → Q a s) :
    Ensures P (Pure.pure a : EStateM ε σ α) Q E := by
  intro s hs
  refine ⟨fun b s' heq => ?_, fun e s' heq => ?_⟩
  · cases heq
    exact h s hs
  · cases heq

theorem throw {e : ε} (h : ∀ s, P s → E e s) :
    Ensures P (MonadExcept.throw e : EStateM ε σ α) Q E := by
  intro s hs
  refine ⟨fun a s' heq => ?_, fun f s' heq => ?_⟩
  · cases heq
  · cases heq
    exact h s hs

theorem bind {p : EStateM ε σ α} {f : α → EStateM ε σ β} {Q' : β → σ → Prop}
    (hp : Ensures P p Q E) (hf : ∀ a, Ensures (Q a) (f a) Q' E) :
    Ensures P (p >>= f) Q' E := by
  intro s hs
  obtain ⟨hok, herror⟩ := hp s hs
  cases h : p s with
  | ok a s' =>
    rw [bind_of_ok h]
    exact hf a s' (hok a s' h)
  | error e s' =>
    rw [bind_of_error h]
    refine ⟨fun b t heq => ?_, fun f t heq => ?_⟩
    · cases heq
    · cases heq
      exact herror e s' h

/-- What the computation leads to holds of every answer. -/
theorem of_leads {R : σ → σ → Prop} {p : EStateM ε σ α} (h : Ensures P p (fun _ _ => True) E)
    (hR : Leads R p) (hQ : ∀ s s', P s → R s s' → ∀ a, Q a s') : Ensures P p Q E := by
  intro s hs
  refine ⟨fun a s' heq => ?_, (h s hs).2⟩
  have hlead := hR s
  rw [heq] at hlead
  exact hQ s s' hs hlead a

end Ensures

/-! ## Two computations side by side -/

/-- Two results end alike, with equal answers or equal errors, in related states. -/
def SameEnd (R : σ → τ → Prop) : EStateM.Result ε σ α → EStateM.Result ε τ α → Prop
  | .ok a s, .ok b t => a = b ∧ R s t
  | .error e s, .error f t => e = f ∧ R s t
  | _, _ => False

/-- From related states, two computations end alike in related states. -/
def Lockstep (R : σ → τ → Prop) (p : EStateM ε σ α) (q : EStateM ε τ α) : Prop :=
  ∀ s t, R s t → SameEnd R (p s) (q t)

/-- Results that end alike are both answers or both errors. -/
theorem SameEnd.cases {R : σ → τ → Prop} {r : EStateM.Result ε σ α} {r' : EStateM.Result ε τ α}
    (h : SameEnd R r r') :
    (∃ a s t, r = .ok a s ∧ r' = .ok a t ∧ R s t) ∨
      ∃ e s t, r = .error e s ∧ r' = .error e t ∧ R s t := by
  cases r with
  | ok a s =>
    cases r' with
    | ok b t => exact .inl ⟨a, s, t, rfl, by rw [h.1], h.2⟩
    | error e t => exact h.elim
  | error e s =>
    cases r' with
    | ok b t => exact h.elim
    | error f t => exact .inr ⟨e, s, t, rfl, by rw [h.1], h.2⟩

/-- Results that end alike do so for a weaker relation too. -/
theorem SameEnd.mono {R R' : σ → τ → Prop} {r : EStateM.Result ε σ α}
    {r' : EStateM.Result ε τ α} (h : SameEnd R r r') (hR : ∀ s t, R s t → R' s t) :
    SameEnd R' r r' := by
  rcases h.cases with ⟨a, s, t, rfl, rfl, hst⟩ | ⟨e, s, t, rfl, rfl, hst⟩
  · exact ⟨rfl, hR s t hst⟩
  · exact ⟨rfl, hR s t hst⟩

/-- Two results that end like a third one are equal if the relation leaves no choice of their
states. -/
theorem SameEnd.left_unique {R : σ → τ → Prop} {s₀ : σ} {r₁ r₂ : EStateM.Result ε σ α}
    {r : EStateM.Result ε τ α} (h₁ : SameEnd R r₁ r) (hR : ∀ s t, R s t → s = s₀)
    (h₂ : SameEnd R r₂ r) : r₁ = r₂ := by
  rcases h₁.cases with ⟨a, s, t, rfl, rfl, hst⟩ | ⟨e, s, t, rfl, rfl, hst⟩
  · rcases h₂.cases with ⟨b, s', t', rfl, heq, hst'⟩ | ⟨e, s', t', rfl, heq, -⟩
    · cases heq
      rw [hR s t hst, hR s' t hst']
    · cases heq
  · rcases h₂.cases with ⟨b, s', t', rfl, heq, -⟩ | ⟨e, s', t', rfl, heq, hst'⟩
    · cases heq
    · cases heq
      rw [hR s t hst, hR s' t hst']

namespace Lockstep
variable {R : σ → τ → Prop}

theorem pure (a : α) : Lockstep R (Pure.pure a : EStateM ε σ α) (Pure.pure a : EStateM ε τ α) :=
  fun _ _ h => ⟨rfl, h⟩

theorem throw (e : ε) :
    Lockstep R (MonadExcept.throw e : EStateM ε σ α) (MonadExcept.throw e : EStateM ε τ α) :=
  fun _ _ h => ⟨rfl, h⟩

theorem bind {p : EStateM ε σ α} {q : EStateM ε τ α} {f : α → EStateM ε σ β}
    {g : α → EStateM ε τ β} (hp : Lockstep R p q) (hf : ∀ a, Lockstep R (f a) (g a)) :
    Lockstep R (p >>= f) (q >>= g) := by
  intro s t h
  rcases (hp s t h).cases with ⟨a, s', t', hs, ht, h'⟩ | ⟨e, s', t', hs, ht, h'⟩
  · rw [bind_of_ok hs, bind_of_ok ht]
    exact hf a s' t' h'
  · rw [bind_of_error hs, bind_of_error ht]
    exact ⟨rfl, h'⟩

/-- The two computations can change places. -/
theorem symm {p : EStateM ε σ α} {q : EStateM ε τ α} (h : Lockstep R p q) :
    Lockstep (fun t s => R s t) q p := by
  intro t s hR
  rcases (h s t hR).cases with ⟨a, s', t', hs, ht, hR'⟩ | ⟨e, s', t', hs, ht, hR'⟩
  · rw [hs, ht]
    exact ⟨rfl, hR'⟩
  · rw [hs, ht]
    exact ⟨rfl, hR'⟩

end Lockstep

/-! ## Agreement up to some errors -/

/-- The second computation does what the first does, wherever the first does not end in one of the
given errors. -/
def AgreesUnless (E : ε → Prop) (p q : EStateM ε σ α) : Prop :=
  ∀ s, (∃ e s', E e ∧ p s = .error e s') ∨ q s = p s

namespace AgreesUnless
variable {E : ε → Prop}

theorem refl (p : EStateM ε σ α) : AgreesUnless E p p := fun _ => .inr rfl

theorem throw {e : ε} (he : E e) (q : EStateM ε σ α) :
    AgreesUnless E (MonadExcept.throw e) q :=
  fun s => .inl ⟨e, s, he, rfl⟩

theorem bind {p p' : EStateM ε σ α} {f f' : α → EStateM ε σ β} (hp : AgreesUnless E p p')
    (hf : ∀ a, AgreesUnless E (f a) (f' a)) : AgreesUnless E (p >>= f) (p' >>= f') := by
  intro s
  rcases hp s with ⟨e, s', he, hs⟩ | hs
  · exact .inl ⟨e, s', he, bind_of_error hs⟩
  · cases h : p s with
    | ok a s' =>
      rw [bind_of_ok h, bind_of_ok (hs.trans h)]
      exact hf a s'
    | error e s' =>
      rw [bind_of_error h, bind_of_error (hs.trans h)]
      exact .inr rfl

/-- With no error to except, the two computations are equal. -/
theorem eq_of_forall_not {p q : EStateM ε σ α} (h : AgreesUnless E p q) (hE : ∀ e, ¬ E e) :
    q = p := by
  funext s
  rcases h s with ⟨e, s', he, -⟩ | hs
  · exact absurd he (hE e)
  · exact hs

end AgreesUnless

/-! ## Agreement up to a view of the errors -/

/-- The two computations do the same, as far as can be told from a view of their errors. -/
def AgreesUpTo {δ : Type} (view : ε → δ) (p q : EStateM ε σ α) : Prop :=
  p.adaptExcept view = q.adaptExcept view

namespace AgreesUpTo
variable {δ : Type} {view : ε → δ} {p q : EStateM ε σ α}

theorem refl (p : EStateM ε σ α) : AgreesUpTo view p p := rfl

theorem symm (h : AgreesUpTo view p q) : AgreesUpTo view q p := Eq.symm h

theorem throw {e e' : ε} (h : view e = view e') :
    AgreesUpTo view (MonadExcept.throw e : EStateM ε σ α) (MonadExcept.throw e') :=
  funext fun s => congrArg (EStateM.Result.error · s) h

/-- Both computations give an answer, or both end in errors with the same view. -/
theorem cases (h : AgreesUpTo view p q) (s : σ) :
    (∃ a s', p s = .ok a s' ∧ q s = .ok a s') ∨
      ∃ e e' s', p s = .error e s' ∧ q s = .error e' s' ∧ view e = view e' := by
  have hs := congrFun h s
  simp only [EStateM.adaptExcept] at hs
  cases hp : p s with
  | ok a s₁ =>
    cases hq : q s with
    | ok b s₂ =>
      simp only [hp, hq, EStateM.Result.ok.injEq] at hs
      exact .inl ⟨a, s₁, rfl, by rw [hs.1, hs.2]⟩
    | error e s₂ => simp [hp, hq] at hs
  | error e s₁ =>
    cases hq : q s with
    | ok b s₂ => simp [hp, hq] at hs
    | error e' s₂ =>
      simp only [hp, hq, EStateM.Result.error.injEq] at hs
      exact .inr ⟨e, e', s₁, rfl, by rw [hs.2], hs.1⟩

theorem of_cases (h : ∀ s, (∃ a s', p s = .ok a s' ∧ q s = .ok a s') ∨
    ∃ e e' s', p s = .error e s' ∧ q s = .error e' s' ∧ view e = view e') :
    AgreesUpTo view p q := by
  funext s
  simp only [EStateM.adaptExcept]
  rcases h s with ⟨a, s', hp, hq⟩ | ⟨e, e', s', hp, hq, hview⟩
  · simp only [hp, hq]
  · simp only [hp, hq, hview]

theorem bind {f g : α → EStateM ε σ β} (h : AgreesUpTo view p q)
    (hf : ∀ a, AgreesUpTo view (f a) (g a)) : AgreesUpTo view (p >>= f) (q >>= g) := by
  refine of_cases fun s => ?_
  rcases h.cases s with ⟨a, s', hp, hq⟩ | ⟨e, e', s', hp, hq, hview⟩
  · rw [bind_of_ok hp, bind_of_ok hq]
    exact (hf a).cases s'
  · rw [bind_of_error hp, bind_of_error hq]
    exact .inr ⟨e, e', s', rfl, rfl, hview⟩

end AgreesUpTo

/-! ## More fuel -/

/-- The second computation does what the first does, wherever the first does not run out of
fuel. -/
def Approximates (p q : EStateM Stop σ α) : Prop :=
  ∀ s, (∃ s', p s = .error .outOfFuel s') ∨ q s = p s

theorem approximates_iff {p q : EStateM Stop σ α} :
    Approximates p q ↔ AgreesUnless (· = .outOfFuel) p q :=
  forall_congr' fun _ => or_congr_left (by simp)

namespace Approximates

theorem refl (p : EStateM Stop σ α) : Approximates p p := fun _ => .inr rfl

theorem bind {p p' : EStateM Stop σ α} {f f' : α → EStateM Stop σ β} (hp : Approximates p p')
    (hf : ∀ a, Approximates (f a) (f' a)) : Approximates (p >>= f) (p' >>= f') :=
  approximates_iff.2 ((approximates_iff.1 hp).bind fun a => approximates_iff.1 (hf a))

end Approximates

/-- More fuel changes nothing but running out of it. -/
def FuelMonotone (run : Nat → EStateM Stop σ α) : Prop :=
  ∀ fuel more, fuel ≤ more → Approximates (run fuel) (run more)

/-- Doing something else instead takes no fuel. -/
theorem FuelMonotone.ite {run : Nat → EStateM Stop σ α} (hrun : FuelMonotone run) (b : Bool)
    (a : α) : FuelMonotone fun fuel => if b then run fuel else pure a := by
  cases b with
  | true => exact hrun
  | false => exact fun _ _ _ => Approximates.refl _

/-! ## Outcomes -/

/-- The result with a given outcome, an answer or a fault. -/
def endedIn : Except Fault α → σ → EStateM.Result Stop σ α
  | .ok a, s => .ok a s
  | .error fault, s => .error (.fault fault) s

@[simp] theorem finalState_endedIn (outcome : Except Fault α) (s : σ) :
    finalState (endedIn outcome s) = s := by
  cases outcome <;> rfl

/-- With enough fuel, a computation ends with the given outcome and in the given state. -/
def Ends (run : Nat → EStateM Stop σ α) (s : σ) (outcome : Except Fault α) (s' : σ) : Prop :=
  ∃ fuel, run fuel s = endedIn outcome s'

/-- With enough fuel, a computation ends. -/
def Terminates (run : Nat → EStateM Stop σ α) (s : σ) : Prop := ∃ outcome s', Ends run s outcome s'

theorem endedIn_ne_outOfFuel (outcome : Except Fault α) (s s' : σ) :
    endedIn outcome s ≠ .error .outOfFuel s' := by
  cases outcome <;> simp [endedIn]

theorem endedIn_inj {o o' : Except Fault α} {s s' : σ} (h : endedIn o s = endedIn o' s') :
    o = o' ∧ s = s' := by
  cases o <;> cases o' <;> simp_all [endedIn]

/-- An outcome that is an answer is that answer. -/
theorem eq_of_ok_eq_endedIn {outcome : Except Fault α} {a : α} {s s' : σ}
    (h : .ok a s = endedIn outcome s') : outcome = .ok a ∧ s = s' := by
  cases outcome with
  | ok b =>
    cases h
    exact ⟨rfl, rfl⟩
  | error fault => cases h

/-- What every amount of fuel leads along, an ended computation leads along. -/
theorem Ends.leads {R : σ → σ → Prop} {run : Nat → EStateM Stop σ α} {s s' : σ}
    {outcome : Except Fault α} (h : Ends run s outcome s') (hR : ∀ fuel, Leads R (run fuel)) :
    R s s' := by
  obtain ⟨fuel, hfuel⟩ := h
  have hs := hR fuel s
  rw [hfuel, finalState_endedIn] at hs
  exact hs

/-- A computation that grows with its fuel ends in the same way with all larger amounts. -/
theorem Ends.exists_forall_le {run : Nat → EStateM Stop σ α} (hrun : FuelMonotone run) {s s' : σ}
    {outcome : Except Fault α} (h : Ends run s outcome s') :
    ∃ fuel, ∀ more, fuel ≤ more → run more s = endedIn outcome s' := by
  obtain ⟨fuel, hfuel⟩ := h
  refine ⟨fuel, fun more hle => ?_⟩
  rcases hrun fuel more hle s with ⟨s'', hs⟩ | hs
  · exact absurd (hfuel.symm.trans hs) (endedIn_ne_outOfFuel _ _ _)
  · rw [hs, hfuel]

/-- A computation that grows with its fuel has one outcome at most. -/
theorem Ends.unique {run : Nat → EStateM Stop σ α} (hrun : FuelMonotone run) {s s₁ s₂ : σ}
    {o₁ o₂ : Except Fault α} (h₁ : Ends run s o₁ s₁) (h₂ : Ends run s o₂ s₂) :
    o₁ = o₂ ∧ s₁ = s₂ := by
  obtain ⟨n₁, hn₁⟩ := h₁.exists_forall_le hrun
  obtain ⟨n₂, hn₂⟩ := h₂.exists_forall_le hrun
  exact endedIn_inj ((hn₁ _ (Nat.le_max_left n₁ n₂)).symm.trans (hn₂ _ (Nat.le_max_right n₁ n₂)))

/-- One computation after the other ends as the second does where the first gives an answer, and
with the fault of the first where it does not. -/
theorem ends_bind_iff {p : Nat → EStateM Stop σ α} {f : Nat → α → EStateM Stop σ β}
    (hp : FuelMonotone p) (hf : ∀ a, FuelMonotone (f · a)) {s s' : σ} {outcome : Except Fault β} :
    Ends (fun fuel => p fuel >>= f fuel) s outcome s' ↔
      (∃ a s₁, Ends p s (.ok a) s₁ ∧ Ends (f · a) s₁ outcome s') ∨
      ∃ fault, Ends p s (.error fault) s' ∧ outcome = .error fault := by
  constructor
  · rintro ⟨fuel, hfuel⟩
    cases hs : p fuel s with
    | ok a s₁ => exact .inl ⟨a, s₁, ⟨fuel, hs⟩, fuel, (bind_of_ok hs).symm.trans hfuel⟩
    | error e s₁ =>
      simp only [bind_of_error hs] at hfuel
      cases outcome with
      | ok b => cases hfuel
      | error fault =>
        cases hfuel
        exact .inr ⟨fault, ⟨fuel, hs⟩, rfl⟩
  · rintro (⟨a, s₁, hs, hs₁⟩ | ⟨fault, ⟨fuel, hs⟩, rfl⟩)
    · obtain ⟨n, hn⟩ := hs.exists_forall_le hp
      obtain ⟨n', hn'⟩ := hs₁.exists_forall_le (hf a)
      refine ⟨max n n', ?_⟩
      simp only [bind_of_ok (hn _ (Nat.le_max_left n n'))]
      exact hn' _ (Nat.le_max_right n n')
    · exact ⟨fuel, bind_of_error hs⟩

/-- Once the first computation has given an answer, only the second one counts. -/
theorem Ends.bind_iff {p : Nat → EStateM Stop σ α} {f : Nat → α → EStateM Stop σ β}
    (hp : FuelMonotone p) (hf : ∀ a, FuelMonotone (f · a)) {s s₁ s' : σ} {a : α}
    {outcome : Except Fault β} (h : Ends p s (.ok a) s₁) :
    Ends (fun fuel => p fuel >>= f fuel) s outcome s' ↔ Ends (f · a) s₁ outcome s' := by
  rw [ends_bind_iff hp hf]
  constructor
  · rintro (⟨b, s₂, hs₂, hend⟩ | ⟨fault, hfault, -⟩)
    · obtain ⟨heq, rfl⟩ := h.unique hp hs₂
      cases heq
      exact hend
    · obtain ⟨heq, -⟩ := h.unique hp hfault
      cases heq
  · exact fun hend => .inl ⟨a, s₁, h, hend⟩

/-- What ends like an outcome is that outcome, in a related state. -/
theorem SameEnd.of_endedIn {R : σ → τ → Prop} {outcome : Except Fault α} {s : σ}
    {r : EStateM.Result Stop τ α} (h : SameEnd R (endedIn outcome s) r) :
    ∃ t, r = endedIn outcome t ∧ R s t := by
  cases outcome with
  | ok a =>
    rcases h.cases with ⟨b, s', t, hs, hr, hR⟩ | ⟨e, s', t, hs, hr, hR⟩
    · cases hs
      exact ⟨t, hr, hR⟩
    · cases hs
  | error fault =>
    rcases h.cases with ⟨b, s', t, hs, hr, hR⟩ | ⟨e, s', t, hs, hr, hR⟩
    · cases hs
    · cases hs
      exact ⟨t, hr, hR⟩

/-- Where two computations end alike with every amount of fuel, they have the same outcomes. -/
theorem Ends.of_sameEnd {R : σ → τ → Prop} {p : Nat → EStateM Stop σ α}
    {q : Nat → EStateM Stop τ α} {s s' : σ} {t : τ} {outcome : Except Fault α}
    (h : ∀ fuel, SameEnd R (p fuel s) (q fuel t)) (hs : Ends p s outcome s') :
    ∃ t', Ends q t outcome t' ∧ R s' t' := by
  obtain ⟨fuel, hfuel⟩ := hs
  have hend := h fuel
  rw [hfuel] at hend
  obtain ⟨t', ht, hR⟩ := hend.of_endedIn
  exact ⟨t', ⟨fuel, ht⟩, hR⟩

theorem Terminates.of_sameEnd {R : σ → τ → Prop} {p : Nat → EStateM Stop σ α}
    {q : Nat → EStateM Stop τ α} {s : σ} {t : τ}
    (h : ∀ fuel, SameEnd R (p fuel s) (q fuel t)) (hp : Terminates p s) : Terminates q t := by
  obtain ⟨outcome, s', hends⟩ := hp
  obtain ⟨t', hends', -⟩ := hends.of_sameEnd h
  exact ⟨outcome, t', hends'⟩

/-- Computations in lockstep have the same outcomes. -/
theorem Ends.of_lockstep {R : σ → τ → Prop} {p : Nat → EStateM Stop σ α}
    {q : Nat → EStateM Stop τ α} (h : ∀ fuel, Lockstep R (p fuel) (q fuel)) {s s' : σ} {t : τ}
    {outcome : Except Fault α} (hst : R s t) (hs : Ends p s outcome s') :
    ∃ t', Ends q t outcome t' ∧ R s' t' :=
  hs.of_sameEnd fun fuel => h fuel s t hst

end Lox
