import Lox.Environment.Bindings

/-!
# Stacks of scopes

A program sees its variables as a stack of scopes, the innermost first, and nothing of frames and
their numbers.  A name is looked up and assigned in the first scope that holds it, and it is
defined in the innermost one.
-/

namespace Lox

/-- Scopes, the innermost first. -/
abbrev Scopes := List Bindings

namespace Scopes

/-- The value of a name in the first scope that holds it. -/
def lookup? (name : String) : Scopes → Option Value
  | [] => none
  | b :: rest =>
    match b.get? name with
    | some v => some v
    | none => lookup? name rest

/-- Give a name another value in the first scope that holds it; nothing if none does. -/
def assign? (name : String) (v : Value) : Scopes → Option Scopes
  | [] => none
  | b :: rest =>
    match b.get? name with
    | some _ => some (b.insert name v :: rest)
    | none => (assign? name v rest).map (b :: ·)

/-- Give a name a value in the innermost scope. -/
def define (name : String) (v : Value) : Scopes → Scopes
  | [] => []
  | b :: rest => b.insert name v :: rest

@[simp] theorem lookup?_nil (name : String) : lookup? name [] = none := rfl

theorem lookup?_cons (name : String) (b : Bindings) (rest : Scopes) :
    lookup? name (b :: rest) = (b.get? name).or (lookup? name rest) := by
  rw [lookup?]
  cases b.get? name <;> rfl

theorem assign?_cons_of_some {name : String} {b : Bindings} {w : Value}
    (h : b.get? name = some w) (v : Value) (rest : Scopes) :
    assign? name v (b :: rest) = some (b.insert name v :: rest) := by
  simp only [assign?, h]

theorem assign?_cons_of_none {name : String} {b : Bindings} (h : b.get? name = none) (v : Value)
    (rest : Scopes) : assign? name v (b :: rest) = (assign? name v rest).map (b :: ·) := by
  simp only [assign?, h]

/-- A name can be assigned if and only if it can be looked up. -/
theorem assign?_eq_none_iff (name : String) (v : Value) (scopes : Scopes) :
    assign? name v scopes = none ↔ lookup? name scopes = none := by
  induction scopes with
  | nil => simp [assign?]
  | cons b rest ih =>
    rw [lookup?_cons]
    cases h : b.get? name with
    | some w => simp [assign?_cons_of_some h]
    | none => simp [assign?_cons_of_none h, ih]

/-- After an assignment the name has the new value and all others have theirs. -/
theorem lookup?_of_assign? {name : String} {v : Value} {scopes scopes' : Scopes}
    (h : assign? name v scopes = some scopes') (other : String) :
    lookup? other scopes' = if other = name then some v else lookup? other scopes := by
  induction scopes generalizing scopes' with
  | nil => cases h
  | cons b rest ih =>
    cases hget : b.get? name with
    | some w =>
      rw [assign?_cons_of_some hget] at h
      cases h
      rw [lookup?_cons, lookup?_cons, Bindings.get?_insert]
      split <;> rfl
    | none =>
      rw [assign?_cons_of_none hget] at h
      obtain ⟨rest', hrest, rfl⟩ := Option.map_eq_some_iff.1 h
      rw [lookup?_cons, lookup?_cons, ih hrest]
      split
      · next hother => rw [hother, hget]; rfl
      · rfl

/-- After a definition the name has the new value and all others have theirs. -/
theorem lookup?_define {scopes : Scopes} (h : scopes ≠ []) (name other : String) (v : Value) :
    lookup? other (define name v scopes) =
      if other = name then some v else lookup? other scopes := by
  cases scopes with
  | nil => exact absurd rfl h
  | cons b rest =>
    rw [define, lookup?_cons, lookup?_cons, Bindings.get?_insert]
    split <;> rfl

theorem define_ne_nil {scopes : Scopes} (h : scopes ≠ []) (name : String) (v : Value) :
    define name v scopes ≠ [] := by
  cases scopes with
  | nil => exact absurd rfl h
  | cons b rest => exact List.cons_ne_nil _ _

theorem ne_nil_of_assign? {name : String} {v : Value} {scopes scopes' : Scopes}
    (h : assign? name v scopes = some scopes') : scopes' ≠ [] := by
  rintro rfl
  have hlookup := lookup?_of_assign? h name
  rw [if_pos rfl, lookup?_nil] at hlookup
  cases hlookup

end Scopes
end Lox
