import Lox.Value

/-!
# Bindings

The names of one scope with their values, in the order in which the names came.  Giving a name a
new value leaves the name in its place; a new name comes last.
-/

namespace Lox

/-- Give a name a value in a list of entries: in place if it is there, at the end if not. -/
def putEntry (name : String) (v : Value) : List (String × Value) → List (String × Value)
  | [] => [(name, v)]
  | (other, w) :: rest =>
    if other = name then (name, v) :: rest else (other, w) :: putEntry name v rest

/-- The value of the first entry with the given name. -/
def findEntry (name : String) : List (String × Value) → Option Value
  | [] => none
  | (other, w) :: rest => if other = name then some w else findEntry name rest

theorem map_fst_putEntry (name : String) (v : Value) (entries : List (String × Value)) :
    (putEntry name v entries).map Prod.fst =
      if name ∈ entries.map Prod.fst then entries.map Prod.fst
      else entries.map Prod.fst ++ [name] := by
  induction entries with
  | nil => simp [putEntry]
  | cons entry rest ih =>
    obtain ⟨other, w⟩ := entry
    by_cases h : other = name
    · simp [putEntry, h]
    · have h' : ¬ name = other := fun e => h e.symm
      by_cases hm : name ∈ rest.map Prod.fst <;> simp_all [putEntry]

theorem findEntry_putEntry (name other : String) (v : Value) (entries : List (String × Value)) :
    findEntry other (putEntry name v entries) =
      if other = name then some v else findEntry other entries := by
  induction entries with
  | nil => simp only [putEntry, findEntry]; grind
  | cons entry rest ih => obtain ⟨third, w⟩ := entry; grind [putEntry, findEntry]

theorem findEntry_eq_none_iff (name : String) (entries : List (String × Value)) :
    findEntry name entries = none ↔ name ∉ entries.map Prod.fst := by
  induction entries with
  | nil => simp [findEntry]
  | cons entry rest ih => obtain ⟨other, w⟩ := entry; grind [findEntry]

/-- Distinct names with their values, in the order in which the names came. -/
structure Bindings where
  entries : List (String × Value)
  nodup : (entries.map Prod.fst).Nodup
  deriving DecidableEq

namespace Bindings

instance : EmptyCollection Bindings := ⟨[], List.nodup_nil⟩

instance : Inhabited Bindings := ⟨∅⟩

/-- The names, in order. -/
def names (b : Bindings) : List String := b.entries.map Prod.fst

/-- The value of a name. -/
def get? (b : Bindings) (name : String) : Option Value := findEntry name b.entries

/-- Whether a name has a value. -/
def holds (b : Bindings) (name : String) : Bool := (b.get? name).isSome

/-- Give a name a value. -/
def insert (b : Bindings) (name : String) (v : Value) : Bindings where
  entries := putEntry name v b.entries
  nodup := by
    rw [map_fst_putEntry]
    split
    · exact b.nodup
    · next h => exact List.nodup_append.2 ⟨b.nodup, by simp, by grind⟩

/-- Bindings made of the given entries, one after the other. -/
def ofList (entries : List (String × Value)) : Bindings :=
  entries.foldl (fun b (name, v) => b.insert name v) ∅

@[simp] theorem names_empty : names ∅ = [] := rfl

@[simp] theorem get?_empty (name : String) : get? ∅ name = none := rfl

/-- A known name keeps its place and a new one comes last. -/
theorem names_insert (b : Bindings) (name : String) (v : Value) :
    (b.insert name v).names = if name ∈ b.names then b.names else b.names ++ [name] :=
  map_fst_putEntry name v b.entries

/-- The name has the new value and all others have theirs. -/
theorem get?_insert (b : Bindings) (name other : String) (v : Value) :
    (b.insert name v).get? other = if other = name then some v else b.get? other :=
  findEntry_putEntry name other v b.entries

theorem get?_eq_none_iff {b : Bindings} {name : String} : b.get? name = none ↔ name ∉ b.names :=
  findEntry_eq_none_iff name b.entries

theorem holds_iff {b : Bindings} {name : String} : b.holds name = true ↔ name ∈ b.names := by
  rw [holds, Option.isSome_iff_ne_none, ne_eq, get?_eq_none_iff, Classical.not_not]

end Bindings
end Lox
