import Lox.Environment.Bindings
import Lox.Text.Quoted

/-!
# Frames and the store

A frame holds the bindings of one scope and may have a parent, the scope around it.  The store
holds every frame that was ever made, under the number it got then.  A parent is always older than
its children, so the chain of a frame, from the frame outwards, is finite.

A name belongs to the nearest frame of the chain that holds it, its *owner*, and has the value
that it has there.

## Main definitions

* `Frame`, `Store` — frames and the store of all frames.
* `Store.chain`, `Store.depth`, `Store.owner?` — a frame with the frames around it, their number,
  and the nearest of them that holds a name.
* `Store.lookup?` — the value of a name, seen from a frame.
* `Store.define`, `Store.push` — give a name a value in a frame, and make a frame.
-/

namespace Lox

/-- The bindings of one scope, with the scope around it. -/
@[ext]
structure Frame where
  parent? : Option Nat := none
  bindings : Bindings := ∅
  deriving DecidableEq

/-- All frames ever made. -/
structure Store where
  frames : Array Frame
  /-- A parent is older than its child. -/
  parent_lt : ∀ (f : Nat) (h : f < frames.size) (p : Nat),
    frames[f].parent? = some p → p < f
  deriving DecidableEq

namespace Store

/-- The store without frames. -/
def empty : Store := ⟨#[], fun _ h => absurd h (Nat.not_lt_zero _)⟩

instance : EmptyCollection Store := ⟨empty⟩

instance : Inhabited Store := ⟨∅⟩

/-- The number of frames, and the number of the frame made next. -/
def size (s : Store) : Nat := s.frames.size

/-- The parent of a frame. -/
def parent? (s : Store) (f : Nat) : Option Nat := s.frames[f]?.bind Frame.parent?

/-- The bindings of a frame; none for a number that no frame has. -/
def bindings (s : Store) (f : Nat) : Bindings :=
  match s.frames[f]? with
  | some frame => frame.bindings
  | none => ∅

theorem lt_of_parent? {s : Store} {f p : Nat} (h : s.parent? f = some p) : p < f := by
  obtain ⟨frame, hframe, hparent⟩ := Option.bind_eq_some_iff.1 h
  obtain ⟨hf, rfl⟩ := Array.getElem?_eq_some_iff.1 hframe
  exact s.parent_lt f hf p hparent

/-! ## Chains -/

/-- A frame, its parent, the parent of that, and so on outwards. -/
def chain (s : Store) (f : Nat) : List Nat :=
  match _h : s.parent? f with
  | some p => f :: s.chain p
  | none => [f]
termination_by f
decreasing_by exact lt_of_parent? _h

theorem chain_eq (s : Store) (f : Nat) :
    s.chain f = f :: (match s.parent? f with | some p => s.chain p | none => []) := by
  rw [chain]
  split <;> simp_all

/-- The number of frames around a frame. -/
def depth (s : Store) (f : Nat) : Nat := (s.chain f).length - 1

/-- The nearest frame of the chain that holds a name. -/
def owner? (s : Store) (f : Nat) (name : String) : Option Nat :=
  (s.chain f).find? fun g => (s.bindings g).holds name

/-! ## Operations -/

/-- The value of a name in the nearest frame that holds it. -/
def lookup? (s : Store) (f : Nat) (name : String) : Option Value :=
  (s.chain f).findSome? fun g => (s.bindings g).get? name

/-- Give a name a value in a frame. -/
def define (s : Store) (f : Nat) (name : String) (v : Value) : Store where
  frames := s.frames.modify f fun frame => { frame with bindings := frame.bindings.insert name v }
  parent_lt := by
    intro g hg p hp
    have hg' : g < s.frames.size := by simpa using hg
    refine s.parent_lt g hg' p ?_
    rw [Array.getElem_modify] at hp
    split at hp <;> exact hp

/-- Make a frame without bindings; its number is the old size of the store.  A parent that is not
in the store counts as none. -/
def push (s : Store) (parent? : Option Nat) : Store where
  frames := s.frames.push { parent? := parent?.filter (· < s.size) }
  parent_lt := by
    intro f hf p hp
    rw [Array.getElem_push] at hp
    split at hp
    · next h => exact s.parent_lt f h p hp
    · next h =>
      have hp' := Option.filter_eq_some_iff.1 hp
      have hlt : p < s.frames.size := of_decide_eq_true hp'.2
      omega

@[simp] theorem size_define (s : Store) (f : Nat) (name : String) (v : Value) :
    (s.define f name v).size = s.size := by simp [size, define]

@[simp] theorem size_push (s : Store) (parent? : Option Nat) :
    (s.push parent?).size = s.size + 1 := by simp [size, push]

/-! ## Descriptions -/

/-- A frame in words: how deep it is, and its names with their values. -/
def describe (s : Store) (f : Nat) : String :=
  let entry := fun (name, v) => Text.quoted name ++ ": " ++ Value.written v
  "Frame(depth=" ++ toString (s.depth f) ++ ", vars=\x7b" ++
    ", ".intercalate ((s.bindings f).entries.map entry) ++ "\x7d)"

end Store
end Lox
