import Std.Data.HashMap
import ExtensiveForm.Sequence

/-!
The information sets of one seat in the order of their discovery. A label that recurs must come with
the actions and the own sequence it was first seen with.
-/

set_option autoImplicit false

namespace ExtensiveForm

/-- What was frozen when a label was first seen. -/
structure Infoset (L A : Type) where
  label : L
  actions : List A
  /-- The own sequence that leads here. -/
  parent : Sequence
  deriving Repr, DecidableEq

structure Registry (L A : Type) [BEq L] [Hashable L] where
  infosets : Array (Infoset L A)
  position : Std.HashMap L Nat

inductive Conflict (A : Type) where
  | actions (frozen : List A)
  | parent
  deriving DecidableEq, Repr

namespace Registry

variable {L A : Type} [BEq L] [Hashable L]

def empty : Registry L A := ⟨#[], ∅⟩

def size (r : Registry L A) : Nat := r.infosets.size

def isEmpty (r : Registry L A) : Bool := r.infosets.isEmpty

def position? (r : Registry L A) (label : L) : Option Nat := r.position[label]?

@[simp] theorem size_empty : (empty : Registry L A).size = 0 := rfl

@[simp] theorem position?_empty (l : L) : (empty : Registry L A).position? l = none := by
  simp [empty, position?]

def find? (r : Registry L A) (label : L) : Option (Nat × Infoset L A) := do
  let i ← r.position? label
  let info ← r.infosets[i]?
  return (i, info)

def push (r : Registry L A) (info : Infoset L A) : Registry L A :=
  match r with
  | ⟨infosets, position⟩ =>
    let i := infosets.size
    ⟨infosets.push info, position.insert info.label i⟩

@[simp] theorem infosets_push (r : Registry L A) (info : Infoset L A) :
    (r.push info).infosets = r.infosets.push info := rfl

@[simp] theorem size_push (r : Registry L A) (info : Infoset L A) :
    (r.push info).size = r.size + 1 := by simp [size]

theorem position?_push [EquivBEq L] [LawfulHashable L] (r : Registry L A) (info : Infoset L A) (l : L) :
    (r.push info).position? l = if info.label == l then some r.size else r.position? l := by
  simp [push, position?, size, Std.HashMap.getElem?_insert]

/-- The conflict between a set and what is seen on entering it again; actions are compared first. -/
def conflict? [BEq A] (known seen : Infoset L A) : Option (Conflict A) :=
  if known.actions != seen.actions then some (.actions known.actions)
  else if known.parent != seen.parent then some .parent
  else none

def enter [BEq A] (r : Registry L A) (seen : Infoset L A) :
    Except (Conflict A) (Nat × Registry L A) :=
  match r.find? seen.label with
  | some (i, known) =>
    match conflict? known seen with
    | some c => .error c
    | none => .ok (i, r)
  | none =>
    let i := r.size
    .ok (i, r.push seen)

theorem enter_of_find?_eq_none [BEq A] {r : Registry L A} {seen : Infoset L A}
    (h : r.find? seen.label = none) : r.enter seen = .ok (r.size, r.push seen) := by
  simp [enter, h]

end Registry

end ExtensiveForm
