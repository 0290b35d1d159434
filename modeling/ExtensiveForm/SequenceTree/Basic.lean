/-!
Sequence trees: the information sets of one seat, each with one contiguous block of sequences.
Sequence 0 is the empty one, the block of set `i` runs from `offset[i]` to `offset[i + 1]`, and
`parent[i]` is the own sequence that leads into it. The arrays may come from a file, so nothing is
taken for granted: `SequenceTree.check` says whether they fit together.
-/

set_option autoImplicit false

namespace ExtensiveForm

/-- A seat's sequences, laid out in blocks. -/
structure SequenceTree (L A : Type) where
  parent : Array Nat
  offset : Array Nat
  label : Array L
  actions : Array (List A)
  deriving DecidableEq, Repr

inductive LayoutFault where
  | sizes (parents offsets labels actions : Nat)
  | start (found : Nat)
  | width (set start stop actions : Nat)
  | parent (set start parent : Nat)
  deriving DecidableEq, Repr

def LayoutFault.message : LayoutFault → String
  | sizes p o l a =>
    s!"Sequence tree arrays disagree: {p} par, {o} idx, {l} obs, {a} action"
  | start found => s!"idx[0] must be 1, got {found}"
  | width i a b n => s!"Information set {i} spans {a}..{b} but has {n} actions"
  | parent i a p => s!"Information set {i} starts at {a} but its parent is {p}"

namespace SequenceTree

variable {L A : Type}

def empty : SequenceTree L A := ⟨#[], #[1], #[], #[]⟩

def size (t : SequenceTree L A) : Nat := t.parent.size

def sequences (t : SequenceTree L A) : Nat := t.offset.back?.getD 1

@[simp] theorem size_empty : (empty : SequenceTree L A).size = 0 := rfl

@[simp] theorem sequences_empty : (empty : SequenceTree L A).sequences = 1 := rfl

def block? (t : SequenceTree L A) (i : Nat) : Option (Nat × Nat) := do
  let start ← t.offset[i]?
  let stop ← t.offset[i + 1]?
  return (start, stop)

def widest (t : SequenceTree L A) : Nat := t.actions.foldl (fun w as => max w as.length) 0

def actionCount (t : SequenceTree L A) : Nat := t.actions.foldl (fun n as => n + as.length) 0

/-- Whether one set has as many actions as its block has places, one at least, and a parent before
it. -/
def checkSet (i parent start stop actions : Nat) : Except LayoutFault Unit :=
  if actions = 0 ∨ stop ≠ start + actions then .error (.width i start stop actions)
  else if start ≤ parent then .error (.parent i start parent)
  else .ok ()

/-- Checks the sets from position `i` on, given what belongs to each in order; `start` is where the
block of the first of them starts. -/
def checkSets : Nat → Nat → List Nat → List Nat → List (List A) → Except LayoutFault Unit
  | i, start, parent :: parents, stop :: stops, as :: actions =>
    match checkSet i parent start stop as.length with
    | .error e => .error e
    | .ok () => checkSets (i + 1) stop parents stops actions
  | _, _, _, _, _ => .ok ()

def check (t : SequenceTree L A) : Except LayoutFault Unit :=
  let n := t.size
  if t.offset.size ≠ n + 1 ∨ t.label.size ≠ n ∨ t.actions.size ≠ n then
    .error (.sizes n t.offset.size t.label.size t.actions.size)
  else
    match t.offset.toList with
    | [] => .error (.sizes n 0 t.label.size t.actions.size)
    | start :: stops =>
      if start ≠ 1 then .error (.start start)
      else checkSets 0 start t.parent.toList stops t.actions.toList

@[simp] theorem check_empty : (empty : SequenceTree L A).check = .ok () := rfl

end SequenceTree

end ExtensiveForm
