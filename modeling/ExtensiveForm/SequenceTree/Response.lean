import ExtensiveForm.SequenceTree.Basic
import ExtensiveForm.Scalar

/-!
Best responses: the largest and the smallest sum of coefficients that a plan of a seat can collect.
The sets are folded into their parents from the last to the first, so that a set is settled before
the sequence that leads to it is read.
-/

set_option autoImplicit false

namespace ExtensiveForm.SequenceTree

variable {L A R : Type}

def slice? (sums : Array R) (start stop : Nat) : Option (List R) :=
  if start ≤ stop ∧ stop ≤ sums.size then some (sums.extract start stop).toList else none

def addAt? [Add R] (sums : Array R) (i : Nat) (v : R) : Option (Array R) :=
  match sums[i]? with
  | none => none
  | some old => some (sums.setIfInBounds i (old + v))

@[simp] theorem addAt?_of_size_le [Add R] {sums : Array R} {i : Nat} {v : R} (h : sums.size ≤ i) :
    addAt? sums i v = none := by simp [addAt?, h]

theorem size_of_addAt? [Add R] {sums d : Array R} {i : Nat} {v : R} (h : addAt? sums i v = some d) :
    d.size = sums.size := by
  unfold addAt? at h
  split at h <;> simp at h
  simp [← h]

/-- Settles one set: what is best in its block is added to the sequence that leads to it. -/
def settle? [Add R] (best : List R → R) (t : SequenceTree L A) (i parent : Nat) (sums : Array R) :
    Option (Array R) := do
  let (start, stop) ← t.block? i
  let numbers ← slice? sums start stop
  addAt? sums parent (best numbers)

def settleAll? [Add R] (best : List R → R) (t : SequenceTree L A) (sets : List (Nat × Nat))
    (sums : Array R) : Option (Array R) :=
  sets.foldrM (fun (parent, i) sums => t.settle? best i parent sums) sums

/-- The best sum from the empty sequence on; nothing if an index of the tree points nowhere. -/
def response? [Add R] (best : List R → R) (t : SequenceTree L A) (sums : Array R) : Option R := do
  let settled ← t.settleAll? best t.parent.toList.zipIdx sums
  settled[0]?

def maximize? [Scalar R] (t : SequenceTree L A) (sums : Array R) : Option R :=
  t.response? Scalar.maximum sums

def minimize? [Scalar R] (t : SequenceTree L A) (sums : Array R) : Option R :=
  t.response? Scalar.minimum sums

end ExtensiveForm.SequenceTree
