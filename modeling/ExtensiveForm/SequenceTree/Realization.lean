import ExtensiveForm.SequenceTree.Basic
import ExtensiveForm.Behavior
import ExtensiveForm.Scalar

set_option autoImplicit false

namespace ExtensiveForm

inductive PlanFault (L : Type) where
  | strategy (label : L) (fault : StrategyFault)
  /-- An index of the tree points nowhere. -/
  | outOfBounds
  deriving DecidableEq, Repr

namespace SequenceTree

variable {L A R : Type}

/-- A plan while it is made: the numbers of the sequences that have one. The others are zero. -/
abbrev Filled (R : Type) := Std.HashMap Nat R

def writeFrom? (size : Nat) (filled : Filled R) : Nat → List R → Option (Filled R)
  | _, [] => some filled
  | i, v :: rest => if i < size then writeFrom? size (filled.insert i v) (i + 1) rest else none

theorem getElem?_of_writeFrom? {size i j : Nat} {filled d : Filled R} {vs : List R}
    (h : writeFrom? size filled i vs = some d) :
    d[j]? = if i ≤ j ∧ j < i + vs.length then vs[j - i]? else filled[j]? := by
  induction vs generalizing filled i with
  | nil =>
    have hn : ¬(i ≤ j ∧ j < i + 0) := by omega
    simp only [writeFrom?, Option.some.injEq] at h
    simp only [List.length_nil, hn, if_false, h]
  | cons v rest ih =>
    unfold writeFrom? at h
    split at h
    · rw [ih h, Std.HashMap.getElem?_insert, List.length_cons]
      by_cases hj : i = j
      · subst hj
        have hn : ¬(i + 1 ≤ i ∧ i < i + 1 + rest.length) := by omega
        have hy : i ≤ i ∧ i < i + (rest.length + 1) := by omega
        rw [if_neg hn, if_pos hy]
        simp
      · have hc : (i + 1 ≤ j ∧ j < i + 1 + rest.length) ↔ (i ≤ j ∧ j < i + (rest.length + 1)) := by
          omega
        by_cases hr : i ≤ j ∧ j < i + (rest.length + 1)
        · have hs : j - i = j - (i + 1) + 1 := by omega
          simp only [hc, hr, and_self, if_true, hs, List.getElem?_cons_succ]
        · simp only [hc, hr, if_false, beq_iff_eq, hj]
    · simp at h

/-- The numbers of a set's block: the number of the sequence that leads to it times each number
of the behavior. A block that is too narrow takes the first of them. -/
def fill? [Zero R] [Mul R] (t : SequenceTree L A) (i : Nat) (numbers : List R) (filled : Filled R) :
    Option (Filled R) := do
  let parent ← t.parent[i]?
  if parent < t.sequences then
    let (start, stop) ← t.block? i
    writeFrom? t.sequences filled start
      ((numbers.take (stop - start)).map (filled.getD parent 0 * ·))
  else none

/-- Whether the offsets promise a plan that no memory holds and that the actions do not account
for. Never so for a tree that passes its check. -/
def overlong (t : SequenceTree L A) : Bool :=
  Scalar.longestVector < t.sequences && t.sequences != 1 + t.actionCount

def nothingFilled? [Scalar R] (t : SequenceTree L A) : Option (Filled R) :=
  if t.sequences = 0 || t.overlong then none else some ((∅ : Filled R).insert 0 1)

def planOf [Zero R] (t : SequenceTree L A) (filled : Filled R) : Array R :=
  Array.ofFn fun s : Fin t.sequences => filled.getD s 0

@[simp] theorem size_planOf [Zero R] (t : SequenceTree L A) (filled : Filled R) :
    (t.planOf filled).size = t.sequences := by simp [planOf]

variable [BEq L] [Hashable L]

def realizeSet [Zero R] [Mul R] (t : SequenceTree L A) (b : Behavior L R) (label : L) (i : Nat)
    (filled : Filled R) : Except (PlanFault L) (Filled R) :=
  match t.actions[i]? with
  | none => .error (if b.contains label then .outOfBounds else .strategy label .missing)
  | some actions =>
    match Behavior.at? b label actions.length with
    | .error fault => .error (.strategy label fault)
    | .ok numbers =>
      match t.fill? i numbers filled with
      | none => .error .outOfBounds
      | some filled => .ok filled

def realization [Scalar R] (t : SequenceTree L A) (b : Behavior L R) :
    Except (PlanFault L) (Array R) :=
  match (t.nothingFilled? : Option (Filled R)) with
  | none => .error .outOfBounds
  | some blank => do
    let filled ← t.label.toList.zipIdx.foldlM
      (fun filled (label, i) => t.realizeSet b label i filled) blank
    return t.planOf filled

/-- The labels with what is done at each; of a label that occurs twice the last counts. -/
def behaviorOf (t : SequenceTree L A) (numbers : List (List R)) : Behavior L R :=
  Std.HashMap.ofList (t.label.toList.zip numbers)

def evenNumbers [Scalar R] (n : Nat) : List R := List.replicate n (1 / Scalar.ofNat n)

@[simp] theorem length_evenNumbers [Scalar R] (n : Nat) :
    (evenNumbers n : List R).length = n := by simp [evenNumbers]

def uniformBehavior [Scalar R] (t : SequenceTree L A) : Behavior L R :=
  t.behaviorOf (t.actions.toList.map fun actions => evenNumbers actions.length)

def normalize [Scalar R] (weights : List R) : List R :=
  let total := Scalar.sum weights
  weights.map (· / total)

@[simp] theorem length_normalize [Scalar R] (ws : List R) : (normalize ws).length = ws.length := by
  simp [normalize]

/-- Draws a weight for every action, set by set, and divides each set's weights by their sum. -/
def randomBehavior [Scalar R] {m : Type → Type} [Monad m] (t : SequenceTree L A) (draw : m R) :
    m (Behavior L R) := do
  let sets := t.label.toList.zip t.actions.toList
  let weights ← sets.mapM fun (_, actions) => actions.mapM fun _ => draw
  return t.behaviorOf (weights.map normalize)

end SequenceTree

end ExtensiveForm
