import ExtensiveForm.PayoffMatrix
import ExtensiveForm.SequenceTree.Response
import ExtensiveForm.Player

/-!
The sequence form of a game: a tree for each seat and the payoffs between their sequences, rows for
the first seat and columns for the second. Whatever is computed from a form checks it first, since
it may have been loaded from a file.
-/

set_option autoImplicit false

namespace ExtensiveForm

structure SequenceForm (L A R : Type) where
  first : SequenceTree L A
  second : SequenceTree L A
  payoff : PayoffMatrix R
  deriving DecidableEq, Repr

inductive FormFault where
  | layout (seat : Seat) (fault : LayoutFault)
  | sizes (rows cols values : Nat)
  | zero (entry : Nat)
  | outside (entry row col rows cols : Nat)
  | order (entry row col : Nat)
  deriving DecidableEq, Repr

def FormFault.message : FormFault → String
  | layout _ fault => fault.message
  | sizes r c v => s!"Matrix arrays disagree: {r} rows, {c} cols, {v} values"
  | zero k => s!"Entry {k} is zero"
  | outside k r c m n => s!"Entry {k} at ({r}, {c}) is outside {m} x {n}"
  | order k r c => s!"Entry {k} at ({r}, {c}) is out of order"

inductive PlayFault where
  | form (fault : FormFault)
  | lengths (first second firstExpected secondExpected : Nat)
  /-- An index points nowhere. -/
  | outOfBounds
  deriving DecidableEq, Repr

namespace SequenceForm

variable {L A R : Type}

def tree (f : SequenceForm L A R) : Seat → SequenceTree L A
  | .first => f.first
  | .second => f.second

def checkEntry [Scalar R] (rows cols k : Nat) (before : Option (Nat × Nat)) (e : Nat × Nat × R) :
    Except FormFault Unit :=
  let (r, c, v) := e
  if Scalar.isZero v then .error (.zero k)
  else if rows ≤ r ∨ cols ≤ c then .error (.outside k r c rows cols)
  else
    match before with
    | none => .ok ()
    | some (r₀, c₀) => if r₀ < r ∨ (r₀ = r ∧ c₀ < c) then .ok () else .error (.order k r c)

def checkEntries [Scalar R] (rows cols : Nat) : Nat → Option (Nat × Nat) → List (Nat × Nat × R) →
    Except FormFault Unit
  | _, _, [] => .ok ()
  | k, before, e :: rest =>
    match checkEntry rows cols k before e with
    | .error fault => .error fault
    | .ok () => checkEntries rows cols (k + 1) (some (e.1, e.2.1)) rest

def checkMatrix [Scalar R] (rows cols : Nat) (m : PayoffMatrix R) : Except FormFault Unit :=
  if m.row.size ≠ m.value.size ∨ m.col.size ≠ m.value.size then
    .error (.sizes m.row.size m.col.size m.value.size)
  else checkEntries rows cols 0 none m.entries

def checkTree (f : SequenceForm L A R) (seat : Seat) : Except FormFault Unit :=
  (f.tree seat).check.mapError (.layout seat)

/-- Whether both trees are well-formed, and the matrix is sorted, inside them and free of zeros; of
several faults the first is told. -/
def check [Scalar R] (f : SequenceForm L A R) : Except FormFault Unit := do
  f.checkTree .first
  f.checkTree .second
  checkMatrix f.first.sequences f.second.sequences f.payoff

def checkPlans [Scalar R] (f : SequenceForm L A R) (x y : Array R) : Except PlayFault Unit :=
  match f.check with
  | .error fault => .error (.form fault)
  | .ok () =>
    if x.size ≠ f.first.sequences ∨ y.size ≠ f.second.sequences then
      .error (.lengths x.size y.size f.first.sequences f.second.sequences)
    else .ok ()

def value [Scalar R] (f : SequenceForm L A R) (x y : Array R) : Except PlayFault R :=
  match f.checkPlans x y with
  | .error fault => .error fault
  | .ok () =>
    match f.payoff.bilinear? x y with
    | none => .error .outOfBounds
    | some v => .ok v

def bestAgainst? [Scalar R] (f : SequenceForm L A R) (y : Array R) : Option R := do
  let c ← f.payoff.dot? y f.first.sequences
  f.first.maximize? c

def worstAgainst? [Scalar R] (f : SequenceForm L A R) (x : Array R) : Option R := do
  let c ← f.payoff.transposeDot? x f.second.sequences
  f.second.minimize? c

/-- How far two plans are from an equilibrium: what both seats together could still gain. -/
def gap [Scalar R] (f : SequenceForm L A R) (x y : Array R) : Except PlayFault R :=
  match f.checkPlans x y with
  | .error fault => .error fault
  | .ok () =>
    match f.bestAgainst? y, f.worstAgainst? x with
    | some best, some worst => .ok (best - worst)
    | _, _ => .error .outOfBounds

end SequenceForm

end ExtensiveForm
