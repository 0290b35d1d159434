import ExtensiveForm.PayoffMatrix
import ExtensiveForm.Sequence

/-!
From payoffs by pairs of sequences to a matrix: exact zeros are dropped, each pair becomes a row and
a column, and the entries are sorted by row, then by column.
-/

set_option autoImplicit false

namespace ExtensiveForm.PayoffMatrix

variable {R : Type}

def placeLe (e f : Nat × Nat × R) : Bool := e.1 < f.1 || (e.1 == f.1 && e.2.1 ≤ f.2.1)

theorem placeLe_total (e f : Nat × Nat × R) : (placeLe e f || placeLe f e) = true := by
  simp [placeLe]; omega

theorem placeLe_trans {e f g : Nat × Nat × R} (h : placeLe e f = true) (h' : placeLe f g = true) :
    placeLe e g = true := by
  simp [placeLe] at *; omega

def place? (row col : Sequence → Option Nat) (p : SequencePair × R) : Option (Nat × Nat × R) := do
  let r ← row p.1.first
  let c ← col p.1.second
  return (r, c, p.2)

/-- The matrix of payoffs by pairs of sequences, given where each seat's sequences go; nothing if a
payoff that counts belongs to a sequence that goes nowhere. -/
def assembleBy? [Scalar R] (row col : Sequence → Option Nat) (payoffs : List (SequencePair × R)) :
    Option (PayoffMatrix R) :=
  ((payoffs.filter fun p => !Scalar.isZero p.2).mapM (place? row col)).map
    fun entries => ofEntries (entries.mergeSort placeLe)

def assemble? [Scalar R] (payoffs : List (SequencePair × R)) (first second : Array Nat) :
    Option (PayoffMatrix R) :=
  assembleBy? (·.flat? first) (·.flat? second) payoffs

/-- The matrix for offsets of unknown origin. -/
def assembleWords? [Scalar R] (payoffs : List (SequencePair × R)) (first second : Array Nat) :
    Option (PayoffMatrix R) :=
  assembleBy? (·.flatWord? first) (·.flatWord? second) payoffs

end ExtensiveForm.PayoffMatrix
