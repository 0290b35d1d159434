import ExtensiveForm.Player

set_option autoImplicit false

namespace ExtensiveForm

/-- The last own move of a seat. -/
inductive Sequence where
  | empty
  | move (infoset position : Nat)
  deriving DecidableEq, Repr, Hashable

abbrev SequencePair := PerSeat Sequence

namespace Sequence

def infoset? : Sequence → Option Nat
  | empty => none
  | move i _ => some i

def le : Sequence → Sequence → Bool
  | empty, _ => true
  | move _ _, empty => false
  | move i a, move j b => i < j || (i == j && a ≤ b)

theorem le_total (s t : Sequence) : (s.le t || t.le s) = true := by
  cases s <;> cases t <;> simp [le]; omega

theorem le_antisymm {s t : Sequence} (h : s.le t = true) (h' : t.le s = true) : s = t := by
  cases s <;> cases t <;> simp_all [le]; omega

/-- Where a seat stands once the blocks of its information sets start at the given offsets;
nothing if the sequence passed a set that has none. -/
def flat? (offsets : Array Nat) : Sequence → Option Nat
  | empty => some 0
  | move i a => offsets[i]?.map (· + a)

@[simp] theorem flat?_empty (offsets : Array Nat) : empty.flat? offsets = some 0 := rfl

@[simp] theorem flat?_move (offsets : Array Nat) (i a : Nat) :
    (move i a).flat? offsets = offsets[i]?.map (· + a) := rfl

/-- The same for offsets of unknown origin, which are words of 64 bits: a sum that is no such word
wraps around. -/
def flatWord? (offsets : Array Nat) (s : Sequence) : Option Nat :=
  (s.flat? offsets).map (· % Nat.pow 2 64)

theorem flatWord?_eq_flat? {offsets : Array Nat} {s : Sequence}
    (h : ∀ i, s.flat? offsets = some i → i < Nat.pow 2 64) : s.flatWord? offsets = s.flat? offsets := by
  unfold flatWord?
  cases hs : s.flat? offsets with
  | none => rfl
  | some i => rw [Option.map_some, Nat.mod_eq_of_lt (h i hs)]

end Sequence

end ExtensiveForm
