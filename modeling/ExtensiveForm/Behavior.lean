import Std.Data.HashMap
import ExtensiveForm.Player

set_option autoImplicit false

namespace ExtensiveForm

/-- The numbers of a seat at each label, in the order of the actions there. -/
abbrev Behavior (L R : Type) [BEq L] [Hashable L] := Std.HashMap L (List R)

abbrev Profile (L R : Type) [BEq L] [Hashable L] := PerSeat (Behavior L R)

inductive StrategyFault where
  | missing
  | length (given actions : Nat)
  deriving DecidableEq, Repr

namespace Behavior

variable {L R : Type} [BEq L] [Hashable L]

def at? (b : Behavior L R) (label : L) (actions : Nat) : Except StrategyFault (List R) :=
  match b[label]? with
  | none => .error .missing
  | some numbers =>
    if numbers.length = actions then .ok numbers else .error (.length numbers.length actions)

theorem at?_eq_ok_iff {b : Behavior L R} {label : L} {actions : Nat} {numbers : List R} :
    at? b label actions = .ok numbers ↔ b[label]? = some numbers ∧ numbers.length = actions := by
  unfold at?
  split
  · simp_all
  · rename_i found h
    by_cases hl : found.length = actions
    · simp only [hl, if_true, Except.ok.injEq, h, Option.some.injEq]
      exact ⟨fun e => ⟨e, e ▸ hl⟩, And.left⟩
    · simp only [hl, if_false, h, Option.some.injEq, reduceCtorEq, false_iff]
      rintro ⟨rfl, e⟩
      exact hl e

end Behavior

end ExtensiveForm
