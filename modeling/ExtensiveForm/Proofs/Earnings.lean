import Mathlib.Algebra.BigOperators.Group.List.Basic
import Mathlib.Algebra.Ring.Rat
import ExtensiveForm.Proofs.Positions

set_option autoImplicit false

namespace ExtensiveForm.Game

variable {σ L A : Type} {g : Game σ A L Rat}

def earning (g : Game σ A L Rat) (p : Position σ L Rat) : Rat :=
  (g.payoff p.state).getD 0 * p.chance

/-- What the plays from a position on earn, each taken with a factor for what both seats did. -/
def earnings (g : Game σ A L Rat) (d : Nat) (factor : PerSeat (History L) → Rat)
    (p : Position σ L Rat) : Rat :=
  ((g.endings d p).map fun q => factor q.past * g.earning q).sum

def earningsAt [BEq L] (g : Game σ A L Rat) (d : Nat) (past : PerSeat (History L))
    (p : Position σ L Rat) : Rat :=
  (((g.endings d p).filter fun q => q.past.first == past.first && q.past.second == past.second).map
    g.earning).sum

variable {factor : PerSeat (History L) → Rat} {d : Nat} {p : Position σ L Rat}

theorem earnings_of_player_eq_none (h : g.player p.state = none) :
    g.earnings d factor p = factor p.past * g.earning p := by
  simp [earnings, endings_of_player_eq_none h]

theorem earnings_of_player_ne_none (hd : g.EndsWithin d p.state) (h : g.player p.state ≠ none) :
    g.earnings d factor p = ((g.nexts p).map (g.earnings d factor)).sum := by
  unfold earnings
  rw [endings_of_player_ne_none hd h, List.map_flatMap, List.flatMap_def, List.sum_flatten,
    List.map_map]
  rfl

end ExtensiveForm.Game
