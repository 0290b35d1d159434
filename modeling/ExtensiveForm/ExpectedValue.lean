import ExtensiveForm.Game
import ExtensiveForm.Behavior
import ExtensiveForm.Scalar

/-!
The payoff that a profile of behaviors earns, by a walk over all paths: each terminal payoff counts
with the product of the numbers on the way to it, those of chance and those of both seats.
-/

set_option autoImplicit false

namespace ExtensiveForm

inductive ValuationFault (L : Type) where
  | breach (b : Breach)
  | strategy (seat : Seat) (label : L) (fault : StrategyFault)
  deriving DecidableEq, Repr

structure Visit (σ R : Type) where
  state : σ
  weight : R

namespace Game

variable {σ L A R : Type} [BEq L] [Hashable L] [Scalar R]

def weigh (g : Game σ A L R) (profile : Profile L R) (total : R) (v : Visit σ R) :
    Except (ValuationFault L) (R × List (Visit σ R)) :=
  match g.node v.state with
  | .error b => .error (.breach b)
  | .ok (.terminal payoff) => .ok (total + payoff * v.weight, [])
  | .ok (.chance branches) => .ok (total, branches.map fun (p, s) => ⟨s, v.weight * p⟩)
  | .ok (.decision seat label moves) =>
    match (profile.get seat).at? label moves.length with
    | .error fault => .error (.strategy seat label fault)
    | .ok numbers =>
      .ok (total, List.zipWith (fun (_, s) p => ⟨s, v.weight * p⟩) moves numbers)

/-- Adds up the pending states and all below them; gives nothing if that takes more than `fuel`
looks. -/
def valueWalk (g : Game σ A L R) (profile : Profile L R) : Nat → List (Visit σ R) → R →
    Option (Except (ValuationFault L) R)
  | _, [], total => some (.ok total)
  | 0, _ :: _, _ => none
  | fuel + 1, v :: pending, total =>
    match g.weigh profile total v with
    | .error e => some (.error e)
    | .ok (total, below) => g.valueWalk profile fuel (below ++ pending) total

def expectedValue (g : Game σ A L R) (fuel : Nat) (start : σ) (profile : Profile L R) :
    Option (Except (ValuationFault L) R) :=
  g.valueWalk profile fuel [⟨start, 1⟩] 0

end Game

end ExtensiveForm
