import ExtensiveForm.Exploration
import ExtensiveForm.SequenceTree.Preorder
import ExtensiveForm.PayoffMatrix.Assembly
import ExtensiveForm.SequenceForm.Basic

set_option autoImplicit false

namespace ExtensiveForm

inductive BuildFault (L A : Type) where
  | violation (v : Violation L A)
  /-- A payoff belongs to an unregistered set. No walk leaves one. -/
  | strayPayoff
  deriving DecidableEq, Repr

variable {σ L A R : Type} [BEq L] [Hashable L] [BEq A] [Scalar R]

def Exploration.form? (found : Exploration L A R) : Option (SequenceForm L A R) :=
  let first := found.first.layout
  let second := found.second.layout
  (PayoffMatrix.assemble? found.payoffs.toList first.offsets second.offsets).map
    fun payoff => ⟨first.tree, second.tree, payoff⟩

/-- The form of the game below a state; gives nothing if there are more than `fuel` states. -/
def Game.build (g : Game σ A L R) (fuel : Nat) (start : σ) :
    Option (Except (BuildFault L A) (SequenceForm L A R)) :=
  match g.explore fuel start with
  | none => none
  | some (.error v) => some (.error (.violation v))
  | some (.ok found) =>
    match found.form? with
    | none => some (.error .strayPayoff)
    | some form => some (.ok form)

end ExtensiveForm
