import ExtensiveForm.Game

set_option autoImplicit false

namespace ExtensiveForm.Table

structure Edge (A R : Type) where
  action : A
  target : Nat
  prob : Option R
  deriving Repr

structure Entry (A L R : Type) where
  player : Option Player
  observation : Option L
  payoff : Option R
  edges : List (Edge A R)
  deriving Repr

variable {A L R : Type}

/-- The row of a state; beyond the table all questions stay open. -/
def entry (table : Array (Entry A L R)) (state : Nat) : Entry A L R :=
  table.getD state ⟨none, none, none, []⟩

def edge? [BEq A] (e : Entry A L R) (a : A) : Option (Edge A R) :=
  e.edges.find? fun edge => edge.action == a

def game [BEq A] (table : Array (Entry A L R)) : Game Nat A L R where
  player s := (entry table s).player
  actions s := (entry table s).edges.map Edge.action
  step s a := ((edge? (entry table s) a).map Edge.target).getD s
  chanceProb s a := (edge? (entry table s) a).bind Edge.prob
  observation s := (entry table s).observation
  payoff s := (entry table s).payoff

end ExtensiveForm.Table
