import ExtensiveForm.Player

/-!
Games as state machines. A game answers six questions about a state; `Game.node` asks those that
matter at it, in a fixed order, and gives either what happens there or the first question that the
game left open.
-/

set_option autoImplicit false

namespace ExtensiveForm

/-- States `σ`, actions `A`, labels `L` of what a seat sees, and numbers `R`. -/
structure Game (σ A L R : Type) where
  /-- Who acts; nobody at a terminal state. -/
  player : σ → Option Player
  /-- What may be done, in a fixed order. -/
  actions : σ → List A
  step : σ → A → σ
  /-- The probability of an action of chance. -/
  chanceProb : σ → A → Option R
  /-- What the acting seat sees. -/
  observation : σ → Option L
  /-- The gain of the first seat at a terminal state. -/
  payoff : σ → Option R

inductive Breach where
  | noPayoff
  | noLegalActions (player : Player)
  | noChanceProb
  | noObservation (seat : Seat)
  deriving DecidableEq, Repr

namespace Breach

private def missing (operation context : String) : String :=
  "State contract returned nothing for " ++ operation ++ " at a " ++ context ++ " node"

def message : Breach → String
  | noPayoff => missing "payoff" "terminal"
  | noLegalActions p => "Non-terminal state of " ++ p.text ++ " has no legal actions"
  | noChanceProb => missing "chance_prob" Player.chance.text
  | noObservation s => missing "observation" s.text

end Breach

inductive Node (σ A L R : Type) where
  | terminal (payoff : R)
  | chance (branches : List (R × σ))
  | decision (seat : Seat) (label : L) (moves : List (A × σ))

namespace Game

variable {σ A L R : Type}

/-- The branches of a chance node; all probabilities are asked for before any branch is taken. -/
def branches? (g : Game σ A L R) (state : σ) (actions : List A) : Option (List (R × σ)) :=
  actions.mapM fun a => (g.chanceProb state a).map (·, g.step state a)

def moves (g : Game σ A L R) (state : σ) (actions : List A) : List (A × σ) :=
  actions.map fun a => (a, g.step state a)

@[simp] theorem moves_map_fst (g : Game σ A L R) (state : σ) (actions : List A) :
    (g.moves state actions).map Prod.fst = actions := by
  simp [moves, Function.comp_def]

@[simp] theorem length_moves (g : Game σ A L R) (state : σ) (actions : List A) :
    (g.moves state actions).length = actions.length := by simp [moves]

def node (g : Game σ A L R) (state : σ) : Except Breach (Node σ A L R) :=
  match g.player state with
  | none =>
    match g.payoff state with
    | none => .error .noPayoff
    | some v => .ok (.terminal v)
  | some player =>
    match g.actions state with
    | [] => .error (.noLegalActions player)
    | a :: rest =>
      match player with
      | .chance =>
        match g.branches? state (a :: rest) with
        | none => .error .noChanceProb
        | some branches => .ok (.chance branches)
      | .seat seat =>
        match g.observation state with
        | none => .error (.noObservation seat)
        | some label => .ok (.decision seat label (g.moves state (a :: rest)))

def play (g : Game σ A L R) (start : σ) (actions : List A) : σ := actions.foldl g.step start

@[simp] theorem play_nil (g : Game σ A L R) (s : σ) : g.play s [] = s := rfl

@[simp] theorem play_cons (g : Game σ A L R) (s : σ) (a : A) (as : List A) :
    g.play s (a :: as) = g.play (g.step s a) as := rfl

theorem play_append (g : Game σ A L R) (s : σ) (as bs : List A) :
    g.play s (as ++ bs) = g.play (g.play s as) bs := by simp [play]

end Game

end ExtensiveForm
