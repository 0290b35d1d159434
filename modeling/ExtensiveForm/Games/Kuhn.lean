import ExtensiveForm.Game
import ExtensiveForm.Games.Basic
import ExtensiveForm.Scalar

set_option autoImplicit false

namespace ExtensiveForm.Games.Kuhn

def deck : List Char := ['J', 'Q', 'K']

def deals : List String := ["JQ", "JK", "QJ", "QK", "KJ", "KQ"]

structure State where
  ended : Bool
  bets : PerSeat Nat
  history : List String
  deriving DecidableEq, Repr

namespace State

def start : State := ⟨false, .both 1, []⟩

def player (s : State) : Option Player :=
  if s.ended then none
  else if s.history.isEmpty then some .chance
  else if s.history.length % 2 = 0 then some (.seat .second)
  else some (.seat .first)

def actions (s : State) : List String :=
  match s.player with
  | none => []
  | some .chance => deals
  | some (.seat _) =>
    if s.history.getLast? = some "Bet" then ["Fold", "Call"] else ["Check", "Bet"]

def act (s : State) (seat : Seat) (action : String) : State :=
  if action = "Bet" then { s with bets := s.bets.set seat (s.bets.get seat.opponent + 1) }
  else if action = "Check" ∧ s.history.getLast? = some "Check" then { s with ended := true }
  else if action = "Call" then
    { s with bets := s.bets.set seat (s.bets.get seat.opponent), ended := true }
  else if action = "Fold" then { s with ended := true }
  else s

def record (s : State) (action : String) : State := { s with history := s.history ++ [action] }

def step (s : State) (action : String) : State :=
  match s.player.bind Player.seat? with
  | none => s.record action
  | some seat => (s.act seat action).record action

def card? (s : State) (seat : Seat) : Option Char := cardAt? s.history.head? seat.index

def observation (s : State) : Option String := do
  let seat ← s.player.bind Player.seat?
  let card ← s.card? seat
  return seen card.toString s.history.tail

/-- A fold costs the folder its bet; else the higher card wins the common bet. -/
def payoff {R : Type} [Scalar R] (s : State) : Option R :=
  if !s.ended then none
  else if s.history.getLast? = some "Fold" then
    some <|
      if s.history.length % 2 = 0 then -Scalar.ofNat s.bets.first else Scalar.ofNat s.bets.second
  else do
    let first ← rank? deck (← s.card? .first)
    let second ← rank? deck (← s.card? .second)
    let pot := Scalar.ofNat s.bets.first
    return if second < first then pot else -pot

end State

def game {R : Type} [Scalar R] : Game State String String R where
  player := State.player
  actions := State.actions
  step := State.step
  chanceProb s _ :=
    if s.player = some .chance then some (1 / Scalar.ofNat deals.length) else none
  observation := State.observation
  payoff := State.payoff

end ExtensiveForm.Games.Kuhn
