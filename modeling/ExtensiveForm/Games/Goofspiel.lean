import ExtensiveForm.Game
import ExtensiveForm.Games.Basic
import ExtensiveForm.Scalar

/-!
Goofspiel: in each round chance reveals a prize, then both seats bid a card of their own hand, the
second without seeing the first's. The higher bid wins the prize's value.
-/

set_option autoImplicit false

namespace ExtensiveForm.Games.Goofspiel

def defaultDeck : List Char := ['A', '2', '3', '4']

inductive DeckFault where
  | empty
  | repeated (card : Char)
  deriving DecidableEq, Repr

def DeckFault.message : DeckFault → String
  | empty => "Goofspiel needs at least 1 card"
  | repeated c => "Duplicate card: " ++ c.toString

def readDeck (text : String) : Except DeckFault (List Char) :=
  let deck := text.toList
  if deck.isEmpty then .error .empty
  else
    match repeated? deck with
    | some c => .error (.repeated c)
    | none => .ok deck

/-- The cards still held, the round so far, and the finished rounds as prize, first bid and second
bid. -/
structure State where
  hands : PerSeat (List Char)
  prizes : List Char
  prize : Option Char
  bid : Option Char
  score : Int
  history : List String
  deriving DecidableEq, Repr

namespace State

def start (deck : List Char) : State := ⟨.both deck, deck, none, none, 0, []⟩

def player (s : State) : Option Player :=
  if s.prizes.isEmpty then none
  else
    match s.prize, s.bid with
    | none, _ => some .chance
    | some _, none => some (.seat .first)
    | some _, some _ => some (.seat .second)

def hand (s : State) : Player → List Char
  | .chance => s.prizes
  | .seat seat => s.hands.get seat

def actions (s : State) : List String :=
  match s.player with
  | none => []
  | some player => (s.hand player).map Char.toString

def settle? (deck : List Char) (prize bid card : Char) : Option Int := do
  let value ← rank? deck prize
  let first ← rank? deck bid
  let second ← rank? deck card
  return if second < first then value + 1 else if first < second then -(value + 1) else 0

def finish (s : State) (prize bid card : Char) (gain : Int) : State where
  hands := ⟨s.hands.first.filter (· ≠ bid), s.hands.second.filter (· ≠ card)⟩
  prizes := s.prizes.filter (· ≠ prize)
  prize := none
  bid := none
  score := s.score + gain
  history := s.history ++ [String.ofList [prize, bid, card]]

def second (deck : List Char) (s : State) (card : Char) : State :=
  match s.prize, s.bid with
  | some prize, some bid =>
    match settle? deck prize bid card with
    | none => s
    | some gain => s.finish prize bid card gain
  | _, _ => s

/-- Only the first character of an action counts; without one nothing happens. -/
def step (deck : List Char) (s : State) (action : String) : State :=
  match action.toList, s.player with
  | card :: _, some .chance => { s with prize := some card }
  | card :: _, some (.seat .first) => { s with bid := some card }
  | card :: _, some (.seat .second) => s.second deck card
  | _, _ => s

/-- The finished rounds and the current prize; a pending bid is hidden. -/
def observation (s : State) : Option String := do
  let _ ← s.player.bind Player.seat?
  let prize ← s.prize
  return String.intercalate "," (s.history ++ [prize.toString])

end State

def game {R : Type} [Scalar R] (deck : List Char) : Game State String String R where
  player := State.player
  actions := State.actions
  step := State.step deck
  chanceProb s _ :=
    if s.player = some .chance then some (1 / Scalar.ofNat s.prizes.length) else none
  observation := State.observation
  payoff s := if s.player.isNone then some (Scalar.ofInt s.score) else none

end ExtensiveForm.Games.Goofspiel
