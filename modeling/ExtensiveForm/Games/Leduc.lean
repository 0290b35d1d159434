import ExtensiveForm.Game
import ExtensiveForm.Games.Basic
import ExtensiveForm.Scalar

/-!
Leduc hold'em: two copies of each rank, one card for each seat, a round of betting, one community
card, and another round. A raise is two before the community card and four after it; there are at
most two in a round.
-/

set_option autoImplicit false

namespace ExtensiveForm.Games.Leduc

def defaultRanks : List Char := ['J', 'Q', 'K']

inductive RankFault where
  | tooFew
  | repeated (rank : Char)
  deriving DecidableEq, Repr

def RankFault.message : RankFault → String
  | tooFew => "Leduc needs at least 2 ranks"
  | repeated r => "Duplicate rank: " ++ r.toString

def readRanks (text : String) : Except RankFault (List Char) :=
  let ranks := text.toList
  if ranks.length < 2 then .error .tooFew
  else
    match repeated? ranks with
    | some r => .error (.repeated r)
    | none => .ok ranks

/-- The history starts with the deal and holds the community card between the rounds. -/
structure State where
  ended : Bool
  /-- Whether the first round of betting has ended. -/
  flop : Bool
  community : Option Char
  bets : PerSeat Nat
  /-- Raises since the last call. -/
  raises : Nat
  history : List String
  last : Option Player
  deriving DecidableEq, Repr

namespace State

def start : State := ⟨false, false, none, .both 1, 0, [], none⟩

def player (s : State) : Option Player :=
  if s.ended then none
  else if s.history.isEmpty || (s.flop && s.community.isNone) then some .chance
  else if s.last = some (.seat .first) then some (.seat .second)
  else some (.seat .first)

def hole? (s : State) (seat : Seat) : Option Char := cardAt? s.history.head? seat.index

def deals (ranks : List Char) : List String :=
  ranks.flatMap fun a => ranks.map fun b => String.ofList [a, b]

def flops (ranks : List Char) (s : State) : List String :=
  (ranks.filter fun r => s.hole? .first ≠ s.hole? .second || some r ≠ s.hole? .first).map
    Char.toString

def bettingActions (s : State) : List String :=
  if s.history.getLast? = some "Raise" then
    if 2 ≤ s.raises then ["Fold", "Call"] else ["Fold", "Call", "Raise"]
  else ["Check", "Raise"]

def actions (ranks : List Char) (s : State) : List String :=
  match s.player with
  | none => []
  | some .chance => if s.history.isEmpty then deals ranks else s.flops ranks
  | some (.seat _) => s.bettingActions

def endRound (s : State) : State := if s.flop then { s with ended := true } else { s with flop := true }

def raiseSize (s : State) : Nat := if s.flop then 4 else 2

def act (s : State) (seat : Seat) (action : String) : State :=
  if action = "Raise" then
    { s with
      bets := s.bets.set seat (s.bets.get seat.opponent + s.raiseSize)
      raises := s.raises + 1 }
  else if action = "Check" ∧ s.history.getLast? = some "Check" then s.endRound
  else if action = "Call" then
    endRound { s with bets := s.bets.set seat (s.bets.get seat.opponent), raises := 0 }
  else if action = "Fold" then { s with ended := true }
  else s

/-- After the deal, what nobody or chance does names the community card. -/
def reveal (s : State) (action : String) : State :=
  if s.history.isEmpty then s else { s with community := action.toList.head? }

def step (s : State) (action : String) : State :=
  let next :=
    match s.player.bind Player.seat? with
    | none => s.reveal action
    | some seat => s.act seat action
  { next with history := s.history ++ [action], last := s.player }

/-- The probability of a deal: a pair of equal ranks has one way, two different ranks have two. -/
def dealProb? {R : Type} [Scalar R] (n : Nat) : List Char → Option R
  | a :: b :: _ =>
    let pairs := Scalar.ofNat (n * (2 * n - 1))
    some (if a = b then 1 / pairs else Scalar.ofNat 2 / pairs)
  | _ => none

/-- The probability of a community card: a rank held by one seat only has a single copy left. -/
def flopProb? {R : Type} [Scalar R] (n : Nat) (s : State) (cards : List Char) : Option R := do
  let a ← s.hole? .first
  let b ← s.hole? .second
  let card ← cards.head?
  return if a ≠ b ∧ (card = a ∨ card = b) then 1 / Scalar.ofNat (2 * (n - 1))
    else 1 / Scalar.ofNat (n - 1)

def chanceProb {R : Type} [Scalar R] (ranks : List Char) (s : State) (action : String) : Option R :=
  if s.player ≠ some .chance then none
  else if s.history.isEmpty then dealProb? ranks.length action.toList
  else flopProb? ranks.length s action.toList

def observation (s : State) : Option String := do
  let seat ← s.player.bind Player.seat?
  let card ← s.hole? seat
  return seen card.toString s.history.tail

/-- What a showdown is worth: a pair with the community card wins, else the higher rank. -/
def showdown {R : Type} [Scalar R] (ranks : List Char) (s : State) : Option R := do
  let pot := Scalar.ofNat s.bets.first
  let a ← s.hole? .first
  let b ← s.hole? .second
  let community ← s.community
  if a = community then return pot
  if b = community then return -pot
  let first ← rank? ranks a
  let second ← rank? ranks b
  return if second < first then pot else if first < second then -pot else 0

def payoff {R : Type} [Scalar R] (ranks : List Char) (s : State) : Option R :=
  if !s.ended then none
  else if s.history.getLast? = some "Fold" then
    s.last.map fun
      | .seat .first => -Scalar.ofNat s.bets.first
      | _ => Scalar.ofNat s.bets.second
  else s.showdown ranks

end State

def game {R : Type} [Scalar R] (ranks : List Char) : Game State String String R where
  player := State.player
  actions := State.actions ranks
  step := State.step
  chanceProb := State.chanceProb ranks
  observation := State.observation
  payoff := State.payoff ranks

end ExtensiveForm.Games.Leduc
