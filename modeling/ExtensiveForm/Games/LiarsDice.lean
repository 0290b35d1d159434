import ExtensiveForm.Game
import ExtensiveForm.Games.Basic
import ExtensiveForm.Scalar
import ExtensiveForm.Text.Digits

/-!
Liar's dice with six-sided dice: each seat rolls in private, then the seats raise a bid of a face and
a count in turn until one of them says that the other lies.
-/

set_option autoImplicit false

namespace ExtensiveForm.Games.LiarsDice

def faces : Nat := 6

def liar : String := "liar"

def readDice (dice : Nat) : Except Nat Nat :=
  if dice = 0 ∨ 9 < dice then .error dice else .ok dice

def diceMessage (dice : Nat) : String :=
  s!"Dice per player must be between 1 and 9, got {dice}"

def sortedOver : List Char → Nat → List (List Char)
  | _, 0 => [[]]
  | [], _ + 1 => []
  | f :: fs, n + 1 => (sortedOver (f :: fs) n).map (f :: ·) ++ sortedOver fs (n + 1)

def rolls (dice : Nat) : List (List Char) := sortedOver ['1', '2', '3', '4', '5', '6'] dice

def repeats (roll : List Char) : List Nat := roll.eraseDups.map (roll.count ·)

/-- The probability of a roll: its arrangements among all outcomes. -/
def rollProb {R : Type} [Scalar R] (dice : Nat) (roll : List Char) : R :=
  (repeats roll).foldl (fun ways n => ways / Scalar.factorial n) (Scalar.factorial dice) /
    Scalar.ofNat (Nat.pow faces dice)

structure Bid where
  face : Nat
  count : Nat
  deriving DecidableEq, Repr

def bidLimit : Nat := Nat.pow 2 32

def readNumber? (cs : List Char) : Option Nat :=
  (Text.natural? cs).filter (· < bidLimit)

def readBid? (text : String) : Option Bid := do
  let (face, count) ← Text.splitColon? text.toList
  return ⟨← readNumber? face, ← readNumber? count⟩

def Bid.text (b : Bid) : String := s!"{b.face}:{b.count}"

structure State where
  hands : Option (PerSeat (List Char))
  bid : Option Bid
  history : List String
  deriving DecidableEq, Repr

namespace State

def start : State := ⟨none, none, []⟩

def player (s : State) : Option Player :=
  if s.history.getLast? = some liar then none
  else if s.hands.isNone then some .chance
  else if s.history.length % 2 = 0 then some (.seat .second)
  else some (.seat .first)

def deals (dice : Nat) : List String :=
  (rolls dice).flatMap fun a => (rolls dice).map fun b => String.ofList (a ++ ':' :: b)

/-- The bids over a given one, by face, then count. -/
def higherBids (dice : Nat) (last : Bid) : List Bid :=
  (List.range' last.face (faces + 1 - last.face)).flatMap fun face =>
    ((List.range' 1 (2 * dice)).filter fun count => last.face < face || last.count < count).map
      fun count => ⟨face, count⟩

def actions (dice : Nat) (s : State) : List String :=
  match s.player with
  | none => []
  | some .chance => deals dice
  | some (.seat _) =>
    match s.bid with
    | none => (higherBids dice ⟨1, 0⟩).map Bid.text
    | some bid => (higherBids dice bid).map Bid.text ++ [liar]

/-- A deal, or a bid; a text that is neither leaves no hands or no bid. -/
def act (s : State) (action : String) : Player → State
  | .chance =>
    match Text.splitColon? action.toList with
    | none => s
    | some (a, b) => { s with hands := some ⟨a, b⟩ }
  | .seat _ => if action = liar then s else { s with bid := readBid? action }

def step (s : State) (action : String) : State :=
  let next :=
    match s.player with
    | none => s
    | some player => s.act action player
  { next with history := s.history ++ [action] }

def chanceProb {R : Type} [Scalar R] (dice : Nat) (s : State) (action : String) : Option R :=
  if s.player ≠ some .chance then none
  else (Text.splitColon? action.toList).map fun (a, b) => rollProb dice a * rollProb dice b

def observation (s : State) : Option String := do
  let seat ← s.player.bind Player.seat?
  let hands ← s.hands
  return seen (String.ofList (hands.get seat)) s.history.tail

/-- How many dice of both hands show a face; a face of two digits is on none. -/
def showing (s : State) (face : Nat) : Nat :=
  match s.hands with
  | none => 0
  | some hands =>
    if 10 ≤ face then 0
    else hands.first.count (Nat.digitChar face) + hands.second.count (Nat.digitChar face)

/-- Whoever made the last bid wins one if it holds and loses one if not. -/
def payoff {R : Type} [Scalar R] (s : State) : Option R :=
  if s.player.isSome then none
  else s.bid.map fun bid =>
    let holds : Bool := bid.count ≤ s.showing bid.face
    let byFirst : Bool := s.history.length % 2 = 1
    if holds = byFirst then 1 else -1

end State

def game {R : Type} [Scalar R] (dice : Nat) : Game State String String R where
  player := State.player
  actions := State.actions dice
  step := State.step
  chanceProb := State.chanceProb dice
  observation := State.observation
  payoff := State.payoff

end ExtensiveForm.Games.LiarsDice
