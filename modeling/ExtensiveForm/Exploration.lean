import ExtensiveForm.Game
import ExtensiveForm.Registry
import ExtensiveForm.Scalar

/-!
Walking a whole game tree. The walk keeps the states it still has to look at on a list, the next one
in front, registers the information sets it meets and adds the chance-weighted payoff of every
terminal state to its pair of own sequences.
-/

set_option autoImplicit false

namespace ExtensiveForm

inductive Violation (L A : Type) where
  | breach (b : Breach)
  /-- A label came back with other actions than it was frozen with. -/
  | actionMismatch (seat : Seat) (label : L) (frozen found : List A)
  /-- A label came back after another own sequence. -/
  | parentMismatch (seat : Seat) (label : L)
  deriving DecidableEq, Repr

def Conflict.violation {L A : Type} (seat : Seat) (label : L) (found : List A) :
    Conflict A → Violation L A
  | .actions frozen => .actionMismatch seat label frozen found
  | .parent => .parentMismatch seat label

structure Exploration (L A R : Type) [BEq L] [Hashable L] where
  first : Registry L A
  second : Registry L A
  payoffs : Std.HashMap SequencePair R

/-- A state still to be looked at, the probability of chance's moves on the way to it, and the last
own moves of both seats. -/
structure Frame (σ R : Type) where
  state : σ
  weight : R
  last : SequencePair

namespace Exploration

variable {σ L A R : Type} [BEq L] [Hashable L]

def empty : Exploration L A R := ⟨.empty, .empty, ∅⟩

def registry (e : Exploration L A R) : Seat → Registry L A
  | .first => e.first
  | .second => e.second

def addPayoff [Scalar R] (e : Exploration L A R) (key : SequencePair) (v : R) :
    Exploration L A R :=
  match e with
  | ⟨first, second, payoffs⟩ =>
    let total := payoffs.getD key 0 + v
    ⟨first, second, payoffs.insert key total⟩

def enter [BEq A] (e : Exploration L A R) (seat : Seat) (seen : Infoset L A) :
    Except (Conflict A) (Nat × Exploration L A R) :=
  match e, seat with
  | ⟨first, second, payoffs⟩, .first =>
    match first.enter seen with
    | .error c => .error c
    | .ok (i, first) => .ok (i, ⟨first, second, payoffs⟩)
  | ⟨first, second, payoffs⟩, .second =>
    match second.enter seen with
    | .error c => .error c
    | .ok (i, second) => .ok (i, ⟨first, second, payoffs⟩)

end Exploration

namespace Frame

variable {σ L A R : Type}

def root [One R] (start : σ) : Frame σ R := ⟨start, 1, .both .empty⟩

def chanceChildren [Mul R] (f : Frame σ R) (branches : List (R × σ)) : List (Frame σ R) :=
  branches.map fun (p, s) => ⟨s, f.weight * p, f.last⟩

def moveChildren (f : Frame σ R) (seat : Seat) (infoset : Nat) (moves : List (A × σ)) :
    List (Frame σ R) :=
  moves.mapIdx fun i (_, s) => ⟨s, f.weight, f.last.set seat (.move infoset i)⟩

end Frame

namespace Game

variable {σ L A R : Type} [BEq L] [Hashable L] [BEq A] [Scalar R]

def look (g : Game σ A L R) (found : Exploration L A R) (frame : Frame σ R) :
    Except (Violation L A) (Exploration L A R × List (Frame σ R)) :=
  match g.node frame.state with
  | .error b => .error (.breach b)
  | .ok (.terminal v) => .ok (found.addPayoff frame.last (v * frame.weight), [])
  | .ok (.chance branches) => .ok (found, frame.chanceChildren branches)
  | .ok (.decision seat label moves) =>
    let actions := moves.map Prod.fst
    match found.enter seat ⟨label, actions, frame.last.get seat⟩ with
    | .error c => .error (c.violation seat label actions)
    | .ok (i, found) => .ok (found, frame.moveChildren seat i moves)

/-- Looks at the pending states one after the other, the states below each before its successors;
gives nothing if that takes more than `fuel` looks. -/
def walk (g : Game σ A L R) : Nat → List (Frame σ R) → Exploration L A R →
    Option (Except (Violation L A) (Exploration L A R))
  | _, [], found => some (.ok found)
  | 0, _ :: _, _ => none
  | fuel + 1, frame :: pending, found =>
    match g.look found frame with
    | .error e => some (.error e)
    | .ok (found, children) => g.walk fuel (children ++ pending) found

def explore (g : Game σ A L R) (fuel : Nat) (start : σ) :
    Option (Except (Violation L A) (Exploration L A R)) :=
  g.walk fuel [.root start] .empty

end Game

end ExtensiveForm
