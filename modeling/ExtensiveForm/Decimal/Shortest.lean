import ExtensiveForm.Decimal.Binary

/-!
The shortest decimal that reads back as a given double: of all decimals nearer to it than to any
other double, one with the fewest digits, and of those the nearest.
-/

set_option autoImplicit false

namespace ExtensiveForm.Decimal

structure Scientific where
  digits : Nat
  exponent : Int
  deriving DecidableEq, Repr

/-- The numbers that read as one double, in quarters of its last place: `low` and `high` are the
ends around the double itself, and belong to it if `closed`. -/
structure Neighborhood where
  low : Nat
  centre : Nat
  high : Nat
  /-- The power of two that a quarter stands for. -/
  scale : Int
  closed : Bool

/-- Below a power of two the doubles are twice as dense. -/
def Neighborhood.of (b : Binary) : Neighborhood where
  low := 4 * b.mantissa - if b.mantissa = Nat.pow 2 52 ∧ -1074 < b.exponent then 1 else 2
  centre := 4 * b.mantissa
  high := 4 * b.mantissa + 2
  scale := b.exponent - 2
  closed := b.mantissa % 2 = 0

def Neighborhood.scaled (h : Neighborhood) (exponent : Int) (n : Nat) : Nat :=
  n * Nat.pow 2 h.scale.toNat * Nat.pow 10 (-exponent).toNat

def Neighborhood.unit (h : Neighborhood) (exponent : Int) : Nat :=
  Nat.pow 2 (-h.scale).toNat * Nat.pow 10 exponent.toNat

def Neighborhood.holds (h : Neighborhood) (exponent : Int) (d : Nat) : Bool :=
  let v := d * h.unit exponent
  let low := h.scaled exponent h.low
  let high := h.scaled exponent h.high
  if h.closed then low ≤ v && v ≤ high else low < v && v < high

/-- The multiple of `10 ^ exponent` that reads as the double, if there is one: the nearer of its two
neighbours, the even one of two as near. -/
def Neighborhood.digits? (h : Neighborhood) (exponent : Int) : Option Nat :=
  let unit := h.unit exponent
  let centre := h.scaled exponent h.centre
  let below := centre / unit
  let above := below + 1
  match h.holds exponent below, h.holds exponent above with
  | false, false => none
  | true, false => some below
  | false, true => some above
  | true, true =>
    let rest := 2 * (centre % unit)
    if rest < unit then some below
    else if unit < rest then some above
    else if below % 2 = 0 then some below else some above

def digitCount (n : Nat) : Nat := if n = 0 then 0 else (Nat.toDigits 10 n).length

/-- The least `j` with `den ≤ num · 10 ^ j`, up to a bound. -/
def shiftToUnit : Nat → Nat → Nat → Nat
  | 0, _, _ => 0
  | bound + 1, num, den => if den ≤ num then 0 else shiftToUnit bound (10 * num) den + 1

/-- One more than the exponent of the leading digit. No double needs more than 324 zeros. -/
def Binary.places (b : Binary) : Int :=
  let num := b.numerator
  let den := b.denominator
  if den ≤ num then digitCount (num / den) else 1 - (shiftToUnit 324 num den : Int)

/-- Without a last zero, which the neighbour above has if it is the next power of ten. -/
def Scientific.trim (s : Scientific) : Scientific :=
  if s.digits % 10 = 0 then ⟨s.digits / 10, s.exponent + 1⟩ else s

def shortestFrom (h : Neighborhood) (places : Int) : Nat → Nat → Scientific
  | 0, _ => ⟨0, 0⟩
  | tries + 1, n =>
    let exponent := places - n
    match h.digits? exponent with
    | some d => Scientific.trim ⟨d, exponent⟩
    | none => shortestFrom h places tries (n + 1)

/-- The shortest decimal of a magnitude that is not zero. Seventeen digits are enough for any. -/
def shortest (b : Binary) : Scientific := shortestFrom (.of b) b.places 17 1

end ExtensiveForm.Decimal
