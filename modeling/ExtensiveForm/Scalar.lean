/-!
The numbers of a game: payoffs, probabilities and plans. Every definition that computes with them
takes them from `Scalar`, so the doubles that run and the exact rationals share one text.
-/

set_option autoImplicit false

namespace ExtensiveForm

/-- A type of numbers a game can be played for. -/
class Scalar (R : Type) extends Zero R, One R, Add R, Sub R, Mul R, Div R, Neg R where
  ofNat : Nat → R
  /-- The sum of no terms: where a sum starts. -/
  emptySum : R
  isZero : R → Bool
  maximum : List R → R
  minimum : List R → R

-- numbers that have operations of their own keep them
attribute [instance (100)] Scalar.toZero Scalar.toOne Scalar.toAdd Scalar.toSub Scalar.toMul
  Scalar.toDiv Scalar.toNeg

namespace Scalar

def ofInt {R : Type} [Scalar R] : Int → R
  | .ofNat n => ofNat n
  | .negSucc n => -ofNat (n + 1)

def sum {R : Type} [Scalar R] (xs : List R) : R := xs.foldl (· + ·) emptySum

def factorial {R : Type} [Scalar R] : Nat → R
  | 0 => 1
  | n + 1 => factorial n * ofNat (n + 1)

/-- The larger of two doubles, of two equal ones the second; one that is not a number gives way to
the other. -/
def larger (a b : Float) : Float := if a.isNaN || a ≤ b then b else a

def smaller (a b : Float) : Float := if a.isNaN || b ≤ a then b else a

/-- The longest vector of doubles that any memory holds. -/
def longestVector : Nat := Nat.pow 2 60 - 1

end Scalar

/-- Doubles: a sum starts at the zero that changes no term, which is the negative one. -/
instance : Scalar Float where
  zero := 0.0
  one := 1.0
  ofNat n := Float.ofNat n
  emptySum := -0.0
  isZero x := x == 0.0
  maximum xs := xs.foldl Scalar.larger (-1.0 / 0.0)
  minimum xs := xs.foldl Scalar.smaller (1.0 / 0.0)

/-- Exact rationals; the largest and the smallest of no numbers are zero. -/
instance : Scalar Rat where
  zero := 0
  one := 1
  ofNat n := (n : Rat)
  emptySum := 0
  isZero x := x == 0
  maximum xs := (@List.max? Rat Rat.instMax xs).getD 0
  minimum xs := (@List.min? Rat Rat.instMin xs).getD 0

end ExtensiveForm
