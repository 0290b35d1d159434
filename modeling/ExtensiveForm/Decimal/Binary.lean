set_option autoImplicit false

namespace ExtensiveForm.Decimal

/-- The magnitude `mantissa · 2 ^ exponent`. -/
structure Binary where
  mantissa : Nat
  exponent : Int
  deriving DecidableEq, Repr

namespace Binary

/-- The magnitude of a double, from its bits: 52 of fraction under 11 of exponent. -/
def ofFloat (x : Float) : Binary :=
  let bits := x.toBits.toNat
  let fraction := bits % Nat.pow 2 52
  let biased : Nat := bits / Nat.pow 2 52 % Nat.pow 2 11
  if biased = 0 then ⟨fraction, -1074⟩ else ⟨fraction + Nat.pow 2 52, (biased : Int) - 1075⟩

def numerator (b : Binary) : Nat := b.mantissa * Nat.pow 2 b.exponent.toNat

def denominator (b : Binary) : Nat := Nat.pow 2 (-b.exponent).toNat

theorem denominator_pos (b : Binary) : 0 < b.denominator := Nat.pow_pos (by decide)

end Binary

def isNegative (x : Float) : Bool := x.toBits.toNat / Nat.pow 2 63 == 1

end ExtensiveForm.Decimal
