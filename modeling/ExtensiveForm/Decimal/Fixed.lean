import ExtensiveForm.Decimal.Binary

set_option autoImplicit false

namespace ExtensiveForm.Decimal

/-- The quotient to the nearest integer, of two as near the even one. -/
def roundDiv (num den : Nat) : Nat :=
  let q := num / den
  let rest := 2 * (num % den)
  if rest < den then q else if den < rest then q + 1 else if q % 2 = 0 then q else q + 1

theorem roundDiv_le (num den : Nat) : roundDiv num den ≤ num / den + 1 := by
  simp only [roundDiv]; split <;> (try split) <;> (try split) <;> omega

theorem le_roundDiv (num den : Nat) : num / den ≤ roundDiv num den := by
  simp only [roundDiv]; split <;> (try split) <;> (try split) <;> omega

def padded (width : Nat) (digits : List Char) : List Char :=
  List.replicate (width - digits.length) '0' ++ digits

def fixed (places : Nat) (x : Float) : String :=
  let b := Binary.ofFloat x
  let n := roundDiv (b.numerator * Nat.pow 10 places) b.denominator
  let sign := if isNegative x then ['-'] else []
  String.ofList (sign ++ Nat.toDigits 10 (n / Nat.pow 10 places) ++
    '.' :: padded places (Nat.toDigits 10 (n % Nat.pow 10 places)))

end ExtensiveForm.Decimal
