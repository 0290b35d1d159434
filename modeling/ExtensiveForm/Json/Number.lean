import ExtensiveForm.Json.Basic

/-!
Reading JSON numbers. The digits are gathered into a 64-bit significand; those that do not fit any
more only count as places. A double is then one multiplication or division by a power of ten away,
which is not always the nearest double.
-/

set_option autoImplicit false

namespace ExtensiveForm.Json

inductive Fault where
  /-- The text ends early. -/
  | ended
  /-- What stands there is no JSON, or is too large, too deep or left over. -/
  | malformed
  /-- What stands there is JSON, but not what is read. -/
  | mismatched
  deriving DecidableEq, Repr

abbrev Reading (α : Type) := Except Fault (α × List Char)

def significandLimit : Nat := Nat.pow 2 64

def digitValue (c : Char) : Nat := c.toNat - '0'.toNat

/-- Goes on gathering digits after `n` while they fit, and gives the digits left over. -/
def gather : Nat → List Char → Nat × List Char
  | n, [] => (n, [])
  | n, c :: rest =>
    let next := 10 * n + digitValue c
    if next < significandLimit then gather next rest else (n, c :: rest)

def spanDigits (s : List Char) : List Char × List Char :=
  (s.takeWhile Char.isDigit, s.dropWhile Char.isDigit)

theorem length_spanDigits_le (s : List Char) : (spanDigits s).2.length ≤ s.length :=
  (List.dropWhile_suffix _).length_le

def largestPower : Nat := 308

def power (n : Nat) : Float := Float.ofScientific 1 false n

/-- Divides by a power of ten, by the largest one at a time. -/
def shrink (f : Float) (places : Nat) : Float :=
  if places ≤ largestPower then f / power places
  else if f == 0 then f
  else shrink (f / power largestPower) (places - largestPower)
termination_by places
decreasing_by
  rename_i h _
  simp [largestPower] at *
  omega

def scale? (significand : Nat) (exponent : Int) : Option Float :=
  let f := significand.toUInt64.toFloat
  match exponent with
  | .negSucc n => some (shrink f (n + 1))
  | .ofNat n =>
    if n ≤ largestPower then
      let v := f * power n
      if v.isInf then none else some v
    else if f == 0 then some f else none

def readExponent (s : List Char) : Reading Int :=
  let (negative, s) :=
    match s with
    | '+' :: r => (false, r)
    | '-' :: r => (true, r)
    | r => (false, r)
  match s with
  | [] => .error .ended
  | c :: r =>
    if c.isDigit then
      let (digits, rest) := spanDigits (c :: r)
      let e : Nat := digits.foldl (fun n d => 10 * n + digitValue d) 0
      .ok (if negative then -(e : Int) else e, rest)
    else .error .malformed

def finishFloat (negative : Bool) (significand : Nat) (exponent : Int) (rest : List Char) :
    Reading Number :=
  match scale? significand exponent with
  | none => .error .malformed
  | some v => .ok (.float (if negative then -v else v), rest)

def readScaled (negative : Bool) (significand : Nat) (exponent : Int) (s : List Char) :
    Reading Number :=
  match s with
  | c :: r =>
    if c = 'e' ∨ c = 'E' then
      match readExponent r with
      | .error e => .error e
      | .ok (more, rest) => finishFloat negative significand (exponent + more) rest
    else finishFloat negative significand exponent s
  | [] => finishFloat negative significand exponent s

def readFraction (negative : Bool) (significand : Nat) (exponent : Int) (s : List Char) :
    Reading Number :=
  let (digits, rest) := spanDigits s
  match digits with
  | [] => .error (if rest.isEmpty then .ended else .malformed)
  | _ :: _ =>
    let (significand, left) := gather significand digits
    readScaled negative significand (exponent - ((digits.length - left.length : Nat) : Int)) rest

/-- An integer that fits into 64 bits, or a double. A negative zero is a double. -/
def integerOrFloat (negative : Bool) (n : Nat) : Number :=
  if !negative then .int n
  else if n = 0 ∨ Nat.pow 2 63 < n then .float (-n.toUInt64.toFloat)
  else .int (-(n : Int))

def readAfterDigits (negative : Bool) (digits rest : List Char) : Reading Number :=
  let (significand, left) := gather 0 digits
  match rest with
  | '.' :: r => readFraction negative significand left.length r
  | c :: r =>
    if c = 'e' ∨ c = 'E' then readScaled negative significand left.length (c :: r)
    else if left.isEmpty then .ok (integerOrFloat negative significand, c :: r)
    else finishFloat negative significand left.length (c :: r)
  | [] =>
    if left.isEmpty then .ok (integerOrFloat negative significand, [])
    else finishFloat negative significand left.length []

def readMagnitude (negative : Bool) (s : List Char) : Reading Number :=
  match s with
  | [] => .error .ended
  | '0' :: d :: r =>
    if d.isDigit then .error .malformed else readAfterDigits negative ['0'] (d :: r)
  | c :: r =>
    if c.isDigit then
      readAfterDigits negative (c :: r.takeWhile Char.isDigit) (r.dropWhile Char.isDigit)
    else .error .malformed

def readNumber (s : List Char) : Reading Number :=
  match s with
  | '-' :: r => readMagnitude true r
  | r => readMagnitude false r

theorem length_of_readExponent {s r : List Char} {e : Int} (h : readExponent s = .ok (e, r)) :
    r.length ≤ s.length := by
  unfold readExponent at h
  split at h
  rename_i negative t heq
  have ht : t.length ≤ s.length := by
    split at heq <;> simp only [Prod.mk.injEq] at heq <;> obtain ⟨-, rfl⟩ := heq <;> simp
  split at h
  · simp at h
  · rename_i c u
    split at h
    · simp only [Except.ok.injEq, Prod.mk.injEq] at h
      rw [← h.2]
      exact Nat.le_trans (length_spanDigits_le (c :: u)) ht
    · simp at h

theorem rest_of_finishFloat {negative : Bool} {n : Nat} {e : Int} {s r : List Char} {v : Number}
    (h : finishFloat negative n e s = .ok (v, r)) : r = s := by
  unfold finishFloat at h
  split at h <;> simp_all

theorem length_of_readScaled {negative : Bool} {n : Nat} {e : Int} {s r : List Char} {v : Number}
    (h : readScaled negative n e s = .ok (v, r)) : r.length ≤ s.length := by
  unfold readScaled at h
  split at h
  · split at h
    · split at h
      · simp at h
      · rename_i he
        rw [rest_of_finishFloat h]
        have := length_of_readExponent he
        simp; omega
    · exact Nat.le_of_eq (by rw [rest_of_finishFloat h])
  · exact Nat.le_of_eq (by rw [rest_of_finishFloat h])

theorem length_of_readFraction {negative : Bool} {n : Nat} {e : Int} {s r : List Char} {v : Number}
    (h : readFraction negative n e s = .ok (v, r)) : r.length ≤ s.length := by
  unfold readFraction at h
  simp only at h
  split at h
  · simp at h
  · exact Nat.le_trans (length_of_readScaled h) (length_spanDigits_le s)

theorem length_of_readAfterDigits {negative : Bool} {ds s r : List Char} {v : Number}
    (h : readAfterDigits negative ds s = .ok (v, r)) : r.length ≤ s.length := by
  unfold readAfterDigits at h
  simp only at h
  split at h
  · have := length_of_readFraction h
    simp; omega
  · split at h
    · exact length_of_readScaled h
    · split at h
      · simp only [Except.ok.injEq, Prod.mk.injEq] at h; simp [← h.2]
      · exact Nat.le_of_eq (by rw [rest_of_finishFloat h])
  · split at h
    · simp only [Except.ok.injEq, Prod.mk.injEq] at h; simp [← h.2]
    · exact Nat.le_of_eq (by rw [rest_of_finishFloat h])

theorem length_of_readMagnitude {negative : Bool} {s r : List Char} {v : Number}
    (h : readMagnitude negative s = .ok (v, r)) : r.length < s.length := by
  unfold readMagnitude at h
  split at h
  · simp at h
  · split at h
    · simp at h
    · have := length_of_readAfterDigits h
      simp at *; omega
  · split at h
    · rename_i c t _ _
      have := length_of_readAfterDigits h
      have ht : (t.dropWhile Char.isDigit).length ≤ t.length := length_spanDigits_le t
      simp at *; omega
    · simp at h

theorem length_of_readNumber {s r : List Char} {v : Number} (h : readNumber s = .ok (v, r)) :
    r.length < s.length := by
  unfold readNumber at h
  split at h
  · have := length_of_readMagnitude h
    simp; omega
  · exact length_of_readMagnitude h

end ExtensiveForm.Json
