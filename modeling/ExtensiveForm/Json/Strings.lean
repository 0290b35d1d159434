import ExtensiveForm.Json.Number

set_option autoImplicit false

namespace ExtensiveForm.Json

def isBlank (c : Char) : Bool := c == ' ' || c == '\n' || c == '\t' || c == '\r'

def skipBlank (s : List Char) : List Char := s.dropWhile isBlank

theorem length_skipBlank_le (s : List Char) : (skipBlank s).length ≤ s.length :=
  (List.dropWhile_suffix _).length_le

def readWord : List Char → List Char → Except Fault (List Char)
  | [], s => .ok s
  | _ :: _, [] => .error .ended
  | k :: ks, c :: s => if k = c then readWord ks s else .error .malformed

theorem length_of_readWord {w s r : List Char} (h : readWord w s = .ok r) :
    r.length ≤ s.length := by
  induction w generalizing s with
  | nil => simp_all [readWord]
  | cons k ks ih =>
    cases s with
    | nil => simp [readWord] at h
    | cons c s =>
      simp only [readWord] at h
      split at h
      · have := ih h; simp; omega
      · simp at h

def hexValue? (c : Char) : Option Nat :=
  if c.isDigit then some (c.toNat - '0'.toNat)
  else if 'a' ≤ c ∧ c ≤ 'f' then some (c.toNat - 'a'.toNat + 10)
  else if 'A' ≤ c ∧ c ≤ 'F' then some (c.toNat - 'A'.toNat + 10)
  else none

def bytesAhead (s : List Char) : Nat := (s.take 4).foldl (fun n c => n + c.utf8Size) 0

/-- Reads four hexadecimal digits; the text has ended if there are no four bytes left. -/
def readHex (s : List Char) : Reading Nat :=
  if bytesAhead s < 4 then .error .ended
  else
    match s with
    | a :: b :: c :: d :: rest =>
      match hexValue? a, hexValue? b, hexValue? c, hexValue? d with
      | some a, some b, some c, some d => .ok (((a * 16 + b) * 16 + c) * 16 + d, rest)
      | _, _, _, _ => .error .malformed
    | _ => .error .malformed

theorem length_of_readHex {s r : List Char} {n : Nat} (h : readHex s = .ok (n, r)) :
    r.length < s.length := by
  unfold readHex at h
  split at h
  · simp at h
  · split at h
    · split at h
      · simp only [Except.ok.injEq, Prod.mk.injEq] at h; simp [← h.2]; omega
      · simp at h
    · simp at h

/-- Reads the second of two escapes that make one character, given the first. -/
def readPair (high : Nat) (s : List Char) : Reading Char :=
  match s with
  | [] => .error .ended
  | '\\' :: [] => .error .ended
  | '\\' :: 'u' :: r =>
    match readHex r with
    | .error e => .error e
    | .ok (low, rest) =>
      if 0xDC00 ≤ low ∧ low ≤ 0xDFFF then
        .ok (Char.ofNat ((high - 0xD800) * 0x400 + (low - 0xDC00) + 0x10000), rest)
      else .error .malformed
  | _ => .error .malformed

theorem length_of_readPair {high : Nat} {s r : List Char} {c : Char}
    (h : readPair high s = .ok (c, r)) : r.length < s.length := by
  unfold readPair at h
  split at h
  · simp at h
  · simp at h
  · split at h
    · simp at h
    · rename_i he
      split at h
      · have := length_of_readHex he
        simp only [Except.ok.injEq, Prod.mk.injEq] at h
        simp [← h.2]; omega
      · simp at h
  · simp at h

def readCode (s : List Char) : Reading Char :=
  match readHex s with
  | .error e => .error e
  | .ok (n, rest) =>
    if 0xDC00 ≤ n ∧ n ≤ 0xDFFF then .error .malformed
    else if 0xD800 ≤ n ∧ n ≤ 0xDBFF then readPair n rest
    else .ok (Char.ofNat n, rest)

theorem length_of_readCode {s r : List Char} {c : Char} (h : readCode s = .ok (c, r)) :
    r.length < s.length := by
  unfold readCode at h
  split at h
  · simp at h
  · rename_i he
    have := length_of_readHex he
    split at h
    · simp at h
    · split at h
      · have := length_of_readPair h; omega
      · simp only [Except.ok.injEq, Prod.mk.injEq] at h; simp [← h.2]; omega

def escaped? (c : Char) : Option Char :=
  if c = '"' ∨ c = '\\' ∨ c = '/' then some c
  else if c = 'b' then some '\x08'
  else if c = 'f' then some '\x0c'
  else if c = 'n' then some '\n'
  else if c = 'r' then some '\r'
  else if c = 't' then some '\t'
  else none

def readEscape (s : List Char) : Reading Char :=
  match s with
  | [] => .error .ended
  | c :: r =>
    if c = 'u' then readCode r
    else
      match escaped? c with
      | none => .error .malformed
      | some d => .ok (d, r)

theorem length_of_readEscape {s r : List Char} {c : Char} (h : readEscape s = .ok (c, r)) :
    r.length < s.length := by
  unfold readEscape at h
  split at h
  · simp at h
  · split at h
    · have := length_of_readCode h; simp; omega
    · split at h
      · simp at h
      · simp only [Except.ok.injEq, Prod.mk.injEq] at h; simp [← h.2]

/-- Goes on reading a string up to its closing quote; `acc` holds what was read, last first. -/
def readChars (acc : List Char) (s : List Char) : Reading (List Char) :=
  match s with
  | [] => .error .ended
  | c :: r =>
    if c = '"' then .ok (acc.reverse, r)
    else if c = '\\' then
      match _h : readEscape r with
      | .error e => .error e
      | .ok (d, rest) => readChars (d :: acc) rest
    else if c < ' ' then .error .malformed
    else readChars (c :: acc) r
termination_by s.length
decreasing_by
  · have := length_of_readEscape _h; simp; omega
  · simp

theorem length_of_readChars {acc s r t : List Char} (h : readChars acc s = .ok (t, r)) :
    r.length < s.length := by
  fun_induction readChars acc s with
  | case1 => simp at h
  | case2 acc rest =>
    simp only [Except.ok.injEq, Prod.mk.injEq] at h
    simp [← h.2]
  | case3 => simp_all
  | case4 acc rest d u he _ ih =>
    have := length_of_readEscape he
    have := ih h
    simp; omega
  | case5 => simp at h
  | case6 acc c rest _ _ _ ih =>
    have := ih h
    simp; omega

def readString (s : List Char) : Reading String :=
  match readChars [] s with
  | .error e => .error e
  | .ok (cs, rest) => .ok (String.ofList cs, rest)

theorem length_of_readString {s r : List Char} {t : String} (h : readString s = .ok (t, r)) :
    r.length < s.length := by
  unfold readString at h
  split at h
  · simp at h
  · rename_i he
    simp only [Except.ok.injEq, Prod.mk.injEq] at h
    rw [← h.2]
    exact length_of_readChars he

end ExtensiveForm.Json
