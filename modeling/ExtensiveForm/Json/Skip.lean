import ExtensiveForm.Json.Strings

/-!
Passing over a value that nobody asked for. It must be JSON, nested as deep as it likes, but its
numbers may have any size and its strings halves of characters.
-/

set_option autoImplicit false

namespace ExtensiveForm.Json

def skipEscape (s : List Char) : Except Fault (List Char) :=
  match s with
  | [] => .error .ended
  | c :: r =>
    if c = 'u' then (readHex r).map Prod.snd
    else if (escaped? c).isSome then .ok r
    else .error .malformed

theorem length_of_skipEscape {s r : List Char} (h : skipEscape s = .ok r) :
    r.length < s.length := by
  unfold skipEscape at h
  split at h
  · simp at h
  · rename_i c t
    split at h
    · cases he : readHex t with
      | error e => simp [he, Except.map] at h
      | ok p =>
        have := length_of_readHex (r := p.2) (n := p.1) (by rw [he])
        simp only [he, Except.map, Except.ok.injEq] at h
        simp [← h]; omega
    · split at h
      · simp only [Except.ok.injEq] at h; simp [← h]
      · simp at h

def skipChars (s : List Char) : Except Fault (List Char) :=
  match s with
  | [] => .error .ended
  | c :: r =>
    if c = '"' then .ok r
    else if c = '\\' then
      match _h : skipEscape r with
      | .error e => .error e
      | .ok rest => skipChars rest
    else if c < ' ' then .error .malformed
    else skipChars r
termination_by s.length
decreasing_by
  · have := length_of_skipEscape _h; simp; omega
  · simp

theorem length_of_skipChars {s r : List Char} (h : skipChars s = .ok r) :
    r.length < s.length := by
  fun_induction skipChars s with
  | case1 => simp at h
  | case2 => simp_all
  | case3 => simp_all
  | case4 rest u he _ ih =>
    have := length_of_skipEscape he
    have := ih h
    simp; omega
  | case5 => simp at h
  | case6 c rest _ _ _ ih =>
    have := ih h
    simp; omega

def skipDigits (s : List Char) : Except Fault (List Char) :=
  match s with
  | [] => .error .malformed
  | c :: r => if c.isDigit then .ok (r.dropWhile Char.isDigit) else .error .malformed

def skipExponent (s : List Char) : Except Fault (List Char) :=
  match s with
  | [] => .ok []
  | c :: r =>
    if c = 'e' ∨ c = 'E' then
      match r with
      | '+' :: t => skipDigits t
      | '-' :: t => skipDigits t
      | t => skipDigits t
    else .ok (c :: r)

def skipFraction (s : List Char) : Except Fault (List Char) :=
  match s with
  | '.' :: r => (skipDigits r).bind skipExponent
  | r => skipExponent r

def skipMagnitude (s : List Char) : Except Fault (List Char) :=
  match s with
  | '0' :: d :: r => if d.isDigit then .error .malformed else skipFraction (d :: r)
  | r => (skipDigits r).bind skipFraction

def skipNumber (s : List Char) : Except Fault (List Char) :=
  match s with
  | '-' :: r => skipMagnitude r
  | r => skipMagnitude r

theorem length_of_skipDigits {s r : List Char} (h : skipDigits s = .ok r) :
    r.length < s.length := by
  unfold skipDigits at h
  split at h
  · simp at h
  · rename_i t
    split at h
    · have : (t.dropWhile Char.isDigit).length ≤ t.length := (List.dropWhile_suffix _).length_le
      simp only [Except.ok.injEq] at h
      simp [← h]; omega
    · simp at h

theorem length_of_skipExponent {s r : List Char} (h : skipExponent s = .ok r) :
    r.length ≤ s.length := by
  unfold skipExponent at h
  split at h
  · simp_all
  · split at h
    · split at h <;> have := length_of_skipDigits h <;> simp <;> omega
    · simp_all

theorem length_of_bind {f g : List Char → Except Fault (List Char)} {s r : List Char}
    (hf : ∀ {t}, f s = .ok t → t.length < s.length)
    (hg : ∀ {t u}, g t = .ok u → u.length ≤ t.length)
    (h : (f s).bind g = .ok r) : r.length < s.length := by
  cases he : f s with
  | error e => simp [he, Except.bind] at h
  | ok t =>
    have h₁ := hf he
    have h₂ := hg (t := t) (u := r) (by simpa [he, Except.bind] using h)
    omega

theorem length_of_skipFraction {s r : List Char} (h : skipFraction s = .ok r) :
    r.length ≤ s.length := by
  unfold skipFraction at h
  split at h
  · have := length_of_bind length_of_skipDigits length_of_skipExponent h
    simp; omega
  · exact length_of_skipExponent h

theorem length_of_skipMagnitude {s r : List Char} (h : skipMagnitude s = .ok r) :
    r.length < s.length := by
  unfold skipMagnitude at h
  split at h
  · split at h
    · simp at h
    · have := length_of_skipFraction h
      simp at *; omega
  · exact length_of_bind length_of_skipDigits length_of_skipFraction h

theorem length_of_skipNumber {s r : List Char} (h : skipNumber s = .ok r) :
    r.length < s.length := by
  unfold skipNumber at h
  split at h
  · have := length_of_skipMagnitude h
    simp; omega
  · exact length_of_skipMagnitude h

def skipScalar (s : List Char) : Except Fault (List Char) :=
  match s with
  | [] => .error .ended
  | c :: r =>
    if c = 'n' then readWord "ull".toList r
    else if c = 't' then readWord "rue".toList r
    else if c = 'f' then readWord "alse".toList r
    else if c = '"' then skipChars r
    else if c = '-' ∨ c.isDigit then skipNumber (c :: r)
    else .error .malformed

theorem length_of_skipScalar {s r : List Char} (h : skipScalar s = .ok r) :
    r.length < s.length := by
  unfold skipScalar at h
  split at h
  · simp at h
  · split at h
    · have := length_of_readWord h; simp; omega
    · split at h
      · have := length_of_readWord h; simp; omega
      · split at h
        · have := length_of_readWord h; simp; omega
        · split at h
          · have := length_of_skipChars h; simp; omega
          · split at h
            · exact length_of_skipNumber h
            · simp at h

def skipKey (s : List Char) : Except Fault (List Char) :=
  match skipBlank s with
  | [] => .error .ended
  | c :: r =>
    if c = '"' then
      match skipChars r with
      | .error e => .error e
      | .ok rest =>
        match skipBlank rest with
        | [] => .error .ended
        | d :: after => if d = ':' then .ok after else .error .malformed
    else .error .malformed

theorem length_of_skipKey {s r : List Char} (h : skipKey s = .ok r) : r.length < s.length := by
  unfold skipKey at h
  split at h
  · simp at h
  · rename_i c t hs
    have h₀ := length_skipBlank_le s
    split at h
    · split at h
      · simp at h
      · rename_i u hu
        have h₁ := length_of_skipChars hu
        split at h
        · simp at h
        · rename_i d v hv
          have h₂ := length_skipBlank_le u
          split at h
          · simp only [Except.ok.injEq] at h
            rw [← h]
            simp [hs, hv] at *
            omega
          · simp at h
    · simp at h

inductive Bracket where
  | list
  | object
  deriving DecidableEq, Repr

def Bracket.closing : Bracket → Char
  | list => ']'
  | object => '\x7d'

/-- Where a value is passed over: before it, just inside an opening bracket, or after it. -/
inductive SkipPoint where
  | value
  | inside (b : Bracket)
  | after
  deriving DecidableEq, Repr

def SkipPoint.rank : SkipPoint → Nat
  | inside _ => 1
  | _ => 0

def skipToValue (b : Bracket) (s : List Char) : Except Fault (List Char) :=
  match b with
  | .list => .ok s
  | .object => skipKey s

theorem length_of_skipToValue {b : Bracket} {s r : List Char} (h : skipToValue b s = .ok r) :
    r.length ≤ s.length := by
  cases b with
  | list => simp_all [skipToValue]
  | object => exact Nat.le_of_lt (length_of_skipKey h)

/-- Passes over the rest of a value inside the given open brackets, the innermost first. -/
def skipFrom (point : SkipPoint) (around : List Bracket) (s : List Char) :
    Except Fault (List Char) :=
  match point with
  | .value =>
    match _hs : skipBlank s with
    | [] => .error .ended
    | c :: r =>
      if c = '[' then skipFrom (.inside .list) around r
      else if c = '\x7b' then skipFrom (.inside .object) around r
      else
        match _hr : skipScalar (c :: r) with
        | .error e => .error e
        | .ok rest => skipFrom .after around rest
  | .inside b =>
    match _hs : skipBlank s with
    | [] => .error .ended
    | c :: r =>
      if c = b.closing then skipFrom .after around r
      else
        match _hr : skipToValue b (c :: r) with
        | .error e => .error e
        | .ok rest => skipFrom .value (b :: around) rest
  | .after =>
    match around with
    | [] => .ok s
    | b :: outer =>
      match _hs : skipBlank s with
      | [] => .error .ended
      | c :: r =>
        if c = ',' then
          match _hr : skipToValue b r with
          | .error e => .error e
          | .ok rest => skipFrom .value (b :: outer) rest
        else if c = b.closing then skipFrom .after outer r
        else .error .malformed
termination_by (s.length, point.rank)
decreasing_by
  all_goals
    have h₀ := length_skipBlank_le s
    rw [_hs] at h₀
    simp only [List.length_cons] at h₀
  · exact .left _ _ (by omega)
  · exact .left _ _ (by omega)
  · have := length_of_skipScalar _hr
    exact .left _ _ (by simp at this; omega)
  · exact .left _ _ (by omega)
  · have := length_of_skipToValue _hr
    simp only [List.length_cons] at this
    by_cases h : rest.length = s.length
    · rw [h]; exact .right _ (by simp [SkipPoint.rank])
    · exact .left _ _ (by omega)
  · have := length_of_skipToValue _hr
    exact .left _ _ (by omega)
  · exact .left _ _ (by omega)

def skipValue (s : List Char) : Except Fault (List Char) := skipFrom .value [] s

theorem length_of_skipFrom {point : SkipPoint} {around : List Bracket} {s r : List Char}
    (h : skipFrom point around s = .ok r) :
    r.length + (if point = .value then 1 else 0) ≤ s.length := by
  fun_induction skipFrom point around s with
  | case1 => simp at h
  | case2 around s t hs ih =>
    have h₀ := length_skipBlank_le s
    have := ih h
    simp [hs] at *; omega
  | case3 around s t hs _ ih =>
    have h₀ := length_skipBlank_le s
    have := ih h
    simp [hs] at *; omega
  | case4 => simp at h
  | case5 around s c t hs _ _ rest hr ih =>
    have h₀ := length_skipBlank_le s
    have := length_of_skipScalar hr
    have := ih h
    simp [hs] at *; omega
  | case6 => simp at h
  | case7 around s b t hs ih =>
    have h₀ := length_skipBlank_le s
    have := ih h
    simp [hs] at *; omega
  | case8 => simp at h
  | case9 around s b c t hs _ rest hr ih =>
    have h₀ := length_skipBlank_le s
    have := length_of_skipToValue hr
    have := ih h
    simp [hs] at *; omega
  | case10 => simp_all
  | case11 => simp at h
  | case12 => simp at h
  | case13 s b outer t rest hr hs ih =>
    have h₀ := length_skipBlank_le s
    have := length_of_skipToValue hr
    have := ih h
    simp [hs] at *; omega
  | case14 s b outer t hs _ ih =>
    have h₀ := length_skipBlank_le s
    have := ih h
    simp [hs] at *; omega
  | case15 => simp at h

theorem length_of_skipValue {s r : List Char} (h : skipValue s = .ok r) :
    r.length < s.length := by
  have := length_of_skipFrom h
  simp at this; omega

end ExtensiveForm.Json
