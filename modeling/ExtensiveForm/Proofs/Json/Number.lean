import Mathlib.Data.List.TakeWhile
import ExtensiveForm.Json.Number
import ExtensiveForm.Json.Writer
import ExtensiveForm.Proofs.Text.Digits

set_option autoImplicit false

namespace ExtensiveForm.Json

def Stops (rest : List Char) : Prop :=
  ∀ c ∈ rest.head?, c.isDigit = false ∧ c ≠ '.' ∧ c ≠ 'e' ∧ c ≠ 'E'

section Append

variable {rest s r : List Char} {negative : Bool} {n : Nat} {e : Int} {v : Number}

theorem Stops.cons_iff {c : Char} : Stops (c :: rest) ↔
    c.isDigit = false ∧ c ≠ '.' ∧ c ≠ 'e' ∧ c ≠ 'E' := by
  simp [Stops]

theorem Stops.spanDigits_append (h : Stops rest) (s : List Char) :
    spanDigits (s ++ rest) = ((spanDigits s).1, (spanDigits s).2 ++ rest) := by
  have htake : rest.takeWhile Char.isDigit = [] := by
    cases rest with
    | nil => rfl
    | cons c rest => simp [(cons_iff.mp h).1]
  have hdrop : rest.dropWhile Char.isDigit = rest := by
    have happend := List.takeWhile_append_dropWhile (p := Char.isDigit) (l := rest)
    rwa [htake, List.nil_append] at happend
  induction s with
  | nil => simp [spanDigits, htake, hdrop]
  | cons c s ih =>
    obtain ⟨htakes, hdrops⟩ := Prod.mk.inj ih
    simp only [spanDigits, List.cons_append, List.takeWhile_cons, List.dropWhile_cons] at *
    cases c.isDigit with
    | false => simp
    | true => simp [htakes, hdrops]

def readUnsigned (negative : Bool) (s : List Char) : Reading Int :=
  match s with
  | [] => .error .ended
  | c :: r =>
    if c.isDigit then
      let (digits, rest) := spanDigits (c :: r)
      let e : Nat := digits.foldl (fun n d => 10 * n + digitValue d) 0
      .ok (if negative then -(e : Int) else e, rest)
    else .error .malformed

theorem readExponent_cons (c : Char) (s : List Char) :
    readExponent (c :: s) = if c = '+' then readUnsigned false s
      else if c = '-' then readUnsigned true s else readUnsigned false (c :: s) := by
  by_cases hplus : c = '+'
  · subst hplus
    rfl
  · by_cases hminus : c = '-'
    · subst hminus
      rfl
    · rw [if_neg hplus, if_neg hminus]
      unfold readExponent
      split
      rename_i heq
      split at heq
      · rename_i h
        exact absurd (List.cons.inj h).1 hplus
      · rename_i h
        exact absurd (List.cons.inj h).1 hminus
      · cases heq
        rfl

theorem readUnsigned_append (hs : Stops rest) (h : readUnsigned negative s = .ok (e, r)) :
    readUnsigned negative (s ++ rest) = .ok (e, r ++ rest) := by
  cases s with
  | nil => cases h
  | cons c s =>
    have hspan := hs.spanDigits_append (c :: s)
    rw [List.cons_append] at hspan ⊢
    unfold readUnsigned at h ⊢
    simp only [hspan] at h ⊢
    split at h
    · rename_i hc
      cases h
      rw [if_pos hc]
    · cases h

theorem readExponent_append (hs : Stops rest) (h : readExponent s = .ok (e, r)) :
    readExponent (s ++ rest) = .ok (e, r ++ rest) := by
  cases s with
  | nil => cases h
  | cons c s =>
    rw [List.cons_append, readExponent_cons] at *
    split
    · rename_i hplus
      rw [if_pos hplus] at h
      exact readUnsigned_append hs h
    · rename_i hplus
      rw [if_neg hplus] at h
      split
      · rename_i hminus
        rw [if_pos hminus] at h
        exact readUnsigned_append hs h
      · rename_i hminus
        rw [if_neg hminus] at h
        exact readUnsigned_append hs h

theorem finishFloat_append (h : finishFloat negative n e s = .ok (v, r)) (rest : List Char) :
    finishFloat negative n e (s ++ rest) = .ok (v, r ++ rest) := by
  unfold finishFloat at h ⊢
  split at h
  · cases h
  · cases h
    rfl

theorem readScaled_of_stops (hs : Stops rest) :
    readScaled negative n e rest = finishFloat negative n e rest := by
  cases rest with
  | nil => rfl
  | cons c rest =>
    obtain ⟨-, -, he, hE⟩ := Stops.cons_iff.mp hs
    rw [readScaled, if_neg (not_or.mpr ⟨he, hE⟩)]

theorem readScaled_append (hs : Stops rest) (h : readScaled negative n e s = .ok (v, r)) :
    readScaled negative n e (s ++ rest) = .ok (v, r ++ rest) := by
  cases s with
  | nil =>
    rw [List.nil_append, readScaled_of_stops hs]
    exact finishFloat_append h rest
  | cons c s =>
    rw [List.cons_append, readScaled] at *
    split
    · rename_i hc
      rw [if_pos hc] at h
      split at h
      · cases h
      · rename_i he
        simp only [readExponent_append hs he]
        exact finishFloat_append h rest
    · rename_i hc
      rw [if_neg hc] at h
      exact finishFloat_append h rest

theorem readFraction_append (hs : Stops rest) (h : readFraction negative n e s = .ok (v, r)) :
    readFraction negative n e (s ++ rest) = .ok (v, r ++ rest) := by
  unfold readFraction at h ⊢
  simp only [hs.spanDigits_append] at h ⊢
  split at h
  · cases h
  · exact readScaled_append hs h

section AfterDigits

variable {digits : List Char}

def finishDigits (negative : Bool) (digits rest : List Char) : Reading Number :=
  if (gather 0 digits).2.isEmpty then .ok (integerOrFloat negative (gather 0 digits).1, rest)
  else finishFloat negative (gather 0 digits).1 (gather 0 digits).2.length rest

theorem readAfterDigits_cons (c : Char) (s : List Char) : readAfterDigits negative digits (c :: s) =
    if c = '.' then readFraction negative (gather 0 digits).1 (gather 0 digits).2.length s
    else if c = 'e' ∨ c = 'E' then
      readScaled negative (gather 0 digits).1 (gather 0 digits).2.length (c :: s)
    else finishDigits negative digits (c :: s) := by
  by_cases hpoint : c = '.'
  · subst hpoint
    rfl
  · rw [if_neg hpoint]
    unfold readAfterDigits
    simp only
    rfl

theorem finishDigits_append (h : finishDigits negative digits s = .ok (v, r)) (rest : List Char) :
    finishDigits negative digits (s ++ rest) = .ok (v, r ++ rest) := by
  unfold finishDigits at h ⊢
  split
  · rename_i hleft
    rw [if_pos hleft] at h
    cases h
    rfl
  · rename_i hleft
    rw [if_neg hleft] at h
    exact finishFloat_append h rest

theorem readAfterDigits_of_stops (hs : Stops rest) :
    readAfterDigits negative digits rest = finishDigits negative digits rest := by
  cases rest with
  | nil => rfl
  | cons c rest =>
    obtain ⟨-, hpoint, he, hE⟩ := Stops.cons_iff.mp hs
    rw [readAfterDigits_cons, if_neg hpoint, if_neg (not_or.mpr ⟨he, hE⟩)]

theorem readAfterDigits_append (hs : Stops rest)
    (h : readAfterDigits negative digits s = .ok (v, r)) :
    readAfterDigits negative digits (s ++ rest) = .ok (v, r ++ rest) := by
  cases s with
  | nil =>
    rw [List.nil_append, readAfterDigits_of_stops hs]
    exact finishDigits_append h rest
  | cons c s =>
    rw [List.cons_append, readAfterDigits_cons] at *
    split
    · rename_i hpoint
      rw [if_pos hpoint] at h
      exact readFraction_append hs h
    · rename_i hpoint
      rw [if_neg hpoint] at h
      split
      · rename_i he
        rw [if_pos he] at h
        exact readScaled_append hs h
      · rename_i he
        rw [if_neg he] at h
        exact finishDigits_append h rest

end AfterDigits

theorem readMagnitude_cons (c : Char) (s : List Char) : readMagnitude negative (c :: s) =
    if c = '0' ∧ (spanDigits s).1 ≠ [] then .error .malformed
    else if c.isDigit then readAfterDigits negative (c :: (spanDigits s).1) (spanDigits s).2
    else .error .malformed := by
  by_cases hc : c = '0'
  · subst hc
    cases s with
    | nil => rfl
    | cons d s =>
      cases hd : d.isDigit with
      | false => simp [readMagnitude, spanDigits, hd]
      | true => simp [readMagnitude, spanDigits, hd]
  · rw [if_neg (fun h => hc h.1)]
    unfold readMagnitude
    split
    · rename_i heq
      cases heq
    · rename_i heq
      exact absurd (List.cons.inj heq).1 hc
    · rename_i heq
      cases heq
      rfl

theorem readMagnitude_append (hs : Stops rest) (h : readMagnitude negative s = .ok (v, r)) :
    readMagnitude negative (s ++ rest) = .ok (v, r ++ rest) := by
  cases s with
  | nil => cases h
  | cons c s =>
    rw [List.cons_append, readMagnitude_cons, hs.spanDigits_append]
    rw [readMagnitude_cons] at h
    split
    · rename_i hc
      rw [if_pos hc] at h
      cases h
    · rename_i hc
      rw [if_neg hc] at h
      split
      · rename_i hdigit
        rw [if_pos hdigit] at h
        exact readAfterDigits_append hs h
      · rename_i hdigit
        rw [if_neg hdigit] at h
        cases h

theorem readNumber_cons (c : Char) (s : List Char) : readNumber (c :: s) =
    if c = '-' then readMagnitude true s else readMagnitude false (c :: s) := by
  by_cases hc : c = '-'
  · subst hc
    rfl
  · rw [if_neg hc]
    unfold readNumber
    split
    · rename_i heq
      exact absurd (List.cons.inj heq).1 hc
    · rfl

theorem readNumber_append (hs : Stops rest) (h : readNumber s = .ok (v, r)) :
    readNumber (s ++ rest) = .ok (v, r ++ rest) := by
  cases s with
  | nil => cases h
  | cons c s =>
    rw [List.cons_append, readNumber_cons] at *
    split
    · rename_i hc
      rw [if_pos hc] at h
      exact readMagnitude_append hs h
    · rename_i hc
      rw [if_neg hc] at h
      exact readMagnitude_append hs h

end Append

section Integer

theorem le_ofDigitChars (cs : List Char) (n : Nat) : n ≤ Nat.ofDigitChars 10 cs n := by
  induction cs generalizing n with
  | nil => exact Nat.le_refl n
  | cons c cs ih =>
    rw [Nat.ofDigitChars_cons]
    have hle := ih (10 * n + (c.toNat - '0'.toNat))
    omega

theorem gather_eq {cs : List Char} {n : Nat} (h : Nat.ofDigitChars 10 cs n < significandLimit) :
    gather n cs = (Nat.ofDigitChars 10 cs n, []) := by
  induction cs generalizing n with
  | nil => rfl
  | cons c cs ih =>
    rw [Nat.ofDigitChars_cons] at h ⊢
    have hle := le_ofDigitChars cs (10 * n + (c.toNat - '0'.toNat))
    rw [gather]
    exact (if_pos (Nat.lt_of_le_of_lt hle h)).trans (ih h)

theorem readMagnitude_naturalText {n : Nat} (h : n < Nat.pow 2 64) (negative : Bool) :
    readMagnitude negative (naturalText n) = .ok (integerOrFloat negative n, []) := by
  have hdigits : ∀ c ∈ naturalText n, c.isDigit := fun c hc => Text.isDigit_of_mem_toDigits hc
  have hvalue : Nat.ofDigitChars 10 (naturalText n) 0 = n :=
    Nat.ofDigitChars_toDigits (by decide) (by decide)
  have hgather : gather 0 (naturalText n) = (Nat.ofDigitChars 10 (naturalText n) 0, []) :=
    gather_eq (hvalue.symm ▸ h)
  cases hcs : naturalText n with
  | nil => exact absurd hcs Nat.toDigits_ne_nil
  | cons c cs =>
    rw [hcs] at hdigits hgather hvalue
    obtain ⟨hc, hcs'⟩ := List.forall_mem_cons.mp hdigits
    have hspan : spanDigits cs = (cs, []) := by
      rw [spanDigits, List.takeWhile_eq_self_iff.mpr hcs', List.dropWhile_eq_nil_iff.mpr hcs']
    have hzero : ¬(c = '0' ∧ cs ≠ []) := by
      rintro ⟨rfl, hne⟩
      by_cases hn : n = 0
      · subst hn
        cases hcs
        exact hne rfl
      · exact Text.head_toDigits_ne hn (congrArg List.head? hcs)
    rw [readMagnitude_cons, hspan, if_neg hzero, if_pos hc, readAfterDigits_of_stops (by simp [Stops]),
      finishDigits, hgather, hvalue]
    rfl

/-- An integer of 64 bits, signed or not, is read back from its text. -/
theorem readNumber_integerText {n : Int} (hlow : -Int.pow 2 63 ≤ n) (hhigh : n < Int.pow 2 64) :
    readNumber (integerText n) = .ok (.int n, []) := by
  cases n with
  | ofNat n =>
    have hn : n < Nat.pow 2 64 := Int.ofNat_lt.mp hhigh
    rw [integerText]
    cases hcs : naturalText n with
    | nil => exact absurd hcs Nat.toDigits_ne_nil
    | cons c cs =>
      have hc : c ≠ '-' := by
        rintro rfl
        exact Text.not_mem_toDigits (n := n) (by decide) (hcs ▸ List.mem_cons_self)
      rw [readNumber_cons, if_neg hc, ← hcs, readMagnitude_naturalText hn]
      rfl
  | negSucc n =>
    have hn : n + 1 ≤ Nat.pow 2 63 := by
      have h : Int.pow 2 63 = (Nat.pow 2 63 : Nat) := rfl
      omega
    have hn' : n + 1 < Nat.pow 2 64 := Nat.lt_of_le_of_lt hn (by decide)
    have hbounds : ¬(n + 1 = 0 ∨ Nat.pow 2 63 < n + 1) := by omega
    rw [integerText, readNumber_cons, if_pos rfl, readMagnitude_naturalText hn']
    simp only [integerOrFloat, Bool.not_true, if_neg hbounds]
    rfl

end Integer

end ExtensiveForm.Json
