import Mathlib.Data.List.Basic
import ExtensiveForm.Text.Digits

set_option autoImplicit false

namespace ExtensiveForm.Text

theorem digitsFrom?_eq {cs : List Char} (h : ∀ c ∈ cs, c.isDigit) (n : Nat) :
    digitsFrom? n cs = some (Nat.ofDigitChars 10 cs n) := by
  induction cs generalizing n with
  | nil => rfl
  | cons c cs ih =>
    obtain ⟨hc, hcs⟩ := List.forall_mem_cons.mp h
    simp [digitsFrom?, digit?, hc, ih hcs, Nat.ofDigitChars_cons]

theorem isDigit_of_mem_toDigits {n : Nat} {c : Char} (h : c ∈ Nat.toDigits 10 n) : c.isDigit :=
  Nat.isDigit_of_mem_toDigits (by omega) (by omega) h

theorem not_mem_toDigits {n : Nat} {c : Char} (h : c.isDigit = false) : c ∉ Nat.toDigits 10 n := by
  intro hc
  rw [isDigit_of_mem_toDigits hc] at h
  cases h

theorem head_toDigits_ne {n : Nat} (hn : n ≠ 0) : (Nat.toDigits 10 n).head? ≠ some '0' := by
  induction n using Nat.strongRecOn with
  | ind n ih =>
    by_cases hlt : n < 10
    · have hall : ∀ n < 10, n ≠ 0 → Nat.digitChar n ≠ '0' := by decide
      rw [Nat.toDigits_of_lt_base hlt]
      exact fun h => hall n hlt hn (Option.some.inj h)
    · rw [Nat.toDigits_of_base_le (by omega) (by omega), List.head?_append_of_ne_nil _ Nat.toDigits_ne_nil]
      exact ih (n / 10) (by omega) (by omega)

theorem natural?_toDigits (n : Nat) : natural? (Nat.toDigits 10 n) = some n := by
  have hread := digitsFrom?_eq (fun c hc => isDigit_of_mem_toDigits (n := n) hc) 0
  rw [Nat.ofDigitChars_toDigits (by omega) (by omega)] at hread
  have hplus : '+' ∉ Nat.toDigits 10 n := not_mem_toDigits (by decide)
  cases hcs : Nat.toDigits 10 n with
  | nil => exact absurd hcs Nat.toDigits_ne_nil
  | cons c cs =>
    rw [hcs] at hread hplus
    have hc : c ≠ '+' := by
      rintro rfl
      exact hplus List.mem_cons_self
    rw [← hread]
    unfold natural?
    split
    · simp_all
    · rfl

theorem splitColon?_append {cs : List Char} (h : ':' ∉ cs) (ds : List Char) :
    splitColon? (cs ++ ':' :: ds) = some (cs, ds) := by
  induction cs with
  | nil => rfl
  | cons c cs ih =>
    rw [List.mem_cons, not_or] at h
    have hc : c ≠ ':' := fun he => h.1 he.symm
    rw [List.cons_append, splitColon?, ih h.2, Option.map_some]
    simpa using hc

end ExtensiveForm.Text
