import ExtensiveForm.Json.Strings
import ExtensiveForm.Json.Writer

set_option autoImplicit false

namespace ExtensiveForm.Json

theorem readHex_control {n : Nat} (hn : n < 32) (rest : List Char) :
    readHex ('0' :: '0' :: Nat.digitChar (n / 16) :: Nat.digitChar (n % 16) :: rest) =
      .ok (n, rest) := by
  have hdigits : ∀ n < 32, hexValue? (Nat.digitChar (n / 16)) = some (n / 16) ∧
      hexValue? (Nat.digitChar (n % 16)) = some (n % 16) ∧
      (Nat.digitChar (n / 16)).utf8Size = 1 ∧ (Nat.digitChar (n % 16)).utf8Size = 1 := by decide
  obtain ⟨hhigh, hlow, hsize, hsize'⟩ := hdigits n hn
  have hzero : hexValue? '0' = some 0 := by decide
  have hzero' : '0'.utf8Size = 1 := by decide
  have hbytes : bytesAhead ('0' :: '0' :: Nat.digitChar (n / 16) :: Nat.digitChar (n % 16) :: rest) =
      4 := by
    simp only [bytesAhead, List.take_succ_cons, List.take_zero, List.foldl_cons, List.foldl_nil,
      hzero', hsize, hsize']
  simp only [readHex, hbytes, hzero, hhigh, hlow, Nat.lt_irrefl, if_false]
  exact congrArg (fun m => Except.ok (m, rest)) (by omega)

theorem readEscape_control {c : Char} (hc : c < ' ') (rest : List Char) :
    readEscape ((controlEscape c).tail ++ rest) = .ok (c, rest) := by
  have hn : c.toNat < 32 := hc
  simp only [controlEscape, List.tail_cons, List.cons_append, List.nil_append, readEscape, if_true,
    readCode, readHex_control hn]
  rw [if_neg (by omega), if_neg (by omega), Char.ofNat_toNat]

def lettered : List Char := ['"', '\\', '\n', '\r', '\t', '\x08', '\x0c']

theorem exists_letter {c : Char} (hc : c ∈ lettered) : ∃ letter ∈ ['"', '\\', 'n', 'r', 't', 'b', 'f'],
    escape c = ['\\', letter] ∧ letter ≠ 'u' ∧ escaped? letter = some c := by
  simp only [lettered, List.mem_cons, List.not_mem_nil, or_false] at hc
  rcases hc with rfl | rfl | rfl | rfl | rfl | rfl | rfl
  · exact ⟨'"', by decide, rfl, by decide, rfl⟩
  · exact ⟨'\\', by decide, rfl, by decide, rfl⟩
  · exact ⟨'n', by decide, rfl, by decide, rfl⟩
  · exact ⟨'r', by decide, rfl, by decide, rfl⟩
  · exact ⟨'t', by decide, rfl, by decide, rfl⟩
  · exact ⟨'b', by decide, rfl, by decide, rfl⟩
  · exact ⟨'f', by decide, rfl, by decide, rfl⟩

theorem escape_of_not_mem {c : Char} (hc : c ∉ lettered) :
    escape c = if c < ' ' then controlEscape c else [c] := by
  simp only [lettered, List.mem_cons, List.not_mem_nil, or_false, not_or] at hc
  obtain ⟨h₁, h₂, h₃, h₄, h₅, h₆, h₇⟩ := hc
  rw [escape, if_neg h₁, if_neg h₂, if_neg h₃, if_neg h₄, if_neg h₅, if_neg h₆, if_neg h₇]

theorem readChars_of_readEscape {acc s rest : List Char} {c : Char}
    (h : readEscape s = .ok (c, rest)) :
    readChars acc ('\\' :: s) = readChars (c :: acc) rest := by
  rw [readChars, if_neg (by decide), if_pos rfl]
  split
  · rename_i he
    cases h.symm.trans he
  · rename_i he
    cases h.symm.trans he
    rfl

theorem readChars_escape (acc : List Char) (c : Char) (rest : List Char) :
    readChars acc (escape c ++ rest) = readChars (c :: acc) rest := by
  by_cases hc : c ∈ lettered
  · obtain ⟨letter, -, he, hu, hletter⟩ := exists_letter hc
    have hread : readEscape (letter :: rest) = .ok (c, rest) := by
      simp only [readEscape, if_neg hu, hletter]
    rw [he]
    exact readChars_of_readEscape hread
  · rw [escape_of_not_mem hc]
    split
    · rename_i hlt
      exact readChars_of_readEscape (readEscape_control hlt rest)
    · rename_i hge
      simp only [lettered, List.mem_cons, not_or] at hc
      rw [List.singleton_append, readChars, if_neg hc.1, if_neg hc.2.1, if_neg hge]

theorem readChars_flatMap_escape (acc cs rest : List Char) :
    readChars acc (cs.flatMap escape ++ '"' :: rest) = .ok (acc.reverse ++ cs, rest) := by
  induction cs generalizing acc with
  | nil =>
    rw [List.flatMap_nil, List.nil_append, readChars, if_pos rfl, List.append_nil]
  | cons c cs ih =>
    rw [List.flatMap_cons, List.append_assoc, readChars_escape, ih, List.reverse_cons,
      List.append_assoc, List.singleton_append]

/-- Reading a string undoes writing it; the first quote has been taken already. -/
theorem readString_stringText (s : String) (rest : List Char) :
    readString ((stringText s).tail ++ rest) = .ok (s, rest) := by
  rw [stringText, List.tail_cons, List.append_assoc, List.singleton_append, readString,
    readChars_flatMap_escape, List.reverse_nil, List.nil_append]
  exact congrArg (fun t => Except.ok (t, rest)) String.ofList_toList

end ExtensiveForm.Json
