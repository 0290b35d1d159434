import ExtensiveForm.Json.Reader
import ExtensiveForm.Json.Writer
import ExtensiveForm.Proofs.Text.Digits

set_option autoImplicit false

namespace ExtensiveForm.Json

inductive Style where
  | line
  | indented
  deriving DecidableEq, Repr

namespace Style

def write (w : Style) (depth : Nat) (j : Json) : List Char :=
  match w with
  | line => j.compact
  | indented => j.pretty depth

def gap (w : Style) (depth : Nat) : List Char :=
  match w with
  | line => []
  | indented => newLine depth

def colonGap (w : Style) : List Char :=
  match w with
  | line => []
  | indented => [' ']

def lastGap (w : Style) (depth : Nat) (empty : Bool) : List Char :=
  if empty then [] else w.gap depth

end Style

theorem compactItems_eq (items : List Json) : compactItems items = items.map compact := by
  induction items with
  | nil => rfl
  | cons a as ih => rw [compactItems, ih, List.map_cons]

theorem compactMembers_eq (members : List (String × Json)) :
    compactMembers members = members.map fun m => stringText m.1 ++ ':' :: m.2.compact := by
  induction members with
  | nil => rfl
  | cons m ms ih => rw [compactMembers, ih, List.map_cons]

theorem prettyItems_eq (depth : Nat) (items : List Json) :
    prettyItems depth items = items.map (pretty depth) := by
  induction items with
  | nil => rfl
  | cons a as ih => rw [prettyItems, ih, List.map_cons]

theorem prettyMembers_eq (depth : Nat) (members : List (String × Json)) :
    prettyMembers depth members =
      members.map fun m => stringText m.1 ++ ':' :: ' ' :: m.2.pretty depth := by
  induction members with
  | nil => rfl
  | cons m ms ih => rw [prettyMembers, ih, List.map_cons]

theorem block_eq (depth : Nat) (opening closing : Char) (items : List (List Char)) :
    block depth opening closing items =
      opening :: (commaSeparated (items.map (newLine (depth + 1) ++ ·)) ++
        (Style.lastGap .indented depth items.isEmpty ++ [closing])) := by
  cases items with
  | nil => rfl
  | cons t ts => simp [block, Style.lastGap, Style.gap]

namespace Style

variable (w : Style) (depth : Nat)

theorem write_array (items : List Json) : w.write depth (.array items) =
    '[' :: (commaSeparated (items.map fun a => w.gap (depth + 1) ++ w.write (depth + 1) a) ++
      (w.lastGap depth items.isEmpty ++ [']'])) := by
  cases w with
  | line => simp [write, compact, compactItems_eq, gap, lastGap]
  | indented => simp [write, pretty, prettyItems_eq, block_eq, gap, Function.comp_def]

theorem write_object (members : List (String × Json)) : w.write depth (.object members) =
    '\x7b' :: (commaSeparated (members.map fun m =>
      w.gap (depth + 1) ++ (stringText m.1 ++ ':' :: (w.colonGap ++ w.write (depth + 1) m.2))) ++
        (w.lastGap depth members.isEmpty ++ ['\x7d'])) := by
  cases w with
  | line => simp [write, compact, compactMembers_eq, gap, lastGap, colonGap]
  | indented => simp [write, pretty, prettyMembers_eq, block_eq, gap, colonGap, Function.comp_def]

theorem write_number (n : Number) : w.write depth (.number n) = n.text := by
  cases w <;> simp only [write, compact, pretty]

theorem write_string (s : String) : w.write depth (.string s) = stringText s := by
  cases w <;> simp only [write, compact, pretty]

end Style

/-- A text that an item can start with: neither a blank nor the bracket that ends a list. -/
def Starts (t : List Char) : Prop := ∃ c r, t = c :: r ∧ isBlank c = false ∧ c ≠ ']'

theorem starts_cons {c : Char} (r : List Char) (hb : isBlank c = false) (hc : c ≠ ']') :
    Starts (c :: r) := ⟨c, r, rfl, hb, hc⟩

theorem starts_of_isDigit {c : Char} (hc : c.isDigit) (r : List Char) : Starts (c :: r) := by
  refine starts_cons r ?_ ?_
  · rw [isBlank, Bool.or_eq_false_iff, Bool.or_eq_false_iff, Bool.or_eq_false_iff]
    refine ⟨⟨⟨?_, ?_⟩, ?_⟩, ?_⟩ <;>
      exact beq_eq_false_iff_ne.mpr fun h => absurd (h ▸ hc) (by decide)
  · rintro rfl
    exact absurd hc (by decide)

theorem exists_naturalText (n : Nat) : ∃ c r, naturalText n = c :: r ∧ c.isDigit := by
  cases h : naturalText n with
  | nil => exact absurd h Nat.toDigits_ne_nil
  | cons c r => exact ⟨c, r, rfl, Text.isDigit_of_mem_toDigits (h ▸ List.mem_cons_self)⟩

theorem starts_decimalText (d : Decimal.Scientific) : Starts (decimalText d) := by
  obtain ⟨c, r, hdigits, hc⟩ := exists_naturalText d.digits
  rw [naturalText] at hdigits
  unfold decimalText
  rw [hdigits]
  simp only
  split
  · unfold pointAfter
    split
    · exact starts_of_isDigit (c := '0') (by decide) _
    · rename_i hplaces
      simp only
      split
      · exact starts_of_isDigit hc _
      · obtain ⟨n, hn⟩ : ∃ n, (d.exponent + (c :: r).length).toNat = n + 1 :=
          ⟨_, (Nat.succ_pred (by omega)).symm⟩
        rw [hn, List.take_succ_cons]
        exact starts_of_isDigit hc _
  · unfold exponentForm
    cases r with
    | nil => exact starts_of_isDigit hc _
    | cons c' r => exact starts_of_isDigit hc _

theorem starts_floatText (x : Float) : Starts (floatText x) := by
  unfold floatText
  split
  · exact starts_cons _ (by decide) (by decide)
  · simp only
    split
    · exact starts_cons _ (by decide) (by decide)
    · split
      · exact starts_of_isDigit (c := '0') (by decide) _
      · exact starts_decimalText _

theorem starts_integerText (n : Int) : Starts (integerText n) := by
  cases n with
  | ofNat n =>
    obtain ⟨c, r, h, hc⟩ := exists_naturalText n
    rw [integerText, h]
    exact starts_of_isDigit hc r
  | negSucc n => exact starts_cons _ (by decide) (by decide)

theorem Style.starts_write (w : Style) (depth : Nat) (j : Json) : Starts (w.write depth j) := by
  cases j with
  | null => cases w <;> exact starts_cons _ (by decide) (by decide)
  | bool b => cases w <;> cases b <;> exact starts_cons _ (by decide) (by decide)
  | number n =>
    rw [write_number]
    cases n with
    | int n => exact starts_integerText n
    | float x => exact starts_floatText x
  | string s =>
    rw [write_string]
    exact starts_cons _ (by decide) (by decide)
  | array items =>
    rw [write_array]
    exact starts_cons _ (by decide) (by decide)
  | object members =>
    rw [write_object]
    exact starts_cons _ (by decide) (by decide)

end ExtensiveForm.Json
