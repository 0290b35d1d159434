import Mathlib.Data.List.Basic
import ExtensiveForm.Games.Basic

set_option autoImplicit false

namespace ExtensiveForm.Games

def spelled (ws : List String) : List Char := ws.flatMap fun w => ',' :: w.toList

@[simp] theorem spelled_nil : spelled [] = [] := rfl

@[simp] theorem spelled_cons (w : String) (ws : List String) :
    spelled (w :: ws) = ',' :: (w.toList ++ spelled ws) := by simp [spelled]

theorem toList_seen (v : String) (ws : List String) :
    (seen v ws).toList = v.toList ++ spelled ws := by
  unfold seen
  induction ws generalizing v with
  | nil => simp
  | cons w ws ih =>
    rw [String.intercalate_cons_cons, String.toList_append, String.toList_append, ih]
    simp

/-- Two words that can be told apart where both may stand. -/
def Told (w w' : String) : Prop := ∀ ws ws' : List String,
  w.toList ++ spelled ws = w'.toList ++ spelled ws' → w = w' ∧ spelled ws = spelled ws'

theorem told_of_length {w w' : String} (h : w.toList.length = w'.toList.length) : Told w w' := by
  intro ws ws' heq
  obtain ⟨hw, hs⟩ := List.append_inj heq h
  exact ⟨String.toList_inj.mp hw, hs⟩

/-- A word without a comma ends where the text does or at the first comma. -/
theorem takeWhile_append_spelled {cs : List Char} (h : ',' ∉ cs) (ws : List String) :
    (cs ++ spelled ws).takeWhile (· ≠ ',') = cs := by
  have hall : ∀ c ∈ cs, decide (c ≠ ',') = true := by
    intro c hc
    rw [decide_eq_true_eq]
    rintro rfl
    exact h hc
  rw [List.takeWhile_append_of_pos hall]
  cases ws <;> simp

theorem told_of_not_mem {w w' : String} (h : ',' ∉ w.toList) (h' : ',' ∉ w'.toList) :
    Told w w' := by
  intro ws ws' heq
  have hw : w.toList = w'.toList := by
    rw [← takeWhile_append_spelled h ws, heq, takeWhile_append_spelled h' ws']
  refine ⟨String.toList_inj.mp hw, ?_⟩
  rw [hw] at heq
  exact List.append_cancel_left heq

theorem Told.seen_inj {v v' : String} (h : Told v v') {ws ws' : List String}
    (heq : seen v ws = seen v' ws') : v = v' ∧ spelled ws = spelled ws' :=
  h ws ws' (by rw [← toList_seen, ← toList_seen, heq])

end ExtensiveForm.Games
