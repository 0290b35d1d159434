import ExtensiveForm.Proofs.Games.Goofspiel
import ExtensiveForm.Proofs.Games.Kuhn
import ExtensiveForm.Proofs.Games.Leduc
import ExtensiveForm.Proofs.Games.LiarsDice

set_option autoImplicit false

namespace ExtensiveForm.Games

variable {R : Type} [Scalar R]

/-- The rest of a bundled game is finite and has a form, wherever a play has come. -/
theorem convertsThroughout_of_accepted : (Kuhn.game (R := R)).ConvertsThroughout .start ∧
    (∀ text ranks, Leduc.readRanks text = .ok ranks →
      (Leduc.game (R := R) ranks).ConvertsThroughout .start) ∧
    (∀ text deck, Goofspiel.readDeck text = .ok deck →
      (Goofspiel.game (R := R) deck).ConvertsThroughout (.start deck)) ∧
    ∀ n dice, LiarsDice.readDice n = .ok dice →
      (LiarsDice.game (R := R) dice).ConvertsThroughout .start := by
  refine ⟨Kuhn.playable.convertsThroughout, ?_, ?_, ?_⟩
  · intro text ranks h
    obtain ⟨hlen, hnodup⟩ := Leduc.of_readRanks h
    exact (Leduc.playable hlen hnodup).convertsThroughout
  · intro text deck h
    exact (Goofspiel.playable (Goofspiel.nodup_of_readDeck h)).convertsThroughout
  · intro n dice h
    obtain ⟨hpos, hdice⟩ := LiarsDice.of_readDice h
    exact (LiarsDice.playable hdice hpos).convertsThroughout

theorem converts_examples :
    (Leduc.game (R := Rat) [',', 'J', 'Q']).Converts
      ((Leduc.game (R := Rat) [',', 'J', 'Q']).play .start [",J", "Check", "Check", ","]) ∧
    (Goofspiel.game (R := Rat) [',', '2']).Converts
      ((Goofspiel.game (R := Rat) [',', '2']).play (.start [',', '2']) ["2", ","]) ∧
    (LiarsDice.game (R := Rat) 1).Converts
      ((LiarsDice.game (R := Rat) 1).play .start ["3:5", "6:2"]) := by
  refine ⟨?_, ?_, ?_⟩
  · refine convertsThroughout_of_accepted.2.1 ",JQ" _ (by decide) _ ?_
    simp only [Game.Legal]
    decide
  · refine convertsThroughout_of_accepted.2.2.1 ",2" _ (by decide) _ ?_
    simp only [Game.Legal]
    decide
  · refine convertsThroughout_of_accepted.2.2.2 1 _ (by decide) _
      ⟨by decide, ?_, by decide, by decide, trivial⟩
    show "3:5" ∈ LiarsDice.State.deals 1
    simp only [LiarsDice.State.deals, LiarsDice.rolls, LiarsDice.sortedOver]
    decide

/-- The labels of the bundled games show what a seat holds and what is public, and nothing else. -/
theorem shows_of_accepted : (Kuhn.game (R := R)).Shows .start (dealtView ownCard) ∧
    (∀ text ranks, Leduc.readRanks text = .ok ranks →
      (Leduc.game (R := R) ranks).Shows .start (dealtView ownCard)) ∧
    (∀ text deck, Goofspiel.readDeck text = .ok deck →
      (Goofspiel.game (R := R) deck).Shows (.start deck) Goofspiel.publicView) ∧
    ∀ n dice, LiarsDice.readDice n = .ok dice →
      (LiarsDice.game (R := R) dice).Shows .start (dealtView LiarsDice.ownRoll) := by
  refine ⟨Kuhn.dealt.shows, ?_, ?_, ?_⟩
  · intro text ranks h
    exact Leduc.dealt.shows
  · intro text deck h
    exact Goofspiel.shows (Goofspiel.nodup_of_readDeck h)
  · intro n dice h
    exact (LiarsDice.dealt (LiarsDice.of_readDice h).2).shows

theorem observation_eq_of_hidden :
    (Leduc.game (R := Rat) [',', 'J', 'Q']).observation
        ((Leduc.game (R := Rat) [',', 'J', 'Q']).play .start [",J"]) =
      (Leduc.game (R := Rat) [',', 'J', 'Q']).observation
        ((Leduc.game (R := Rat) [',', 'J', 'Q']).play .start [",Q"]) ∧
    (Goofspiel.game (R := Rat) [',', '2']).observation
        ((Goofspiel.game (R := Rat) [',', '2']).play (.start [',', '2']) ["2", ","]) =
      (Goofspiel.game (R := Rat) [',', '2']).observation
        ((Goofspiel.game (R := Rat) [',', '2']).play (.start [',', '2']) ["2", "2"]) ∧
    (LiarsDice.game (R := Rat) 1).observation
        ((LiarsDice.game (R := Rat) 1).play .start ["3:5"]) =
      (LiarsDice.game (R := Rat) 1).observation
        ((LiarsDice.game (R := Rat) 1).play .start ["3:6"]) := by
  have hcard : ∀ deal ∈ [",J", ",Q"],
      (Leduc.game (R := Rat) [',', 'J', 'Q']).Turn .start .first [deal] := by
    intro deal hdeal
    refine ⟨?_, by revert deal; decide⟩
    simp only [Game.Legal]
    revert deal
    decide
  have hbid : ∀ bid ∈ [",", "2"],
      (Goofspiel.game (R := Rat) [',', '2']).Turn (.start [',', '2']) .second ["2", bid] := by
    intro bid hbid
    refine ⟨?_, by revert bid; decide⟩
    simp only [Game.Legal]
    revert bid
    decide
  have hroll : ∀ deal ∈ ["3:5", "3:6"],
      (LiarsDice.game (R := Rat) 1).Turn .start .first [deal] := by
    intro deal hdeal
    refine ⟨⟨by decide, ?_, trivial⟩, by revert deal; decide⟩
    show deal ∈ LiarsDice.State.deals 1
    simp only [LiarsDice.State.deals, LiarsDice.rolls, LiarsDice.sortedOver]
    revert deal
    decide
  refine ⟨?_, ?_, ?_⟩
  · refine ((shows_of_accepted.2.1 ",JQ" [',', 'J', 'Q'] (by decide)).observation_iff
      (hcard _ ?_) (hcard _ ?_)).mpr rfl <;> decide
  · refine ((shows_of_accepted.2.2.1 ",2" [',', '2'] (by decide)).observation_iff
      (hbid _ ?_) (hbid _ ?_)).mpr rfl <;> decide
  · refine ((shows_of_accepted.2.2.2 1 1 (by decide)).observation_iff
      (hroll _ ?_) (hroll _ ?_)).mpr rfl <;> decide

end ExtensiveForm.Games
