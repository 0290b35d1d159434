import ExtensiveForm.Proofs.CommandLine.Outcome
import ExtensiveForm.Proofs.CommandLine.Selection
import ExtensiveForm.Proofs.Games.Conversion
import ExtensiveForm.Proofs.SequenceForm.Entries
import ExtensiveForm.Proofs.SequenceForm.Reloaded
import ExtensiveForm.Proofs.SequenceForm.Words

/-!
Forms on their way through a file. Main statement: for every game that is accepted `build` prints what it
writes to a file, and what it has written passes `check`, which tells the sizes that `stats` tells.
-/

set_option autoImplicit false

namespace ExtensiveForm.CommandLine

open Games

variable {S : Type} {files : FileAccess (StateM S)} {st st' : S} {choice : GameChoice} {path : String}
  {indented : Bool} {fuel : Nat} {form : GameForm}

namespace GameChoice

/-- The game takes the cards and the dice that it is given, if it has a use for them. -/
def Accepted (choice : GameChoice) : Prop :=
  match choice.kind with
  | .kuhn => True
  | .leduc => ∀ cards ∈ choice.cards, ∃ ranks, Leduc.readRanks cards = .ok ranks
  | .goofspiel => ∀ cards ∈ choice.cards, ∃ deck, Goofspiel.readDeck cards = .ok deck
  | .liarsDice => ∃ dice, LiarsDice.readDice choice.dice = .ok dice

theorem Accepted.exists_playable (h : choice.Accepted) :
    ∃ (σ : Type) (g : Game σ String String Float) (start : σ), g.Playable start ∧
      ∀ fuel, choice.form fuel = GameChoice.build g fuel start := by
  obtain ⟨kind, cards, dice⟩ := choice
  cases kind with
  | kuhn => exact ⟨_, _, _, Kuhn.playable, fun _ => rfl⟩
  | leduc =>
    cases cards with
    | none =>
      have hdefault : Leduc.readRanks "JQK" = .ok Leduc.defaultRanks := by decide
      obtain ⟨hlen, hnodup⟩ := Leduc.of_readRanks hdefault
      exact ⟨_, _, _, Leduc.playable hlen hnodup, fun _ => rfl⟩
    | some text =>
      obtain ⟨ranks, hranks⟩ := h text rfl
      obtain ⟨hlen, hnodup⟩ := Leduc.of_readRanks hranks
      refine ⟨_, _, _, Leduc.playable hlen hnodup, fun _ => ?_⟩
      simp only [GameChoice.form, Option.map_some, hranks]
  | goofspiel =>
    cases cards with
    | none =>
      have hdefault : Goofspiel.readDeck "A234" = .ok Goofspiel.defaultDeck := by decide
      exact ⟨_, _, _, Goofspiel.playable (Goofspiel.nodup_of_readDeck hdefault), fun _ => rfl⟩
    | some text =>
      obtain ⟨deck, hdeck⟩ := h text rfl
      refine ⟨_, _, _, Goofspiel.playable (Goofspiel.nodup_of_readDeck hdeck), fun _ => ?_⟩
      simp only [GameChoice.form, Option.map_some, hdeck]
  | liarsDice =>
    obtain ⟨dice, hread⟩ := h
    obtain ⟨hpos, hdice⟩ := LiarsDice.of_readDice hread
    refine ⟨_, _, _, LiarsDice.playable hdice hpos, fun _ => ?_⟩
    simp only [GameChoice.form, hread]

theorem build_eq_ok_iff {σ : Type} {g : Game σ String String Float} {start : σ} :
    GameChoice.build g fuel start = some (.ok form) ↔ g.build fuel start = some (.ok form) := by
  unfold GameChoice.build
  cases g.build fuel start with
  | none => simp
  | some result => cases result <;> simp [Except.mapError]

/-- An accepted game has one form, well-formed and with indices that are words if its states can be
counted in one. -/
theorem Accepted.exists_form (h : choice.Accepted) : ∃ (form : GameForm) (n : Nat),
    (∀ fuel, choice.form fuel = if n ≤ fuel then some (.ok form) else none) ∧
      form.check = .ok () ∧ (n < Nat.pow 2 64 → form.InWords) := by
  obtain ⟨σ, g, start, hg, hform⟩ := h.exists_playable
  obtain ⟨depth, hdepth⟩ := hg.length_le
  obtain ⟨form, n, hbuild⟩ :=
    hg.wellFormed_start.exists_build_eq_ite (Game.endsWithin_of_length_le hdepth)
  have hn : g.build n start = some (.ok form) := (hbuild n).trans (if_pos le_rfl)
  refine ⟨form, n, fun fuel => ?_, Game.check_eq_ok_of_build hn, Game.inWords_of_build hn⟩
  rw [hform, GameChoice.build, hbuild]
  split <;> rfl

end GameChoice

namespace Script

variable (s : Script choice path indented) (hform : choice.form fuel = some (.ok form))

include hform

theorem runIn_print (files : FileAccess (StateM S)) (st : S) :
    runIn files fuel s.print st = (some ⟨0, textOf form indented ++ "\n", ""⟩, st) := by
  refine Outcome.runIn_eq ?_
  rw [s.print_eq]
  exact .printed hform

theorem runIn_save_iff {report : Report} :
    runIn files fuel s.save st = (some report, st') ∧ report.exitCode = 0 ↔
      files.writeIn st path (textOf form indented) = (.ok (), st') ∧
        report = ⟨0, "", "Wrote " ++ path ++ "\n"⟩ := by
  constructor
  · rintro ⟨hrun, hexit⟩
    have houtcome := outcome_runIn files fuel s.save st
    rw [hrun, s.save_eq] at houtcome
    obtain ⟨built, hbuilt, hwrite⟩ := houtcome.write_of_built hexit
    rw [hform] at hbuilt
    cases hbuilt
    exact hwrite
  · rintro ⟨hwrite, rfl⟩
    refine ⟨Outcome.runIn_eq ?_, rfl⟩
    rw [s.save_eq]
    exact .saved hform hwrite

theorem runIn_stats (files : FileAccess (StateM S)) (st : S) :
    runIn files fuel s.stats st = (some ⟨0, summaryOutput form, ""⟩, st) := by
  refine Outcome.runIn_eq ?_
  rw [s.stats_eq]
  exact .sized hform

omit hform in
theorem runIn_check {text : String} (htext : (files.readIn st path).1 = .ok text)
    {f : SequenceForm Json Json Float} (hread : readForm text = .ok f) :
    (runIn files fuel s.check st).1 =
      some ⟨0, summaryOutput f, path ++ " is a valid sequence form\n"⟩ := by
  have houtcome : Outcome files fuel st (Request.ofArguments? s.check)
      (some ⟨0, summaryOutput f, path ++ " is a valid sequence form\n"⟩) (files.readIn st path).2 := by
    rw [s.check_eq]
    exact .checked (Prod.ext htext rfl) hread
  rw [houtcome.runIn_eq]

end Script

/-- What `build` prints is, but for the last line end, what it writes to a file; and what it has written
passes `check`, which tells the sizes that `stats` tells, under every path under which a text that was
written is read back, if the doubles are finite and come back from their digits. Indices are read as words of
64 bits, as they are if the looks at the game can be counted in one. Every selection of the game that `stats`
takes has such commands. -/
theorem exists_form_saved (h : choice.Accepted) : ∃ (form : GameForm) (n : Nat),
    (∀ fuel, choice.form fuel = if n ≤ fuel then some (.ok form) else none) ∧
      (n < Nat.pow 2 64 → form.InWords) ∧
      (∀ (selection : List String) (path : String) (indented : Bool),
        Request.ofArguments? ("stats" :: selection) = some (.run (.stats choice)) → path ≠ "" →
          ∃ s : Script choice path indented, s.stats = "stats" :: selection ∧
            s.print = "build" :: (styleFlags indented ++ selection) ∧
            s.save = "build" :: (styleFlags indented ++ ("--output=" ++ path) :: selection) ∧
            s.check = ["check", "--", path]) ∧
      ∀ (path : String) (indented : Bool) (s : Script choice path indented) (fuel : Nat), n ≤ fuel →
        ∀ {S : Type} (files : FileAccess (StateM S)),
          (∀ st, runIn files fuel s.print st = (some ⟨0, textOf form indented ++ "\n", ""⟩, st)) ∧
          (∀ st st' report, runIn files fuel s.save st = (some report, st') ∧ report.exitCode = 0 ↔
            files.writeIn st path (textOf form indented) = (.ok (), st') ∧
              report = ⟨0, "", "Wrote " ++ path ++ "\n"⟩) ∧
          (files.ReadsBack path → form.InWords → (∀ v ∈ form.payoff.value, v.isFinite) →
            form.Legible → ∀ st st' report, runIn files fuel s.save st = (some report, st') →
              report.exitCode = 0 →
                runIn files fuel s.stats st' = (some ⟨0, summaryOutput form, ""⟩, st') ∧
                (runIn files fuel s.check st').1 =
                  some ⟨0, summaryOutput form, path ++ " is a valid sequence form\n"⟩) := by
  obtain ⟨form, n, hform, hcheck, hwords⟩ := h.exists_form
  refine ⟨form, n, hform, hwords, fun selection path indented hstats hpath =>
    ⟨.ofSelection hstats hpath, rfl, rfl, rfl, rfl⟩, fun path indented s fuel hn S files => ?_⟩
  have hfound : choice.form fuel = some (.ok form) := (hform fuel).trans (if_pos hn)
  refine ⟨s.runIn_print hfound files, fun st st' report => s.runIn_save_iff hfound, ?_⟩
  intro hback hinwords hfinite hlegible st st' report hsave hexit
  obtain ⟨hwrite, -⟩ := (s.runIn_save_iff hfound).mp ⟨hsave, hexit⟩
  obtain ⟨f, htext, hindented, hsizes⟩ := exists_readForm hcheck hinwords hfinite hlegible
  have hstyle : readForm (textOf form indented) = .ok f := by
    cases indented with
    | false => exact htext
    | true => exact hindented
  exact ⟨s.runIn_stats hfound files st', hsizes ▸ s.runIn_check (hback hwrite) hstyle⟩

def quoteChoice : GameChoice := ⟨.goofspiel, some "\"\\", 1⟩

def quoteSelection : List String := ["goofspiel", "--cards", "\"\\"]

def quoteGame : Game Goofspiel.State String String Float := Goofspiel.game ['"', '\\']

def quoteStart : Goofspiel.State := .start ['"', '\\']

theorem playable_quoteGame : quoteGame.Playable quoteStart := Goofspiel.playable (by decide)

theorem accepted_quoteChoice : quoteChoice.Accepted := by
  intro cards hcards
  cases hcards
  exact ⟨['"', '\\'], by decide⟩

theorem endsWithin_quoteGame : quoteGame.EndsWithin 6 quoteStart := by decide +kernel

theorem treeSize_quoteGame : quoteGame.treeSize 6 quoteStart = 39 := by decide +kernel

theorem form_quoteChoice (fuel : Nat) :
    quoteChoice.form fuel = GameChoice.build quoteGame fuel quoteStart := by
  have hdeck : Goofspiel.readDeck "\"\\" = .ok ['"', '\\'] := by decide
  simp only [GameChoice.form, quoteChoice, Option.map_some, hdeck]
  rfl

theorem value_quoteGame {n : Nat} (h : quoteGame.build n quoteStart = some (.ok form)) {v : Float}
    (hv : v ∈ form.payoff.value) : v = 0.5 ∨ v = -0.5 := by
  have hzero : Scalar.isZero (0 : Float) := by decide +kernel
  obtain ⟨q, hq, hsum, hz⟩ := Game.exists_mem_endings_of_build endsWithin_quoteGame hzero h hv
  have htotals : ∀ q ∈ quoteGame.endings 6 (.start quoteStart),
      Scalar.isZero (quoteGame.totalAt 6 q.past (.start quoteStart)) = false →
        quoteGame.totalAt 6 q.past (.start quoteStart) = 0.5 ∨
          quoteGame.totalAt 6 q.past (.start quoteStart) = -0.5 := by
    decide +kernel
  subst hsum
  exact htotals q hq hz

theorem isFinite_of_mem_quoteGame {n : Nat} (h : quoteGame.build n quoteStart = some (.ok form)) :
    ∀ v ∈ form.payoff.value, v.isFinite := by
  intro v hv
  rcases value_quoteGame h hv with rfl | rfl <;> decide +kernel

theorem legible_quoteGame {n : Nat} (h : quoteGame.build n quoteStart = some (.ok form)) :
    form.Legible := by
  intro v hv hfinite hz
  rcases value_quoteGame h hv with rfl | rfl
  · exact ⟨0.5, run_floatText_half, hfinite, hz⟩
  · exact ⟨-0.5, run_floatText_neg_half, hfinite, hz⟩

def smallDisk : Disk :=
  ⟨["home"], [(["home", "b.json"], "kept".toUTF8), (["tmp", "old.bin"], ⟨#[0xff]⟩)]⟩

theorem check_quoteSelection : ∃ text sizes after,
    runIn Disk.access 39 ("build" :: "--pretty" :: quoteSelection) smallDisk =
        (some ⟨0, text ++ "\n", ""⟩, smallDisk) ∧
      runIn Disk.access 39 ("build" :: "--pretty" :: "--output=/tmp/quotes.json" :: quoteSelection)
        smallDisk = (some ⟨0, "", "Wrote /tmp/quotes.json\n"⟩, after) ∧
      after.bytes? ["tmp", "quotes.json"] = some text.toUTF8 ∧
      runIn Disk.access 39 ("stats" :: quoteSelection) after = (some ⟨0, sizes, ""⟩, after) ∧
      (runIn Disk.access 39 ["check", "--", "/tmp/quotes.json"] after).1 =
        some ⟨0, sizes, "/tmp/quotes.json is a valid sequence form\n"⟩ := by
  obtain ⟨form, n, hform, hwords, hscripts, hruns⟩ := exists_form_saved accepted_quoteChoice
  obtain ⟨s, hstats, hprint, hsave, hcheck⟩ :=
    hscripts quoteSelection "/tmp/quotes.json" true (by decide +kernel) (by decide)
  have houtput : "--output=" ++ "/tmp/quotes.json" = "--output=/tmp/quotes.json" := by decide
  rw [houtput] at hsave
  obtain ⟨form', hbuild'⟩ :=
    playable_quoteGame.wellFormed_start.exists_build endsWithin_quoteGame treeSize_quoteGame.le
  have hn : n ≤ 39 := by
    by_contra hlt
    have hnone := hform 39
    rw [if_neg hlt, form_quoteChoice, GameChoice.build, hbuild'] at hnone
    cases hnone
  have hfound := (hform n).trans (if_pos le_rfl)
  rw [form_quoteChoice, GameChoice.build_eq_ok_iff] at hfound
  obtain ⟨hprinted, hsaves, hchecks⟩ := hruns "/tmp/quotes.json" true s 39 hn Disk.access
  have hwrite : smallDisk.write "/tmp/quotes.json" (textOf form true) =
      .ok (smallDisk.put ["tmp", "quotes.json"] (textOf form true).toUTF8) := rfl
  obtain ⟨hsaved, hexit⟩ := (hsaves _ _ _).mpr ⟨Disk.writeIn_eq_ok_iff.mpr hwrite, rfl⟩
  obtain ⟨hsizes, hchecked⟩ := hchecks (Disk.readsBack _) (hwords (Nat.lt_of_le_of_lt hn (by decide)))
    (isFinite_of_mem_quoteGame hfound) (legible_quoteGame hfound) _ _ _ hsaved hexit
  rw [hprint] at hprinted
  rw [hsave] at hsaved
  rw [hstats] at hsizes
  rw [hcheck] at hchecked
  exact ⟨_, _, _, hprinted _, hsaved, Disk.bytes?_put_self _ _ _, hsizes, hchecked⟩

end ExtensiveForm.CommandLine
