import ExtensiveForm.CommandLine.Run

set_option autoImplicit false

namespace ExtensiveForm.CommandLine

variable {c : GameChoice} {o : Option String} {p : Bool} {s : Settings}

def Settings.deliverTo (s : Settings) (o : Option String) (p : Bool) : Settings :=
  { s with output := o, pretty := p }

def Letters.deliverTo (o : Option String) (p : Bool) : Letters → Letters
  | .wrong => .wrong
  | .help => .help
  | .done s => .done (s.deliverTo o p)
  | .awaiting k s => .awaiting k (s.deliverTo o p)

theorem knows_build (f : Flag) : Verb.build.knows f = true := by
  cases f <;> rfl

theorem filter_knows_build {f? : Option Flag} {f : Flag} (h : f?.filter Verb.stats.knows = some f) :
    f?.filter Verb.build.knows = some f ∧ f ≠ .pretty ∧ f ≠ .key .output := by
  obtain ⟨rfl, hf⟩ := Option.filter_eq_some_iff.mp h
  refine ⟨Option.filter_eq_some_iff.mpr ⟨rfl, knows_build f⟩, ?_, ?_⟩
  · rintro rfl
    cases hf
  · rintro rfl
    cases hf

namespace Settings

theorem setKey?_deliverTo (value : String) {k : Key} (hk : k ≠ .output) :
    (s.deliverTo o p).setKey? value k = (s.setKey? value k).map (·.deliverTo o p) := by
  cases k with
  | cards => cases hs : s.cards.isSome <;> simp [setKey?, deliverTo, hs]
  | dice => cases hs : s.dice.isSome <;> simp [setKey?, deliverTo, hs, Function.comp_def]
  | output => exact absurd rfl hk

theorem setPlain?_deliverTo (value : String) :
    (s.deliverTo o p).setPlain? value .build = (s.setPlain? value .stats).map (·.deliverTo o p) := by
  cases hs : s.game.isSome <;> simp [setPlain?, deliverTo, hs, Function.comp_def]

end Settings

theorem readLetters_deliverTo (letters : List Char) : readLetters .stats letters s = .wrong ∨
    readLetters .build letters (s.deliverTo o p) = (readLetters .stats letters s).deliverTo o p ∧
      ∀ k t, readLetters .stats letters s = .awaiting k t → k ≠ .output := by
  induction letters generalizing s with
  | nil => exact Or.inr ⟨rfl, fun k t h => by cases h⟩
  | cons letter rest ih =>
    rw [readLetters, readLetters]
    cases hf : (Flag.ofShort? letter).filter Verb.stats.knows with
    | none => exact Or.inl rfl
    | some f =>
      obtain ⟨hb, hpretty, houtput⟩ := filter_knows_build hf
      rw [hb]
      cases f with
      | help => exact Or.inr ⟨rfl, fun k t h => by cases h⟩
      | verbose => exact ih
      | pretty => exact absurd rfl hpretty
      | key k =>
        have hk : k ≠ .output := fun he => houtput (he ▸ rfl)
        cases hrest : rest.isEmpty with
        | true =>
          refine Or.inr ⟨rfl, fun k' t h => ?_⟩
          cases h
          exact hk
        | false =>
          simp only [Bool.false_eq_true, if_false, Settings.setKey?_deliverTo _ hk]
          cases s.setKey? (attached rest) k with
          | none => exact Or.inl rfl
          | some t => exact Or.inr ⟨rfl, fun k' t' h => by cases h⟩

/-- Where `stats` reads a game in arguments, `build` reads it with an output besides. -/
def Agrees (c : GameChoice) (o : Option String) (p literal : Bool) (args : List String) : Prop :=
  ∀ s, readCommand? .stats literal args s = some (.run (.stats c)) →
    readCommand? .build literal args (s.deliverTo o p) = some (.run (.build c o p))

theorem agrees_nil {literal : Bool} : Agrees c o p literal [] := by
  intro s h
  rw [readCommand?] at h ⊢
  obtain ⟨command, hcommand, hrun⟩ := Option.map_eq_some_iff.mp h
  cases hrun
  obtain ⟨c, hc, hstats⟩ := Option.map_eq_some_iff.mp hcommand
  cases hstats
  have hchoice : (s.deliverTo o p).choice? = some c := hc
  rw [Settings.command?, hchoice]
  rfl

namespace Agrees

variable {literal : Bool} {rest after : List String} {k : Key} {value : String}

theorem plain (h : Agrees c o p literal rest)
    (hs : (s.setPlain? value .stats).bind (readCommand? .stats literal rest) = some (.run (.stats c))) :
    ((s.deliverTo o p).setPlain? value .build).bind (readCommand? .build literal rest) =
      some (.run (.build c o p)) := by
  obtain ⟨t, ht, hrest⟩ := Option.bind_eq_some_iff.mp hs
  rw [Settings.setPlain?_deliverTo, ht]
  exact h t hrest

theorem key (h : Agrees c o p false rest) (hk : k ≠ .output)
    (hs : (s.setKey? value k).bind (readCommand? .stats false rest) = some (.run (.stats c))) :
    ((s.deliverTo o p).setKey? value k).bind (readCommand? .build false rest) =
      some (.run (.build c o p)) := by
  obtain ⟨t, ht, hrest⟩ := Option.bind_eq_some_iff.mp hs
  rw [Settings.setKey?_deliverTo value hk, ht]
  exact h t hrest

theorem next (h : Agrees c o p false after) (hk : k ≠ .output)
    (hs : (if shape value = .plain then (s.setKey? value k).bind (readCommand? .stats false after)
      else none) = some (.run (.stats c))) :
    (if shape value = .plain then
      ((s.deliverTo o p).setKey? value k).bind (readCommand? .build false after) else none) =
        some (.run (.build c o p)) := by
  split at hs
  · rename_i hvalue
    rw [if_pos hvalue]
    exact h.key hk hs
  · cases hs

variable {argument : String}

theorem long (h : Agrees c o p false rest)
    (hnext : ∀ value after, rest = value :: after → Agrees c o p false after) {name : List Char}
    {value? : Option String} (hshape : shape argument = .long name value?) :
    Agrees c o p false (argument :: rest) := by
  intro s hs
  rw [readCommand?] at hs ⊢
  rw [hshape] at hs ⊢
  simp only [Bool.false_eq_true, if_false] at hs ⊢
  cases hf : (Flag.ofLong? name).filter Verb.stats.knows with
  | none =>
    rw [hf] at hs
    cases hs
  | some f =>
    obtain ⟨hb, hpretty, houtput⟩ := filter_knows_build hf
    rw [hf] at hs
    rw [hb]
    cases f with
    | help => cases value? <;> cases hs
    | verbose =>
      cases value? with
      | none => exact h s hs
      | some value => cases hs
    | pretty => exact absurd rfl hpretty
    | key k =>
      have hk : k ≠ .output := fun he => houtput (he ▸ rfl)
      cases value? with
      | none =>
        cases rest with
        | nil => cases hs
        | cons value after => exact (hnext value after rfl).next hk hs
      | some value => exact h.key hk hs

theorem short (h : Agrees c o p false rest)
    (hnext : ∀ value after, rest = value :: after → Agrees c o p false after) {letters : List Char}
    (hshape : shape argument = .short letters) : Agrees c o p false (argument :: rest) := by
  intro s hs
  rw [readCommand?] at hs ⊢
  rw [hshape] at hs ⊢
  simp only [Bool.false_eq_true, if_false] at hs ⊢
  rcases readLetters_deliverTo letters with hwrong | ⟨hletters, houtput⟩
  · rw [hwrong] at hs
    cases hs
  · rw [hletters]
    cases hl : readLetters .stats letters s with
    | wrong =>
      rw [hl] at hs
      cases hs
    | help =>
      rw [hl] at hs
      cases hs
    | done t =>
      rw [hl] at hs
      exact h t hs
    | awaiting k t =>
      rw [hl] at hs
      cases rest with
      | nil => cases hs
      | cons value after => exact (hnext value after rfl).next (houtput k t hl) hs

end Agrees

theorem agrees {n : Nat} {literal : Bool} {args : List String} (hn : args.length ≤ n) :
    Agrees c o p literal args := by
  -- An option takes the argument after it, so one step can read two.
  induction n generalizing literal args with
  | zero =>
    cases List.length_eq_zero_iff.mp (Nat.le_zero.mp hn)
    exact agrees_nil
  | succ n ih =>
    cases args with
    | nil => exact agrees_nil
    | cons argument rest =>
      have hrest : rest.length ≤ n := Nat.le_of_succ_le_succ hn
      have hnext : ∀ value after, rest = value :: after → Agrees c o p false after := by
        rintro value after rfl
        exact ih (Nat.le_of_succ_le hrest)
      cases literal with
      | true =>
        intro s hs
        rw [readCommand?] at hs ⊢
        exact (ih hrest).plain hs
      | false =>
        cases hshape : shape argument with
        | long name value? => exact (ih hrest).long hnext hshape
        | short letters => exact (ih hrest).short hnext hshape
        | plain =>
          intro s hs
          rw [readCommand?] at hs ⊢
          rw [hshape] at hs ⊢
          exact (ih hrest).plain hs
        | separator =>
          intro s hs
          rw [readCommand?] at hs ⊢
          rw [hshape] at hs ⊢
          exact ih hrest s hs

structure Script (choice : GameChoice) (path : String) (indented : Bool) where
  print : List String
  save : List String
  stats : List String
  check : List String
  print_eq : Request.ofArguments? print = some (.run (.build choice none indented))
  save_eq : Request.ofArguments? save = some (.run (.build choice (some path) indented))
  stats_eq : Request.ofArguments? stats = some (.run (.stats choice))
  check_eq : Request.ofArguments? check = some (.run (.check path))

def styleFlags (indented : Bool) : List String := if indented then ["--pretty"] else []

namespace Script

variable {choice : GameChoice} {path : String} {indented : Bool} {selection : List String}

theorem readCommand?_styleFlags (rest : List String) :
    readCommand? .build false (styleFlags indented ++ rest) .none =
      readCommand? .build false rest (Settings.none.deliverTo none indented) := by
  cases indented with
  | false => rfl
  | true =>
    have hshape : shape "--pretty" = .long ['p', 'r', 'e', 't', 't', 'y'] none := by decide
    rw [styleFlags, if_pos rfl, List.cons_append, List.nil_append, readCommand?]
    rw [hshape]
    rfl

theorem shape_output (path : String) :
    shape ("--output=" ++ path) = .long ['o', 'u', 't', 'p', 'u', 't'] (some path) := by
  have hletters : ("--output=" ++ path).toList =
      ['-', '-', 'o', 'u', 't', 'p', 'u', 't', '='] ++ path.toList := by
    rw [String.toList_append]
    rfl
  rw [shape, hletters]
  simp [splitEquals]

theorem readCommand?_output (hpath : path ≠ "") (rest : List String) :
    readCommand? .build false (("--output=" ++ path) :: rest) (Settings.none.deliverTo none indented) =
      readCommand? .build false rest (Settings.none.deliverTo (some path) indented) := by
  rw [readCommand?]
  rw [shape_output]
  have hread : readPath? path = some path := if_neg hpath
  have hset : (Settings.none.deliverTo none indented).setKey? path .output =
      some (Settings.none.deliverTo (some path) indented) := by
    rw [Settings.setKey?, hread]
    rfl
  have hflag : (Flag.ofLong? ['o', 'u', 't', 'p', 'u', 't']).filter Verb.build.knows =
      some (.key .output) := by decide
  simp only [Bool.false_eq_true, if_false, hflag, hset]
  rfl

theorem ofArguments?_check (hpath : path ≠ "") :
    Request.ofArguments? ["check", "--", path] = some (.run (.check path)) := by
  have hread : readPath? path = some path := if_neg hpath
  have hset : Settings.none.setPlain? path .check = some { Settings.none with path := some path } := by
    rw [Settings.setPlain?, hread]
    rfl
  change readCommand? .check true [path] .none = _
  rw [readCommand?]
  simp only [if_true, hset]
  rfl

def ofSelection (h : Request.ofArguments? ("stats" :: selection) = some (.run (.stats choice)))
    (hpath : path ≠ "") : Script choice path indented where
  print := "build" :: (styleFlags indented ++ selection)
  save := "build" :: (styleFlags indented ++ ("--output=" ++ path) :: selection)
  stats := "stats" :: selection
  check := ["check", "--", path]
  print_eq := (readCommand?_styleFlags selection).trans (agrees (Nat.le_refl _) .none h)
  save_eq := (readCommand?_styleFlags _).trans
    ((readCommand?_output hpath selection).trans (agrees (Nat.le_refl _) .none h))
  stats_eq := h
  check_eq := ofArguments?_check hpath

end Script

end ExtensiveForm.CommandLine
