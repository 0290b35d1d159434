import ExtensiveForm.CommandLine.Run

set_option autoImplicit false

namespace ExtensiveForm.CommandLine

def Command.verb : Command → Verb
  | .build _ _ _ => .build
  | .stats _ => .stats
  | .check _ => .check

section Reading

variable {verb : Verb} {literal : Bool} {argument : String} {rest : List String} {s : Settings}
  {request : Request}

def GoesOn (verb : Verb) (rest : List String) (request : Request) : Prop :=
  ∃ literal after s, after.length ≤ rest.length ∧ readCommand? verb literal after s = some request

theorem goesOn (h : readCommand? verb literal rest s = some request) : GoesOn verb rest request :=
  ⟨literal, rest, s, Nat.le_refl _, h⟩

theorem goesOn_of_bind {s? : Option Settings}
    (h : s?.bind (readCommand? verb literal rest) = some request) : GoesOn verb rest request := by
  obtain ⟨t, -, ht⟩ := Option.bind_eq_some_iff.mp h
  exact goesOn ht

theorem goesOn_of_value {value : String} {s? : Option Settings}
    (h : (if shape value = .plain then s?.bind (readCommand? verb false rest) else none) =
      some request) : GoesOn verb (value :: rest) request := by
  split at h
  · obtain ⟨literal, after, t, hle, ht⟩ := goesOn_of_bind h
    exact ⟨literal, after, t, Nat.le_succ_of_le hle, ht⟩
  · cases h

theorem goesOn_of_cons (h : readCommand? verb literal (argument :: rest) s = some request) :
    request = .help ∨ GoesOn verb rest request := by
  rw [readCommand?] at h
  cases literal with
  | true => exact Or.inr (goesOn_of_bind h)
  | false =>
    simp only [Bool.false_eq_true, if_false] at h
    cases hshape : shape argument with
    | plain =>
      rw [hshape] at h
      exact Or.inr (goesOn_of_bind h)
    | separator =>
      rw [hshape] at h
      exact Or.inr (goesOn h)
    | long name value? =>
      rw [hshape] at h
      simp only at h
      -- Help, two flags, an option before its value, an option with its value, and what is none of them.
      split at h
      · cases h
        exact Or.inl rfl
      · exact Or.inr (goesOn h)
      · exact Or.inr (goesOn_of_bind h)
      · split at h
        · cases h
        · exact Or.inr (goesOn_of_value h)
      · exact Or.inr (goesOn_of_bind h)
      · cases h
    | short letters =>
      rw [hshape] at h
      simp only at h
      split at h
      · cases h
      · cases h
        exact Or.inl rfl
      · exact Or.inr (goesOn h)
      · split at h
        · cases h
        · exact Or.inr (goesOn_of_value h)

theorem Settings.verb_of_command? {command : Command} (h : s.command? verb = some command) :
    command.verb = verb := by
  cases verb with
  | build =>
    obtain ⟨choice, -, rfl⟩ := Option.map_eq_some_iff.mp h
    rfl
  | stats =>
    obtain ⟨choice, -, rfl⟩ := Option.map_eq_some_iff.mp h
    rfl
  | check =>
    obtain ⟨path, -, rfl⟩ := Option.map_eq_some_iff.mp h
    rfl

theorem verb_of_readCommand? {arguments : List String}
    (h : readCommand? verb literal arguments s = some request) :
    request = .help ∨ ∃ command, request = .run command ∧ command.verb = verb := by
  -- An option takes the argument after it, so what is left can be shorter by two.
  induction hn : arguments.length using Nat.strongRecOn generalizing literal arguments s with
  | ind n ih =>
    cases arguments with
    | nil =>
      rw [readCommand?] at h
      obtain ⟨command, hcommand, rfl⟩ := Option.map_eq_some_iff.mp h
      exact Or.inr ⟨command, rfl, Settings.verb_of_command? hcommand⟩
    | cons argument rest =>
      rcases goesOn_of_cons h with hhelp | ⟨literal', after, t, hle, hafter⟩
      · exact Or.inl hhelp
      · have hlt : after.length < n := by
          rw [← hn]
          exact Nat.lt_succ_of_le hle
        exact ih after.length hlt hafter rfl

/-- The verb that an argument list names: its first argument that is no option. -/
def verb? (arguments : List String) : Option Verb :=
  (arguments.find? fun argument => shape argument = .plain).bind Verb.ofName?

theorem verb?_cons_of_plain (h : shape argument = .plain) :
    verb? (argument :: rest) = Verb.ofName? argument := by
  simp [verb?, h]

theorem verb?_cons_of_ne_plain (h : shape argument ≠ .plain) :
    verb? (argument :: rest) = verb? rest := by
  simp [verb?, h]

theorem readLeading_ne_run (letters : List Char) (command : Command) :
    readLeading letters ≠ some (some (.run command)) := by
  fun_induction readLeading letters <;> simp_all

theorem readHelp?_ne_run (topics : List String) (command : Command) :
    readHelp? topics ≠ some (.run command) := by
  fun_cases readHelp? topics <;> simp_all

/-- A command that an argument list asks for is the one that it names. -/
theorem verb?_of_ofArguments? {arguments : List String} {command : Command}
    (h : Request.ofArguments? arguments = some (.run command)) :
    verb? arguments = some command.verb := by
  induction arguments with
  | nil => cases h
  | cons argument rest ih =>
    rw [Request.ofArguments?] at h
    cases hshape : shape argument with
    | separator =>
      rw [hshape] at h
      cases h
    | plain =>
      rw [hshape] at h
      rw [verb?_cons_of_plain hshape]
      simp only at h
      split at h
      · rename_i verb hverb
        rw [hverb]
        rcases verb_of_readCommand? h with hhelp | ⟨command, hrun, hcommand⟩
        · cases hhelp
        · cases hrun
          rw [hcommand]
      · split at h
        · exact absurd h (readHelp?_ne_run rest command)
        · cases h
    | long name value? =>
      rw [hshape] at h
      rw [verb?_cons_of_ne_plain (by simp [hshape])]
      cases value? with
      | some value => cases h
      | none =>
        simp only at h
        split at h
        · cases h
        · cases h
        · exact ih h
        · cases h
    | short letters =>
      rw [hshape] at h
      rw [verb?_cons_of_ne_plain (by simp [hshape])]
      simp only at h
      split at h
      · cases h
      · rename_i hleading
        cases h
        exact absurd hleading (readLeading_ne_run letters command)
      · exact ih h

end Reading

end ExtensiveForm.CommandLine
