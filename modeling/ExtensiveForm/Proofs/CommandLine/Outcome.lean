import ExtensiveForm.CommandLine.Run
import ExtensiveForm.Proofs.CommandLine.Files

/-!
Runs on the files of any system. Main statement: an outcome of a request, which names what each step of a
command has given, is what a run ends with, and every run ends with an outcome. What an outcome leaves of the
files is read off it.
-/

set_option autoImplicit false

namespace ExtensiveForm.CommandLine

variable {S : Type}

def runIn (files : FileAccess (StateM S)) (fuel : Nat) (arguments : List String) (s : S) :
    Option Report × S :=
  (run files fuel arguments).run s

def textOf (form : GameForm) (indented : Bool) : String :=
  if indented then form.indentedText else form.text

def Command.game? : Command → Option GameChoice
  | .build choice _ _ | .stats choice => some choice
  | .check _ => none

inductive Outcome (files : FileAccess (StateM S)) (fuel : Nat) (s : S) :
    Option Request → Option Report → S → Prop where
  | misread : Outcome files fuel s none (some ⟨2, "", usage⟩) s
  | help : Outcome files fuel s (some .help) (some ⟨0, usage, ""⟩) s
  | version : Outcome files fuel s (some .version) (some ⟨0, versionLine, ""⟩) s
  /-- The game has more states than are looked at. -/
  | endless {command : Command} {choice : GameChoice} (hgame : command.game? = some choice)
    (hform : choice.form fuel = none) : Outcome files fuel s (some (.run command)) none s
  | unbuilt {command : Command} {choice : GameChoice} {fault : Fault}
    (hgame : command.game? = some choice) (hform : choice.form fuel = some (.error fault)) :
    Outcome files fuel s (some (.run command)) (some (failure fault)) s
  | sized {choice : GameChoice} {form : GameForm} (hform : choice.form fuel = some (.ok form)) :
    Outcome files fuel s (some (.run (.stats choice))) (some ⟨0, summaryOutput form, ""⟩) s
  | printed {choice : GameChoice} {indented : Bool} {form : GameForm}
    (hform : choice.form fuel = some (.ok form)) :
    Outcome files fuel s (some (.run (.build choice none indented)))
      (some ⟨0, textOf form indented ++ "\n", ""⟩) s
  | unwritten {choice : GameChoice} {path : String} {indented : Bool} {form : GameForm}
    {fault : FileFault} {s' : S} (hform : choice.form fuel = some (.ok form))
    (hwrite : files.writeIn s path (textOf form indented) = (.error fault, s')) :
    Outcome files fuel s (some (.run (.build choice (some path) indented)))
      (some (failure (.file fault))) s'
  | saved {choice : GameChoice} {path : String} {indented : Bool} {form : GameForm} {s' : S}
    (hform : choice.form fuel = some (.ok form))
    (hwrite : files.writeIn s path (textOf form indented) = (.ok (), s')) :
    Outcome files fuel s (some (.run (.build choice (some path) indented)))
      (some ⟨0, "", "Wrote " ++ path ++ "\n"⟩) s'
  | unread {path : String} {fault : FileFault} {s' : S}
    (htext : files.readIn s path = (.error fault, s')) :
    Outcome files fuel s (some (.run (.check path))) (some (failure (.file fault))) s'
  | unfit {path text : String} {fault : Fault} {s' : S}
    (htext : files.readIn s path = (.ok text, s')) (hread : readForm text = .error fault) :
    Outcome files fuel s (some (.run (.check path))) (some (failure fault)) s'
  | checked {path text : String} {form : SequenceForm Json Json Float} {s' : S}
    (htext : files.readIn s path = (.ok text, s')) (hread : readForm text = .ok form) :
    Outcome files fuel s (some (.run (.check path)))
      (some ⟨0, summaryOutput form, path ++ " is a valid sequence form\n"⟩) s'

section Outcome

variable {files : FileAccess (StateM S)} {fuel : Nat} {s s' : S} {choice : GameChoice}
  {form : GameForm} {command : Command} {request : Option Request} {result : Option Report}
  {arguments : List String}

theorem outcome_deliver (output : Option String) (indented : Bool)
    (hform : choice.form fuel = some (.ok form)) :
    Outcome files fuel s (some (.run (.build choice output indented)))
      (some ((deliver files form output indented).run s).1)
      ((deliver files form output indented).run s).2 := by
  cases output with
  | none => exact .printed hform
  | some path =>
    simp only [deliver, StateT.run_bind, FileAccess.run_write, pure_bind]
    rw [← textOf]
    rcases hwrite : files.writeIn s path (textOf form indented) with ⟨answer, s'⟩
    cases answer with
    | error fault => exact .unwritten hform hwrite
    | ok => exact .saved hform hwrite

theorem outcome_checkFile (files : FileAccess (StateM S)) (fuel : Nat) (path : String) (s : S) :
    Outcome files fuel s (some (.run (.check path))) (some ((checkFile files path).run s).1)
      ((checkFile files path).run s).2 := by
  simp only [checkFile, StateT.run_bind, FileAccess.run_read, pure_bind]
  rcases htext : files.readIn s path with ⟨answer, s'⟩
  cases answer with
  | error fault => exact .unread htext
  | ok text =>
    cases hread : readForm text with
    | error fault =>
      simp only [hread]
      exact .unfit htext hread
    | ok form =>
      simp only [hread]
      exact .checked htext hread

theorem outcome_runCommand (files : FileAccess (StateM S)) (fuel : Nat) (command : Command) (s : S) :
    Outcome files fuel s (some (.run command)) ((runCommand files fuel command).run s).1
      ((runCommand files fuel command).run s).2 := by
  cases command with
  | build choice output indented =>
    rw [runCommand]
    cases hform : choice.form fuel with
    | none => exact .endless rfl hform
    | some built =>
      cases built with
      | error fault => exact .unbuilt rfl hform
      | ok form => exact outcome_deliver output indented hform
  | stats choice =>
    rw [runCommand]
    cases hform : choice.form fuel with
    | none => exact .endless rfl hform
    | some built =>
      cases built with
      | error fault => exact .unbuilt rfl hform
      | ok form => exact .sized hform
  | check path =>
    rw [runCommand]
    exact outcome_checkFile files fuel path s

theorem outcome_runIn (files : FileAccess (StateM S)) (fuel : Nat) (arguments : List String) (s : S) :
    Outcome files fuel s (Request.ofArguments? arguments) (runIn files fuel arguments s).1
      (runIn files fuel arguments s).2 := by
  rw [runIn, run]
  cases Request.ofArguments? arguments with
  | none => exact .misread
  | some request =>
    cases request with
    | help => exact .help
    | version => exact .version
    | run command => exact outcome_runCommand files fuel command s

theorem exists_game_of_unanswered (h : (runIn files fuel arguments s).1 = none) : ∃ command choice,
    Request.ofArguments? arguments = some (.run command) ∧ command.game? = some choice ∧
      choice.form fuel = none := by
  have houtcome := outcome_runIn files fuel arguments s
  rw [h] at houtcome
  generalize Request.ofArguments? arguments = request, (runIn files fuel arguments s).2 = s'
    at houtcome ⊢
  cases houtcome with
  | endless hgame hform => exact ⟨_, _, rfl, hgame, hform⟩

namespace Outcome

theorem unique {result' : Option Report} {s'' : S} (h : Outcome files fuel s request result s')
    (h' : Outcome files fuel s request result' s'') : result = result' ∧ s' = s'' := by
  cases h <;> cases h' <;> simp_all [Command.game?]

/-- An outcome of what the arguments ask for is what a run ends with. -/
theorem runIn_eq (h : Outcome files fuel s (Request.ofArguments? arguments) result s') :
    runIn files fuel arguments s = (result, s') := by
  obtain ⟨hresult, hs⟩ := (outcome_runIn files fuel arguments s).unique h
  exact Prod.ext hresult hs

theorem write_of_built {path : String} {indented : Bool} {report : Report}
    (h : Outcome files fuel s (some (.run (.build choice (some path) indented))) (some report) s')
    (hbuilt : report.exitCode = 0) : ∃ form, choice.form fuel = some (.ok form) ∧
      files.writeIn s path (textOf form indented) = (.ok (), s') ∧
      report = ⟨0, "", "Wrote " ++ path ++ "\n"⟩ := by
  cases h with
  | unbuilt | unwritten => simp [failure] at hbuilt
  | saved hform hwrite => exact ⟨_, hform, hwrite, rfl⟩

theorem output_eq_of_failed {report : Report} (h : Outcome files fuel s request (some report) s')
    (hfailed : report.exitCode ≠ 0) : report.output = "" := by
  cases h with
  | misread | unbuilt | unwritten | unread | unfit => rfl
  | help | version | sized | printed | saved | checked => exact absurd rfl hfailed

variable {v : Storage S}

theorem content_eq_of_output_eq_none (hv : files.Lawful v)
    (h : Outcome files fuel s request result s')
    (hrequest : ∀ choice path indented, request ≠ some (.run (.build choice (some path) indented))) :
    v.content s' = v.content s := by
  cases h with
  | saved | unwritten => exact absurd rfl (hrequest _ _ _)
  | unread htext | unfit htext | checked htext => exact hv.read_keeps htext
  | _ => rfl

theorem content_eq_of_failed (hv : files.Lawful v) (h : Outcome files fuel s request result s')
    (hfailed : ∀ report ∈ result, report.exitCode ≠ 0) : v.content s' = v.content s := by
  cases h with
  | saved => exact absurd rfl (hfailed _ rfl)
  | unwritten _ hwrite => exact hv.refused_keeps hwrite
  | unread htext | unfit htext | checked htext => exact hv.read_keeps htext
  | _ => rfl

theorem ofDisk {d : Directory} {after : Disk} (h : Outcome Disk.access fuel d.disk request result after) :
    Outcome Directory.access fuel d request result (.ofDisk after) := by
  have hread : ∀ {path answer}, Disk.access.readIn d.disk path = (answer, after) →
      Directory.access.readIn d path = (answer, .ofDisk after) := by
    intro path answer htext
    rw [Directory.readIn_eq, htext]
    rfl
  have hwritten : ∀ {path text answer}, Disk.access.writeIn d.disk path text = (answer, after) →
      Directory.access.writeIn d path text = (answer, .ofDisk after) := by
    intro path text answer hwrite
    rw [Directory.writeIn_eq, hwrite]
    rfl
  cases h with
  | misread => exact d.ofDisk_disk.symm ▸ .misread
  | help => exact d.ofDisk_disk.symm ▸ .help
  | version => exact d.ofDisk_disk.symm ▸ .version
  | endless hgame hform => exact d.ofDisk_disk.symm ▸ .endless hgame hform
  | unbuilt hgame hform => exact d.ofDisk_disk.symm ▸ .unbuilt hgame hform
  | sized hform => exact d.ofDisk_disk.symm ▸ .sized hform
  | printed hform => exact d.ofDisk_disk.symm ▸ .printed hform
  | unwritten hform hwrite => exact .unwritten hform (hwritten hwrite)
  | saved hform hwrite => exact .saved hform (hwritten hwrite)
  | unread htext => exact .unread (hread htext)
  | unfit htext hform => exact .unfit (hread htext) hform
  | checked htext hform => exact .checked (hread htext) hform

end Outcome

/-- What a directory shows of a run is what the run does on the disk around it. -/
theorem runIn_directory (fuel : Nat) (arguments : List String) (d : Directory) :
    runIn Directory.access fuel arguments d =
      (runIn Disk.access fuel arguments d.disk).map id .ofDisk :=
  (outcome_runIn Disk.access fuel arguments d.disk).ofDisk.runIn_eq

end Outcome

end ExtensiveForm.CommandLine
