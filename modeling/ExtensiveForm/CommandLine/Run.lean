import ExtensiveForm.Message
import ExtensiveForm.CommandLine.Arguments
import ExtensiveForm.CommandLine.Files
import ExtensiveForm.Games.Kuhn
import ExtensiveForm.Games.Leduc
import ExtensiveForm.Games.Goofspiel
import ExtensiveForm.Games.LiarsDice
import ExtensiveForm.SequenceForm.Summary
import ExtensiveForm.SequenceForm.Text

set_option autoImplicit false

namespace ExtensiveForm

def Json.debugName : Json → String
  | null => "Null"
  | bool b => "Bool(" ++ toString b ++ ")"
  | number n => "Number(" ++ String.ofList n.text ++ ")"
  | string s => "String(" ++ Text.quoted s ++ ")"
  | array items => "Array [" ++ String.intercalate ", " (itemNames items) ++ "]"
  | object members => "Object \x7b" ++ String.intercalate ", " (memberNames members) ++ "\x7d"
where
  itemNames : List Json → List String
    | [] => []
    | a :: as => a.debugName :: itemNames as
  memberNames : List (String × Json) → List String
    | [] => []
    | (k, a) :: as => (Text.quoted k ++ ": " ++ a.debugName) :: memberNames as

instance : Text.Named Json := ⟨Json.debugName⟩

namespace CommandLine

abbrev GameForm := SequenceForm String String Float

inductive Fault where
  | ranks (fault : Games.Leduc.RankFault)
  | deck (fault : Games.Goofspiel.DeckFault)
  | dice (given : Nat)
  | build (fault : BuildFault String String)
  | file (fault : FileFault)
  | text (fault : Json.Fault)
  | form (fault : FormFault)
  deriving DecidableEq, Repr

def textMessage : Json.Fault → String
  | .ended => "the text ends early"
  | .malformed => "the text is malformed"
  | .mismatched => "the text holds no sequence form"

def Fault.message : Fault → String
  | ranks fault => invalidValue fault.message
  | deck fault => invalidValue fault.message
  | dice given => invalidValue (Games.LiarsDice.diceMessage given)
  | build fault => fault.message
  | file fault => "IO error: " ++ fault.message
  | text fault => "JSON error: " ++ textMessage fault
  | form fault => invalidValue fault.message

structure Report where
  exitCode : UInt32
  output : String
  diagnostics : String
  deriving DecidableEq, Repr

namespace GameChoice

def build {σ : Type} (g : Game σ String String Float) (fuel : Nat) (start : σ) :
    Option (Except Fault GameForm) :=
  (g.build fuel start).map (·.mapError .build)

/-- The form of a chosen game; gives nothing if it has more than `fuel` states. -/
def form (fuel : Nat) (choice : GameChoice) : Option (Except Fault GameForm) :=
  match choice.kind with
  | .kuhn => build Games.Kuhn.game fuel .start
  | .leduc =>
    match choice.cards.map Games.Leduc.readRanks with
    | none => build (Games.Leduc.game Games.Leduc.defaultRanks) fuel .start
    | some (.ok ranks) => build (Games.Leduc.game ranks) fuel .start
    | some (.error fault) => some (.error (.ranks fault))
  | .goofspiel =>
    match choice.cards.map Games.Goofspiel.readDeck with
    | none =>
      let deck := Games.Goofspiel.defaultDeck
      build (Games.Goofspiel.game deck) fuel (.start deck)
    | some (.ok deck) => build (Games.Goofspiel.game deck) fuel (.start deck)
    | some (.error fault) => some (.error (.deck fault))
  | .liarsDice =>
    match Games.LiarsDice.readDice choice.dice with
    | .ok dice => build (Games.LiarsDice.game dice) fuel .start
    | .error given => some (.error (.dice given))

end GameChoice

def summaryOutput {L A R : Type} (f : SequenceForm L A R) : String :=
  "\nSequence form\n" ++ f.summary ++ "\n"

def failure (fault : Fault) : Report := ⟨1, "", "Error: " ++ fault.message ++ "\n"⟩

variable {m : Type → Type} [Monad m]

def deliver (files : FileAccess m) (f : GameForm) (output : Option String) (indented : Bool) :
    m Report := do
  let text := if indented then f.indentedText else f.text
  match output with
  | none => return ⟨0, text ++ "\n", ""⟩
  | some path =>
    match ← files.write path text with
    | .error fault => return failure (.file fault)
    | .ok () => return ⟨0, "", "Wrote " ++ path ++ "\n"⟩

def readForm (text : String) : Except Fault (SequenceForm Json Json Float) := do
  let f ← (SequenceForm.ofText text).mapError .text
  f.check.mapError .form
  return f

def checkFile (files : FileAccess m) (path : String) : m Report := do
  match ← files.read path with
  | .error fault => return failure (.file fault)
  | .ok text =>
    match readForm text with
    | .error fault => return failure fault
    | .ok f => return ⟨0, summaryOutput f, path ++ " is a valid sequence form\n"⟩

def runCommand (files : FileAccess m) (fuel : Nat) : Command → m (Option Report)
  | .build choice output indented =>
    match choice.form fuel with
    | none => return none
    | some (.error fault) => return some (failure fault)
    | some (.ok f) => do return some (← deliver files f output indented)
  | .stats choice =>
    match choice.form fuel with
    | none => return none
    | some (.error fault) => return some (failure fault)
    | some (.ok f) => return some ⟨0, summaryOutput f, ""⟩
  | .check path => do return some (← checkFile files path)

def versionLine : String := "seqform 1.0.0\n"

def usage : String :=
  String.intercalate "\n" [
    "Convert imperfect-information games to sequence form.",
    "",
    "Usage: seqform [-v] build GAME [-c CARDS] [-d DICE] [-o OUTPUT] [--pretty]",
    "       seqform [-v] stats GAME [-c CARDS] [-d DICE]",
    "       seqform [-v] check PATH",
    "",
    "Games: kuhn, leduc, goofspiel, liars-dice",
    ""]

def run (files : FileAccess m) (fuel : Nat) (arguments : List String) : m (Option Report) :=
  match Request.ofArguments? arguments with
  | none => return some ⟨2, "", usage⟩
  | some .help => return some ⟨0, usage, ""⟩
  | some .version => return some ⟨0, versionLine, ""⟩
  | some (.run command) => runCommand files fuel command

end CommandLine

end ExtensiveForm
