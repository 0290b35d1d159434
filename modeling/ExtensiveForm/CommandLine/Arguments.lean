import ExtensiveForm.Text.Digits

/-!
The argument list of the program. Options come in a long form, with their value attached by `=` or
in the next argument, and in a short form, several to an argument and the value attached or in the
next. After `--` nothing is an option. An argument list is read from left to right: what is wrong
before a call for help is an error, what comes after it is not read.
-/

set_option autoImplicit false

namespace ExtensiveForm.CommandLine

inductive GameKind where
  | kuhn
  | leduc
  | goofspiel
  | liarsDice
  deriving DecidableEq, Repr

def GameKind.ofName? (name : String) : Option GameKind :=
  if name = "kuhn" then some kuhn
  else if name = "leduc" then some leduc
  else if name = "goofspiel" then some goofspiel
  else if name = "liars-dice" then some liarsDice
  else none

/-- A game and what it is played with; a game ignores what it has no use for. -/
structure GameChoice where
  kind : GameKind
  cards : Option String
  dice : Nat
  deriving DecidableEq, Repr

inductive Command where
  | build (game : GameChoice) (output : Option String) (pretty : Bool)
  | stats (game : GameChoice)
  | check (path : String)
  deriving DecidableEq, Repr

inductive Request where
  | run (command : Command)
  | help
  | version
  deriving DecidableEq, Repr

inductive Verb where
  | build
  | stats
  | check
  deriving DecidableEq, Repr

def Verb.ofName? (name : String) : Option Verb :=
  if name = "build" then some build
  else if name = "stats" then some stats
  else if name = "check" then some check
  else none

inductive Key where
  | cards
  | dice
  | output
  deriving DecidableEq, Repr

inductive Flag where
  | help
  /-- Asks for log lines, of which there are none. -/
  | verbose
  | pretty
  | key (k : Key)
  deriving DecidableEq, Repr

def Verb.knows : Verb → Flag → Bool
  | _, .help | _, .verbose => true
  | .build, _ => true
  | .stats, .key .cards | .stats, .key .dice => true
  | _, _ => false

def Flag.ofLong? (name : List Char) : Option Flag :=
  match String.ofList name with
  | "help" => some help
  | "verbose" => some verbose
  | "pretty" => some pretty
  | "cards" => some (key .cards)
  | "dice" => some (key .dice)
  | "output" => some (key .output)
  | _ => none

def Flag.ofShort? : Char → Option Flag
  | 'h' => some help
  | 'v' => some verbose
  | 'c' => some (key .cards)
  | 'd' => some (key .dice)
  | 'o' => some (key .output)
  | _ => none

inductive Shape where
  | separator
  | long (name : List Char) (value : Option String)
  | short (letters : List Char)
  | plain
  deriving DecidableEq, Repr

def splitEquals : List Char → List Char × Option (List Char)
  | [] => ([], none)
  | '=' :: rest => ([], some rest)
  | c :: rest =>
    let (name, value) := splitEquals rest
    (c :: name, value)

/-- A lone dash is no option. -/
def shape (argument : String) : Shape :=
  match argument.toList with
  | '-' :: '-' :: [] => .separator
  | '-' :: '-' :: rest =>
    let (name, value) := splitEquals rest
    .long name (value.map String.ofList)
  | '-' :: c :: rest => .short (c :: rest)
  | _ => .plain

structure Settings where
  game : Option GameKind
  path : Option String
  cards : Option String
  dice : Option Nat
  output : Option String
  pretty : Bool
  deriving DecidableEq, Repr

def Settings.none : Settings := ⟨.none, .none, .none, .none, .none, false⟩

def diceLimit : Int := Int.pow 2 32

def readDiceCount? (value : String) : Option Nat :=
  ((Text.integer? value.toList).filter fun n => 0 ≤ n ∧ n < diceLimit).map Int.toNat

def readPath? (value : String) : Option String := if value = "" then none else some value

namespace Settings

def setKey? (s : Settings) (value : String) : Key → Option Settings
  | .cards => if s.cards.isSome then Option.none else some { s with cards := some value }
  | .dice =>
    if s.dice.isSome then Option.none
    else (readDiceCount? value).map fun n => { s with dice := some n }
  | .output =>
    if s.output.isSome then Option.none
    else (readPath? value).map fun p => { s with output := some p }

def setPretty? (s : Settings) : Option Settings :=
  if s.pretty then Option.none else some { s with pretty := true }

def setPlain? (s : Settings) (value : String) : Verb → Option Settings
  | .check =>
    if s.path.isSome then Option.none
    else (readPath? value).map fun p => { s with path := some p }
  | _ =>
    if s.game.isSome then Option.none
    else (GameKind.ofName? value).map fun g => { s with game := some g }

def choice? (s : Settings) : Option GameChoice := s.game.map fun kind => ⟨kind, s.cards, s.dice.getD 1⟩

def command? (s : Settings) : Verb → Option Command
  | .build => s.choice?.map fun g => .build g s.output s.pretty
  | .stats => s.choice?.map .stats
  | .check => s.path.map .check

end Settings

inductive Letters where
  | wrong
  | help
  | done (s : Settings)
  /-- The last letter's value is the next argument. -/
  | awaiting (key : Key) (s : Settings)

def attached : List Char → String
  | '=' :: rest => String.ofList rest
  | rest => String.ofList rest

def readLetters (verb : Verb) : List Char → Settings → Letters
  | [], s => .done s
  | c :: rest, s =>
    match (Flag.ofShort? c).filter verb.knows with
    | none => .wrong
    | some .help => .help
    | some .verbose => readLetters verb rest s
    | some .pretty => .wrong
    | some (.key k) =>
      if rest.isEmpty then .awaiting k s
      else
        match s.setKey? (attached rest) k with
        | none => .wrong
        | some s => .done s

def readCommand? (verb : Verb) (literal : Bool) : List String → Settings → Option Request
  | [], s => (s.command? verb).map .run
  | argument :: rest, s =>
    let plain : Option Request := do readCommand? verb literal rest (← s.setPlain? argument verb)
    let key (k : Key) : Option Request :=
      match rest with
      | [] => none
      | value :: rest =>
        if shape value = .plain then do readCommand? verb false rest (← s.setKey? value k) else none
    if literal then plain
    else
      match shape argument with
      | .plain => plain
      | .separator => readCommand? verb true rest s
      | .long name value =>
        match (Flag.ofLong? name).filter verb.knows, value with
        | some .help, none => some .help
        | some .verbose, none => readCommand? verb false rest s
        | some .pretty, none => do readCommand? verb false rest (← s.setPretty?)
        | some (.key k), none => key k
        | some (.key k), some value => do readCommand? verb false rest (← s.setKey? value k)
        | _, _ => none
      | .short letters =>
        match readLetters verb letters s with
        | .wrong => none
        | .help => some .help
        | .done s => readCommand? verb false rest s
        | .awaiting k s' =>
          match rest with
          | [] => none
          | value :: rest =>
            if shape value = .plain then do readCommand? verb false rest (← s'.setKey? value k)
            else none

/-- Whether help is there on a topic: all commands, one of them, or help itself. -/
def readHelp? : List String → Option Request
  | [] => some .help
  | topic :: [] => if topic = "help" ∨ (Verb.ofName? topic).isSome then some .help else none
  | _ => none

def readLeading : List Char → Option (Option Request)
  | [] => some none
  | 'v' :: rest => readLeading rest
  | 'h' :: _ => some (some .help)
  | 'V' :: _ => some (some .version)
  | _ => none

def Request.ofArguments? : List String → Option Request
  | [] => none
  | argument :: rest =>
    match shape argument with
    | .separator => none
    | .plain =>
      match Verb.ofName? argument with
      | some verb => readCommand? verb false rest .none
      | none => if argument = "help" then readHelp? rest else none
    | .long name none =>
      match String.ofList name with
      | "help" => some .help
      | "version" => some .version
      | "verbose" => ofArguments? rest
      | _ => none
    | .long _ (some _) => none
    | .short letters =>
      match readLeading letters with
      | none => none
      | some (some request) => some request
      | some none => ofArguments? rest

end ExtensiveForm.CommandLine
