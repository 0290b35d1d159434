import ExtensiveForm.Json.Reader
import ExtensiveForm.Json.Writer
import ExtensiveForm.SequenceForm.Basic

set_option autoImplicit false

namespace ExtensiveForm

class Json.Coded (α : Type) where
  toJson : α → Json
  /-- Reads a value with brackets no deeper than a depth. -/
  reader : (depth : Nat) → Json.Reader α

namespace Json

instance : Coded String where
  toJson := .string
  reader _ := .string

instance : Coded Int64 where
  toJson n := .number (.int n.toInt)
  reader _ := (Reader.integer (-Int.pow 2 63) (Int.pow 2 63)).map Int64.ofInt

instance : Coded UInt64 where
  toJson n := ofNat n.toNat
  reader _ := Reader.index.map UInt64.ofNat

instance : Coded Json where
  toJson j := j
  reader := .value

end Json

variable {L A : Type} [Json.Coded L] [Json.Coded A]

open Json (Reader Coded ofNat ofFloat)
open Json.Reader (RecordPart list index float record)

namespace SequenceTree

def toJson (t : SequenceTree L A) : Json :=
  .object [
    ("par", .array (t.parent.toList.map ofNat)),
    ("idx", .array (t.offset.toList.map ofNat)),
    ("obs", .array (t.label.toList.map Coded.toJson)),
    ("action", .array (t.actions.toList.map fun as => .array (as.map Coded.toJson)))]

structure Draft (L A : Type) where
  parent : Option (List Nat)
  offset : Option (List Nat)
  label : Option (List L)
  actions : Option (List (List A))

def Draft.blank : Draft L A := ⟨none, none, none, none⟩

def Draft.finish? (d : Draft L A) : Option (SequenceTree L A) :=
  match d with
  | ⟨some parent, some offset, some label, some actions⟩ =>
    some ⟨parent.toArray, offset.toArray, label.toArray, actions.toArray⟩
  | _ => none

/-- The brackets of a form and a tree stand around each of these arrays. -/
def parts : List (RecordPart (Draft L A)) := [
  ⟨"par", (·.parent.isSome), fun d => (list index).map fun xs => { d with parent := some xs }⟩,
  ⟨"idx", (·.offset.isSome), fun d => (list index).map fun xs => { d with offset := some xs }⟩,
  ⟨"obs", (·.label.isSome), fun d =>
    (list (Coded.reader (Json.deepest - 3))).map fun xs => { d with label := some xs }⟩,
  ⟨"action", (·.actions.isSome), fun d =>
    (list (list (Coded.reader (Json.deepest - 4)))).map fun xs => { d with actions := some xs }⟩]

def reader : Reader (SequenceTree L A) := (record parts Draft.blank).filterMap Draft.finish?

end SequenceTree

namespace PayoffMatrix

def toJson (m : PayoffMatrix Float) : Json :=
  .object [
    ("row", .array (m.row.toList.map ofNat)),
    ("col", .array (m.col.toList.map ofNat)),
    ("data", .array (m.value.toList.map ofFloat))]

structure Draft where
  row : Option (List Nat)
  col : Option (List Nat)
  value : Option (List Float)

def Draft.finish? : Draft → Option (PayoffMatrix Float)
  | ⟨some row, some col, some value⟩ => some ⟨row.toArray, col.toArray, value.toArray⟩
  | _ => none

def parts : List (RecordPart Draft) := [
  ⟨"row", (·.row.isSome), fun d => (list index).map fun xs => { d with row := some xs }⟩,
  ⟨"col", (·.col.isSome), fun d => (list index).map fun xs => { d with col := some xs }⟩,
  ⟨"data", (·.value.isSome), fun d => (list float).map fun xs => { d with value := some xs }⟩]

def reader : Reader (PayoffMatrix Float) :=
  (record parts ⟨none, none, none⟩).filterMap Draft.finish?

end PayoffMatrix

namespace SequenceForm

def toJson (f : SequenceForm L A Float) : Json :=
  .object [("x", f.first.toJson), ("y", f.second.toJson), ("A", f.payoff.toJson)]

structure Draft (L A : Type) where
  first : Option (SequenceTree L A)
  second : Option (SequenceTree L A)
  payoff : Option (PayoffMatrix Float)

def Draft.blank : Draft L A := ⟨none, none, none⟩

def Draft.finish? : Draft L A → Option (SequenceForm L A Float)
  | ⟨some first, some second, some payoff⟩ => some ⟨first, second, payoff⟩
  | _ => none

def parts : List (RecordPart (Draft L A)) := [
  ⟨"x", (·.first.isSome), fun d => SequenceTree.reader.map fun t => { d with first := some t }⟩,
  ⟨"y", (·.second.isSome), fun d => SequenceTree.reader.map fun t => { d with second := some t }⟩,
  ⟨"A", (·.payoff.isSome), fun d => PayoffMatrix.reader.map fun m => { d with payoff := some m }⟩]

def reader : Reader (SequenceForm L A Float) := (record parts Draft.blank).filterMap Draft.finish?

def text (f : SequenceForm L A Float) : String := f.toJson.compactText

def indentedText (f : SequenceForm L A Float) : String := f.toJson.prettyText

def ofText (text : String) : Except Json.Fault (SequenceForm L A Float) := reader.ofText text

end SequenceForm

end ExtensiveForm
