set_option autoImplicit false

namespace ExtensiveForm.Text

def pad (toRight : Bool) (width : Nat) (s : String) : String :=
  let blanks := String.ofList (List.replicate (width - s.length) ' ')
  if toRight then blanks ++ s else s ++ blanks

theorem length_pad (toRight : Bool) (width : Nat) (s : String) :
    (pad toRight width s).length = max s.length width := by
  cases toRight <;> simp [pad] <;> omega

namespace Grid

def rule (edge inner fill : Char) (widths : List Nat) : String :=
  let bars := widths.map fun w => String.ofList (List.replicate (w + 2) fill)
  edge.toString ++ String.intercalate inner.toString bars ++ edge.toString

def line (widths : List Nat) (cells : List String) : String :=
  let padded := (widths.zip cells).mapIdx fun i (w, cell) => " " ++ pad (i != 0) w cell ++ " "
  "|" ++ String.intercalate "|" padded ++ "|"

def columnWidths : List (List String) → List Nat
  | [] => []
  | row :: [] => row.map String.length
  | row :: rest => List.zipWith max (row.map String.length) (columnWidths rest)

def render (heading : List String) (rows : List (List String)) : String :=
  let widths := columnWidths (heading :: rows)
  let between := rule '|' '+' '-' widths
  let body := (rows.map (line widths)).intersperse between
  String.intercalate "\n" <|
    [rule '+' '+' '-' widths, line widths heading, rule '+' '=' '=' widths] ++ body ++
      [rule '+' '+' '-' widths]

end Grid

end ExtensiveForm.Text
