import ExtensiveForm.Decimal.Fixed
import ExtensiveForm.SequenceForm.Basic
import ExtensiveForm.Text.Grid

set_option autoImplicit false

namespace ExtensiveForm

namespace SequenceForm

variable {L A R : Type}

def summaryRow (f : SequenceForm L A R) (seat : Seat) : List String :=
  let t := f.tree seat
  [seat.text, toString t.size, toString t.sequences, toString t.widest]

/-- The share of values among all cells, which are counted in 64 bits. -/
def density (f : SequenceForm L A R) : Float :=
  let cells := (f.first.sequences * f.second.sequences).toUInt64
  if cells = 0 then 0.0 else f.payoff.size.toUInt64.toFloat / cells.toFloat

def summary (f : SequenceForm L A R) : String :=
  Text.Grid.render ["Seat", "Infosets", "Sequences", "Max actions"]
      [f.summaryRow .first, f.summaryRow .second] ++
    "\n  " ++ toString f.payoff.size ++ " non-zeros (" ++ Decimal.fixed 3 (f.density * 100.0) ++
    "% dense)"

end SequenceForm

end ExtensiveForm
