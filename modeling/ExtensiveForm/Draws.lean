set_option autoImplicit false

namespace ExtensiveForm

structure Words where
  words : Array UInt64
  next : Nat

namespace Words

def ofList (ws : List UInt64) : Words := ⟨ws.toArray, 0⟩

def take (w : Words) : UInt64 × Words :=
  (w.words.getD w.next 0, { w with next := if w.next + 1 < w.words.size then w.next + 1 else 0 })

def lowest : Float := 0.01

/-- The weight of a word: its upper 52 bits as a fraction of one, moved between `lowest` and one. -/
def weight (word : UInt64) : Float :=
  (word >>> 12).toFloat * Float.scaleB 1.0 (-52) * (1.0 - lowest) + lowest

def drawWithin : Nat → Words → Float × Words
  | 0, w =>
    let (word, w) := w.take
    (weight word, w)
  | tries + 1, w =>
    let (word, next) := w.take
    let v := weight word
    if v < 1.0 then (v, next) else drawWithin tries next

def draw : StateM Words Float := fun w => drawWithin w.words.size w

end Words

end ExtensiveForm
