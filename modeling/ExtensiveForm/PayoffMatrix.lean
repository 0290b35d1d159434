import ExtensiveForm.Scalar

set_option autoImplicit false

namespace ExtensiveForm

/-- Entry `k` of the matrix stands in row `row[k]` and column `col[k]`. -/
structure PayoffMatrix (R : Type) where
  row : Array Nat
  col : Array Nat
  value : Array R
  deriving DecidableEq, Repr

namespace PayoffMatrix

variable {R : Type}

def empty : PayoffMatrix R := ⟨#[], #[], #[]⟩

def size (m : PayoffMatrix R) : Nat := m.value.size

def isEmpty (m : PayoffMatrix R) : Bool := m.value.isEmpty

def entries (m : PayoffMatrix R) : List (Nat × Nat × R) :=
  m.row.toList.zip (m.col.toList.zip m.value.toList)

theorem getElem?_entries {m : PayoffMatrix R} {k r c : Nat} {v : R} :
    m.entries[k]? = some (r, c, v) ↔
      m.row[k]? = some r ∧ m.col[k]? = some c ∧ m.value[k]? = some v := by
  simp [entries, List.getElem?_zip_eq_some]

def ofEntries (es : List (Nat × Nat × R)) : PayoffMatrix R :=
  ⟨(es.map (·.1)).toArray, (es.map (·.2.1)).toArray, (es.map (·.2.2)).toArray⟩

@[simp] theorem entries_ofEntries (es : List (Nat × Nat × R)) : (ofEntries es).entries = es := by
  induction es with
  | nil => rfl
  | cons e es ih => simp_all [ofEntries, entries]

def transpose (m : PayoffMatrix R) : PayoffMatrix R := ⟨m.col, m.row, m.value⟩

@[simp] theorem transpose_transpose (m : PayoffMatrix R) : m.transpose.transpose = m := rfl

def fits (rows cols : Nat) (e : Nat × Nat × R) : Bool := e.1 < rows && e.2.1 < cols

def addTerm [Zero R] [Add R] [Mul R] (y : Array R) (out : Array R) (e : Nat × Nat × R) : Array R :=
  out.modify e.1 (· + e.2.2 * y.getD e.2.1 0)

@[simp] theorem size_addTerm [Zero R] [Add R] [Mul R] (y out : Array R) (e : Nat × Nat × R) :
    (addTerm y out e).size = out.size := by simp [addTerm]

def dot? [Zero R] [Add R] [Mul R] (m : PayoffMatrix R) (y : Array R) (rows : Nat) :
    Option (Array R) :=
  if m.entries.all (fits rows y.size) then
    some (m.entries.foldl (addTerm y) (Array.replicate rows 0))
  else none

def transposeDot? [Zero R] [Add R] [Mul R] (m : PayoffMatrix R) (x : Array R) (cols : Nat) :
    Option (Array R) :=
  m.transpose.dot? x cols

/-- The product with a column vector as a vector of a length on request, which some memory must
hold. -/
def dotOfLength? [Zero R] [Add R] [Mul R] (m : PayoffMatrix R) (y : Array R) (rows : Nat) :
    Option (Array R) :=
  if Scalar.longestVector < rows then none else m.dot? y rows

def transposeDotOfLength? [Zero R] [Add R] [Mul R] (m : PayoffMatrix R) (x : Array R)
    (cols : Nat) : Option (Array R) :=
  m.transpose.dotOfLength? x cols

def term? [Mul R] (x y : Array R) (e : Nat × Nat × R) : Option R :=
  match x[e.1]?, y[e.2.1]? with
  | some a, some b => some (a * e.2.2 * b)
  | _, _ => none

def bilinear? [Scalar R] (m : PayoffMatrix R) (x y : Array R) : Option R :=
  (m.entries.mapM (term? x y)).map Scalar.sum

end PayoffMatrix

end ExtensiveForm
