import ExtensiveForm.SequenceForm.Basic
import ExtensiveForm.Proofs.SequenceTree.Indices

set_option autoImplicit false

namespace ExtensiveForm

namespace PayoffMatrix

variable {R : Type}

def placeBefore (m : PayoffMatrix R) : Nat → Option (Nat × Nat)
  | 0 => none
  | k + 1 => m.entries[k]?.map fun e => (e.1, e.2.1)

end PayoffMatrix

namespace SequenceForm

section Matrix

variable {R : Type} [Scalar R] {m : PayoffMatrix R} {rows cols : Nat}

def checkEntryAt (rows cols : Nat) (m : PayoffMatrix R) (k : Nat) :
    ExceptT FormFault Option Unit := do
  if Scalar.isZero (← readAt m.value k) then throw (.zero k)
  let r ← readAt m.row k
  let c ← readAt m.col k
  if rows ≤ r ∨ cols ≤ c then throw (.outside k r c rows cols)
  if 0 < k then
    let r₀ ← readAt m.row (k - 1)
    let c₀ ← readAt m.col (k - 1)
    if ¬(r₀ < r ∨ (r₀ = r ∧ c₀ < c)) then throw (.order k r c)

def checkMatrixAt (rows cols : Nat) (m : PayoffMatrix R) : ExceptT FormFault Option Unit := do
  if m.row.size ≠ m.value.size ∨ m.col.size ≠ m.value.size then
    throw (.sizes m.row.size m.col.size m.value.size)
  (List.range m.value.size).forM (checkEntryAt rows cols m)

theorem run_checkEntryAt {k : Nat} {e : Nat × Nat × R} (he : m.entries[k]? = some e) :
    (checkEntryAt rows cols m k).run = some (checkEntry rows cols k (m.placeBefore k) e) := by
  obtain ⟨r, c, v⟩ := e
  obtain ⟨hr, hc, hv⟩ := PayoffMatrix.getElem?_entries.mp he
  simp only [checkEntryAt, readAt_eq_pure hr, readAt_eq_pure hc, readAt_eq_pure hv, pure_bind,
    checkEntry]
  split
  · rfl
  · split
    · rfl
    · cases k with
      | zero => rfl
      | succ k =>
        obtain ⟨⟨r₀, c₀, v₀⟩, he₀⟩ : ∃ e₀, m.entries[k]? = some e₀ :=
          ⟨_, getElem?_pos m.entries k (Nat.lt_of_succ_lt (List.getElem?_eq_some_iff.mp he).1)⟩
        obtain ⟨hr₀, hc₀, -⟩ := PayoffMatrix.getElem?_entries.mp he₀
        simp only [Nat.zero_lt_succ, if_true, Nat.add_sub_cancel, readAt_eq_pure hr₀,
          readAt_eq_pure hc₀, pure_bind, PayoffMatrix.placeBefore, he₀, Option.map_some, ite_not]
        split <;> rfl

theorem run_forM_checkEntryAt {n k : Nat} (hn : k + n = m.entries.length) :
    ((List.range' k n).forM (checkEntryAt rows cols m)).run =
      some (checkEntries rows cols k (m.placeBefore k) (m.entries.drop k)) := by
  induction n generalizing k with
  | zero =>
    have hnil : m.entries.drop k = [] := List.drop_of_length_le hn.ge
    rw [hnil]
    rfl
  | succ n ih =>
    have hk : k < m.entries.length := by omega
    have he : m.entries[k]? = some m.entries[k] := getElem?_pos m.entries k hk
    have hbefore : m.placeBefore (k + 1) = some (m.entries[k].1, m.entries[k].2.1) := by
      rw [PayoffMatrix.placeBefore, he, Option.map_some]
    rw [List.range'_succ, run_forM_cons, run_checkEntryAt he, List.drop_eq_getElem_cons hk,
      checkEntries]
    cases checkEntry rows cols k (m.placeBefore k) m.entries[k] with
    | error fault => rfl
    | ok _ => rw [ih (by omega), hbefore]

theorem run_checkMatrixAt (rows cols : Nat) (m : PayoffMatrix R) :
    (checkMatrixAt rows cols m).run = some (checkMatrix rows cols m) := by
  unfold checkMatrixAt checkMatrix
  split
  · rfl
  · rename_i hsize
    have hlen : 0 + m.value.size = m.entries.length := by
      simp only [PayoffMatrix.entries, List.length_zip, Array.length_toList]
      omega
    rw [List.range_eq_range']
    exact run_forM_checkEntryAt hlen

end Matrix

variable {L A R : Type} [Scalar R] {f : SequenceForm L A R}

def checkTreeAt (f : SequenceForm L A R) (seat : Seat) : ExceptT FormFault Option Unit :=
  (f.tree seat).checkAt.adapt (FormFault.layout seat)

/-- The check of a form with all its look-ups and sums; comes to nothing if one of them fails. -/
def checkAt (f : SequenceForm L A R) : ExceptT FormFault Option Unit := do
  f.checkTreeAt .first
  f.checkTreeAt .second
  checkMatrixAt f.first.sequences f.second.sequences f.payoff

def InMemory (f : SequenceForm L A R) : Prop := ∀ seat, (f.tree seat).InMemory

omit [Scalar R] in
theorem InMemory.run_checkTreeAt (h : f.InMemory) (seat : Seat) :
    (f.checkTreeAt seat).run = some (f.checkTree seat) := by
  change (f.tree seat).checkAt.run.map (Except.mapError (FormFault.layout seat)) = _
  rw [(h seat).run_checkAt]
  rfl

theorem InMemory.run_checkAt (h : f.InMemory) : f.checkAt.run = some f.check := by
  have hmatrix := run_checkMatrixAt f.first.sequences f.second.sequences f.payoff
  rw [checkAt, ExceptT.run_bind, h.run_checkTreeAt .first, check]
  cases f.checkTree .first with
  | error fault => rfl
  | ok _ =>
    simp only [Option.bind_eq_bind, Option.bind_some, ExceptT.run_bind, h.run_checkTreeAt .second]
    cases f.checkTree .second with
    | error fault => rfl
    | ok _ => exact hmatrix

end SequenceForm

end ExtensiveForm
