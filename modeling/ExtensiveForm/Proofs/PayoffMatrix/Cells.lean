import ExtensiveForm.Proofs.PayoffMatrix.Products

/-!
A matrix as a table whose cells hold the sums of all entries at their places. Main statement: if two
vectors reach all entries, the products with them are sums over the rows and the columns of the table,
and each vector collects from its product the value that both have together.
-/

set_option autoImplicit false

namespace ExtensiveForm

namespace PayoffMatrix

/-- What all entries at a place hold together; none, one or many of them may stand there. -/
def cell (m : PayoffMatrix Rat) (r c : Nat) : Rat :=
  (m.entries.map fun e => if e.1 = r ∧ e.2.1 = c then e.2.2 else 0).sum

variable {m : PayoffMatrix Rat} {x y : Array Rat} {rows cols r : Nat}

theorem cell_transpose (m : PayoffMatrix Rat) (r c : Nat) : m.transpose.cell c r = m.cell r c := by
  unfold cell
  rw [entries_transpose, List.map_map]
  refine congrArg List.sum (List.map_congr_left fun e _ => ?_)
  simp only [Function.comp_apply, and_comm]

/-- Each entry of a row counts once in the sum over the cells of the row. -/
theorem sum_cell_mul (hin : ∀ e ∈ m.entries, e.2.1 < cols) (factor : Nat → Rat) :
    ∑ c ∈ Finset.range cols, m.cell r c * factor c =
      (m.entries.map fun e => if e.1 = r then e.2.2 * factor e.2.1 else 0).sum := by
  unfold cell
  generalize m.entries = es at hin ⊢
  induction es with
  | nil => simp
  | cons e es ih =>
    obtain ⟨he, hes⟩ := List.forall_mem_cons.mp hin
    have hsingle : ∑ c ∈ Finset.range cols,
        (if e.1 = r ∧ e.2.1 = c then e.2.2 else 0) * factor c =
          if e.1 = r then e.2.2 * factor e.2.1 else 0 := by
      by_cases hr : e.1 = r
      · simp only [hr, true_and, if_true, ite_mul, zero_mul]
        rw [Finset.sum_ite_eq, if_pos (Finset.mem_range.mpr he)]
      · simp only [hr, false_and, if_false, zero_mul, Finset.sum_const_zero]
    simp only [List.map_cons, List.sum_cons, add_mul, Finset.sum_add_distrib]
    rw [hsingle, ih hes]

theorem getD_addTerm {out : Array Rat} {e : Nat × Nat × Rat} (hr : r < out.size) :
    (addTerm y out e).getD r 0 =
      out.getD r 0 + if e.1 = r then e.2.2 * y.getD e.2.1 0 else 0 := by
  rw [addTerm]
  generalize e.2.2 * y.getD e.2.1 0 = v
  simp only [Array.getD_eq_getD_getElem?, Array.getElem?_modify, Array.getElem?_eq_getElem hr]
  split <;> simp

theorem getD_foldl_addTerm {out : Array Rat} {es : List (Nat × Nat × Rat)} (hr : r < out.size) :
    (es.foldl (addTerm y) out).getD r 0 =
      out.getD r 0 + (es.map fun e => if e.1 = r then e.2.2 * y.getD e.2.1 0 else 0).sum := by
  induction es generalizing out with
  | nil => simp
  | cons e es ih =>
    rw [List.foldl_cons, ih (by simpa using hr), getD_addTerm hr, List.map_cons, List.sum_cons,
      add_assoc]

theorem getD_of_dot? (hin : ∀ e ∈ m.entries, e.1 < rows ∧ e.2.1 < y.size) {out : Array Rat}
    (h : m.dot? y rows = some out) (hr : r < rows) :
    out.getD r 0 = ∑ c ∈ Finset.range y.size, m.cell r c * y.getD c 0 := by
  rw [dot?_eq_some hin, Option.some.injEq] at h
  have hzero : (Array.replicate rows (0 : Rat)).getD r 0 = 0 := by
    simp [Array.getD_eq_getD_getElem?, hr]
  rw [← h, getD_foldl_addTerm (by simpa using hr), hzero, zero_add,
    sum_cell_mul fun e he => (hin e he).2]

theorem getElem?_of_dot? (hin : ∀ e ∈ m.entries, e.1 < rows ∧ e.2.1 < y.size) {out : Array Rat}
    (h : m.dot? y rows = some out) (hr : r < rows) :
    out[r]? = some (∑ c ∈ Finset.range y.size, m.cell r c * y.getD c 0) := by
  obtain ⟨out', hout, hsize⟩ := exists_dot_size hin
  cases h.symm.trans hout
  have hlt : r < out.size := hsize ▸ hr
  rw [← getD_of_dot? hin h hr, Array.getD_eq_getD_getElem?, Array.getElem?_eq_getElem hlt,
    Option.getD_some]

theorem getElem?_of_transposeDot? (hin : ∀ e ∈ m.entries, e.1 < x.size ∧ e.2.1 < cols)
    {out : Array Rat} (h : m.transposeDot? x cols = some out) {c : Nat} (hc : c < cols) :
    out[c]? = some (∑ r ∈ Finset.range x.size, m.cell r c * x.getD r 0) := by
  simpa only [cell_transpose] using getElem?_of_dot? (inside_transpose hin) h hc

/-- The two products and the value of two vectors are sums over the cells of one table, so what either
vector collects from its product is the value. -/
theorem exists_products_eq (hin : ∀ (k r c : Nat) (v : Rat), m.row[k]? = some r →
    m.col[k]? = some c → m.value[k]? = some v → r < x.size ∧ c < y.size) :
    ∃ across down v, m.dot? y x.size = some across ∧ m.transposeDot? x y.size = some down ∧
      m.bilinear? x y = some v ∧ collect x across = v ∧ collect y down = v ∧
      (∀ r < x.size,
        across[r]? = some (∑ c ∈ Finset.range y.size, m.cell r c * y.getD c 0)) ∧
      (∀ c < y.size,
        down[c]? = some (∑ r ∈ Finset.range x.size, m.cell r c * x.getD r 0)) ∧
      v = ∑ r ∈ Finset.range x.size, ∑ c ∈ Finset.range y.size,
        x.getD r 0 * m.cell r c * y.getD c 0 := by
  have hread : ∀ e ∈ m.entries, e.1 < x.size ∧ e.2.1 < y.size := by
    rintro ⟨r, c, v⟩ he
    obtain ⟨k, hk⟩ := List.mem_iff_getElem?.mp he
    obtain ⟨hr, hc, hv⟩ := getElem?_entries.mp hk
    exact hin k r c v hr hc hv
  obtain ⟨across, hdot, hsize, hacross⟩ := exists_dot hread rfl
  obtain ⟨down, htranspose, -, hdown⟩ := exists_transposeDot hread rfl
  refine ⟨across, down, m.between x y, hdot, htranspose, bilinear?_eq_some hread, hacross x, hdown y,
    fun r hr => getElem?_of_dot? hread hdot hr,
    fun c hc => getElem?_of_transposeDot? hread htranspose hc, ?_⟩
  rw [← hacross x, collect, hsize]
  refine Finset.sum_congr rfl fun r hr => ?_
  rw [getD_of_dot? hread hdot (Finset.mem_range.mp hr), Finset.mul_sum]
  exact Finset.sum_congr rfl fun c _ => (mul_assoc _ _ _).symm

end PayoffMatrix

/-- Entries out of order, two of them at one place, and arrays that go on beyond the last entry, with
indices that lie outside. -/
def looseMatrix : PayoffMatrix Rat := ⟨#[1, 0, 1, 1, 9], #[2, 0, 2, 0], #[2, -3, 1 / 2, 4, 7, 7]⟩

theorem products_looseMatrix :
    looseMatrix.dot? #[1, 5, -1] 2 = some #[-3, 3 / 2] ∧
      looseMatrix.transposeDot? #[1 / 2, 3] 3 = some #[21 / 2, 0, 15 / 2] ∧
        looseMatrix.bilinear? #[1 / 2, 3] #[1, 5, -1] = some 3 ∧
          collect #[1 / 2, 3] #[-3, 3 / 2] = 3 ∧ collect #[1, 5, -1] #[21 / 2, 0, 15 / 2] = 3 := by
  have hread : ∀ (k r c : Nat) (v : Rat), looseMatrix.row[k]? = some r →
      looseMatrix.col[k]? = some c → looseMatrix.value[k]? = some v → r < 2 ∧ c < 3 := by
    have hentries : ∀ e ∈ looseMatrix.entries, e.1 < 2 ∧ e.2.1 < 3 := by decide
    intro k r c v hr hc hv
    exact hentries _ (List.mem_of_getElem? (PayoffMatrix.getElem?_entries.mpr ⟨hr, hc, hv⟩))
  have hrows : looseMatrix.dot? #[1, 5, -1] 2 = some #[-3, 3 / 2] := by decide +kernel
  have hcols : looseMatrix.transposeDot? #[1 / 2, 3] 3 = some #[21 / 2, 0, 15 / 2] := by
    decide +kernel
  have hvalue : looseMatrix.bilinear? #[1 / 2, 3] #[1, 5, -1] = some 3 := by decide +kernel
  obtain ⟨across, down, v, hdot, htranspose, hbilinear, hacross, hdown, -⟩ :=
    PayoffMatrix.exists_products_eq (x := #[1 / 2, 3]) (y := #[1, 5, -1]) hread
  cases hdot.symm.trans hrows
  cases htranspose.symm.trans hcols
  cases hbilinear.symm.trans hvalue
  exact ⟨hrows, hcols, hvalue, hacross, hdown⟩

end ExtensiveForm
