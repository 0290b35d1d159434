import ExtensiveForm.Proofs.SequenceForm.Gap
import ExtensiveForm.Proofs.SequenceForm.Indices
import ExtensiveForm.Proofs.SequenceTree.Blocks

set_option autoImplicit false

namespace ExtensiveForm

namespace PayoffMatrix

variable {R : Type} [Scalar R] {m : PayoffMatrix R} {rows cols : Nat}

structure Ascends (m : PayoffMatrix R) (rows cols : Nat) : Prop where
  row_size : m.row.size = m.value.size
  col_size : m.col.size = m.value.size
  isZero_eq : ∀ v ∈ m.value, Scalar.isZero v = false
  row_lt : ∀ r ∈ m.row, r < rows
  col_lt : ∀ c ∈ m.col, c < cols
  place_lt : ∀ (j k r c r' c' : Nat), j < k → m.row[j]? = some r → m.col[j]? = some c →
    m.row[k]? = some r' → m.col[k]? = some c' → r < r' ∨ r = r' ∧ c < c'

omit [Scalar R] in
theorem exists_entry (hrow : m.row.size = m.value.size) (hcol : m.col.size = m.value.size) {k : Nat}
    (hk : k < m.value.size) : ∃ r c v, m.entries[k]? = some (r, c, v) :=
  ⟨_, _, _, getElem?_entries.mpr ⟨getElem?_pos m.row k (hrow ▸ hk), getElem?_pos m.col k (hcol ▸ hk),
    getElem?_pos m.value k hk⟩⟩

theorem Ordered.ascends (hm : m.Ordered rows cols) : m.Ascends rows cols := by
  have hentry : ∀ {k}, k < m.value.size → ∃ r c v, m.entries[k]? = some (r, c, v) :=
    exists_entry hm.row_size hm.col_size
  refine ⟨hm.row_size, hm.col_size, ?_, ?_, ?_, ?_⟩
  · intro v hv
    obtain ⟨r, c, he⟩ := hm.exists_mem_entries hv
    exact hm.isZero_eq _ he
  · intro r hr
    obtain ⟨k, hk⟩ := Array.mem_iff_getElem?.mp hr
    obtain ⟨r', c, v, he⟩ := hentry (hm.row_size ▸ (Array.getElem?_eq_some_iff.mp hk).1)
    cases hk.symm.trans (getElem?_entries.mp he).1
    exact (hm.inside _ (List.mem_of_getElem? he)).1
  · intro c hc
    obtain ⟨k, hk⟩ := Array.mem_iff_getElem?.mp hc
    obtain ⟨r, c', v, he⟩ := hentry (hm.col_size ▸ (Array.getElem?_eq_some_iff.mp hk).1)
    cases hk.symm.trans (getElem?_entries.mp he).2.1
    exact (hm.inside _ (List.mem_of_getElem? he)).2
  · intro j k r c r' c' hjk hr hc hr' hc'
    have hk : k < m.value.size := hm.row_size ▸ (Array.getElem?_eq_some_iff.mp hr').1
    obtain ⟨r₁, c₁, v, he⟩ := hentry (Nat.lt_trans hjk hk)
    obtain ⟨r₂, c₂, v', he'⟩ := hentry hk
    obtain ⟨hr₁, hc₁, -⟩ := getElem?_entries.mp he
    obtain ⟨hr₂, hc₂, -⟩ := getElem?_entries.mp he'
    cases hr.symm.trans hr₁
    cases hc.symm.trans hc₁
    cases hr'.symm.trans hr₂
    cases hc'.symm.trans hc₂
    obtain ⟨hj, hje⟩ := List.getElem?_eq_some_iff.mp he
    obtain ⟨hk, hke⟩ := List.getElem?_eq_some_iff.mp he'
    have hlt := List.pairwise_iff_getElem.mp hm.increasing j k hj hk hjk
    rwa [hje, hke] at hlt

theorem Ascends.ordered (hm : m.Ascends rows cols) : m.Ordered rows cols := by
  have hread : ∀ {e}, e ∈ m.entries → e.1 ∈ m.row ∧ e.2.1 ∈ m.col ∧ e.2.2 ∈ m.value := by
    intro e he
    obtain ⟨k, hk⟩ := List.mem_iff_getElem?.mp he
    obtain ⟨hr, hc, hv⟩ := getElem?_entries.mp hk
    exact ⟨Array.mem_of_getElem? hr, Array.mem_of_getElem? hc, Array.mem_of_getElem? hv⟩
  refine ⟨hm.row_size, hm.col_size, fun e he => hm.isZero_eq _ (hread he).2.2,
    fun e he => ⟨hm.row_lt _ (hread he).1, hm.col_lt _ (hread he).2.1⟩, ?_⟩
  refine List.pairwise_iff_getElem.mpr fun j k hj hk hjk => ?_
  obtain ⟨hr, hc, -⟩ := getElem?_entries.mp (List.getElem?_eq_getElem hj)
  obtain ⟨hr', hc', -⟩ := getElem?_entries.mp (List.getElem?_eq_getElem hk)
  exact hm.place_lt j k _ _ _ _ hjk hr hc hr' hc'

end PayoffMatrix

namespace SequenceForm

variable {L A R : Type} [Scalar R]

theorem check_eq_ok_iff_tiled {f : SequenceForm L A R} : f.check = .ok () ↔
    f.first.Tiled ∧ f.second.Tiled ∧ f.payoff.Ascends f.first.sequences f.second.sequences := by
  rw [check_eq_ok_iff]
  constructor
  · rintro ⟨hvalid, hordered⟩
    exact ⟨(hvalid .first).tiled, (hvalid .second).tiled, hordered.ascends⟩
  · rintro ⟨hfirst, hsecond, hascends⟩
    refine ⟨fun seat => SequenceTree.check_eq_ok_iff.mp ?_, hascends.ordered⟩
    cases seat with
    | first => exact hfirst.check_eq_ok
    | second => exact hsecond.check_eq_ok

/-- A tree passes exactly if its sets tile its places, and then the parents lead from every sequence to the
empty one; a form passes exactly if both its trees do and its matrix ascends. No look-up and no sum of the
checks fails. -/
theorem checks_eq_ok_iff :
    (∀ t : SequenceTree L A, (t.InMemory → t.checkAt.run = some t.check) ∧
      (t.check = .ok () ↔ t.Tiled) ∧
      (t.Tiled → (∀ p s, t.Above p s → p < s) ∧
        ∀ s < t.sequences, Relation.ReflTransGen t.Above 0 s)) ∧
    ∀ f : SequenceForm L A R, (f.InMemory → f.checkAt.run = some f.check) ∧
      (f.check = .ok () ↔ f.first.Tiled ∧ f.second.Tiled ∧
        f.payoff.Ascends f.first.sequences f.second.sequences) := by
  refine ⟨fun t => ⟨SequenceTree.InMemory.run_checkAt, SequenceTree.check_eq_ok_iff_tiled, ?_⟩,
    fun f => ⟨InMemory.run_checkAt, check_eq_ok_iff_tiled⟩⟩
  intro ht
  refine ⟨fun p s => ht.lt_of_above, fun s hs => ?_⟩
  obtain ⟨h, hh⟩ := (SequenceTree.check_eq_ok_iff.mp ht.check_eq_ok).exists_ownHistory hs
  exact hh.reflTransGen_above

end SequenceForm

theorem checks_loadedForm : loadedForm.checkAt.run = some (.ok ()) ∧
    loadedForm.first.Tiled ∧ loadedForm.second.Tiled ∧ loadedForm.payoff.Ascends 7 6 ∧
      Relation.ReflTransGen loadedForm.first.Above 0 6 := by
  obtain ⟨htrees, hforms⟩ := SequenceForm.checks_eq_ok_iff (L := Nat) (A := Nat) (R := Rat)
  have hmemory : loadedForm.InMemory := by
    intro seat
    cases seat <;> decide
  obtain ⟨hrun, hiff⟩ := hforms loadedForm
  obtain ⟨hfirst, hsecond, hascends⟩ := hiff.mp check_loadedForm
  obtain ⟨-, -, hchain⟩ := htrees loadedForm.first
  exact ⟨(hrun hmemory).trans (congrArg some check_loadedForm), hfirst, hsecond, hascends,
    (hchain hfirst).2 6 (by decide)⟩

end ExtensiveForm
