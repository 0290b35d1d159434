import ExtensiveForm.CommandLine.Run
import ExtensiveForm.Proofs.SequenceForm.Check
import ExtensiveForm.Proofs.SequenceForm.Saved

set_option autoImplicit false

namespace ExtensiveForm

variable {L A L' A' : Type} {h : L → L'} {k : A → A'}

namespace SequenceTree

theorem checkSets_map {i start : Nat} {parents stops : List Nat} {actions : List (List A)} :
    checkSets i start parents stops (actions.map (List.map k)) =
      checkSets i start parents stops actions := by
  induction actions generalizing i start parents stops with
  | nil => rw [List.map_nil, checkSets, checkSets] <;> simp
  | cons as actions ih =>
    cases parents with
    | nil => rw [checkSets, checkSets] <;> simp
    | cons parent parents =>
      cases stops with
      | nil => rw [checkSets, checkSets] <;> simp
      | cons stop stops => rw [List.map_cons, checkSets, checkSets, List.length_map, ih]

variable (t : SequenceTree L A)

@[simp] theorem size_relabel : (t.relabel h k).size = t.size := rfl

@[simp] theorem sequences_relabel : (t.relabel h k).sequences = t.sequences := rfl

/-- The check looks at how many labels and actions there are, not at what they are. -/
@[simp] theorem check_relabel : (t.relabel h k).check = t.check := by
  simp only [check, relabel, size, Array.size_map, Array.toList_map, checkSets_map]
  cases t.offset.toList <;> rfl

@[simp] theorem widest_relabel : (t.relabel h k).widest = t.widest := by
  rw [widest, widest, ← Array.foldl_toList, ← Array.foldl_toList, relabel, Array.toList_map,
    List.foldl_map]
  simp only [List.length_map]

end SequenceTree

namespace PayoffMatrix

variable {R R' : Type} {f : R → R'} {m : PayoffMatrix R}

def mapValue (f : R → R') (m : PayoffMatrix R) : PayoffMatrix R' := ⟨m.row, m.col, m.value.map f⟩

theorem entries_mapValue : (m.mapValue f).entries = m.entries.map fun e => (e.1, e.2.1, f e.2.2) := by
  simp only [mapValue, entries, Array.toList_map]
  rw [List.zip_map_right, List.zip_map_right]
  simp

theorem Ordered.mapValue [Scalar R] [Scalar R'] {rows cols : Nat} (hm : m.Ordered rows cols)
    (hf : ∀ v ∈ m.value, Scalar.isZero (f v) = false) : (m.mapValue f).Ordered rows cols := by
  constructor
  · simp [PayoffMatrix.mapValue, hm.row_size]
  · simp [PayoffMatrix.mapValue, hm.col_size]
  · intro e he
    rw [entries_mapValue] at he
    obtain ⟨⟨r, c, v⟩, hrcv, rfl⟩ := List.mem_map.mp he
    have hv := (List.of_mem_zip (List.of_mem_zip hrcv).2).2
    exact hf v (Array.mem_toList_iff.mp hv)
  · intro e he
    rw [entries_mapValue] at he
    obtain ⟨x, hx, rfl⟩ := List.mem_map.mp he
    exact hm.inside x hx
  · rw [entries_mapValue, List.pairwise_map]
    exact hm.increasing

end PayoffMatrix

namespace SequenceForm

variable {R R' : Type}

theorem check_relabel [Scalar R] {f : SequenceForm L A R} (hc : f.check = .ok ()) {r : R → R}
    (hr : ∀ v ∈ f.payoff.value, Scalar.isZero (r v) = false) :
    (f.relabel h k (f.payoff.mapValue r)).check = .ok () := by
  obtain ⟨hvalid, hordered⟩ := check_eq_ok_iff.mp hc
  refine check_eq_ok_iff.mpr ⟨fun seat => ?_, hordered.mapValue hr⟩
  rw [← SequenceTree.check_eq_ok_iff]
  cases seat with
  | first => exact (SequenceTree.check_relabel _).trans (hvalid .first).check_eq_ok
  | second => exact (SequenceTree.check_relabel _).trans (hvalid .second).check_eq_ok

theorem tree_relabel (f : SequenceForm L A R) (m : PayoffMatrix R) (seat : Seat) :
    (f.relabel h k m).tree seat = (f.tree seat).relabel h k := by
  cases seat <;> rfl

theorem summary_relabel (f : SequenceForm L A R) {m : PayoffMatrix R} (hm : m.size = f.payoff.size) :
    (f.relabel h k m).summary = f.summary := by
  have hrow : ∀ seat, (f.relabel h k m).summaryRow seat = f.summaryRow seat := by
    intro seat
    simp only [summaryRow, tree_relabel, SequenceTree.size_relabel, SequenceTree.sequences_relabel,
      SequenceTree.widest_relabel]
  have hdensity : (f.relabel h k m).density = f.density := by
    simp only [density, relabel, SequenceTree.sequences_relabel, hm]
  rw [summary, summary, hrow, hrow, hdensity]
  simp only [relabel, hm]

end SequenceForm

theorem Json.readsAs_string : Coded.ReadsAs Json.string := fun depth s => decodes_value_string depth s

open Json (Reader floatText)

/-- Finite doubles of the matrix that are not zero come back from their digits as such. -/
def SequenceForm.Legible (f : SequenceForm L A Float) : Prop :=
  ∀ v ∈ f.payoff.value, v.isFinite → Scalar.isZero v = false →
    ∃ w : Float, Reader.float.run (floatText v) = .ok (w, []) ∧ w.isFinite ∧ Scalar.isZero w = false

/-- The text of a well-formed form in either style is read as a well-formed form with the same sizes,
whatever the values of its labels are read as. -/
theorem CommandLine.exists_readForm {f : GameForm} (hc : f.check = .ok ()) (hf : f.InWords)
    (hfinite : ∀ v ∈ f.payoff.value, v.isFinite) (hlegible : f.Legible) :
    ∃ f', readForm f.text = .ok f' ∧ readForm f.indentedText = .ok f' ∧
      summaryOutput f' = summaryOutput f := by
  have hback : ∀ v, ∃ w : Float, v ∈ f.payoff.value →
      Reader.float.run (floatText v) = .ok (w, []) ∧ Scalar.isZero w = false := by
    intro v
    by_cases hv : v ∈ f.payoff.value
    · have hordered := (SequenceForm.check_eq_ok_iff.mp hc).2
      obtain ⟨row, col, he⟩ := hordered.exists_mem_entries hv
      have hnonzero : Scalar.isZero v = false := hordered.isZero_eq (row, col, v) he
      obtain ⟨w, hw, -, hz⟩ := hlegible v hv (hfinite v hv) hnonzero
      exact ⟨w, fun _ => ⟨hw, hz⟩⟩
    · exact ⟨v, fun h => absurd h hv⟩
  choose r hr using hback
  have hdecodes := SequenceForm.decodes_toJson Json.readsAs_string Json.readsAs_string hf
    fun v hv => Json.decodes_float (hr v hv).1
  have hvalues : f.payoff.value.toList.mapM (fun v => Except.ok (r v)) =
      (.ok (f.payoff.value.toList.map r) : Except Json.Fault (List Float)) := List.mapM_pure
  rw [hvalues, Except.map, ← Array.toList_map, Array.toArray_toList] at hdecodes
  have hcheck : (f.relabel Json.string Json.string (f.payoff.mapValue r)).check = .ok () :=
    SequenceForm.check_relabel hc fun v hv => (hr v hv).2
  have hsize : (f.payoff.mapValue r).size = f.payoff.size := by
    simp [PayoffMatrix.size, PayoffMatrix.mapValue]
  have hread : ∀ text, SequenceForm.ofText text =
      .ok (f.relabel Json.string Json.string (f.payoff.mapValue r)) →
        readForm text = .ok (f.relabel Json.string Json.string (f.payoff.mapValue r)) := by
    intro text htext
    rw [readForm, htext]
    simp only [Except.mapError, bind, Except.bind, hcheck]
    rfl
  obtain ⟨htext, hindented⟩ := hdecodes.ofText_eq
  have hsummary : (f.relabel Json.string Json.string (f.payoff.mapValue r)).summary = f.summary :=
    SequenceForm.summary_relabel f hsize
  refine ⟨f.relabel Json.string Json.string (f.payoff.mapValue r), hread _ htext, hread _ hindented, ?_⟩
  exact congrArg (fun table => "\nSequence form\n" ++ table ++ "\n") hsummary

end ExtensiveForm
