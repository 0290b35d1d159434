import ExtensiveForm.Proofs.PayoffMatrix.Products
import ExtensiveForm.Proofs.SequenceForm.Check
import ExtensiveForm.Proofs.SequenceForm.Indices

/-!
Values and gaps of forms that may hold anything, whatever the numbers are. Main statement: both are
computed exactly if the form passes its check and the plans have its lengths, no index points nowhere,
and no sum of indices that the check makes leaves the machine word.
-/

set_option autoImplicit false

namespace ExtensiveForm

namespace SequenceTree

variable {L A R : Type} [Add R] {t : SequenceTree L A} {sums : Array R} (best : List R → R)

theorem IsSet.exists_settle? {k parent start : Nat} {label : L} {actions : List A}
    (h : t.IsSet k parent start label actions) (hp : parent < start)
    (hs : start + actions.length ≤ sums.size) :
    ∃ settled, t.settle? best k parent sums = some settled ∧ settled.size = sums.size := by
  have hlt : parent < sums.size := by omega
  simp [settle?, block?, h.start_eq, h.stop_eq, slice?, hs, addAt?, hlt]

theorem Valid.exists_settleAll? (ht : t.Valid) {sets : List (Nat × Nat)}
    (hsets : ∀ s ∈ sets, t.parent[s.2]? = some s.1) (hs : t.sequences ≤ sums.size) :
    ∃ settled, t.settleAll? best sets sums = some settled ∧ settled.size = sums.size := by
  induction sets with
  | nil => exact ⟨sums, rfl, rfl⟩
  | cons s sets ih =>
    obtain ⟨p, k⟩ := s
    obtain ⟨hk, hrest⟩ := List.forall_mem_cons.mp hsets
    obtain ⟨later, hlater, hsize⟩ := ih hrest
    obtain ⟨parent, start, label, actions, hset⟩ :=
      ht.exists_isSet (Array.getElem?_eq_some_iff.mp hk).1
    cases hk.symm.trans hset.parent_eq
    obtain ⟨hp, -, hle⟩ := ht.isSet_bounds hset
    have hfit : start + actions.length ≤ later.size := by omega
    obtain ⟨settled, hsettled, hsize'⟩ := hset.exists_settle? best hp hfit
    refine ⟨settled, ?_, hsize'.trans hsize⟩
    rw [settleAll?] at hlater ⊢
    rw [List.foldrM_cons, hlater]
    exact hsettled

theorem Valid.exists_response? (ht : t.Valid) (hs : t.sequences ≤ sums.size) :
    ∃ v, t.response? best sums = some v := by
  have hsets : ∀ s ∈ t.parent.toList.zipIdx, t.parent[s.2]? = some s.1 := by
    intro s hs
    rwa [List.mem_zipIdx_iff_getElem?, Array.getElem?_toList] at hs
  obtain ⟨settled, hsettled, hsize⟩ := ht.exists_settleAll? best hsets hs
  have hpos : 0 < settled.size := hsize ▸ Nat.lt_of_lt_of_le ht.sequences_pos hs
  exact ⟨settled[0], by simp [response?, hsettled, hpos]⟩

end SequenceTree

namespace SequenceForm

variable {L A R : Type} [Scalar R] {f : SequenceForm L A R} {x y : Array R}

/-- What is answered after the check only: a number exactly if the form passes and the plans have its
lengths, else what is wrong with the form or with the lengths, never an index that points nowhere. -/
structure Guarded (f : SequenceForm L A R) (x y : Array R) (answer : Except PlayFault R) : Prop where
  ok_iff : (∃ v, answer = .ok v) ↔
    f.check = .ok () ∧ x.size = f.first.sequences ∧ y.size = f.second.sequences
  error_iff : ∀ fault, answer = .error fault ↔
    (∃ e, f.check = .error e ∧ fault = .form e) ∨
      (f.check = .ok () ∧ ¬(x.size = f.first.sequences ∧ y.size = f.second.sequences) ∧
        fault = .lengths x.size y.size f.first.sequences f.second.sequences)

theorem checkPlans_eq_error_iff {fault : PlayFault} : f.checkPlans x y = .error fault ↔
    (∃ e, f.check = .error e ∧ fault = .form e) ∨
      (f.check = .ok () ∧ ¬(x.size = f.first.sequences ∧ y.size = f.second.sequences) ∧
        fault = .lengths x.size y.size f.first.sequences f.second.sequences) := by
  unfold checkPlans
  cases f.check with
  | error e => simp [eq_comm]
  | ok =>
    simp only [reduceCtorEq, false_and, exists_false, false_or, true_and]
    split
    · rename_i hne
      have hnot : ¬(x.size = f.first.sequences ∧ y.size = f.second.sequences) := by omega
      simp [hnot, eq_comm]
    · rename_i heq
      have hsizes : x.size = f.first.sequences ∧ y.size = f.second.sequences := by omega
      simp [hsizes]

theorem guarded_of_checkPlans {answer : Except PlayFault R}
    (herror : ∀ fault, f.checkPlans x y = .error fault → answer = .error fault)
    (hok : f.checkPlans x y = .ok () → ∃ v, answer = .ok v) : f.Guarded x y answer := by
  cases hc : f.checkPlans x y with
  | error fault =>
    have hanswer := herror fault hc
    subst hanswer
    refine ⟨?_, fun fault' => ?_⟩
    · rw [← checkPlans_eq_ok_iff, hc]
      simp
    · rw [← checkPlans_eq_error_iff, hc]
      simp
  | ok =>
    obtain ⟨v, hanswer⟩ := hok hc
    subst hanswer
    refine ⟨?_, fun fault' => ?_⟩
    · rw [← checkPlans_eq_ok_iff, hc]
      simp
    · rw [← checkPlans_eq_error_iff, hc]
      simp

theorem guarded_value (f : SequenceForm L A R) (x y : Array R) : f.Guarded x y (f.value x y) := by
  refine guarded_of_checkPlans (fun fault hc => ?_) fun hc => ?_
  · rw [value, hc]
  · obtain ⟨hform, hx, hy⟩ := checkPlans_eq_ok_iff.mp hc
    have hin := (check_eq_ok_iff.mp hform).2.inside
    rw [← hx, ← hy] at hin
    simp only [value, hc, PayoffMatrix.bilinear?_eq_some_sum hin]
    exact ⟨_, rfl⟩

theorem guarded_gap (f : SequenceForm L A R) (x y : Array R) : f.Guarded x y (f.gap x y) := by
  refine guarded_of_checkPlans (fun fault hc => ?_) fun hc => ?_
  · rw [gap, hc]
  · obtain ⟨hform, hx, hy⟩ := checkPlans_eq_ok_iff.mp hc
    obtain ⟨hvalid, hordered⟩ := check_eq_ok_iff.mp hform
    obtain ⟨c, hdot, hsize⟩ := PayoffMatrix.exists_dot_size (hy ▸ hordered.inside)
    obtain ⟨d, hdot', hsize'⟩ := PayoffMatrix.exists_transposeDot_size (hx ▸ hordered.inside)
    obtain ⟨most, hmost⟩ := (hvalid .first).exists_response? Scalar.maximum hsize.ge
    obtain ⟨least, hleast⟩ := (hvalid .second).exists_response? Scalar.minimum hsize'.ge
    have hbest := bestAgainst?_eq_some hdot hmost
    have hworst := worstAgainst?_eq_some hdot' hleast
    exact ⟨most - least, gap_eq_ok hc hbest hworst⟩

/-- A form may hold anything: its value and gap are guarded by its check, and the check does all its
look-ups and sums, if only the form fits into memory. -/
theorem guarded_answers (f : SequenceForm L A R) (x y : Array R) :
    f.Guarded x y (f.value x y) ∧ f.Guarded x y (f.gap x y) ∧
      (f.InMemory → f.checkAt.run = some f.check) :=
  ⟨guarded_value f x y, guarded_gap f x y, InMemory.run_checkAt⟩

end SequenceForm

def wildForm : SequenceForm Nat Nat Float where
  first := ⟨#[0, 18446744073709551615], #[1, 2, 18446744073709551615], #[0, 1], #[[0], [0, 1]]⟩
  second := ⟨#[0], #[18446744073709551615, 0], #[0], #[[]]⟩
  payoff := ⟨#[18446744073709551615], #[], #[0.0 / 0.0]⟩

theorem guarded_wildForm :
    wildForm.Guarded #[1.0] #[] (wildForm.value #[1.0] #[]) ∧
      wildForm.Guarded #[1.0] #[] (wildForm.gap #[1.0] #[]) ∧
        wildForm.checkAt.run =
          some (.error (.layout .first (.width 1 2 18446744073709551615 2))) := by
  obtain ⟨hvalue, hgap, hcheck⟩ := SequenceForm.guarded_answers wildForm #[1.0] #[]
  have hmemory : wildForm.InMemory := by
    intro seat
    cases seat <;> decide
  exact ⟨hvalue, hgap, hcheck hmemory⟩

end ExtensiveForm
