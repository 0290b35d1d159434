import ExtensiveForm.Proofs.SequenceTree.Valid

set_option autoImplicit false

namespace ExtensiveForm.SequenceTree

variable {L A : Type}

theorem checkSet_eq_ok_iff {i parent start stop n : Nat} :
    checkSet i parent start stop n = .ok () ↔ n ≠ 0 ∧ stop = start + n ∧ parent < start := by
  unfold checkSet
  split
  · simp only [reduceCtorEq, false_iff]
    omega
  · split
    · simp only [reduceCtorEq, false_iff]
      omega
    · simp only [true_iff]
      omega

/-- The last set is checked last, against the tree of the sets before it. -/
theorem valid_of_checkSets {parents stops : List Nat} {labels : List L} {actions : List (List A)}
    (hs : stops.length = parents.length) (hl : labels.length = parents.length)
    (ha : actions.length = parents.length)
    (h : SequenceTree.checkSets 0 1 parents stops actions = .ok ()) :
    Valid ⟨parents.toArray, (1 :: stops).toArray, labels.toArray, actions.toArray⟩ := by
  induction parents using List.reverseRecOn generalizing stops labels actions with
  | nil =>
    cases List.length_eq_zero_iff.mp hs
    cases List.length_eq_zero_iff.mp hl
    cases List.length_eq_zero_iff.mp ha
    exact .empty
  | append_singleton parents parent ih =>
    rcases List.eq_nil_or_concat' stops with rfl | ⟨stops, stop, rfl⟩
    · simp at hs
    rcases List.eq_nil_or_concat' labels with rfl | ⟨labels, label, rfl⟩
    · simp at hl
    rcases List.eq_nil_or_concat' actions with rfl | ⟨actions, as, rfl⟩
    · simp at ha
    simp only [List.length_append, List.length_singleton, Nat.add_right_cancel_iff] at hs hl ha
    rw [checkSets_append hs ha] at h
    split at h
    · cases h
    · rename_i hc
      obtain ⟨hne, hstop, hlt⟩ := checkSet_eq_ok_iff.mp h
      have ht := ih hs hl ha hc
      have hseq : SequenceTree.sequences (L := L) (A := A)
          ⟨parents.toArray, (1 :: stops).toArray, labels.toArray, actions.toArray⟩ =
            stops.getLast?.getD 1 := by
        simp [sequences, List.getLast?_cons]
      have has : as ≠ [] := fun hnil => hne (by rw [hnil, List.length_nil])
      have hvalid : (append _ parent label as).Valid := ht.append (hseq ▸ hlt) has
      rw [append, hseq, ← hstop] at hvalid
      simpa using hvalid

theorem check_eq_ok_iff {t : SequenceTree L A} : t.check = .ok () ↔ t.Valid := by
  refine ⟨fun h => ?_, Valid.check_eq_ok⟩
  unfold check at h
  simp only at h
  split at h
  · cases h
  · rename_i hsize
    simp only [ne_eq, not_or, Decidable.not_not] at hsize
    obtain ⟨ho, hl, ha⟩ := hsize
    obtain ⟨parent, offset, label, actions⟩ := t
    obtain ⟨offset⟩ := offset
    cases offset with
    | nil => cases h
    | cons start stops =>
      simp only at h
      split at h
      · cases h
      · rename_i hstart
        rw [Decidable.not_not] at hstart
        subst hstart
        simp only [size, List.size_toArray, List.length_cons, Nat.add_right_cancel_iff] at ho hl ha
        exact valid_of_checkSets (by simpa using ho) (by simpa using hl) (by simpa using ha) h

/-- The rules of a layout: as many entries as there are sets in each array, offsets that start at 1 and
grow by each set's actions, one at least, and parents before their sets. -/
structure Ordered (t : SequenceTree L A) : Prop where
  offset_size : t.offset.size = t.size + 1
  label_size : t.label.size = t.size
  actions_size : t.actions.size = t.size
  start_eq : t.offset[0]? = some 1
  exists_isSet : ∀ i < t.size, ∃ parent start label actions,
    t.IsSet i parent start label actions ∧ actions ≠ [] ∧ parent < start

theorem Valid.ordered {t : SequenceTree L A} (ht : t.Valid) : t.Ordered := by
  obtain ⟨ho, hl, ha, -, -⟩ := ht.fits
  refine ⟨ho, hl, ha, ?_, fun i hi => ?_⟩
  · obtain ⟨stops, hstops, -⟩ := ht.checkSets
    simp [← Array.getElem?_toList, hstops]
  · obtain ⟨parent, start, label, actions, hset⟩ := ht.exists_isSet hi
    obtain ⟨hp, hne, -⟩ := ht.isSet_bounds hset
    exact ⟨parent, start, label, actions, hset, hne, hp⟩

end ExtensiveForm.SequenceTree
