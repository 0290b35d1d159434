import ExtensiveForm.Proofs.SequenceTree.Indices

/-!
The layout of a tree told for all sets at once. Main statement: the check, which goes from each set to the
next, passes exactly if the offsets are the prefix sums of the widths and each parent is the empty sequence
or lies in the block of some earlier set.
-/

set_option autoImplicit false

namespace ExtensiveForm.SequenceTree

variable {L A : Type} {t : SequenceTree L A}

/-- The first place that the first so many sets leave free, if each takes one block after the other and
the empty sequence comes before all. -/
def free (t : SequenceTree L A) (k : Nat) : Nat :=
  1 + ((t.actions.toList.take k).map List.length).sum

@[simp] theorem free_zero (t : SequenceTree L A) : t.free 0 = 1 := by simp [free]

theorem free_succ {k : Nat} {actions : List A} (h : t.actions[k]? = some actions) :
    t.free (k + 1) = t.free k + actions.length := by
  have htake : t.actions.toList.take (k + 1) = t.actions.toList.take k ++ [actions] := by
    rw [List.take_add_one, Array.getElem?_toList, h, Option.toList_some]
  simp only [free, htake, List.map_append, List.sum_append, List.map_singleton, List.sum_singleton,
    Nat.add_assoc]

theorem free_mono {j k : Nat} (h : j ≤ k) : t.free j ≤ t.free k := by
  obtain ⟨n, rfl⟩ := Nat.exists_eq_add_of_le h
  simp only [free, List.take_add, List.map_append, List.sum_append]
  omega

def InBlock (t : SequenceTree L A) (k s : Nat) : Prop :=
  ∃ start stop, t.block? k = some (start, stop) ∧ start ≤ s ∧ s < stop

theorem block?_eq_some_iff {k start stop : Nat} :
    t.block? k = some (start, stop) ↔ t.offset[k]? = some start ∧ t.offset[k + 1]? = some stop := by
  simp [block?, Option.bind_eq_some_iff]

theorem IsSet.inBlock {k parent start a : Nat} {label : L} {actions : List A}
    (hk : t.IsSet k parent start label actions) (ha : a < actions.length) :
    t.InBlock k (start + a) :=
  ⟨start, _, block?_eq_some_iff.mpr ⟨hk.start_eq, hk.stop_eq⟩, Nat.le_add_right _ _,
    Nat.add_lt_add_left ha start⟩

/-- As many entries as sets in each array and one offset more, offsets that are the prefix sums of the
widths, no set without actions, and no parent that is neither the empty sequence nor a place in an earlier
block. -/
structure Tiled (t : SequenceTree L A) : Prop where
  offset_size : t.offset.size = t.size + 1
  label_size : t.label.size = t.size
  actions_size : t.actions.size = t.size
  offset_eq : ∀ k ≤ t.size, t.offset[k]? = some (t.free k)
  actions_ne_nil : ∀ actions ∈ t.actions, actions ≠ []
  parent : ∀ (k p : Nat), t.parent[k]? = some p → p = 0 ∨ ∃ j < k, t.InBlock j p

theorem checkSets_eq_ok {i start : Nat} {parents stops : List Nat} {actions : List (List A)}
    (h : ∀ (k p a b : Nat) (as : List A), parents[k]? = some p → (start :: stops)[k]? = some a →
      stops[k]? = some b → actions[k]? = some as → as ≠ [] ∧ b = a + as.length ∧ p < a) :
    checkSets i start parents stops actions = .ok () := by
  induction parents generalizing i start stops actions with
  | nil => rw [checkSets]; simp
  | cons p parents ih =>
    cases stops with
    | nil => rw [checkSets]; simp
    | cons b stops =>
      cases actions with
      | nil => rw [checkSets]; simp
      | cons as actions =>
        obtain ⟨hne, hstop, hlt⟩ := h 0 p start b as rfl rfl rfl rfl
        have hset : checkSet i p start b as.length = .ok () :=
          checkSet_eq_ok_iff.mpr ⟨by simpa using hne, hstop, hlt⟩
        rw [checkSets, hset]
        exact ih fun k => h (k + 1)

theorem Tiled.lt_free (ht : t.Tiled) {k p : Nat} (hp : t.parent[k]? = some p) : p < t.free k := by
  have hk : k < t.size := (Array.getElem?_eq_some_iff.mp hp).1
  rcases ht.parent k p hp with rfl | ⟨j, hj, start, stop, hblock, -, hstop⟩
  · exact Nat.lt_of_lt_of_le Nat.zero_lt_one (free_zero t ▸ free_mono (Nat.zero_le k))
  · obtain ⟨-, hnext⟩ := block?_eq_some_iff.mp hblock
    cases hnext.symm.trans (ht.offset_eq (j + 1) (by omega))
    exact Nat.lt_of_lt_of_le hstop (free_mono hj)

theorem Tiled.check_eq_ok (ht : t.Tiled) : t.check = .ok () := by
  have hstart : t.offset[0]? = some 1 := free_zero t ▸ ht.offset_eq 0 (Nat.zero_le _)
  have hcons : t.offset.toList = 1 :: t.offset.toList.drop 1 := toList_drop_eq_cons hstart
  unfold check
  simp only [ht.offset_size, ht.label_size, ht.actions_size]
  rw [if_neg (by simp), hcons]
  simp only [ne_eq, not_true_eq_false, if_false]
  refine checkSets_eq_ok fun k p a b as hp ha hb has => ?_
  rw [← hcons, Array.getElem?_toList] at ha
  rw [List.getElem?_drop, Array.getElem?_toList, Nat.add_comm] at hb
  rw [Array.getElem?_toList] at hp has
  have hk : k < t.size := (Array.getElem?_eq_some_iff.mp hp).1
  cases ha.symm.trans (ht.offset_eq k hk.le)
  cases hb.symm.trans (ht.offset_eq (k + 1) hk)
  exact ⟨ht.actions_ne_nil as (Array.mem_of_getElem? has), free_succ has, ht.lt_free hp⟩

theorem Ordered.offset_eq (ht : t.Ordered) {k : Nat} (hk : k ≤ t.size) :
    t.offset[k]? = some (t.free k) := by
  induction k with
  | zero => rw [free_zero, ht.start_eq]
  | succ k ih =>
    obtain ⟨parent, start, label, actions, hset, -, -⟩ := ht.exists_isSet k hk
    cases hset.start_eq.symm.trans (ih (Nat.le_of_succ_le hk))
    rw [hset.stop_eq, free_succ hset.actions_eq]

theorem Valid.eq_zero_or_inBlock (ht : t.Valid) {k p start : Nat} {label : L} {actions : List A}
    (hk : t.IsSet k p start label actions) : p = 0 ∨ ∃ j < k, t.InBlock j p := by
  obtain ⟨hlt, -, hle⟩ := ht.isSet_bounds hk
  obtain ⟨h, hh⟩ := ht.exists_ownHistory (show p < t.sequences by omega)
  cases hh with
  | empty => exact Or.inl rfl
  | @move j _ start' a label' actions' h' hj ha _ =>
    exact Or.inr ⟨j, (ht.add_lt_offset_iff hj ha hk.start_eq).mp hlt, hj.inBlock ha⟩

theorem Valid.tiled (ht : t.Valid) : t.Tiled := by
  have ho := ht.ordered
  refine ⟨ho.offset_size, ho.label_size, ho.actions_size, fun k hk => ho.offset_eq hk, ?_, ?_⟩
  · intro actions ha
    obtain ⟨k, hk⟩ := Array.mem_iff_getElem?.mp ha
    have hlt : k < t.size := ho.actions_size ▸ (Array.getElem?_eq_some_iff.mp hk).1
    obtain ⟨parent, start, label, actions', hset, hne, -⟩ := ho.exists_isSet k hlt
    cases hk.symm.trans hset.actions_eq
    exact hne
  · intro k p hp
    obtain ⟨parent, start, label, actions, hset⟩ :=
      ht.exists_isSet (Array.getElem?_eq_some_iff.mp hp).1
    cases hp.symm.trans hset.parent_eq
    exact ht.eq_zero_or_inBlock hset

/-- A sequence lies in the block of a set, and this is the sequence that leads into the set. -/
def Above (t : SequenceTree L A) (p s : Nat) : Prop := ∃ k, t.InBlock k s ∧ t.parent[k]? = some p

theorem Tiled.lt_of_above (ht : t.Tiled) {p s : Nat} (h : t.Above p s) : p < s := by
  obtain ⟨k, ⟨start, stop, hblock, hstart, -⟩, hp⟩ := h
  have hk : k < t.size := (Array.getElem?_eq_some_iff.mp hp).1
  cases (block?_eq_some_iff.mp hblock).1.symm.trans (ht.offset_eq k hk.le)
  exact Nat.lt_of_lt_of_le (ht.lt_free hp) hstart

theorem OwnHistory.reflTransGen_above {s : Nat} {h : History L} (hs : t.OwnHistory s h) :
    Relation.ReflTransGen t.Above 0 s := by
  induction hs with
  | empty => exact .refl
  | @move k parent start a label actions h hk ha _ ih =>
    exact ih.tail ⟨k, hk.inBlock ha, hk.parent_eq⟩

theorem check_eq_ok_iff_tiled : t.check = .ok () ↔ t.Tiled :=
  ⟨fun h => (check_eq_ok_iff.mp h).tiled, Tiled.check_eq_ok⟩

end ExtensiveForm.SequenceTree
