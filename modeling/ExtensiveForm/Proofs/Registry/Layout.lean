import ExtensiveForm.Proofs.Registry.Preorder
import ExtensiveForm.Proofs.SequenceTree.Valid

set_option autoImplicit false

namespace ExtensiveForm.Registry

variable {L A : Type} [BEq L] [Hashable L]

def width (r : Registry L A) (i : Nat) : Nat := (r.infosets[i]?.map (·.actions.length)).getD 0

theorem width_eq {r : Registry L A} {i : Nat} {info : Infoset L A}
    (h : r.infosets[i]? = some info) : r.width i = info.actions.length := by
  simp [width, h]

theorem getElem?_placeFrom_of_not_mem {r : Registry L A} {order : List Nat} {next i : Nat}
    {offsets : Array Nat} (h : i ∉ order) : (r.placeFrom order next offsets)[i]? = offsets[i]? := by
  induction order generalizing next offsets with
  | nil => rfl
  | cons j rest ih =>
    obtain ⟨hij, hrest⟩ := not_or.mp (mt List.mem_cons.mpr h)
    rw [placeFrom, ih hrest, Array.getElem?_setIfInBounds_ne (Ne.symm hij)]

theorem getElem?_placeFrom {r : Registry L A} {pre post : List Nat} {next i : Nat}
    {offsets : Array Nat} (h : (pre ++ i :: post).Nodup) (hi : i < offsets.size) :
    (r.placeFrom (pre ++ i :: post) next offsets)[i]? = some (next + (pre.map r.width).sum) := by
  induction pre generalizing next offsets with
  | nil =>
    have hn : i ∉ post := (List.nodup_cons.mp h).1
    rw [List.nil_append, placeFrom, getElem?_placeFrom_of_not_mem hn]
    simp [hi]
  | cons j pre ih =>
    rw [List.cons_append, placeFrom, ih (List.nodup_cons.mp h).2 (by simpa using hi)]
    simp [width, Nat.add_assoc]

/-- A set's offset is where the blocks of all sets before it end. -/
theorem offset_eq {r : Registry L A} {pre post : List Nat} {i : Nat}
    (h : r.preorder = pre ++ i :: post) : r.offsets[i]? = some (1 + (pre.map r.width).sum) := by
  have hn := nodup_preorder r
  have hmem : i ∈ r.preorder := by simp [h]
  obtain ⟨info, hinfo⟩ := exists_of_mem_preorder hmem
  have hi := (Array.getElem?_eq_some_iff.mp hinfo).1
  unfold offsets
  rw [h] at hn ⊢
  exact getElem?_placeFrom hn (by simpa [size] using hi)

def treeOf (r : Registry L A) (order : List Nat) : SequenceTree L A :=
  order.foldl
    (fun t i =>
      match r.infosets[i]?, r.offsets[i]? with
      | some info, some start => appendSet r.offsets t info start
      | _, _ => t)
    SequenceTree.empty

structure LaidOut (r : Registry L A) (order : List Nat) (t : SequenceTree L A) : Prop where
  valid : t.Valid
  sequences_eq : t.sequences = 1 + (order.map r.width).sum
  size_eq : t.size = order.length
  isSet : ∀ {k i : Nat} {info : Infoset L A}, order[k]? = some i → r.infosets[i]? = some info →
    ∃ parent start, r.offsets[i]? = some start ∧ info.parent.flat? r.offsets = some parent ∧
      t.IsSet k parent start info.label info.actions

theorem Sound.parent_lt {r : Registry L A} (hr : r.Sound) {pre post : List Nat} {i : Nat}
    {info : Infoset L A} (h : r.preorder = pre ++ i :: post) (hi : r.infosets[i]? = some info) :
    ∃ parent, info.parent.flat? r.offsets = some parent ∧
      parent < 1 + (pre.map r.width).sum := by
  cases hp : info.parent with
  | empty => exact ⟨0, rfl, by omega⟩
  | move j a =>
    -- the set of the move comes earlier in the preorder, so its block ends before this one starts
    have hj := mem_of_preorder_eq h hi hp
    obtain ⟨pre₁, pre₂, rfl⟩ := List.append_of_mem hj
    rw [List.append_assoc, List.cons_append] at h
    obtain ⟨-, past, hpast⟩ := hr.parent hi j a hp
    have ha : a < r.width j := by
      cases hpast with
      | move hj ha _ => exact width_eq hj ▸ ha
    refine ⟨1 + (pre₁.map r.width).sum + a, by simp [offset_eq h], ?_⟩
    simp only [List.map_append, List.map_cons, List.sum_append, List.sum_cons]
    omega

theorem Sound.laidOut {r : Registry L A} (hr : r.Sound) {pre post : List Nat}
    (h : r.preorder = pre ++ post) : r.LaidOut pre (r.treeOf pre) := by
  induction pre using List.reverseRecOn generalizing post with
  | nil => exact ⟨.empty, rfl, rfl, fun hk => by simp at hk⟩
  | append_singleton pre i ih =>
    rw [List.append_assoc, List.singleton_append] at h
    obtain ⟨hvalid, hseq, hsize, hset⟩ := ih h
    obtain ⟨info, hinfo⟩ := exists_of_mem_preorder (r := r) (i := i) (by simp [h])
    obtain ⟨parent, hparent, hlt⟩ := hr.parent_lt h hinfo
    have hoff := offset_eq h
    have htree : r.treeOf (pre ++ [i]) =
        (r.treeOf pre).append parent info.label info.actions := by
      unfold treeOf at hseq ⊢
      rw [List.foldl_append, List.foldl_cons, List.foldl_nil]
      simp only [hinfo, hoff]
      rw [← hseq]
      simp [appendSet, hparent, SequenceTree.append]
    rw [htree]
    refine ⟨hvalid.append (hseq ▸ hlt) (hr.actions_ne_nil hinfo), ?_, by simp [hsize], ?_⟩
    · simp [hseq, width_eq hinfo, Nat.add_assoc]
    · intro k j x hk hx
      rw [List.getElem?_append] at hk
      split at hk
      · obtain ⟨p, start, hs, hp, hkset⟩ := hset hk hx
        exact ⟨p, start, hs, hp, hkset.append hvalid.fits parent info.label info.actions⟩
      · have hk0 : k = pre.length := by
          by_contra hne
          rw [List.getElem?_eq_none (by simp; omega)] at hk
          cases hk
        subst hk0
        simp only [Nat.sub_self, List.getElem?_cons_zero, Option.some.injEq] at hk
        subst hk
        cases hinfo.symm.trans hx
        refine ⟨parent, _, hoff, hparent, ?_⟩
        rw [← hseq, ← hsize]
        exact hvalid.fits.isSet_append parent info.label info.actions

theorem Sound.layout {r : Registry L A} (hr : r.Sound) : r.LaidOut r.preorder r.layout.tree :=
  hr.laidOut (List.append_nil r.preorder).symm

theorem Sound.exists_isSet {r : Registry L A} (hr : r.Sound) {i : Nat} {info : Infoset L A}
    (hi : r.infosets[i]? = some info) :
    ∃ k parent start, r.offsets[i]? = some start ∧ info.parent.flat? r.offsets = some parent ∧
      r.layout.tree.IsSet k parent start info.label info.actions := by
  have hmem := hr.mem_preorder (Array.getElem?_eq_some_iff.mp hi).1
  obtain ⟨k, hk⟩ := List.mem_iff_getElem?.mp hmem
  obtain ⟨parent, start, h⟩ := hr.layout.isSet hk hi
  exact ⟨k, parent, start, h⟩

theorem Sound.exists_infoset {r : Registry L A} (hr : r.Sound) {k parent start : Nat} {label : L}
    {actions : List A} (h : r.layout.tree.IsSet k parent start label actions) :
    ∃ (i : Nat) (info : Infoset L A), r.infosets[i]? = some info ∧ info.label = label ∧
      info.actions = actions ∧ r.offsets[i]? = some start ∧
        info.parent.flat? r.offsets = some parent := by
  have hk := h.lt_size
  rw [hr.layout.size_eq] at hk
  obtain ⟨info, hinfo⟩ := exists_of_mem_preorder (List.getElem_mem hk)
  obtain ⟨p, s, hs, hp, hset⟩ := hr.layout.isSet (List.getElem?_eq_getElem hk) hinfo
  cases hset.parent_eq.symm.trans h.parent_eq
  cases hset.start_eq.symm.trans h.start_eq
  exact ⟨_, info, hinfo, Option.some.inj (hset.label_eq.symm.trans h.label_eq),
    Option.some.inj (hset.actions_eq.symm.trans h.actions_eq), hs, hp⟩

theorem Sound.exists_flat {r : Registry L A} (hr : r.Sound) {s : Sequence} {h : History L}
    (hs : r.OwnHistory s h) :
    ∃ n, s.flat? r.offsets = some n ∧ r.layout.tree.OwnHistory n h := by
  induction hs with
  | empty => exact ⟨0, rfl, .empty⟩
  | @move i a info h hi ha hp ih =>
    obtain ⟨k, parent, start, hstart, hparent, hset⟩ := hr.exists_isSet hi
    obtain ⟨n, hn, hh⟩ := ih
    cases hparent.symm.trans hn
    exact ⟨start + a, by simp [hstart], .move hset ha hh⟩

theorem Sound.exists_sequence {r : Registry L A} (hr : r.Sound) {n : Nat} {h : History L}
    (hn : r.layout.tree.OwnHistory n h) :
    ∃ s, r.OwnHistory s h ∧ s.flat? r.offsets = some n := by
  induction hn with
  | empty => exact ⟨.empty, .empty, rfl⟩
  | @move k parent start a label actions h hk ha hp ih =>
    obtain ⟨s, hs, -⟩ := ih
    obtain ⟨i, info, hi, rfl, rfl, hstart, hparent⟩ := hr.exists_infoset hk
    obtain ⟨past, hpast⟩ := hr.exists_parent hi
    obtain ⟨n, hn, hn'⟩ := hr.exists_flat hpast
    cases hparent.symm.trans hn
    cases hr.layout.valid.ownHistory_unique hn' hp
    exact ⟨.move i a, .move hi ha hpast, by simp [hstart]⟩

theorem Sound.flat_injective {r : Registry L A} (hr : r.Sound) {s s' : Sequence}
    {h h' : History L} {n : Nat} (hs : r.OwnHistory s h) (hs' : r.OwnHistory s' h')
    (hn : s.flat? r.offsets = some n) (hn' : s'.flat? r.offsets = some n) : s = s' := by
  obtain ⟨m, hm, hh⟩ := hr.exists_flat hs
  obtain ⟨m', hm', hh'⟩ := hr.exists_flat hs'
  cases hm.symm.trans hn
  cases hm'.symm.trans hn'
  cases hr.layout.valid.ownHistory_unique hh hh'
  exact hr.sequence_unique hs hs'

theorem Sound.place_unique {r : Registry L A} (hr : r.Sound) {n n' : Nat} {h : History L}
    (hn : r.layout.tree.OwnHistory n h) (hn' : r.layout.tree.OwnHistory n' h) : n = n' := by
  obtain ⟨s, hs, hflat⟩ := hr.exists_sequence hn
  obtain ⟨s', hs', hflat'⟩ := hr.exists_sequence hn'
  cases hr.sequence_unique hs hs'
  exact Option.some.inj (hflat.symm.trans hflat')

theorem Sound.set_unique {r : Registry L A} (hr : r.Sound) {k k' parent parent' start start' : Nat}
    {label : L} {actions actions' : List A}
    (h : r.layout.tree.IsSet k parent start label actions)
    (h' : r.layout.tree.IsSet k' parent' start' label actions') : k = k' := by
  obtain ⟨i, info, hi, hl, ha, hs, -⟩ := hr.exists_infoset h
  obtain ⟨i', info', hi', hl', ha', hs', -⟩ := hr.exists_infoset h'
  cases hr.index_unique hi hi' (hl.trans hl'.symm)
  cases hs.symm.trans hs'
  cases hi.symm.trans hi'
  subst ha
  subst ha'
  have hpos : 0 < info.actions.length := List.length_pos_of_ne_nil (hr.actions_ne_nil hi)
  exact hr.layout.valid.set_unique h h' hpos hpos rfl

theorem Sound.nodup_label {r : Registry L A} (hr : r.Sound) :
    r.layout.tree.label.toList.Nodup := by
  have hvalid := hr.layout.valid
  rw [List.Nodup, List.pairwise_iff_getElem]
  intro i j hi hj hij heq
  have hsize : r.layout.tree.label.toList.length = r.layout.tree.size := hvalid.fits.label_size
  obtain ⟨p, start, label, actions, hset⟩ := hvalid.exists_isSet (hsize ▸ hi)
  obtain ⟨p', start', label', actions', hset'⟩ := hvalid.exists_isSet (hsize ▸ hj)
  obtain ⟨_, hl⟩ := Array.getElem?_eq_some_iff.mp hset.label_eq
  obtain ⟨_, hl'⟩ := Array.getElem?_eq_some_iff.mp hset'.label_eq
  rw [Array.getElem_toList, Array.getElem_toList, hl, hl'] at heq
  subst heq
  have hij' := hr.set_unique hset hset'
  omega

end ExtensiveForm.Registry
