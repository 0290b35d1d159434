import ExtensiveForm.SequenceTree.Basic
import ExtensiveForm.Proofs.Positions
import ExtensiveForm.Proofs.Traversal

/-!
Trees that grow from the empty one set by set, each set taking the next free block and hanging below
a sequence that is already there. Main statements: such a tree passes its check, its blocks are
disjoint, and each of its sequences stands for one own history.
-/

set_option autoImplicit false

namespace ExtensiveForm.SequenceTree

variable {L A : Type}

def append (t : SequenceTree L A) (parent : Nat) (label : L) (actions : List A) :
    SequenceTree L A :=
  ⟨t.parent.push parent, t.offset.push (t.sequences + actions.length), t.label.push label,
    t.actions.push actions⟩

inductive Valid : SequenceTree L A → Prop where
  | empty : Valid .empty
  | append {t : SequenceTree L A} {parent : Nat} {label : L} {actions : List A} (ht : Valid t)
      (hp : parent < t.sequences) (ha : actions ≠ []) : Valid (t.append parent label actions)

section Append

variable (t : SequenceTree L A) (parent : Nat) (label : L) (actions : List A)

@[simp] theorem size_append : (t.append parent label actions).size = t.size + 1 := by
  simp [append, size]

@[simp] theorem sequences_append :
    (t.append parent label actions).sequences = t.sequences + actions.length := by
  simp [append, sequences]

@[simp] theorem actionCount_append :
    (t.append parent label actions).actionCount = t.actionCount + actions.length := by
  simp [append, actionCount]

@[simp] theorem label_append : (t.append parent label actions).label = t.label.push label := rfl

@[simp] theorem actions_append :
    (t.append parent label actions).actions = t.actions.push actions := rfl

@[simp] theorem parent_append : (t.append parent label actions).parent = t.parent.push parent := rfl

@[simp] theorem offset_append : (t.append parent label actions).offset =
    t.offset.push (t.sequences + actions.length) := rfl

end Append

structure Fits (t : SequenceTree L A) : Prop where
  offset_size : t.offset.size = t.size + 1
  label_size : t.label.size = t.size
  actions_size : t.actions.size = t.size
  last : t.offset[t.size]? = some t.sequences
  sequences_eq : t.sequences = 1 + t.actionCount

theorem Valid.fits {t : SequenceTree L A} (ht : t.Valid) : t.Fits := by
  induction ht with
  | empty => constructor <;> simp [SequenceTree.empty, size, sequences, actionCount]
  | @append t parent label actions ht hp ha ih =>
    obtain ⟨ho, hl, has, hlast, hs⟩ := ih
    constructor
    · simp [ho]
    · simp [hl]
    · simp [has]
    · rw [offset_append, size_append, sequences_append, ← ho, Array.getElem?_push_size]
    · simp [hs, Nat.add_assoc]

theorem Valid.sequences_pos {t : SequenceTree L A} (ht : t.Valid) : 0 < t.sequences := by
  rw [ht.fits.sequences_eq]
  omega

structure IsSet (t : SequenceTree L A) (k parent start : Nat) (label : L) (actions : List A) :
    Prop where
  parent_eq : t.parent[k]? = some parent
  label_eq : t.label[k]? = some label
  actions_eq : t.actions[k]? = some actions
  start_eq : t.offset[k]? = some start
  stop_eq : t.offset[k + 1]? = some (start + actions.length)

section IsSet

variable {t : SequenceTree L A} {k parent start : Nat} {label : L} {actions : List A}

theorem IsSet.lt_size (h : t.IsSet k parent start label actions) : k < t.size :=
  (Array.getElem?_eq_some_iff.mp h.parent_eq).1

theorem not_isSet_empty : ¬(empty : SequenceTree L A).IsSet k parent start label actions := by
  intro h
  exact absurd h.lt_size (Nat.not_lt_zero k)

theorem isSet_append_iff (ht : t.Fits) {p : Nat} {l : L} {as : List A} :
    (t.append p l as).IsSet k parent start label actions ↔
      t.IsSet k parent start label actions ∨
        k = t.size ∧ parent = p ∧ start = t.sequences ∧ label = l ∧ actions = as := by
  constructor
  · intro h
    have hk := h.lt_size
    rw [size_append] at hk
    obtain ⟨hp, hl, ha, hs, he⟩ := h
    simp only [parent_append, label_append, actions_append, offset_append, Array.getElem?_push,
      ht.offset_size, ht.label_size, ht.actions_size, Nat.add_right_cancel_iff] at hp hl ha hs he
    by_cases hlt : k < t.size
    · have hne : k ≠ t.size := by omega
      have hpk : k ≠ t.parent.size := hne
      rw [if_neg hpk] at hp
      rw [if_neg hne] at hl ha he
      rw [if_neg (by omega)] at hs
      exact Or.inl ⟨hp, hl, ha, hs, he⟩
    · have hkeq : k = t.size := by omega
      subst hkeq
      rw [if_neg (by omega), ht.last] at hs
      rw [if_pos rfl] at hl ha
      simp only [size, if_true, Option.some.injEq] at hp hl ha hs
      exact Or.inr ⟨rfl, hp.symm, hs.symm, hl.symm, ha.symm⟩
  · rintro (h | ⟨rfl, rfl, rfl, rfl, rfl⟩)
    · have hk := h.lt_size
      obtain ⟨hp, hl, ha, hs, he⟩ := h
      have hpk : k ≠ t.parent.size := Nat.ne_of_lt hk
      constructor
      · rw [parent_append, Array.getElem?_push, if_neg hpk, hp]
      · rw [label_append, Array.getElem?_push, ht.label_size, if_neg (by omega), hl]
      · rw [actions_append, Array.getElem?_push, ht.actions_size, if_neg (by omega), ha]
      · rw [offset_append, Array.getElem?_push, ht.offset_size, if_neg (by omega), hs]
      · rw [offset_append, Array.getElem?_push, ht.offset_size, if_neg (by omega), he]
    · constructor
      · simp [size]
      · simp [← ht.label_size]
      · simp [← ht.actions_size]
      · rw [offset_append, Array.getElem?_push, ht.offset_size, if_neg (by omega), ht.last]
      · simp [← ht.offset_size]

theorem IsSet.append (ht : t.Fits) (h : t.IsSet k parent start label actions) (p : Nat) (l : L)
    (as : List A) : (t.append p l as).IsSet k parent start label actions :=
  (isSet_append_iff ht).mpr (Or.inl h)

theorem Fits.isSet_append (ht : t.Fits) (p : Nat) (l : L) (as : List A) :
    (t.append p l as).IsSet t.size p t.sequences l as :=
  (isSet_append_iff ht).mpr (Or.inr ⟨rfl, rfl, rfl, rfl, rfl⟩)

theorem Valid.isSet_bounds (ht : t.Valid) (h : t.IsSet k parent start label actions) :
    parent < start ∧ actions ≠ [] ∧ start + actions.length ≤ t.sequences := by
  induction ht with
  | empty => exact absurd h not_isSet_empty
  | append ht hp ha ih =>
    rw [sequences_append]
    rcases (isSet_append_iff ht.fits).mp h with h | ⟨-, rfl, rfl, rfl, rfl⟩
    · obtain ⟨hps, hne, hle⟩ := ih h
      exact ⟨hps, hne, by omega⟩
    · exact ⟨hp, ha, Nat.le_refl _⟩

theorem Valid.exists_isSet (ht : t.Valid) (hk : k < t.size) :
    ∃ parent start label actions, t.IsSet k parent start label actions := by
  induction ht with
  | empty => exact absurd hk (Nat.not_lt_zero k)
  | @append t p l as ht hp ha ih =>
    rw [size_append] at hk
    by_cases hlt : k < t.size
    · obtain ⟨parent, start, label, actions, h⟩ := ih hlt
      exact ⟨parent, start, label, actions, h.append ht.fits p l as⟩
    · have hkeq : k = t.size := by omega
      exact ⟨p, t.sequences, l, as, hkeq ▸ ht.fits.isSet_append p l as⟩

theorem Valid.exists_isSet_iff (ht : t.Valid) :
    (∃ parent start, t.IsSet k parent start label actions) ↔
      t.label[k]? = some label ∧ t.actions[k]? = some actions := by
  constructor
  · intro h
    obtain ⟨parent, start, h⟩ := h
    exact ⟨h.label_eq, h.actions_eq⟩
  · intro h
    have hk : k < t.size := ht.fits.label_size ▸ (Array.getElem?_eq_some_iff.mp h.1).1
    obtain ⟨parent, start, l, as, hset⟩ := ht.exists_isSet hk
    cases h.1.symm.trans hset.label_eq
    cases h.2.symm.trans hset.actions_eq
    exact ⟨parent, start, hset⟩

theorem Valid.block_le (ht : t.Valid) {k' parent' start' : Nat} {label' : L} {actions' : List A}
    (h : t.IsSet k parent start label actions) (h' : t.IsSet k' parent' start' label' actions')
    (hk : k < k') : start + actions.length ≤ start' := by
  induction ht with
  | empty => exact absurd h not_isSet_empty
  | append ht hp ha ih =>
    rcases (isSet_append_iff ht.fits).mp h with h | ⟨rfl, -⟩
    · rcases (isSet_append_iff ht.fits).mp h' with h' | ⟨-, -, rfl, -, -⟩
      · exact ih h h'
      · exact (ht.isSet_bounds h).2.2
    · have hlt := h'.lt_size
      rw [size_append] at hlt
      omega

theorem Valid.set_unique (ht : t.Valid) {k' parent' start' a a' : Nat} {label' : L}
    {actions' : List A} (h : t.IsSet k parent start label actions)
    (h' : t.IsSet k' parent' start' label' actions') (ha : a < actions.length)
    (ha' : a' < actions'.length) (he : start + a = start' + a') : k = k' := by
  rcases Nat.lt_trichotomy k k' with hk | hk | hk
  · have hle := ht.block_le h h' hk
    omega
  · exact hk
  · have hle := ht.block_le h' h hk
    omega

theorem Valid.position_unique (ht : t.Valid) {k' stop : Nat}
    (h : t.IsSet k parent start label actions) (hs : t.offset[k']? = some start)
    (he : t.offset[k' + 1]? = some stop) : k' = k := by
  have hk : k' < t.size := by
    have hlt := (Array.getElem?_eq_some_iff.mp he).1
    have hsize := ht.fits.offset_size
    omega
  obtain ⟨parent', start', label', actions', h'⟩ := ht.exists_isSet hk
  cases hs.symm.trans h'.start_eq
  have hpos := List.length_pos_of_ne_nil (ht.isSet_bounds h).2.1
  have hpos' := List.length_pos_of_ne_nil (ht.isSet_bounds h').2.1
  exact ht.set_unique h' h hpos' hpos rfl

/-- The sequences below an offset are those of the sets before its position. -/
theorem Valid.add_lt_offset_iff (ht : t.Valid) (h : t.IsSet k parent start label actions)
    {x a bound : Nat} (ha : a < actions.length) (hx : t.offset[x]? = some bound) :
    start + a < bound ↔ k < x := by
  have hk := h.lt_size
  have hsize := ht.fits.offset_size
  have hlt := (Array.getElem?_eq_some_iff.mp hx).1
  by_cases hxs : x < t.size
  · obtain ⟨parent', start', label', actions', h'⟩ := ht.exists_isSet hxs
    cases hx.symm.trans h'.start_eq
    rcases Nat.lt_trichotomy k x with hkx | rfl | hkx
    · have hle := ht.block_le h h' hkx
      omega
    · cases h.start_eq.symm.trans h'.start_eq
      omega
    · have hle := ht.block_le h' h hkx
      omega
  · have hxe : x = t.size := by omega
    subst hxe
    cases hx.symm.trans ht.fits.last
    have hle := (ht.isSet_bounds h).2.2
    omega

theorem Valid.eq_of_isSet {t' : SequenceTree L A} (ht : t.Valid) (ht' : t'.Valid)
    (hsize : t.size = t'.size)
    (h : ∀ {k parent start : Nat} {label : L} {actions : List A},
      t.IsSet k parent start label actions → t'.IsSet k parent start label actions) : t = t' := by
  induction ht generalizing t' with
  | empty =>
    cases ht' with
    | empty => rfl
    | append => simp at hsize
  | @append t parent label actions ht hp ha ih =>
    cases ht' with
    | empty => simp at hsize
    | @append t' parent' label' actions' ht' hp' ha' =>
      rw [size_append, size_append, Nat.add_right_cancel_iff] at hsize
      have hrest : t = t' := by
        refine ih ht' hsize fun {k p s l as} hset => ?_
        rcases (isSet_append_iff ht'.fits).mp (h (hset.append ht.fits parent label actions)) with
          hset' | ⟨hk, -⟩
        · exact hset'
        · have hlt := hset.lt_size
          omega
      have hlast := h (ht.fits.isSet_append parent label actions)
      rcases (isSet_append_iff ht'.fits).mp hlast with hset' | ⟨-, rfl, -, rfl, rfl⟩
      · have hlt := hset'.lt_size
        omega
      · rw [hrest]

end IsSet

/-- The own moves up to and including a sequence, found along the parents. -/
inductive OwnHistory (t : SequenceTree L A) : Nat → History L → Prop where
  | empty : OwnHistory t 0 []
  | move {k parent start a : Nat} {label : L} {actions : List A} {h : History L}
      (hk : t.IsSet k parent start label actions) (ha : a < actions.length)
      (hp : OwnHistory t parent h) : OwnHistory t (start + a) (h ++ [(label, a)])

section OwnHistory

variable {t : SequenceTree L A} {s : Nat} {h : History L}

theorem OwnHistory.append (ht : t.Fits) (hs : t.OwnHistory s h) (parent : Nat) (label : L)
    (actions : List A) : (t.append parent label actions).OwnHistory s h := by
  induction hs with
  | empty => exact .empty
  | move hk ha hp ih => exact .move (hk.append ht parent label actions) ha ih

theorem Valid.ownHistory_lt (ht : t.Valid) (hs : t.OwnHistory s h) : s < t.sequences := by
  cases hs with
  | empty => exact ht.sequences_pos
  | move hk ha hp =>
    have hle := (ht.isSet_bounds hk).2.2
    omega

theorem Valid.exists_ownHistory (ht : t.Valid) (hs : s < t.sequences) : ∃ h, t.OwnHistory s h := by
  induction ht generalizing s with
  | empty =>
    have hz : s = 0 := Nat.lt_one_iff.mp hs
    subst hz
    exact ⟨[], .empty⟩
  | @append t parent label actions ht hp ha ih =>
    rw [sequences_append] at hs
    by_cases hlt : s < t.sequences
    · obtain ⟨h, hh⟩ := ih hlt
      exact ⟨h, hh.append ht.fits parent label actions⟩
    · obtain ⟨h, hh⟩ := ih hp
      have hset := ht.fits.isSet_append parent label actions
      have hmove := OwnHistory.move hset (show s - t.sequences < actions.length by omega)
        (hh.append ht.fits parent label actions)
      rw [Nat.add_sub_cancel' (by omega)] at hmove
      exact ⟨_, hmove⟩

theorem Valid.ownHistory_unique (ht : t.Valid) {h' : History L} (hs : t.OwnHistory s h)
    (hs' : t.OwnHistory s h') : h = h' := by
  induction hs generalizing h' with
  | empty =>
    generalize he : 0 = s at hs'
    cases hs' with
    | empty => rfl
    | move hk ha hp =>
      have hlt := (ht.isSet_bounds hk).1
      omega
  | @move k parent start a label actions h hk ha hp ih =>
    generalize he : start + a = s at hs'
    cases hs' with
    | empty =>
      have hlt := (ht.isSet_bounds hk).1
      omega
    | @move k' parent' start' a' label' actions' h' hk' ha' hp' =>
      have hkk := ht.set_unique hk hk' ha ha' he
      subst hkk
      cases hk.parent_eq.symm.trans hk'.parent_eq
      cases hk.label_eq.symm.trans hk'.label_eq
      cases hk.start_eq.symm.trans hk'.start_eq
      rw [ih hp', Nat.add_left_cancel he]

end OwnHistory

section Check

theorem checkSets_append {i start : Nat} {parents stops : List Nat} {actions : List (List A)}
    {parent stop : Nat} {as : List A} (hs : stops.length = parents.length)
    (ha : actions.length = parents.length) :
    checkSets i start (parents ++ [parent]) (stops ++ [stop]) (actions ++ [as]) =
      match checkSets i start parents stops actions with
      | .error e => .error e
      | .ok () => checkSet (i + parents.length) parent (stops.getLast?.getD start) stop as.length := by
  induction parents generalizing i start stops actions with
  | nil =>
    cases List.length_eq_zero_iff.mp hs
    cases List.length_eq_zero_iff.mp ha
    simp only [List.nil_append, checkSets, List.length_nil, Nat.add_zero, List.getLast?_nil,
      Option.getD_none]
    cases checkSet i parent start stop as.length <;> rfl
  | cons p parents ih =>
    obtain ⟨e, stops, rfl⟩ := List.exists_cons_of_length_eq_add_one hs
    obtain ⟨as', actions, rfl⟩ := List.exists_cons_of_length_eq_add_one ha
    simp only [List.cons_append, checkSets]
    cases checkSet i p start e as'.length with
    | error fault => rfl
    | ok _ =>
      simp only [List.length_cons, Nat.add_right_cancel_iff] at hs ha
      simp only [ih hs ha, List.length_cons, List.getLast?_cons, Option.getD_some]
      rw [Nat.add_right_comm, Nat.add_assoc]

theorem Valid.checkSets {t : SequenceTree L A} (ht : t.Valid) :
    ∃ stops, t.offset.toList = 1 :: stops ∧ stops.getLast?.getD 1 = t.sequences ∧
      SequenceTree.checkSets 0 1 t.parent.toList stops t.actions.toList = .ok () := by
  induction ht with
  | empty => exact ⟨[], rfl, rfl, rfl⟩
  | @append t parent label actions ht hp ha ih =>
    obtain ⟨stops, ho, hl, hc⟩ := ih
    have hsize := ht.fits.offset_size
    rw [← Array.length_toList, ho, List.length_cons, Nat.add_right_cancel_iff] at hsize
    refine ⟨stops ++ [t.sequences + actions.length], by simp [ho], by simp, ?_⟩
    rw [parent_append, actions_append, Array.toList_push, Array.toList_push,
      checkSets_append (by simpa [size] using hsize) (by simpa [size] using ht.fits.actions_size),
      hc, hl]
    have hlen : actions.length ≠ 0 := by simpa using ha
    simp [checkSet, hlen, hp]

theorem Valid.check_eq_ok {t : SequenceTree L A} (ht : t.Valid) : t.check = .ok () := by
  obtain ⟨stops, ho, -, hc⟩ := ht.checkSets
  have hf := ht.fits
  simp [check, hf.offset_size, hf.label_size, hf.actions_size, ho, hc]

end Check

end ExtensiveForm.SequenceTree
