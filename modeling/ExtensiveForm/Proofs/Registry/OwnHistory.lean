import ExtensiveForm.Proofs.Positions
import ExtensiveForm.Proofs.Registry.Visits

/-!
A registered sequence stands for a whole own history, found by going from each set to the sequence
that leads to it. Main statements: a sequence has one history, a history has one sequence, and
entering a set keeps all that was registered before.
-/

set_option autoImplicit false

namespace ExtensiveForm.Registry

variable {L A : Type} [BEq L] [Hashable L]

inductive OwnHistory (r : Registry L A) : Sequence → History L → Prop where
  | empty : OwnHistory r .empty []
  | move {i a : Nat} {info : Infoset L A} {h : History L} (hi : r.infosets[i]? = some info)
      (ha : a < info.actions.length) (hp : OwnHistory r info.parent h) :
      OwnHistory r (.move i a) (h ++ [(info.label, a)])

theorem OwnHistory.unique {r : Registry L A} {s : Sequence} {h h' : History L}
    (hs : r.OwnHistory s h) (hs' : r.OwnHistory s h') : h = h' := by
  induction hs generalizing h' with
  | empty => cases hs'; rfl
  | move hi ha hp ih =>
    cases hs' with
    | move hi' ha' hp' =>
      cases hi.symm.trans hi'
      rw [ih hp']

theorem OwnHistory.holds {r : Registry L A} {s : Sequence} {h : History L}
    (hs : r.OwnHistory s h) : r.Holds s := by
  cases hs with
  | empty => trivial
  | move hi ha _ => exact ⟨_, hi, ha⟩

theorem OwnHistory.mono {r r' : Registry L A} {s : Sequence} {h : History L}
    (hs : r.OwnHistory s h) (hr : r.Extends r') : r'.OwnHistory s h := by
  induction hs with
  | empty => exact .empty
  | move hi ha hp ih => exact .move (hr _ _ hi) ha ih

/-- In an intact registry the way back from a sequence comes to an end. -/
theorem Intact.exists_ownHistory {r : Registry L A} (hr : r.Intact) {s : Sequence} (hs : r.Holds s) :
    ∃ h, r.OwnHistory s h := by
  cases s with
  | empty => exact ⟨[], .empty⟩
  | move i a =>
    induction i using Nat.strongRecOn generalizing a with
    | ind i ih =>
      obtain ⟨info, hi, ha⟩ := hs
      cases hp : info.parent with
      | empty =>
        have hpast : r.OwnHistory info.parent [] := by
          rw [hp]
          exact .empty
        exact ⟨_, .move hi ha hpast⟩
      | move j b =>
        obtain ⟨hj, hheld⟩ := hr.parent hi j b hp
        obtain ⟨past, hpast⟩ := ih j hj b hheld
        rw [← hp] at hpast
        exact ⟨_, .move hi ha hpast⟩

/-- What every walk leaves behind: labels name positions, and each set was entered with actions and
after an own sequence that was known. -/
structure Sound (r : Registry L A) : Prop where
  position_iff : ∀ (l : L) (i : Nat),
    r.position? l = some i ↔ ∃ info, r.infosets[i]? = some info ∧ info.label = l
  actions_ne_nil : ∀ {i : Nat} {info : Infoset L A}, r.infosets[i]? = some info → info.actions ≠ []
  parent : ∀ {i : Nat} {info : Infoset L A}, r.infosets[i]? = some info →
    ∀ j a, info.parent = .move j a → j < i ∧ ∃ h, r.OwnHistory (.move j a) h

namespace Sound

variable {r : Registry L A}

theorem index_unique (hr : r.Sound) {i j : Nat} {x y : Infoset L A} (hi : r.infosets[i]? = some x)
    (hj : r.infosets[j]? = some y) (h : x.label = y.label) : i = j := by
  have hx := (hr.position_iff x.label i).mpr ⟨x, hi, rfl⟩
  have hy := (hr.position_iff x.label j).mpr ⟨y, hj, h.symm⟩
  exact Option.some.inj (hx.symm.trans hy)

theorem sequence_unique (hr : r.Sound) {s s' : Sequence} {h : History L}
    (hs : r.OwnHistory s h) (hs' : r.OwnHistory s' h) : s = s' := by
  induction hs generalizing s' with
  | empty =>
    generalize he : ([] : History L) = e at hs'
    cases hs' with
    | empty => rfl
    | move hi ha hp => simp at he
  | @move i a info h hi ha hp ih =>
    generalize he : h ++ [(info.label, a)] = e at hs'
    cases hs' with
    | empty => simp at he
    | @move j b info' h' hi' ha' hp' =>
      obtain ⟨-, he⟩ := List.append_inj' he rfl
      simp only [List.cons.injEq, Prod.mk.injEq, and_true] at he
      rw [hr.index_unique hi hi' he.1, he.2]

theorem exists_parent (hr : r.Sound) {i : Nat} {info : Infoset L A}
    (hi : r.infosets[i]? = some info) : ∃ h, r.OwnHistory info.parent h := by
  cases hp : info.parent with
  | empty => exact ⟨[], .empty⟩
  | move j a => exact (hr.parent hi j a hp).2

theorem holds_iff (hr : r.Sound) {s : Sequence} : r.Holds s ↔ ∃ h, r.OwnHistory s h := by
  constructor
  · intro hs
    cases s with
    | empty => exact ⟨[], .empty⟩
    | move i a =>
      obtain ⟨info, hi, ha⟩ := hs
      obtain ⟨past, hpast⟩ := hr.exists_parent hi
      exact ⟨_, .move hi ha hpast⟩
  · rintro ⟨past, hpast⟩
    exact hpast.holds

/-- The sets on the way to a set were found before it. -/
theorem exists_index_lt (hr : r.Sound) {s : Sequence} {h : History L} (hs : r.OwnHistory s h)
    {n : Nat} (hn : ∀ i a, s = .move i a → i < n) {label : L} (hl : label ∈ h.map Prod.fst) :
    ∃ i info, i < n ∧ r.infosets[i]? = some info ∧ info.label = label := by
  induction hs generalizing n with
  | empty => simp at hl
  | @move i a info h hi ha hp ih =>
    have hlt := hn i a rfl
    rw [List.map_append, List.mem_append] at hl
    rcases hl with hl | hl
    · obtain ⟨j, x, hj, hx, hxl⟩ := ih (fun j b hb => (hr.parent hi j b hb).1) hl
      exact ⟨j, x, hj.trans hlt, hx, hxl⟩
    · exact ⟨i, info, hlt, hi, (List.mem_singleton.mp hl).symm⟩

theorem exists_infoset_of_mem (hr : r.Sound) {s : Sequence} {h : History L} (hs : r.OwnHistory s h)
    {label : L} (hl : label ∈ h.map Prod.fst) :
    ∃ (i : Nat) (info : Infoset L A), r.infosets[i]? = some info ∧ info.label = label := by
  cases hs with
  | empty => simp at hl
  | @move i a info h hi ha hp =>
    have hlt : ∀ j b, Sequence.move i a = .move j b → j < i + 1 := by
      intro j b hb
      cases hb
      exact Nat.lt_succ_self i
    obtain ⟨j, x, -, hx⟩ := hr.exists_index_lt (.move hi ha hp) hlt hl
    exact ⟨j, x, hx⟩

theorem label_not_mem (hr : r.Sound) {i : Nat} {info : Infoset L A}
    (hi : r.infosets[i]? = some info) {h : History L} (hp : r.OwnHistory info.parent h) :
    info.label ∉ h.map Prod.fst := by
  intro hl
  obtain ⟨j, x, hj, hx, hxl⟩ := hr.exists_index_lt hp (fun j a ha => (hr.parent hi j a ha).1) hl
  exact absurd (hr.index_unique hx hi hxl) (Nat.ne_of_lt hj)

theorem nodup_labels (hr : r.Sound) {s : Sequence} {h : History L} (hs : r.OwnHistory s h) :
    (h.map Prod.fst).Nodup := by
  induction hs with
  | empty => exact List.nodup_nil
  | move hi ha hp ih =>
    rw [List.map_append, List.nodup_append]
    refine ⟨ih, List.pairwise_singleton _ _, fun l hl l' hl' => ?_⟩
    rw [show l' = _ from List.mem_singleton.mp hl']
    rintro rfl
    exact hr.label_not_mem hi hp hl

theorem find?_eq_some_iff (hr : r.Sound) {l : L} {i : Nat} {info : Infoset L A} :
    r.find? l = some (i, info) ↔ r.infosets[i]? = some info ∧ info.label = l := by
  unfold find?
  cases hp : r.position? l with
  | none =>
    have hn : ¬(r.infosets[i]? = some info ∧ info.label = l) := by
      intro h
      have hi := (hr.position_iff l i).mpr ⟨info, h⟩
      simp [hp] at hi
    simp [hn]
  | some j =>
    obtain ⟨known, hj, hl⟩ := (hr.position_iff l j).mp hp
    simp only [Option.bind_eq_bind, Option.bind_some, hj, Option.pure_def, Option.some.injEq,
      Prod.mk.injEq]
    constructor
    · rintro ⟨rfl, rfl⟩
      exact ⟨hj, hl⟩
    · rintro ⟨hi, hl'⟩
      have hij := hr.index_unique hj hi (hl.trans hl'.symm)
      subst hij
      exact ⟨rfl, Option.some.inj (hj.symm.trans hi)⟩

theorem find?_eq_none_iff (hr : r.Sound) {l : L} : r.find? l = none ↔ r.position? l = none :=
  find?_eq_none_iff_of_held fun i hi => ((hr.position_iff l i).mp hi).imp fun _ h => h.1

end Sound

theorem sound_empty : (empty : Registry L A).Sound := by
  constructor <;> simp [empty, position?]

/-- Under lawful labels a registry is sound as soon as it is intact. -/
theorem sound_iff_intact [LawfulBEq L] {r : Registry L A} : r.Sound ↔ r.Intact := by
  constructor
  · intro hr
    constructor
    · rw [List.pairwise_iff_getElem]
      intro i j hi hj hij
      rw [beq_eq_false_iff_ne]
      intro hlabel
      exact hij.ne (hr.index_unique (Array.getElem?_eq_getElem hi) (Array.getElem?_eq_getElem hj) hlabel)
    · simpa using hr.position_iff
    · exact hr.actions_ne_nil
    · intro i info hi j a hp
      obtain ⟨hlt, past, hpast⟩ := hr.parent hi j a hp
      exact ⟨hlt, hpast.holds⟩
  · intro hr
    constructor
    · simpa using hr.position_iff
    · exact hr.actions_ne_nil
    · intro i info hi j a hp
      obtain ⟨hlt, hheld⟩ := hr.parent hi j a hp
      exact ⟨hlt, hr.exists_ownHistory hheld⟩

theorem Sound.push [LawfulBEq L] {r : Registry L A} (hr : r.Sound)
    {info : Infoset L A} (hl : r.position? info.label = none) (ha : info.actions ≠ [])
    (hp : ∃ h, r.OwnHistory info.parent h) : (r.push info).Sound := by
  obtain ⟨past, hpast⟩ := hp
  exact sound_iff_intact.mpr ((sound_iff_intact.mp hr).push hl ha hpast.holds)

section Enter

variable [BEq A] [LawfulBEq A] {r r' : Registry L A} {seen : Infoset L A} {i : Nat}

omit [BEq L] [Hashable L] in
theorem conflict?_eq_none_iff {known seen : Infoset L A} (hl : known.label = seen.label) :
    conflict? known seen = none ↔ known = seen := by
  unfold conflict?
  cases known
  cases seen
  split
  · simp_all
  · split <;> simp_all

theorem Sound.enter_cases (hr : r.Sound) (h : r.enter seen = .ok (i, r')) :
    r' = r ∧ r.infosets[i]? = some seen ∨
      r.position? seen.label = none ∧ i = r.size ∧ r' = r.push seen := by
  rcases enter_eq_ok h with ⟨known, hf, hc, rfl⟩ | ⟨hf, rfl, rfl⟩
  · obtain ⟨hi, hl⟩ := hr.find?_eq_some_iff.mp hf
    rw [← (conflict?_eq_none_iff hl).mp hc]
    exact Or.inl ⟨rfl, hi⟩
  · exact Or.inr ⟨hr.find?_eq_none_iff.mp hf, rfl, rfl⟩

theorem Sound.enter_of_agree (hr : r.Sound)
    (h : ∀ (i : Nat) (known : Infoset L A), r.infosets[i]? = some known →
      known.label = seen.label → known = seen) :
    ∃ i r', r.enter seen = .ok (i, r') := by
  unfold enter
  cases hf : r.find? seen.label with
  | none => exact ⟨_, _, rfl⟩
  | some found =>
    obtain ⟨j, known⟩ := found
    obtain ⟨hj, hl⟩ := hr.find?_eq_some_iff.mp hf
    simp only [(conflict?_eq_none_iff hl).mpr (h j known hj hl)]
    exact ⟨_, _, rfl⟩

theorem Sound.enter_origin (hr : r.Sound) (h : r.enter seen = .ok (i, r')) {j : Nat}
    {info : Infoset L A} (hj : r'.infosets[j]? = some info) :
    r.infosets[j]? = some info ∨ info = seen := by
  rcases hr.enter_cases h with ⟨rfl, -⟩ | ⟨-, -, rfl⟩
  · exact Or.inl hj
  · exact (getElem?_push_eq_some hj).imp_right And.right

variable [LawfulBEq L]

theorem Sound.enter (hr : r.Sound) (h : r.enter seen = .ok (i, r')) (ha : seen.actions ≠ [])
    (hp : ∃ past, r.OwnHistory seen.parent past) :
    r'.Sound ∧ r.Extends r' ∧ r'.infosets[i]? = some seen := by
  rcases hr.enter_cases h with ⟨rfl, hi⟩ | ⟨hl, rfl, rfl⟩
  · exact ⟨hr, .refl r', hi⟩
  · exact ⟨hr.push hl ha hp, extends_push r seen, getElem?_push_size r seen⟩

end Enter

end ExtensiveForm.Registry
