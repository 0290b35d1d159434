import Mathlib.Data.List.Basic
import ExtensiveForm.Registry

/-!
Registries, and what a visit can do to one. Nothing is asked of the actions but a test for equality, which
need not be lawful. Main statements: a visit appends a set or leaves all as it was, and a registry stays
intact if sets are entered with actions and after sequences that are registered.
-/

set_option autoImplicit false

namespace ExtensiveForm.Registry

variable {L A : Type} [BEq L] [Hashable L]

def Extends (r r' : Registry L A) : Prop :=
  ∀ (i : Nat) (info : Infoset L A), r.infosets[i]? = some info → r'.infosets[i]? = some info

theorem Extends.refl (r : Registry L A) : r.Extends r := fun _ _ h => h

theorem Extends.trans {r r' r'' : Registry L A} (h : r.Extends r') (h' : r'.Extends r'') :
    r.Extends r'' := fun i info hi => h' i info (h i info hi)

theorem extends_push (r : Registry L A) (info : Infoset L A) : r.Extends (r.push info) := by
  intro i x hi
  have hlt : i < r.infosets.size := (Array.getElem?_eq_some_iff.mp hi).1
  simp [Array.getElem?_push, Nat.ne_of_lt hlt, hi]

theorem getElem?_push_size (r : Registry L A) (info : Infoset L A) :
    (r.push info).infosets[r.size]? = some info := by
  simp [size]

theorem getElem?_push_eq_some {r : Registry L A} {info x : Infoset L A} {i : Nat}
    (h : (r.push info).infosets[i]? = some x) :
    r.infosets[i]? = some x ∨ i = r.size ∧ x = info := by
  rw [infosets_push, Array.getElem?_push] at h
  split at h
  · rename_i hi
    exact Or.inr ⟨hi, (Option.some.inj h).symm⟩
  · exact Or.inl h

def Holds (r : Registry L A) : Sequence → Prop
  | .empty => True
  | .move i a => ∃ info, r.infosets[i]? = some info ∧ a < info.actions.length

/-- No two sets have one label, labels name positions, and each set has actions and comes after a set
that was registered before it. -/
structure Intact (r : Registry L A) : Prop where
  distinct : r.infosets.toList.Pairwise fun x y => (x.label == y.label) = false
  position_iff : ∀ (l : L) (i : Nat),
    r.position? l = some i ↔ ∃ info, r.infosets[i]? = some info ∧ info.label == l
  actions_ne_nil : ∀ {i : Nat} {info : Infoset L A}, r.infosets[i]? = some info → info.actions ≠ []
  parent : ∀ {i : Nat} {info : Infoset L A}, r.infosets[i]? = some info →
    ∀ j a, info.parent = .move j a → j < i ∧ r.Holds (.move j a)

theorem intact_empty : (empty : Registry L A).Intact := by
  constructor <;> simp [empty, position?]

theorem Holds.mono {r r' : Registry L A} {s : Sequence} (hs : r.Holds s) (hr : r.Extends r') :
    r'.Holds s := by
  cases s with
  | empty => trivial
  | move i a =>
    obtain ⟨info, hi, ha⟩ := hs
    exact ⟨info, hr i info hi, ha⟩

theorem find?_eq_some {r : Registry L A} {l : L} {i : Nat} {info : Infoset L A}
    (h : r.find? l = some (i, info)) : r.position? l = some i ∧ r.infosets[i]? = some info := by
  unfold find? at h
  cases hp : r.position? l with
  | none => simp [hp] at h
  | some j =>
    cases hj : r.infosets[j]? with
    | none => simp [hp, hj] at h
    | some known =>
      simp only [hp, hj, Option.bind_eq_bind, Option.bind_some, Option.pure_def, Option.some.injEq,
        Prod.mk.injEq] at h
      obtain ⟨rfl, rfl⟩ := h
      exact ⟨rfl, hj⟩

theorem find?_eq_none_iff_of_held {r : Registry L A} {l : L}
    (h : ∀ i, r.position? l = some i → ∃ info, r.infosets[i]? = some info) :
    r.find? l = none ↔ r.position? l = none := by
  unfold find?
  cases hp : r.position? l with
  | none => simp
  | some i =>
    obtain ⟨info, hi⟩ := h i hp
    simp [hi]

namespace Intact

variable {r : Registry L A}

theorem find?_eq_none_iff (hr : r.Intact) {l : L} : r.find? l = none ↔ r.position? l = none :=
  find?_eq_none_iff_of_held fun i hi => ((hr.position_iff l i).mp hi).imp fun _ h => h.1

theorem label_ne (hr : r.Intact) {l : L} (hl : r.position? l = none) {info : Infoset L A}
    (hi : info ∈ r.infosets) : (info.label == l) = false := by
  obtain ⟨i, hlt, rfl⟩ := Array.mem_iff_getElem.mp hi
  by_contra h
  have hpos := (hr.position_iff l i).mpr ⟨_, Array.getElem?_eq_getElem hlt, by simpa using h⟩
  cases hl.symm.trans hpos

theorem position?_push_eq_some_iff [EquivBEq L] [LawfulHashable L] (hr : r.Intact)
    {info : Infoset L A} (hl : r.position? info.label = none) (l : L) (i : Nat) :
    (r.push info).position? l = some i ↔
      ∃ x, (r.push info).infosets[i]? = some x ∧ x.label == l := by
  rw [position?_push]
  cases he : info.label == l with
  | true =>
    simp only [if_true, Option.some.injEq]
    constructor
    · rintro rfl
      exact ⟨info, getElem?_push_size r info, he⟩
    · rintro ⟨x, hx, hxl⟩
      rcases getElem?_push_eq_some hx with hx | ⟨rfl, -⟩
      · have hne := hr.label_ne hl (Array.mem_of_getElem? hx)
        rw [PartialEquivBEq.trans hxl (BEq.symm he)] at hne
        cases hne
      · rfl
  | false =>
    simp only [Bool.false_eq_true, if_false, hr.position_iff]
    constructor
    · rintro ⟨x, hx, hxl⟩
      exact ⟨x, extends_push r info _ _ hx, hxl⟩
    · rintro ⟨x, hx, hxl⟩
      rcases getElem?_push_eq_some hx with hx | ⟨-, rfl⟩
      · exact ⟨x, hx, hxl⟩
      · cases he.symm.trans hxl

theorem push [EquivBEq L] [LawfulHashable L] (hr : r.Intact) {info : Infoset L A}
    (hl : r.position? info.label = none) (ha : info.actions ≠ []) (hp : r.Holds info.parent) :
    (r.push info).Intact := by
  have hext := extends_push r info
  constructor
  · rw [infosets_push, Array.toList_push, List.pairwise_append]
    refine ⟨hr.distinct, List.pairwise_singleton _ _, fun x hx y hy => ?_⟩
    rw [List.mem_singleton.mp hy]
    exact hr.label_ne hl (Array.mem_def.mpr hx)
  · exact hr.position?_push_eq_some_iff hl
  · intro i x hx
    rcases getElem?_push_eq_some hx with hx | ⟨-, rfl⟩
    · exact hr.actions_ne_nil hx
    · exact ha
  · intro i x hx j a hj
    rcases getElem?_push_eq_some hx with hx | ⟨rfl, rfl⟩
    · obtain ⟨hlt, hh⟩ := hr.parent hx j a hj
      exact ⟨hlt, hh.mono hext⟩
    · rw [hj] at hp
      have hheld := hp.mono hext
      obtain ⟨known, hk, -⟩ := hp
      exact ⟨(Array.getElem?_eq_some_iff.mp hk).1, hheld⟩

theorem position?_push_of_some [EquivBEq L] [LawfulHashable L] (hr : r.Intact) {seen : Infoset L A}
    (hl : r.position? seen.label = none) {l : L} {i : Nat} (h : r.position? l = some i) :
    (r.push seen).position? l = some i := by
  obtain ⟨info, hi, hil⟩ := (hr.position_iff l i).mp h
  exact (hr.position?_push_eq_some_iff hl l i).mpr ⟨info, extends_push r seen _ _ hi, hil⟩

end Intact

section Enter

variable [BEq A] {r r' : Registry L A} {seen : Infoset L A} {i : Nat}

omit [BEq L] [Hashable L] in
theorem of_conflict?_eq_none {known seen : Infoset L A} (h : conflict? known seen = none) :
    known.actions.length = seen.actions.length ∧ known.parent = seen.parent := by
  unfold conflict? at h
  split at h
  · cases h
  · rename_i ha
    split at h
    · cases h
    · rename_i hp
      rw [bne_iff_ne, not_not] at hp
      exact ⟨List.length_eq_of_beq (by simpa [bne] using ha), hp⟩

/-- Entering a set either finds one that does not contradict it or appends it. -/
theorem enter_eq_ok (h : r.enter seen = .ok (i, r')) :
    (∃ known, r.find? seen.label = some (i, known) ∧ conflict? known seen = none ∧ r' = r) ∨
      r.find? seen.label = none ∧ i = r.size ∧ r' = r.push seen := by
  unfold enter at h
  split at h
  · rename_i j known hf
    split at h
    · cases h
    · rename_i hc
      cases h
      exact .inl ⟨known, hf, hc, rfl⟩
  · rename_i hf
    cases h
    exact .inr ⟨hf, rfl, rfl⟩

theorem extends_of_enter (h : r.enter seen = .ok (i, r')) : r.Extends r' := by
  rcases enter_eq_ok h with ⟨known, -, -, rfl⟩ | ⟨-, -, rfl⟩
  · exact .refl _
  · exact extends_push r seen

theorem holds_of_enter (h : r.enter seen = .ok (i, r')) {a : Nat} (ha : a < seen.actions.length) :
    r'.Holds (.move i a) := by
  rcases enter_eq_ok h with ⟨known, hf, hc, rfl⟩ | ⟨-, rfl, rfl⟩
  · exact ⟨known, (find?_eq_some hf).2, (of_conflict?_eq_none hc).1 ▸ ha⟩
  · exact ⟨seen, getElem?_push_size r seen, ha⟩

theorem Intact.enter [EquivBEq L] [LawfulHashable L] (hr : r.Intact)
    (h : r.enter seen = .ok (i, r')) (ha : seen.actions ≠ []) (hp : r.Holds seen.parent) :
    r'.Intact := by
  rcases enter_eq_ok h with ⟨known, -, -, rfl⟩ | ⟨hf, -, rfl⟩
  · exact hr
  · exact hr.push (hr.find?_eq_none_iff.mp hf) ha hp

end Enter

section Visit

variable [BEq A] {r r' : Registry L A} {seen : Infoset L A}

/-- Entering a set in a registry that is changed in place, where what a refused visit had changed would
stay changed. -/
def visit (seen : Infoset L A) : StateM (Registry L A) (Except (Conflict A) Nat) := do
  let r ← get
  match r.find? seen.label with
  | some (i, known) =>
    match conflict? known seen with
    | some c => return .error c
    | none => return .ok i
  | none =>
    modify fun r => { r with position := r.position.insert seen.label r.size }
    modify fun r => { r with infosets := r.infosets.push seen }
    return .ok r.size

theorem run_visit_of_error {c : Conflict A} (h : r.enter seen = .error c) :
    (visit seen).run r = (.error c, r) := by
  unfold enter at h
  split at h
  · rename_i i known hf
    split at h
    · rename_i c' hc
      cases h
      simp only [visit, StateT.run_bind, StateT.run_get, pure_bind, hf, hc]
      rfl
    · cases h
  · cases h

theorem run_visit_of_ok {i : Nat} (h : r.enter seen = .ok (i, r')) :
    (visit seen).run r = (.ok i, r') := by
  rcases enter_eq_ok h with ⟨known, hf, hc, rfl⟩ | ⟨hf, rfl, rfl⟩
  · simp only [visit, StateT.run_bind, StateT.run_get, pure_bind, hf, hc]
    rfl
  · simp only [visit, StateT.run_bind, StateT.run_get, pure_bind, hf]
    rfl

structure Visited (r : Registry L A) (seen : Infoset L A) (answer : Except (Conflict A) Nat)
    (r' : Registry L A) : Prop where
  /-- An exploration enters the set with this result. -/
  enter_eq : r.enter seen = answer.map (·, r')
  appends : r'.infosets = r.infosets ∨ r'.infosets = r.infosets.push seen
  keeps : ∀ {l : L} {i : Nat}, r.position? l = some i → r'.position? l = some i
  answers : ∀ {i : Nat}, answer = .ok i → r'.position? seen.label = some i
  refuses : ∀ {c : Conflict A}, answer = .error c → r' = r

variable [EquivBEq L] [LawfulHashable L]

theorem Intact.visited (hr : r.Intact) {answer : Except (Conflict A) Nat}
    (h : (visit seen).run r = (answer, r')) : r.Visited seen answer r' := by
  cases he : r.enter seen with
  | error c =>
    cases (run_visit_of_error he).symm.trans h
    exact ⟨he, .inl rfl, id, nofun, fun _ => rfl⟩
  | ok result =>
    obtain ⟨i, r₁⟩ := result
    cases (run_visit_of_ok he).symm.trans h
    rcases enter_eq_ok he with ⟨known, hf, -, rfl⟩ | ⟨hf, rfl, rfl⟩
    · exact ⟨he, .inl rfl, id, fun ha => Except.ok.inj ha ▸ (find?_eq_some hf).1, nofun⟩
    · have hl := hr.find?_eq_none_iff.mp hf
      refine ⟨he, .inr rfl, hr.position?_push_of_some hl, fun ha => ?_, nofun⟩
      rw [position?_push, if_pos BEq.rfl, Except.ok.inj ha]

end Visit

end ExtensiveForm.Registry
