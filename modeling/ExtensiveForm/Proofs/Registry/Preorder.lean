import Mathlib.Data.List.Nodup
import Mathlib.Data.List.Perm.Subperm
import ExtensiveForm.SequenceTree.Preorder
import ExtensiveForm.Proofs.Registry.OwnHistory

set_option autoImplicit false

namespace ExtensiveForm.Registry

variable {L A : Type} [BEq L] [Hashable L]

def below (r : Registry L A) (set? : Option Nat) : List Nat :=
  r.infosets.toList.zipIdx.filterMap fun (info, i) =>
    if info.parent.infoset? = set? then some i else none

theorem mem_below {r : Registry L A} {set? : Option Nat} {i : Nat} :
    i ∈ r.below set? ↔ ∃ info, r.infosets[i]? = some info ∧ info.parent.infoset? = set? := by
  simp only [below, List.mem_filterMap, Prod.exists, List.mem_zipIdx_iff_getElem?,
    Option.ite_none_right_eq_some, Option.some.injEq, Array.getElem?_toList]
  constructor
  · rintro ⟨info, j, hj, hp, rfl⟩
    exact ⟨info, hj, hp⟩
  · rintro ⟨info, hi, hp⟩
    exact ⟨info, i, hi, hp, rfl⟩

theorem pairwise_below (r : Registry L A) (set? : Option Nat) :
    (r.below set?).Pairwise (· < ·) := by
  have hidx : r.infosets.toList.zipIdx.Pairwise fun a b => a.2 < b.2 := by
    rw [← List.pairwise_map, List.zipIdx_map_snd]
    exact List.pairwise_lt_range'
  rw [below, List.pairwise_filterMap]
  refine hidx.imp fun {a b} hab i hi j hj => ?_
  simp only [Option.ite_none_right_eq_some, Option.some.injEq] at hi hj
  omega

theorem roots_eq (r : Registry L A) : r.roots = r.below none := by
  unfold roots below
  congr 1
  funext ⟨info, i⟩
  cases h : info.parent <;> simp [Sequence.infoset?, h]

def hang (size : Nat) (sets : List (Infoset L A × Nat)) : Array (List Nat) :=
  sets.foldr
    (fun (info, i) below =>
      match info.parent with
      | .empty => below
      | .move p _ => below.modify p (i :: ·))
    (Array.replicate size [])

omit [BEq L] [Hashable L] in
theorem getElem?_hang {size p : Nat} (hp : p < size) (sets : List (Infoset L A × Nat)) :
    (hang size sets)[p]? = some (sets.filterMap fun (info, i) =>
      if info.parent.infoset? = some p then some i else none) := by
  unfold hang
  induction sets with
  | nil => simp [hp]
  | cons x sets ih =>
    obtain ⟨info, i⟩ := x
    rw [List.foldr_cons, List.filterMap_cons]
    cases h : info.parent with
    | empty => simpa [h, Sequence.infoset?] using ih
    | move q a =>
      by_cases hq : q = p
      · subst hq
        simp [h, Sequence.infoset?, Array.getElem?_modify, ih]
      · simp [h, Sequence.infoset?, Array.getElem?_modify, ih, hq]

theorem getD_children (r : Registry L A) {p : Nat} (hp : p < r.size) :
    r.children.getD p [] = r.below (some p) := by
  have h : r.children[p]? = some (r.below (some p)) := getElem?_hang hp r.infosets.toList.zipIdx
  rw [Array.getD_eq_getD_getElem?, h, Option.getD_some]

/-- What has been visited and what is pending: together they hold each set once, the roots and the
children of all that was visited among them. -/
structure Visiting (r : Registry L A) (visited pending : List Nat) : Prop where
  nodup : (visited ++ pending).Nodup
  roots : ∀ i ∈ r.below none, i ∈ visited ++ pending
  children : ∀ j ∈ visited, ∀ i ∈ r.below (some j), i ∈ visited ++ pending
  origin : ∀ i ∈ visited ++ pending, ∃ info, r.infosets[i]? = some info ∧
    ∀ j, info.parent.infoset? = some j → j ∈ visited
  order : ∀ pre i post, visited = pre ++ i :: post → ∀ j, i ∈ r.below (some j) → j ∈ pre

theorem visiting_roots (r : Registry L A) : r.Visiting [] r.roots := by
  rw [roots_eq]
  constructor
  · exact (pairwise_below r none).imp Nat.ne_of_lt
  · exact fun i hi => hi
  · exact fun j hj => absurd hj List.not_mem_nil
  · intro i hi
    obtain ⟨info, hinfo, hp⟩ := mem_below.mp hi
    exact ⟨info, hinfo, fun j hj => by simp [hp] at hj⟩
  · exact fun pre i post h => by simp at h

theorem Visiting.step {r : Registry L A} {visited pending : List Nat} {i : Nat}
    (h : r.Visiting visited (i :: pending)) :
    r.Visiting (visited ++ [i]) (r.below (some i) ++ pending) := by
  have hmem : ∀ {j}, j ∈ visited ++ i :: pending →
      j ∈ (visited ++ [i]) ++ (r.below (some i) ++ pending) := by
    intro j hj
    simp only [List.mem_append, List.mem_cons, List.not_mem_nil, or_false] at hj ⊢
    tauto
  have hnot : i ∉ visited := by
    intro hi
    exact (List.nodup_append.mp h.nodup).2.2 i hi i List.mem_cons_self rfl
  -- a child of `i` was not met before, or `i` would have been visited
  have hfresh : ∀ c ∈ r.below (some i), c ∉ visited ++ i :: pending := by
    intro c hc hold
    obtain ⟨info, hinfo, hp⟩ := mem_below.mp hc
    obtain ⟨info', hinfo', hv⟩ := h.origin c hold
    cases hinfo.symm.trans hinfo'
    exact hnot (hv i hp)
  constructor
  · have hbelow : (r.below (some i)).Nodup := (pairwise_below r _).imp Nat.ne_of_lt
    have hperm := List.perm_append_comm_assoc (visited ++ [i]) (r.below (some i)) pending
    rw [← List.append_cons visited i pending] at hperm
    rw [hperm.nodup_iff, List.nodup_append]
    exact ⟨hbelow, h.nodup, fun c hc d hd hcd => hfresh c hc (hcd ▸ hd)⟩
  · exact fun j hj => hmem (h.roots j hj)
  · intro j hj c hc
    rcases List.mem_append.mp hj with hj | hj
    · exact hmem (h.children j hj c hc)
    · cases List.mem_singleton.mp hj
      simp [hc]
  · intro j hj
    by_cases hold : j ∈ visited ++ i :: pending
    · obtain ⟨info, hinfo, hv⟩ := h.origin j hold
      exact ⟨info, hinfo, fun k hk => List.mem_append_left _ (hv k hk)⟩
    · have hc : j ∈ r.below (some i) := by
        simp only [List.mem_append, List.mem_cons, List.not_mem_nil, or_false] at hj hold
        tauto
      obtain ⟨info, hinfo, hp⟩ := mem_below.mp hc
      refine ⟨info, hinfo, fun k hk => ?_⟩
      cases hp.symm.trans hk
      simp
  · intro pre j post he k hk
    rcases List.eq_nil_or_concat' post with rfl | ⟨post, last, rfl⟩
    · obtain ⟨rfl, hij⟩ := List.append_inj' he rfl
      cases hij
      obtain ⟨info, hinfo, hp⟩ := mem_below.mp hk
      obtain ⟨info', hinfo', hv⟩ := h.origin i (by simp)
      cases hinfo.symm.trans hinfo'
      exact hv k hp
    · rw [← List.cons_append, ← List.append_assoc] at he
      exact h.order pre j post (List.append_inj' he rfl).1 k hk

theorem Visiting.length_le {r : Registry L A} {visited pending : List Nat}
    (h : r.Visiting visited pending) : visited.length + pending.length ≤ r.size := by
  have hsub : visited ++ pending ⊆ List.range r.size := by
    intro i hi
    obtain ⟨info, hinfo, -⟩ := h.origin i hi
    exact List.mem_range.mpr (Array.getElem?_eq_some_iff.mp hinfo).1
  simpa using (List.subperm_of_subset h.nodup hsub).length_le

theorem Visiting.preorderFrom {r : Registry L A} {n : Nat} {visited pending : List Nat}
    (h : r.Visiting visited pending) (hn : r.size ≤ visited.length + n) :
    r.Visiting (visited ++ preorderFrom r.children n pending) [] := by
  induction n generalizing visited pending with
  | zero =>
    cases pending with
    | nil => simpa [Registry.preorderFrom] using h
    | cons i pending =>
      have hle := h.length_le
      simp only [List.length_cons] at hle
      omega
  | succ n ih =>
    cases pending with
    | nil => simpa [Registry.preorderFrom] using h
    | cons i pending =>
      obtain ⟨info, hinfo, -⟩ := h.origin i (by simp)
      have hi : i < r.size := (Array.getElem?_eq_some_iff.mp hinfo).1
      have hrest := ih h.step (by simp; omega)
      rw [Registry.preorderFrom, getD_children r hi]
      simpa using hrest

theorem visiting_preorder (r : Registry L A) : r.Visiting r.preorder [] := by
  have h := (visiting_roots r).preorderFrom (n := r.size) (by simp)
  simpa [preorder] using h

theorem nodup_preorder (r : Registry L A) : r.preorder.Nodup := by
  simpa using (visiting_preorder r).nodup

/-- Parents are registered before their children, so a preorder of the forest leaves no set out. -/
theorem Sound.mem_preorder {r : Registry L A} (hr : r.Sound) {i : Nat} (hi : i < r.size) :
    i ∈ r.preorder := by
  have hv := visiting_preorder r
  simp only [size] at hi
  induction i using Nat.strong_induction_on with
  | _ i ih =>
    have hinfo : r.infosets[i]? = some r.infosets[i] := Array.getElem?_eq_getElem hi
    cases hp : r.infosets[i].parent with
    | empty =>
      simpa using hv.roots i (mem_below.mpr ⟨_, hinfo, by simp [hp, Sequence.infoset?]⟩)
    | move j a =>
      have hlt := (hr.parent hinfo j a hp).1
      have hj := ih j hlt (by omega)
      simpa using hv.children j hj i (mem_below.mpr ⟨_, hinfo, by simp [hp, Sequence.infoset?]⟩)

theorem exists_of_mem_preorder {r : Registry L A} {i : Nat} (hi : i ∈ r.preorder) :
    ∃ info, r.infosets[i]? = some info := by
  obtain ⟨info, hinfo, -⟩ := (visiting_preorder r).origin i (by simpa using hi)
  exact ⟨info, hinfo⟩

theorem mem_of_preorder_eq {r : Registry L A} {pre post : List Nat} {i j a : Nat}
    {info : Infoset L A} (h : r.preorder = pre ++ i :: post) (hi : r.infosets[i]? = some info)
    (hp : info.parent = .move j a) : j ∈ pre :=
  (visiting_preorder r).order pre i post h j (mem_below.mpr ⟨info, hi, by simp [hp, Sequence.infoset?]⟩)

theorem Sound.preorder_perm_range {r : Registry L A} (hr : r.Sound) :
    r.preorder.Perm (List.range r.size) := by
  rw [List.perm_ext_iff_of_nodup (nodup_preorder r) List.nodup_range]
  intro i
  rw [List.mem_range]
  constructor
  · intro hi
    obtain ⟨info, hinfo⟩ := exists_of_mem_preorder hi
    exact (Array.getElem?_eq_some_iff.mp hinfo).1
  · exact hr.mem_preorder

end ExtensiveForm.Registry
