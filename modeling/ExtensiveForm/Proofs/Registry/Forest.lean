import Mathlib.Logic.Relation
import ExtensiveForm.Proofs.Registry.Sequences

/-!
The forest of a registry, gone through by recursion: a set, and one after the other what hangs below it.
Main statements: the list of pending sets comes to the same order, and a set stands together with all
below it, among the sets of the tree and among its sequences.
-/

set_option autoImplicit false

namespace ExtensiveForm

theorem mem_iff_of_nodup_append {α : Type} {pre part post : List α}
    (hn : (pre ++ part ++ post).Nodup) {m : Nat} {x : α}
    (hm : (pre ++ part ++ post)[m]? = some x) :
    x ∈ part ↔ pre.length ≤ m ∧ m < pre.length + part.length := by
  constructor
  · intro hx
    obtain ⟨n, hn'⟩ := List.mem_iff_getElem?.mp hx
    have hlt := (List.getElem?_eq_some_iff.mp hn').1
    have hat : (pre ++ part ++ post)[pre.length + n]? = some x := by
      rw [List.append_assoc, List.getElem?_append_right (by omega), Nat.add_sub_cancel_left,
        List.getElem?_append_left hlt, hn']
    have hsame := (List.getElem?_inj (List.getElem?_eq_some_iff.mp hm).1 hn).mp (hm.trans hat.symm)
    omega
  · intro h
    rw [List.append_assoc, List.getElem?_append_right h.1,
      List.getElem?_append_left (by omega)] at hm
    exact List.mem_of_getElem? hm

namespace Registry

variable {L A : Type} [BEq L] [Hashable L] {r : Registry L A} {i j d : Nat}

def Descends (r : Registry L A) : Nat → Nat → Prop :=
  Relation.ReflTransGen fun i j => j ∈ r.below (some i)

def subtree (r : Registry L A) : (depth : Nat) → Nat → List Nat
  | 0, _ => []
  | depth + 1, i => i :: (r.below (some i)).flatMap (r.subtree depth)

def forest (r : Registry L A) : List Nat := (r.below none).flatMap (r.subtree r.size)

theorem lt_size_of_mem_below {set? : Option Nat} (h : j ∈ r.below set?) : j < r.size := by
  obtain ⟨info, hinfo, -⟩ := mem_below.mp h
  exact (Array.getElem?_eq_some_iff.mp hinfo).1

theorem Sound.lt_of_mem_below (hr : r.Sound) (h : j ∈ r.below (some i)) : i < j := by
  obtain ⟨info, hinfo, hp⟩ := mem_below.mp h
  cases hparent : info.parent with
  | empty => simp [hparent, Sequence.infoset?] at hp
  | move k a =>
    rw [hparent] at hp
    cases hp
    exact (hr.parent hinfo i a hparent).1

/-- Sets hang below earlier ones, so no more depth is needed than there are sets to come. -/
theorem Sound.subtree_succ (hr : r.Sound) (hi : i < r.size) (hd : r.size ≤ i + d) :
    r.subtree (d + 1) i = r.subtree d i := by
  induction d generalizing i with
  | zero => omega
  | succ d ih =>
    rw [subtree, subtree]
    refine congrArg (i :: ·) (List.flatMap_congr fun c hc => ?_)
    have hlt := hr.lt_of_mem_below hc
    exact ih (lt_size_of_mem_below hc) (by omega)

theorem Sound.subtree_eq (hr : r.Sound) (hi : i < r.size) :
    r.subtree r.size i = i :: (r.below (some i)).flatMap (r.subtree r.size) :=
  (hr.subtree_succ hi (by omega)).symm

/-- From each stage on, the visits are those of the pending sets' subtrees. -/
theorem Visiting.preorderFrom_eq {visited pending : List Nat} {n : Nat}
    (h : r.Visiting visited pending) (hr : r.Sound) (hn : r.size ≤ visited.length + n) :
    Registry.preorderFrom r.children n pending = pending.flatMap (r.subtree r.size) := by
  induction n generalizing visited pending with
  | zero =>
    have hle := h.length_le
    cases List.length_eq_zero_iff.mp (show pending.length = 0 by omega)
    rfl
  | succ n ih =>
    cases pending with
    | nil => rfl
    | cons i pending =>
      obtain ⟨info, hinfo, -⟩ := h.origin i (by simp)
      have hi : i < r.size := (Array.getElem?_eq_some_iff.mp hinfo).1
      rw [Registry.preorderFrom, getD_children r hi, ih h.step (by simp; omega),
        List.flatMap_append, List.flatMap_cons, hr.subtree_eq hi, List.cons_append]

/-- The list of pending sets visits what the recursion visits, in the same order. -/
theorem Sound.preorder_eq_forest (hr : r.Sound) : r.preorder = r.forest := by
  rw [preorder, (visiting_roots r).preorderFrom_eq hr (by simp), roots_eq, forest]

theorem Sound.nodup_forest (hr : r.Sound) : r.forest.Nodup :=
  hr.preorder_eq_forest ▸ nodup_preorder r

theorem Sound.mem_forest (hr : r.Sound) (hi : i < r.size) : i ∈ r.forest :=
  hr.preorder_eq_forest ▸ hr.mem_preorder hi

theorem Sound.laidOut_forest (hr : r.Sound) : r.LaidOut r.forest r.layout.tree :=
  hr.preorder_eq_forest ▸ hr.layout

theorem Sound.offset_eq_of_forest (hr : r.Sound) {k : Nat} (hk : r.forest[k]? = some i) :
    r.offsets[i]? = some (1 + ((r.forest.take k).map r.width).sum) := by
  obtain ⟨hlt, rfl⟩ := List.getElem?_eq_some_iff.mp hk
  have hsplit : r.preorder = r.forest.take k ++ r.forest[k] :: r.forest.drop (k + 1) := by
    rw [hr.preorder_eq_forest, ← List.drop_eq_getElem_cons hlt, List.take_append_drop]
  exact offset_eq hsplit

section Descends

theorem Descends.lt_size (h : r.Descends i j) (hi : i < r.size) : j < r.size := by
  induction h with
  | refl => exact hi
  | tail _ hj _ => exact lt_size_of_mem_below hj

theorem descends_of_mem_subtree (h : j ∈ r.subtree d i) : r.Descends i j := by
  induction d generalizing i with
  | zero => exact absurd h List.not_mem_nil
  | succ d ih =>
    rcases List.mem_cons.mp h with rfl | h
    · exact .refl
    · obtain ⟨c, hc, hj⟩ := List.mem_flatMap.mp h
      exact .head hc (ih hj)

theorem Sound.subtree_infix (hr : r.Sound) (h : r.Descends i j) (hi : i < r.size) :
    r.subtree r.size j <:+: r.subtree r.size i := by
  induction h with
  | refl => exact List.infix_rfl
  | @tail b c hb hc ih =>
    have hinfix : r.subtree r.size c <:+: r.subtree r.size b := by
      rw [hr.subtree_eq (Descends.lt_size hb hi)]
      exact (List.infix_flatMap_of_mem hc _).trans (List.suffix_cons _ _).isInfix
    exact hinfix.trans ih

theorem Sound.mem_subtree_iff (hr : r.Sound) (hi : i < r.size) :
    j ∈ r.subtree r.size i ↔ r.Descends i j := by
  refine ⟨descends_of_mem_subtree, fun h => (hr.subtree_infix h hi).subset ?_⟩
  rw [hr.subtree_eq (Descends.lt_size h hi)]
  exact List.mem_cons_self

theorem Sound.subtree_infix_forest (hr : r.Sound) (hi : i < r.size) :
    r.subtree r.size i <:+: r.forest := by
  obtain ⟨root, hroot, hmem⟩ := List.mem_flatMap.mp (hr.mem_forest hi)
  have hinfix := hr.subtree_infix (descends_of_mem_subtree hmem) (lt_size_of_mem_below hroot)
  exact hinfix.trans (List.infix_flatMap_of_mem hroot _)

/-- A set and all below it take the positions from `k` up to `last`, and their sequences are those from
the set's offset up to the offset there. -/
structure Spans (r : Registry L A) (i k last : Nat) : Prop where
  head : r.forest[k]? = some i
  position_iff : ∀ {m j : Nat}, r.forest[m]? = some j → (r.Descends i j ↔ k ≤ m ∧ m < last)
  sequence_iff : ∃ start stop, r.layout.offsets[i]? = some start ∧
    r.layout.tree.offset[last]? = some stop ∧
      ∀ {j a n : Nat}, r.Holds (.move j a) → (Sequence.move j a).flat? r.layout.offsets = some n →
        (r.Descends i j ↔ start ≤ n ∧ n < stop)

theorem Holds.lt_size {a : Nat} (h : r.Holds (.move j a)) : j < r.size := by
  obtain ⟨info, hj, -⟩ := h
  exact (Array.getElem?_eq_some_iff.mp hj).1

theorem Sound.flat_lt_offset_iff (hr : r.Sound) {a n p m stop : Nat} (hp : r.forest[p]? = some j)
    (hheld : r.Holds (.move j a)) (hn : (Sequence.move j a).flat? r.layout.offsets = some n)
    (hm : r.layout.tree.offset[m]? = some stop) : n < stop ↔ p < m := by
  have hlaid := hr.laidOut_forest
  obtain ⟨info, hj, ha⟩ := hheld
  obtain ⟨parent, first, hfirst, -, hset⟩ := hlaid.isSet hp hj
  rw [offsets_layout, Sequence.flat?_move, hfirst, Option.map_some, Option.some.injEq] at hn
  rw [← hn]
  exact hlaid.valid.add_lt_offset_iff hset ha hm

theorem Sound.exists_spans (hr : r.Sound) (hi : i < r.size) : ∃ k last, r.Spans i k last := by
  have hlaid := hr.laidOut_forest
  have hnodup := hr.nodup_forest
  obtain ⟨pre, post, hparts⟩ := hr.subtree_infix_forest hi
  rw [← hparts] at hnodup
  have hposition : ∀ {m j : Nat}, r.forest[m]? = some j →
      (r.Descends i j ↔ pre.length ≤ m ∧ m < pre.length + (r.subtree r.size i).length) := by
    intro m j hm
    rw [← hr.mem_subtree_iff hi]
    exact mem_iff_of_nodup_append hnodup (hparts ▸ hm)
  have hhead : r.forest[pre.length]? = some i := by
    rw [← hparts, hr.subtree_eq hi]
    simp
  have hlast : pre.length + (r.subtree r.size i).length < r.layout.tree.offset.size := by
    rw [hlaid.valid.fits.offset_size, hlaid.size_eq, ← hparts]
    simp only [List.length_append]
    omega
  obtain ⟨parent, start, hstart, -, hset⟩ := hlaid.isSet hhead (Array.getElem?_eq_getElem hi)
  refine ⟨pre.length, pre.length + (r.subtree r.size i).length, hhead, hposition, start, _, hstart,
    Array.getElem?_eq_getElem hlast, ?_⟩
  intro j a n hheld hn
  obtain ⟨m, hm⟩ := List.mem_iff_getElem?.mp (hr.mem_forest hheld.lt_size)
  have hfrom := hr.flat_lt_offset_iff hm hheld hn hset.start_eq
  have hto := hr.flat_lt_offset_iff hm hheld hn (Array.getElem?_eq_getElem hlast)
  rw [hposition hm]
  omega

structure InPreorder (r : Registry L A) : Prop where
  preorder_eq : r.preorder = r.forest
  subtree_eq : ∀ i < r.size,
    r.subtree r.size i = i :: (r.below (some i)).flatMap (r.subtree r.size)
  laidOut : r.LaidOut r.forest r.layout.tree
  exists_spans : ∀ i < r.size, ∃ k last, r.Spans i k last

theorem Sound.inPreorder (hr : r.Sound) : r.InPreorder :=
  ⟨hr.preorder_eq_forest, fun _ hi => hr.subtree_eq hi, hr.laidOut_forest,
    fun _ hi => hr.exists_spans hi⟩

end Descends

end Registry

end ExtensiveForm
