import Mathlib.Data.List.Nodup
import ExtensiveForm.Game.Table
import ExtensiveForm.Proofs.Registry.Forest

/-!
Registries without the order of discovery. A record tells of a set what does not depend on the sets that
were found before it. Main statement: registries with the same records, siblings among them in the same
order, are laid out as the same tree.
-/

set_option autoImplicit false

namespace ExtensiveForm

section Lists

variable {α : Type} {l l' : List α}

theorem not_sublist_swap (hn : l.Nodup) {x y : α} (h : [x, y].Sublist l) : ¬[y, x].Sublist l := by
  induction l with
  | nil => simp at h
  | cons a l ih =>
    obtain ⟨ha, hn⟩ := List.nodup_cons.mp hn
    intro h'
    rcases List.sublist_cons_iff.mp h with hxy | ⟨rest, he, hy⟩
    · rcases List.sublist_cons_iff.mp h' with hyx | ⟨rest, he, -⟩
      · exact ih hn hxy hyx
      · cases he
        exact ha (hxy.subset (List.mem_cons_of_mem x List.mem_cons_self))
    · cases he
      rcases List.sublist_cons_iff.mp h' with hyx | ⟨rest, he, -⟩
      · exact ha (hyx.subset (List.mem_cons_of_mem y List.mem_cons_self))
      · cases he
        exact ha (hy.subset List.mem_cons_self)

/-- Lists without repetition are equal if they have the same members in the same order. -/
theorem eq_of_nodup_of_order (hn : l.Nodup) (hn' : l'.Nodup) (hmem : ∀ x, x ∈ l ↔ x ∈ l')
    (horder : ∀ x y, [x, y].Sublist l → [x, y].Sublist l') : l = l' := by
  refine ((List.perm_ext_iff_of_nodup hn hn').mpr hmem).eq_of_pairwise ?_
    (List.pairwise_iff_forall_sublist.mpr fun {x y} => horder x y)
    (List.pairwise_iff_forall_sublist.mpr fun {x y} h => h)
  exact fun x y _ _ h h' => absurd h' (not_sublist_swap hn' h)

theorem filter_eq_of_order (hn : l.Nodup) (hn' : l'.Nodup) (hmem : ∀ x, x ∈ l ↔ x ∈ l')
    {p : α → Bool}
    (horder : ∀ x y, p x = true → p y = true → [x, y].Sublist l → [x, y].Sublist l') :
    l.filter p = l'.filter p := by
  refine eq_of_nodup_of_order (hn.filter p) (hn'.filter p) (by simp [hmem]) fun x y h => ?_
  have hx := (List.mem_filter.mp (h.subset (show x ∈ [x, y] by simp))).2
  have hy := (List.mem_filter.mp (h.subset (show y ∈ [x, y] by simp))).2
  simpa [hx, hy] using (horder x y hx hy (h.trans List.filter_sublist)).filter p

theorem flatMap_eq_of_map_eq {β γ δ : Type} {ys : List β} {f : α → γ} {f' : β → γ}
    {F : α → List δ} {F' : β → List δ} (h : l.map f = ys.map f')
    (hF : ∀ x ∈ l, ∀ y ∈ ys, f x = f' y → F x = F' y) : l.flatMap F = ys.flatMap F' := by
  induction l generalizing ys with
  | nil =>
    cases List.map_eq_nil_iff.mp h.symm
    rfl
  | cons x l ih =>
    cases ys with
    | nil => simp at h
    | cons y ys =>
      rw [List.map_cons, List.map_cons, List.cons.injEq] at h
      have hrest := ih h.2 fun x' hx' y' hy' =>
        hF x' (List.mem_cons_of_mem x hx') y' (List.mem_cons_of_mem y hy')
      rw [List.flatMap_cons, List.flatMap_cons, hrest,
        hF x List.mem_cons_self y List.mem_cons_self h.1]

end Lists

/-- A set, told without regard to when it was found. -/
structure Record (L A : Type) where
  label : L
  actions : List A
  /-- The label of the set that leads here, and the action there. -/
  origin : Option (L × Nat)
  deriving DecidableEq

def Record.above {L A : Type} (x : Record L A) : Option L := x.origin.map Prod.fst

namespace Registry

variable {L A : Type} [BEq L] [Hashable L] {r r' : Registry L A}

def label? (r : Registry L A) (i : Nat) : Option L := r.infosets[i]?.map (·.label)

def origin? (r : Registry L A) : Sequence → Option (L × Nat)
  | .empty => none
  | .move i a => (r.label? i).map (·, a)

def record (r : Registry L A) (info : Infoset L A) : Record L A :=
  ⟨info.label, info.actions, r.origin? info.parent⟩

def record? (r : Registry L A) (i : Nat) : Option (Record L A) := r.infosets[i]?.map r.record

def records (r : Registry L A) : List (Record L A) := r.infosets.toList.map r.record

/-- Two registries hold the same, and found the roots, and the sets below each set, in the same order. -/
structure SameForest (r r' : Registry L A) : Prop where
  mem_iff : ∀ x, x ∈ r.records ↔ x ∈ r'.records
  order_iff : ∀ x y, x.above = y.above →
    ([x, y].Sublist r.records ↔ [x, y].Sublist r'.records)

theorem SameForest.symm (h : r.SameForest r') : r'.SameForest r :=
  ⟨fun x => (h.mem_iff x).symm, fun x y hxy => (h.order_iff x y hxy).symm⟩

theorem label?_eq {i : Nat} (hi : i < r.size) : r.label? i = some r.infosets[i].label := by
  simp [label?, size] at hi ⊢
  exact ⟨_, Array.getElem?_eq_getElem hi, rfl⟩

theorem Sound.label?_inj (hr : r.Sound) {i j : Nat} (hi : i < r.size)
    (h : r.label? i = r.label? j) : i = j := by
  obtain ⟨x, hx, hl⟩ := Option.map_eq_some_iff.mp (h.symm.trans (label?_eq hi))
  exact hr.index_unique (Array.getElem?_eq_getElem hi) hx hl.symm

theorem Sound.nodup_records (hr : r.Sound) : r.records.Nodup := by
  rw [records, List.Nodup, List.pairwise_map, List.pairwise_iff_getElem]
  intro i j hi hj hij he
  have hlabel := congrArg Record.label he
  rw [Array.getElem_toList, Array.getElem_toList] at hlabel
  have hsame := hr.index_unique (Array.getElem?_eq_getElem _) (Array.getElem?_eq_getElem _) hlabel
  omega

theorem record?_eq {i : Nat} {info : Infoset L A} (hi : r.infosets[i]? = some info) :
    r.record? i = some (r.record info) := by
  rw [record?, hi, Option.map_some]

theorem Sound.parent_lt_size (hr : r.Sound) {i j a : Nat} {info : Infoset L A}
    (hi : r.infosets[i]? = some info) (hp : info.parent = .move j a) : j < r.size :=
  (hr.parent hi j a hp).1.trans (Array.getElem?_eq_some_iff.mp hi).1

theorem Sound.above_record_iff (hr : r.Sound) {i : Nat} {info : Infoset L A}
    (hi : r.infosets[i]? = some info) {set? : Option Nat} (hset : ∀ j, set? = some j → j < r.size) :
    (r.record info).above = set?.bind r.label? ↔ info.parent.infoset? = set? := by
  unfold Record.above record
  cases hp : info.parent with
  | empty =>
    cases set? with
    | none => simp [origin?, Sequence.infoset?]
    | some j => simp [origin?, Sequence.infoset?, label?_eq (hset j rfl)]
  | move k a =>
    have hk := hr.parent_lt_size hi hp
    cases set? with
    | none => simp [origin?, Sequence.infoset?, label?_eq hk]
    | some j =>
      have hinj : r.label? k = r.label? j ↔ k = j :=
        ⟨hr.label?_inj hk, fun hkj => congrArg r.label? hkj⟩
      simp only [origin?, Option.map_map, Sequence.infoset?, Option.some.injEq, Option.bind_some]
      rw [← hinj, label?_eq hk]
      simp

theorem label?_eq_of_record?_eq {i i' : Nat} (h : r.record? i = r'.record? i') :
    r.label? i = r'.label? i' := by
  have hlabel := congrArg (Option.map Record.label) h
  simpa [record?, record, label?, Function.comp_def] using hlabel

theorem width_eq_of_record? (r : Registry L A) (i : Nat) :
    r.width i = ((r.record? i).map (·.actions.length)).getD 0 := by
  simp [width, record?, record, Function.comp_def]

theorem SameForest.size_eq (h : r.SameForest r') (hr : r.Sound) (hr' : r'.Sound) :
    r.size = r'.size := by
  have hperm := (List.perm_ext_iff_of_nodup hr.nodup_records hr'.nodup_records).mpr h.mem_iff
  simpa [records, size] using hperm.length_eq

variable [LawfulBEq L]

theorem Sound.map_record?_below (hr : r.Sound) {set? : Option Nat}
    (hset : ∀ j, set? = some j → j < r.size) :
    (r.below set?).map r.record? =
      (r.records.filter fun x => x.above == set?.bind r.label?).map some := by
  have hfst : r.infosets.toList.zipIdx.map Prod.fst = r.infosets.toList := by simp
  conv_rhs => rw [records, ← hfst]
  rw [below, List.map_filterMap, List.map_map, List.filter_map, List.map_map,
    ← List.filterMap_eq_map, List.filterMap_filter]
  refine List.filterMap_congr fun x hx => ?_
  obtain ⟨info, i⟩ := x
  have hi : r.infosets[i]? = some info := by
    simpa [List.mem_zipIdx_iff_getElem?] using hx
  simp only [Function.comp_apply, beq_iff_eq, hr.above_record_iff hi hset]
  split
  · simp [record?_eq hi]
  · rfl

namespace SameForest

variable (h : r.SameForest r') (hr : r.Sound) (hr' : r'.Sound)

include h hr hr'

theorem map_below {set? set'? : Option Nat} (hset : ∀ j, set? = some j → j < r.size)
    (hset' : ∀ j, set'? = some j → j < r'.size)
    (hlabel : set?.bind r.label? = set'?.bind r'.label?) :
    (r.below set?).map r.record? = (r'.below set'?).map r'.record? := by
  have hsame : (r.records.filter fun x => x.above == set?.bind r.label?) =
      r'.records.filter fun x => x.above == set?.bind r.label? := by
    refine filter_eq_of_order hr.nodup_records hr'.nodup_records h.mem_iff fun x y hx hy => ?_
    exact (h.order_iff x y ((eq_of_beq hx).trans (eq_of_beq hy).symm)).mp
  rw [hr.map_record?_below hset, hr'.map_record?_below hset', ← hlabel, hsame]

/-- The same set has the same below it, told in the same order. -/
theorem map_subtree {d i i' : Nat} (hi : i < r.size) (hi' : i' < r'.size)
    (hrec : r.record? i = r'.record? i') :
    (r.subtree d i).map r.record? = (r'.subtree d i').map r'.record? := by
  induction d generalizing i i' with
  | zero => rfl
  | succ d ih =>
    have hbelow : (r.below (some i)).map r.record? = (r'.below (some i')).map r'.record? :=
      h.map_below hr hr' (fun j hj => Option.some.inj hj ▸ hi) (fun j hj => Option.some.inj hj ▸ hi')
        (label?_eq_of_record?_eq hrec)
    rw [subtree, subtree, List.map_cons, List.map_cons, hrec, List.map_flatMap, List.map_flatMap]
    refine congrArg _ (flatMap_eq_of_map_eq hbelow fun c hc c' hc' hcc => ?_)
    exact ih (lt_size_of_mem_below hc) (lt_size_of_mem_below hc') hcc

theorem map_forest : r.forest.map r.record? = r'.forest.map r'.record? := by
  have hroots : (r.below none).map r.record? = (r'.below none).map r'.record? :=
    h.map_below hr hr' (fun j hj => by cases hj) (fun j hj => by cases hj) rfl
  rw [forest, forest, List.map_flatMap, List.map_flatMap, h.size_eq hr hr']
  refine flatMap_eq_of_map_eq hroots fun c hc c' hc' hcc => ?_
  exact h.map_subtree hr hr' (lt_size_of_mem_below hc) (lt_size_of_mem_below hc') hcc

theorem offset_eq {k i i' : Nat} (hk : r.forest[k]? = some i) (hk' : r'.forest[k]? = some i') :
    r.offsets[i]? = r'.offsets[i']? := by
  have hwidths : (r.forest.take k).map r.width = (r'.forest.take k).map r'.width := by
    have hmap := congrArg (List.map fun x => (x.map fun y => y.actions.length).getD 0)
      (congrArg (List.take k) (h.map_forest hr hr'))
    simpa only [← List.map_take, List.map_map, Function.comp_def, ← width_eq_of_record?] using hmap
  rw [hr.offset_eq_of_forest hk, hr'.offset_eq_of_forest hk', hwidths]

theorem offset_eq_of_label? {j j' : Nat} (hj : j < r.size) (hj' : j' < r'.size)
    (hlabel : r.label? j = r'.label? j') : r.offsets[j]? = r'.offsets[j']? := by
  obtain ⟨m, hm⟩ := List.mem_iff_getElem?.mp (hr.mem_forest hj)
  have hat := congrArg (·[m]?) (h.map_forest hr hr')
  simp only [List.getElem?_map, hm, Option.map_some] at hat
  obtain ⟨j'', hm', hrec⟩ := Option.map_eq_some_iff.mp hat.symm
  have hsame := hr'.label?_inj hj' (hlabel.symm.trans (label?_eq_of_record?_eq hrec).symm)
  exact h.offset_eq hr hr' hm (hsame ▸ hm')

theorem flat?_parent_eq {i i' : Nat} {info info' : Infoset L A} (hi : r.infosets[i]? = some info)
    (hi' : r'.infosets[i']? = some info') (horigin : r.origin? info.parent = r'.origin? info'.parent) :
    info.parent.flat? r.offsets = info'.parent.flat? r'.offsets := by
  cases hp : info.parent with
  | empty =>
    cases hp' : info'.parent with
    | empty => rfl
    | move j a =>
      simp [hp, hp', origin?, label?_eq (hr'.parent_lt_size hi' hp')] at horigin
  | move j a =>
    have hj := hr.parent_lt_size hi hp
    cases hp' : info'.parent with
    | empty => simp [hp, hp', origin?, label?_eq hj] at horigin
    | move j' a' =>
      have hj' := hr'.parent_lt_size hi' hp'
      simp only [hp, hp', origin?, label?_eq hj, label?_eq hj', Option.map_some, Option.some.injEq,
        Prod.mk.injEq] at horigin
      have hlabel : r.label? j = r'.label? j' := by
        rw [label?_eq hj, label?_eq hj', horigin.1]
      rw [Sequence.flat?_move, Sequence.flat?_move, h.offset_eq_of_label? hr hr' hj hj' hlabel,
        horigin.2]

theorem exists_isSet {k i i' : Nat} (hk : r.forest[k]? = some i) (hk' : r'.forest[k]? = some i')
    (hrec : r.record? i = r'.record? i') : ∃ parent start label actions,
      r.layout.tree.IsSet k parent start label actions ∧
        r'.layout.tree.IsSet k parent start label actions := by
  have hlaid := hr.laidOut_forest
  have hlaid' := hr'.laidOut_forest
  obtain ⟨info, hi⟩ := exists_of_mem_preorder (hr.preorder_eq_forest ▸ List.mem_of_getElem? hk)
  obtain ⟨info', hi'⟩ := exists_of_mem_preorder (hr'.preorder_eq_forest ▸ List.mem_of_getElem? hk')
  obtain ⟨parent, start, hstart, hparent, hset⟩ := hlaid.isSet hk hi
  obtain ⟨parent', start', hstart', hparent', hset'⟩ := hlaid'.isSet hk' hi'
  rw [record?_eq hi, record?_eq hi', Option.some.injEq, record, record, Record.mk.injEq] at hrec
  obtain ⟨hlabel, hactions, horigin⟩ := hrec
  rw [h.offset_eq hr hr' hk hk', hstart', Option.some.injEq] at hstart
  rw [h.flat?_parent_eq hr hr' hi hi' horigin, hparent', Option.some.injEq] at hparent
  rw [hlabel, hactions, ← hstart, ← hparent] at hset
  exact ⟨_, _, _, _, hset, hset'⟩

theorem layout_eq : r.layout.tree = r'.layout.tree := by
  have hlaid := hr.laidOut_forest
  have hlaid' := hr'.laidOut_forest
  have hmap := h.map_forest hr hr'
  have hlength : r.forest.length = r'.forest.length := by simpa using congrArg List.length hmap
  have hsize := hlaid.size_eq.trans (hlength.trans hlaid'.size_eq.symm)
  refine hlaid.valid.eq_of_isSet hlaid'.valid hsize fun {k parent start label actions} hset => ?_
  have hk : k < r.forest.length := hlaid.size_eq ▸ hset.lt_size
  have hk' := List.getElem?_eq_getElem (hlength ▸ hk)
  have hat := congrArg (·[k]?) hmap
  simp only [List.getElem?_map, List.getElem?_eq_getElem hk, hk', Option.map_some,
    Option.some.injEq] at hat
  obtain ⟨p, s, l, as, hset₁, hset₂⟩ := h.exists_isSet hr hr' (List.getElem?_eq_getElem hk) hk' hat
  cases hset.parent_eq.symm.trans hset₁.parent_eq
  cases hset.start_eq.symm.trans hset₁.start_eq
  cases hset.label_eq.symm.trans hset₁.label_eq
  cases hset.actions_eq.symm.trans hset₁.actions_eq
  exact hset₂

end SameForest

end Registry

namespace Game

variable {σ σ' L A R R' : Type} [BEq L] [LawfulBEq L] [Hashable L] [BEq A] [LawfulBEq A] [Scalar R]
  [Scalar R'] {g : Game σ A L R} {g' : Game σ' A L R'} {fuel fuel' : Nat} {start : σ} {start' : σ'}
  {found : Exploration L A R} {found' : Exploration L A R'}

/-- The order of discovery decides on the order of siblings and on nothing else. -/
theorem layout_of_explore (h : g.explore fuel start = some (.ok found))
    (h' : g'.explore fuel' start' = some (.ok found')) (seat seat' : Seat) :
    (found.registry seat).InPreorder ∧
      ((found.registry seat).SameForest (found'.registry seat') →
        (found.registry seat).layout.tree = (found'.registry seat').layout.tree) := by
  have hr := (explored_of_explore h).sound.registry seat
  have hr' := (explored_of_explore h').sound.registry seat'
  exact ⟨hr.inPreorder, fun hsame => hsame.layout_eq hr hr'⟩

end Game

def threeDraws (draws : List (Table.Edge Nat Rat)) : Game Nat Nat Nat Rat :=
  Table.game #[⟨some .chance, none, none, draws⟩,
    ⟨some (.seat .first), some 0, none, [⟨0, 4, none⟩]⟩,
    ⟨some (.seat .first), some 1, none, [⟨0, 4, none⟩]⟩,
    ⟨some (.seat .first), some 0, none, [⟨0, 5, none⟩]⟩,
    ⟨none, none, some 1, []⟩,
    ⟨some (.seat .first), some 2, none, [⟨0, 4, none⟩]⟩]

def secondRootEarly : Registry Nat Nat :=
  ((Registry.empty.push ⟨0, [0], .empty⟩).push ⟨1, [0], .empty⟩).push ⟨2, [0], .move 0 0⟩

def secondRootLate : Registry Nat Nat :=
  ((Registry.empty.push ⟨0, [0], .empty⟩).push ⟨2, [0], .move 0 0⟩).push ⟨1, [0], .empty⟩

theorem sameForest_secondRoot : secondRootEarly.SameForest secondRootLate := by
  have hmem : ∀ x, x ∈ secondRootEarly.records ↔ x ∈ secondRootLate.records := by
    intro x
    have hearly : secondRootEarly.records =
        [⟨0, [0], none⟩, ⟨1, [0], none⟩, ⟨2, [0], some (0, 0)⟩] := rfl
    have hlate : secondRootLate.records =
        [⟨0, [0], none⟩, ⟨2, [0], some (0, 0)⟩, ⟨1, [0], none⟩] := rfl
    simp only [hearly, hlate, List.mem_cons, List.not_mem_nil, or_false]
    tauto
  have horder : ∀ x ∈ secondRootEarly.records, ∀ y ∈ secondRootEarly.records, x.above = y.above →
      ([x, y].Sublist secondRootEarly.records ↔ [x, y].Sublist secondRootLate.records) := by
    decide
  refine ⟨hmem, fun x y hxy => ⟨fun h => ?_, fun h => ?_⟩⟩
  · exact (horder x (h.subset (by simp)) y (h.subset (by simp)) hxy).mp h
  · exact (horder x ((hmem x).mpr (h.subset (by simp))) y ((hmem y).mpr (h.subset (by simp))) hxy).mpr h

theorem layout_threeDraws : ∃ found found',
    (threeDraws [⟨0, 1, some 0⟩, ⟨1, 2, some 0⟩, ⟨2, 3, some 1⟩]).explore 8 0 = some (.ok found) ∧
      (threeDraws [⟨0, 3, some 1⟩, ⟨1, 1, some 0⟩, ⟨2, 2, some 0⟩]).explore 8 0 = some (.ok found') ∧
        (found.registry .first).records ≠ (found'.registry .first).records ∧
          (found.registry .first).InPreorder ∧
            (found.registry .first).layout.tree = (found'.registry .first).layout.tree := by
  have hearly : (threeDraws [⟨0, 1, some 0⟩, ⟨1, 2, some 0⟩, ⟨2, 3, some 1⟩]).node 0 =
      .ok (.chance [(0, 1), (0, 2), (1, 3)]) := rfl
  have hlate : (threeDraws [⟨0, 3, some 1⟩, ⟨1, 1, some 0⟩, ⟨2, 2, some 0⟩]).node 0 =
      .ok (.chance [(1, 3), (0, 1), (0, 2)]) := rfl
  have h₁ : ∀ draws, (threeDraws draws).node 1 = .ok (.decision .first 0 [(0, 4)]) := fun _ => rfl
  have h₂ : ∀ draws, (threeDraws draws).node 2 = .ok (.decision .first 1 [(0, 4)]) := fun _ => rfl
  have h₃ : ∀ draws, (threeDraws draws).node 3 = .ok (.decision .first 0 [(0, 5)]) := fun _ => rfl
  have h₄ : ∀ draws, (threeDraws draws).node 4 = .ok (.terminal 1) := fun _ => rfl
  have h₅ : ∀ draws, (threeDraws draws).node 5 = .ok (.decision .first 2 [(0, 4)]) := fun _ => rfl
  have hempty : (Registry.empty : Registry Nat Nat).infosets = #[] := rfl
  have hruns : (∃ found,
      (threeDraws [⟨0, 1, some 0⟩, ⟨1, 2, some 0⟩, ⟨2, 3, some 1⟩]).explore 8 0 = some (.ok found) ∧
        found.registry .first = secondRootEarly) ∧ ∃ found,
      (threeDraws [⟨0, 3, some 1⟩, ⟨1, 1, some 0⟩, ⟨2, 2, some 0⟩]).explore 8 0 = some (.ok found) ∧
        found.registry .first = secondRootLate := by
    constructor <;>
      simp [Game.explore, Game.walk, Game.look, hearly, hlate, h₁, h₂, h₃, h₄, h₅, Frame.root,
        Frame.chanceChildren, Frame.moveChildren, Exploration.empty, Exploration.enter,
        Exploration.addPayoff, PerSeat.get, PerSeat.set, PerSeat.both, Registry.enter,
        Registry.find?, Registry.conflict?, Registry.position?_push, Exploration.registry, hempty,
        secondRootEarly, secondRootLate]
  obtain ⟨⟨found, h, hfirst⟩, found', h', hfirst'⟩ := hruns
  obtain ⟨hpre, htree⟩ := Game.layout_of_explore h h' .first .first
  have hsame : (found.registry .first).SameForest (found'.registry .first) := by
    rw [hfirst, hfirst']
    exact sameForest_secondRoot
  refine ⟨found, found', h, h', ?_, hpre, htree hsame⟩
  rw [hfirst, hfirst']
  decide

end ExtensiveForm
