import ExtensiveForm.SequenceTree.Realization
import ExtensiveForm.Proofs.SequenceTree.Valid

/-!
Plans of behaviors on valid trees. Main statement: a behavior has a plan exactly if it serves at
every set, and the number of a sequence is the product of the behavior's numbers along its history.
-/

set_option autoImplicit false

namespace ExtensiveForm

def Behavior.along {L R : Type} [BEq L] [Hashable L] [Zero R] [One R] [Mul R] (b : Behavior L R)
    (h : History L) : R :=
  h.foldl (fun w (label, a) => w * ((b[label]?).getD []).getD a 0) 1

theorem Behavior.along_append {L R : Type} [BEq L] [Hashable L] [Zero R] [One R] [Mul R]
    (b : Behavior L R) (h : History L) (label : L) (a : Nat) :
    b.along (h ++ [(label, a)]) = b.along h * ((b[label]?).getD []).getD a 0 := by
  simp [along, List.foldl_append]

namespace SequenceTree

variable {L A R : Type} {t : SequenceTree L A}

section Plan

variable [Zero R] [One R] [Mul R]

/-- A plan that multiplies the number of a set's parent by the numbers given for the set. -/
structure IsPlanOf (t : SequenceTree L A) (numbers : Nat → List R) (x : Array R) : Prop where
  size_eq : x.size = t.sequences
  root : x[0]? = some 1
  block : ∀ {k parent start a : Nat} {label : L} {actions : List A},
    t.IsSet k parent start label actions → a < actions.length →
      x.getD (start + a) 0 = x.getD parent 0 * (numbers k).getD a 0

def blockOf (reach : R) (numbers : List R) (width : Nat) : Array R :=
  ((List.range width).map fun a => reach * numbers.getD a 0).toArray

omit [One R] in
@[simp] theorem size_blockOf (reach : R) (numbers : List R) (width : Nat) :
    (blockOf reach numbers width).size = width := by simp [blockOf]

omit [One R] in
theorem getD_append_blockOf_of_lt {y : Array R} {i : Nat} (h : i < y.size) (reach : R)
    (numbers : List R) (width : Nat) :
    (y ++ blockOf reach numbers width).getD i 0 = y.getD i 0 := by
  simp [Array.getD_eq_getD_getElem?, Array.getElem?_append, h]

omit [One R] in
theorem getD_append_blockOf {y : Array R} {a width : Nat} (h : a < width) (reach : R)
    (numbers : List R) :
    (y ++ blockOf reach numbers width).getD (y.size + a) 0 = reach * numbers.getD a 0 := by
  simp [Array.getD_eq_getD_getElem?, blockOf, h]

theorem isPlanOf_empty (numbers : Nat → List R) :
    (empty : SequenceTree L A).IsPlanOf numbers #[1] :=
  ⟨rfl, rfl, fun h => absurd h not_isSet_empty⟩

theorem IsPlanOf.append {numbers : Nat → List R} {y : Array R} {parent : Nat} {label : L}
    {actions : List A} (ht : t.Valid) (hp : parent < t.sequences) (hy : t.IsPlanOf numbers y) :
    (t.append parent label actions).IsPlanOf numbers
      (y ++ blockOf (y.getD parent 0) (numbers t.size) actions.length) := by
  have hpos := ht.sequences_pos
  refine ⟨by simp [hy.size_eq], ?_, ?_⟩
  · rw [Array.getElem?_append_left (by rw [hy.size_eq]; exact hpos)]
    exact hy.root
  · intro k p start a l as hk ha
    rcases (isSet_append_iff ht.fits).mp hk with hk | ⟨rfl, rfl, rfl, rfl, rfl⟩
    · obtain ⟨hps, -, hle⟩ := ht.isSet_bounds hk
      have hsize := hy.size_eq
      rw [getD_append_blockOf_of_lt (by omega), getD_append_blockOf_of_lt (by omega)]
      exact hy.block hk ha
    · rw [← hy.size_eq, getD_append_blockOf ha,
        getD_append_blockOf_of_lt (by rw [hy.size_eq]; exact hp)]

theorem IsPlanOf.exists_append {numbers : Nat → List R} {x : Array R} {parent : Nat} {label : L}
    {actions : List A} (ht : t.Valid) (hp : parent < t.sequences)
    (hx : (t.append parent label actions).IsPlanOf numbers x) :
    ∃ y, t.IsPlanOf numbers y ∧
      x = y ++ blockOf (y.getD parent 0) (numbers t.size) actions.length := by
  have hsize := hx.size_eq
  rw [sequences_append] at hsize
  have hpos := ht.sequences_pos
  have hget : ∀ {i}, i < t.sequences → (x.extract 0 t.sequences).getD i 0 = x.getD i 0 := by
    intro i hi
    rw [Array.getD_eq_getD_getElem?, Array.getElem?_extract, if_pos (by omega), Nat.zero_add,
      Array.getD_eq_getD_getElem?]
  have hset := ht.fits.isSet_append parent label actions
  refine ⟨x.extract 0 t.sequences, ⟨by simp [hsize], ?_, ?_⟩, ?_⟩
  · rw [Array.getElem?_extract]
    simpa [hsize, hpos] using hx.root
  · intro k p start a l as hk ha
    obtain ⟨hps, -, hle⟩ := ht.isSet_bounds hk
    rw [hget (by omega), hget (by omega)]
    exact hx.block (hk.append ht.fits parent label actions) ha
  · refine Array.ext (by simp [hsize]) fun i hi hi' => ?_
    have hxi : x[i] = x.getD i 0 := by simp [Array.getD_eq_getD_getElem?, hi]
    have hyi : ∀ {y : Array R} (h : i < y.size), y[i] = y.getD i 0 := by
      intro y h
      simp [Array.getD_eq_getD_getElem?, h]
    rw [hxi, hyi hi', hget hp]
    by_cases hlt : i < t.sequences
    · rw [getD_append_blockOf_of_lt (by simp [hsize, hlt]), hget hlt]
    · have hia : i = t.sequences + (i - t.sequences) := by omega
      have hsz : (x.extract 0 t.sequences).size = t.sequences := by simp [hsize]
      have hblock := hx.block hset (show i - t.sequences < actions.length by omega)
      rw [← hia] at hblock
      have happ := getD_append_blockOf (y := x.extract 0 t.sequences)
        (show i - t.sequences < actions.length by omega) (x.getD parent 0) (numbers t.size)
      rw [hsz, ← hia] at happ
      rw [hblock, happ]

theorem Valid.exists_isPlanOf (ht : t.Valid) (numbers : Nat → List R) :
    ∃ x, t.IsPlanOf numbers x := by
  induction ht with
  | empty => exact ⟨_, isPlanOf_empty numbers⟩
  | append ht hp _ ih =>
    obtain ⟨y, hy⟩ := ih
    exact ⟨_, hy.append ht hp⟩

theorem Valid.isPlanOf_unique (ht : t.Valid) {numbers : Nat → List R} {x y : Array R}
    (hx : t.IsPlanOf numbers x) (hy : t.IsPlanOf numbers y) : x = y := by
  induction ht generalizing x y with
  | empty =>
    have hone : ∀ {z : Array R}, (SequenceTree.empty : SequenceTree L A).IsPlanOf numbers z → z = #[1] := by
      intro z hz
      refine Array.ext hz.size_eq fun i hi hi' => ?_
      have hi0 : i = 0 := by simpa using hi'
      subst hi0
      have hroot := hz.root
      rw [Array.getElem?_eq_getElem hi] at hroot
      exact Option.some.inj hroot
    rw [hone hx, hone hy]
  | append ht hp _ ih =>
    obtain ⟨x', hx', rfl⟩ := hx.exists_append ht hp
    obtain ⟨y', hy', rfl⟩ := hy.exists_append ht hp
    rw [ih hx' hy']

/-- What holds of one, and passes from the number of a set's parent to those of its block, holds of all
numbers of a plan. -/
theorem IsPlanOf.forall_getD (ht : t.Valid) {numbers : Nat → List R} {x : Array R}
    (hx : t.IsPlanOf numbers x) {P : R → Prop} (hroot : P 1)
    (hblock : ∀ ⦃k parent start a : Nat⦄ ⦃label : L⦄ ⦃actions : List A⦄,
      t.IsSet k parent start label actions → a < actions.length → P (x.getD parent 0) →
        P (x.getD parent 0 * (numbers k).getD a 0)) {s : Nat} (hs : s < t.sequences) :
    P (x.getD s 0) := by
  obtain ⟨h, hh⟩ := ht.exists_ownHistory hs
  clear hs
  induction hh with
  | empty => simpa [Array.getD_eq_getD_getElem?, hx.root] using hroot
  | move hk ha hp ih => exact hx.block hk ha ▸ hblock hk ha ih

variable [BEq L] [Hashable L]

def numbersOf (t : SequenceTree L A) (b : Behavior L R) (k : Nat) : List R :=
  ((t.label[k]?).bind fun label => b[label]?).getD []

omit [Zero R] [One R] [Mul R] in
theorem IsSet.numbersOf_eq {k parent start : Nat} {label : L} {actions : List A}
    (h : t.IsSet k parent start label actions) (b : Behavior L R) :
    t.numbersOf b k = (b[label]?).getD [] := by
  simp [numbersOf, h.label_eq]

def Last (t : SequenceTree L A) (k : Nat) (label : L) : Prop :=
  t.label[k]? = some label ∧ ∀ j, k < j → t.label[j]? ≠ some label

omit [Zero R] [One R] [Mul R] in
theorem Last.getElem?_behaviorOf [LawfulBEq L] {k : Nat} {label : L} (hk : t.Last k label)
    {numbers : List (List R)} {ns : List R} (h : numbers[k]? = some ns) :
    (t.behaviorOf numbers)[label]? = some ns := by
  have hset : (t.label.toList.zip numbers)[k]? = some (label, ns) :=
    List.getElem?_zip_eq_some.mpr ⟨by simpa using hk.1, h⟩
  obtain ⟨hlt, hget⟩ := List.getElem?_eq_some_iff.mp hset
  have hsplit : t.label.toList.zip numbers = (t.label.toList.zip numbers).take k ++
      (label, ns) :: (t.label.toList.zip numbers).drop (k + 1) := by
    rw [← hget, List.cons_getElem_drop_succ, List.take_append_drop]
  -- nothing that is inserted after the set overwrites its numbers
  have hlater : (((t.label.toList.zip numbers).drop (k + 1)).map Prod.fst).contains label =
      false := by
    rw [List.contains_eq_mem, decide_eq_false_iff_not, List.mem_map]
    rintro ⟨⟨l, ns'⟩, hmem, rfl⟩
    obtain ⟨j, hj⟩ := List.mem_iff_getElem?.mp hmem
    rw [List.getElem?_drop, List.getElem?_zip_eq_some, Array.getElem?_toList] at hj
    exact hk.2 (k + 1 + j) (by omega) hj.1
  rw [behaviorOf, hsplit, Std.HashMap.ofList_eq_insertMany_empty, Std.HashMap.insertMany_append,
    Std.HashMap.insertMany_cons, Std.HashMap.getElem?_insertMany_list_of_contains_eq_false hlater,
    Std.HashMap.getElem?_insert_self]

omit [Zero R] [One R] [Mul R] in
theorem Last.getElem?_uniformBehavior [LawfulBEq L] [Scalar R] {k : Nat} {label : L}
    {actions : List A} (hk : t.Last k label) (ha : t.actions[k]? = some actions) :
    (t.uniformBehavior : Behavior L R)[label]? = some (evenNumbers actions.length) := by
  refine hk.getElem?_behaviorOf ?_
  rw [List.getElem?_map, Array.getElem?_toList, ha, Option.map_some]

omit [Zero R] [One R] [Mul R] [BEq L] [Hashable L] in
theorem IsSet.last (hl : t.label.toList.Nodup) {k parent start : Nat} {label : L} {actions : List A}
    (hk : t.IsSet k parent start label actions) : t.Last k label := by
  refine ⟨hk.label_eq, fun j hj hlabel => ?_⟩
  have hlt : k < t.label.toList.length := by
    simpa using (Array.getElem?_eq_some_iff.mp hk.label_eq).1
  have heq : t.label.toList[k]? = t.label.toList[j]? := by
    rw [Array.getElem?_toList, Array.getElem?_toList, hk.label_eq, hlabel]
  exact Nat.ne_of_lt hj ((List.getElem?_inj hlt hl).mp heq)

theorem IsPlanOf.getD_eq_along {b : Behavior L R} {x : Array R}
    (hx : t.IsPlanOf (t.numbersOf b) x) {s : Nat} {h : History L} (hs : t.OwnHistory s h) :
    x.getD s 0 = b.along h := by
  induction hs with
  | empty => simp [Array.getD_eq_getD_getElem?, hx.root, Behavior.along]
  | move hk ha hp ih => rw [hx.block hk ha, ih, Behavior.along_append, hk.numbersOf_eq]

end Plan

section Realization

theorem exists_writeFrom? {size i : Nat} (filled : Filled R) (vs : List R)
    (h : i + vs.length ≤ size) :
    ∃ d, ∀ size', i + vs.length ≤ size' → writeFrom? size' filled i vs = some d := by
  induction vs generalizing i filled with
  | nil => exact ⟨filled, fun _ _ => rfl⟩
  | cons v rest ih =>
    simp only [List.length_cons] at h ⊢
    obtain ⟨d, hd⟩ := ih (i := i + 1) (filled.insert i v) (by omega)
    refine ⟨d, fun size' hs => ?_⟩
    rw [writeFrom?, if_pos (by omega)]
    exact hd size' (by omega)

variable [BEq L] [Hashable L] [Scalar R]

/-- Filling one set fails only for what the behavior says about it, whatever else the tree holds. -/
theorem IsSet.exists_realizeSet {k parent start : Nat} {label : L} {actions : List A}
    (h : t.IsSet k parent start label actions) (hp : parent < t.sequences)
    (hs : start + actions.length ≤ t.sequences) (b : Behavior L R) (filled : Filled R) :
    t.realizeSet b label k filled =
      match b.at? label actions.length with
      | .error fault => .error (.strategy label fault)
      | .ok numbers =>
        match writeFrom? (start + actions.length) filled start
          (numbers.map (filled.getD parent 0 * ·)) with
        | none => .error .outOfBounds
        | some filled => .ok filled := by
  unfold realizeSet
  simp only [h.actions_eq]
  cases hb : b.at? label actions.length with
  | error fault => rfl
  | ok numbers =>
    have hl := (Behavior.at?_eq_ok_iff.mp hb).2
    obtain ⟨d, hd⟩ := exists_writeFrom? filled (numbers.map (filled.getD parent 0 * ·))
      (show start + (numbers.map (filled.getD parent 0 * ·)).length ≤ t.sequences by
        rw [List.length_map, hl]; exact hs)
    have htake : numbers.take (start + actions.length - start) = numbers := by
      rw [Nat.add_sub_cancel_left, ← hl, List.take_length]
    rw [List.length_map, hl] at hd
    simp only [fill?, block?, h.parent_eq, h.start_eq, h.stop_eq, Option.bind_eq_bind,
      Option.bind_some, hp, if_true, Option.pure_def, htake, hd _ hs, hd _ (Nat.le_refl _)]

def fillSets (t : SequenceTree L A) (b : Behavior L R) : Except (PlanFault L) (Filled R) :=
  t.label.toList.zipIdx.foldlM (fun filled (label, i) => t.realizeSet b label i filled)
    ((∅ : Filled R).insert 0 1)

theorem Valid.realization_eq (ht : t.Valid) (b : Behavior L R) :
    t.realization b = (t.fillSets b).map t.planOf := by
  have hpos : t.sequences ≠ 0 := Nat.ne_of_gt ht.sequences_pos
  have hover : t.overlong = false := by simp [overlong, ht.fits.sequences_eq]
  simp only [realization, nothingFilled?, hpos, hover, decide_false, Bool.or_self]
  rfl

theorem fillSets_append {parent : Nat} {label : L} {actions : List A} (ht : t.Valid)
    (b : Behavior L R) :
    (t.append parent label actions).fillSets b =
      (t.fillSets b).bind ((t.append parent label actions).realizeSet b label t.size) := by
  have hzip : (t.label.push label).toList.zipIdx = t.label.toList.zipIdx ++ [(label, t.size)] := by
    simp [List.zipIdx_append, ht.fits.label_size]
  -- the sets of the shorter tree are filled as before
  have hsame : ∀ x ∈ t.label.toList.zipIdx, ∀ filled : Filled R,
      (t.append parent label actions).realizeSet b x.1 x.2 filled =
        t.realizeSet b x.1 x.2 filled := by
    rintro ⟨l, k⟩ hx filled
    rw [List.mem_zipIdx_iff_getElem?, Array.getElem?_toList] at hx
    have hk : k < t.size := ht.fits.label_size ▸ (Array.getElem?_eq_some_iff.mp hx).1
    obtain ⟨p, start, l', as, hset⟩ := ht.exists_isSet hk
    cases hx.symm.trans hset.label_eq
    obtain ⟨hps, -, hle⟩ := ht.isSet_bounds hset
    have hset' := hset.append ht.fits parent label actions
    rw [hset.exists_realizeSet (by omega) hle b filled,
      hset'.exists_realizeSet (by simp; omega) (by simp; omega) b filled]
  unfold fillSets
  rw [label_append, hzip, List.foldlM_append, foldlM_congr_of_mem hsame]
  simp only [List.foldlM_cons, List.foldlM_nil, bind_pure]
  rfl

omit [BEq L] [Hashable L] in
theorem getD_planOf {i : Nat} (hi : i < t.sequences) (filled : Filled R) :
    (t.planOf filled).getD i 0 = filled.getD i 0 := by
  simp [Array.getD_eq_getD_getElem?, planOf, hi]

omit [BEq L] [Hashable L] in
theorem planOf_append {parent : Nat} {label : L} {actions : List A} {numbers : List R}
    {filled d : Filled R} {size : Nat} (hp : parent < t.sequences)
    (hl : numbers.length = actions.length)
    (hd : writeFrom? size filled t.sequences (numbers.map (filled.getD parent 0 * ·)) = some d) :
    (t.append parent label actions).planOf d =
      t.planOf filled ++ blockOf ((t.planOf filled).getD parent 0) numbers actions.length := by
  have hsize : (t.planOf filled).size = t.sequences := size_planOf t filled
  rw [getD_planOf hp]
  refine Array.ext (by simp) fun i hi hi' => ?_
  have hi : i < t.sequences + actions.length := by simpa using hi
  have hleft : ((t.append parent label actions).planOf d)[i] = d.getD i 0 := by
    simp [planOf]
  have hright : (t.planOf filled ++ blockOf (filled.getD parent 0) numbers actions.length)[i] =
      (t.planOf filled ++ blockOf (filled.getD parent 0) numbers actions.length).getD i 0 := by
    rw [Array.getD_eq_getD_getElem?, Array.getElem?_eq_getElem hi', Option.getD_some]
  rw [hleft, hright, Std.HashMap.getD_eq_getD_getElem?, getElem?_of_writeFrom? hd, List.length_map,
    hl]
  by_cases hlt : i < t.sequences
  · rw [if_neg (by omega), getD_append_blockOf_of_lt (by rw [hsize]; exact hlt), getD_planOf hlt,
      Std.HashMap.getD_eq_getD_getElem?]
  · obtain ⟨a, rfl⟩ := Nat.exists_eq_add_of_le (Nat.le_of_not_lt hlt)
    have ha : a < actions.length := by omega
    have hblock := getD_append_blockOf (y := t.planOf filled) ha (filled.getD parent 0) numbers
    rw [hsize] at hblock
    rw [if_pos (by omega), hblock, Nat.add_sub_cancel_left]
    simp [hl, ha]

theorem Valid.realization_append {parent : Nat} {label : L} {actions : List A} (ht : t.Valid)
    (hp : parent < t.sequences) (ha : actions ≠ []) (b : Behavior L R) :
    (t.append parent label actions).realization b =
      match t.realization b with
      | .error e => .error e
      | .ok x =>
        match b.at? label actions.length with
        | .error fault => .error (.strategy label fault)
        | .ok numbers => .ok (x ++ blockOf (x.getD parent 0) numbers actions.length) := by
  rw [(ht.append hp ha).realization_eq, ht.realization_eq, fillSets_append ht]
  cases hf : t.fillSets b with
  | error e => rfl
  | ok filled =>
    have hset := ht.fits.isSet_append parent label actions
    simp only [Except.bind, Except.map]
    rw [hset.exists_realizeSet (by simp; omega) (by simp) b filled]
    cases hb : b.at? label actions.length with
    | error fault => rfl
    | ok numbers =>
      have hl := (Behavior.at?_eq_ok_iff.mp hb).2
      obtain ⟨d, hd⟩ := exists_writeFrom? (i := t.sequences) filled
        (numbers.map (filled.getD parent 0 * ·)) (Nat.le_refl _)
      rw [List.length_map, hl] at hd
      simp only [hd _ (Nat.le_refl _), planOf_append hp hl (hd _ (Nat.le_refl _))]

def Serves (t : SequenceTree L A) (b : Behavior L R) : Prop :=
  ∀ ⦃k parent start : Nat⦄ ⦃label : L⦄ ⦃actions : List A⦄,
    t.IsSet k parent start label actions → ∃ numbers, b.at? label actions.length = .ok numbers

def Plays (t : SequenceTree L A) (P : List R → Prop) (b : Behavior L R) : Prop :=
  ∀ ⦃k parent start : Nat⦄ ⦃label : L⦄ ⦃actions : List A⦄,
    t.IsSet k parent start label actions →
      ∃ numbers, b.at? label actions.length = .ok numbers ∧ P numbers

omit [Scalar R] in
theorem Plays.serves {P : List R → Prop} {b : Behavior L R} (h : t.Plays P b) : t.Serves b := by
  intro k parent start label actions hk
  obtain ⟨numbers, hnum, -⟩ := h hk
  exact ⟨numbers, hnum⟩

omit [Scalar R] in
theorem Plays.imp {P Q : List R → Prop} {b : Behavior L R} (h : t.Plays P b)
    (hpq : ∀ ns, P ns → Q ns) : t.Plays Q b := by
  intro k parent start label actions hk
  obtain ⟨numbers, hnum, hn⟩ := h hk
  exact ⟨numbers, hnum, hpq numbers hn⟩

omit [Scalar R] in
theorem serves_append_iff {parent : Nat} {label : L} {actions : List A} (ht : t.Valid)
    {b : Behavior L R} : (t.append parent label actions).Serves b ↔
      t.Serves b ∧ ∃ numbers, b.at? label actions.length = .ok numbers := by
  constructor
  · intro h
    exact ⟨fun _ _ _ _ _ hk => h (hk.append ht.fits parent label actions),
      h (ht.fits.isSet_append _ _ _)⟩
  · rintro ⟨h, hlast⟩ k p start l as hk
    rcases (isSet_append_iff ht.fits).mp hk with hk | ⟨-, -, -, rfl, rfl⟩
    · exact h hk
    · exact hlast

omit [BEq L] [Hashable L] in
theorem IsPlanOf.congr {numbers numbers' : Nat → List R} {x : Array R} (hx : t.IsPlanOf numbers x)
    (h : ∀ {k}, k < t.size → numbers k = numbers' k) : t.IsPlanOf numbers' x :=
  ⟨hx.size_eq, hx.root, fun hk ha => h hk.lt_size ▸ hx.block hk ha⟩

omit [Scalar R] in
theorem numbersOf_append_of_lt {parent : Nat} {label : L} {actions : List A} (ht : t.Fits)
    (b : Behavior L R) {k : Nat} (hk : k < t.size) :
    (t.append parent label actions).numbersOf b k = t.numbersOf b k := by
  have hne : k ≠ t.label.size := by rw [ht.label_size]; omega
  simp [numbersOf, Array.getElem?_push, hne]

/-- A behavior has a plan exactly if it serves at every set, and that plan multiplies its numbers. -/
theorem Valid.realization_eq_ok_iff (ht : t.Valid) {b : Behavior L R} {x : Array R} :
    t.realization b = .ok x ↔ t.Serves b ∧ t.IsPlanOf (t.numbersOf b) x := by
  induction ht generalizing x with
  | empty =>
    have hreal : (SequenceTree.empty : SequenceTree L A).realization b = .ok #[1] := by
      rw [Valid.empty.realization_eq]
      have hplan : (SequenceTree.empty : SequenceTree L A).planOf ((∅ : Filled R).insert 0 1) =
          #[1] := by
        refine Array.ext rfl fun i hi hi' => ?_
        have hi0 : i = 0 := by simpa using hi'
        subst hi0
        simp [planOf]
      exact congrArg Except.ok hplan
    rw [hreal]
    constructor
    · intro h
      cases h
      exact ⟨fun _ _ _ _ _ hk => absurd hk not_isSet_empty, isPlanOf_empty _⟩
    · rintro ⟨-, hx⟩
      rw [Valid.empty.isPlanOf_unique hx (isPlanOf_empty _)]
  | @append t parent label actions ht hp ha ih =>
    rw [ht.realization_append hp ha, serves_append_iff ht]
    have hlast : ∀ {numbers}, b.at? label actions.length = .ok numbers →
        (t.append parent label actions).numbersOf b t.size = numbers := by
      intro numbers hb
      rw [(ht.fits.isSet_append parent label actions).numbersOf_eq, (Behavior.at?_eq_ok_iff.mp hb).1]
      rfl
    constructor
    · intro h
      cases hr : t.realization b with
      | error e => simp [hr] at h
      | ok y =>
        cases hb : b.at? label actions.length with
        | error fault => simp [hr, hb] at h
        | ok numbers =>
          simp only [hr, hb, Except.ok.injEq] at h
          obtain ⟨hs, hy⟩ := ih.mp hr
          refine ⟨⟨hs, numbers, rfl⟩, ?_⟩
          have hy' : t.IsPlanOf ((t.append parent label actions).numbersOf b) y :=
            hy.congr fun hk => (numbersOf_append_of_lt ht.fits b hk).symm
          rw [← h, ← hlast hb]
          exact hy'.append ht hp
    · rintro ⟨⟨hs, numbers, hb⟩, hx⟩
      obtain ⟨y, hy, rfl⟩ := hx.exists_append ht hp
      have hy' := hy.congr fun hk => numbersOf_append_of_lt ht.fits b hk
      rw [ih.mpr ⟨hs, hy'⟩, hb, hlast hb]

theorem Valid.exists_realization_iff (ht : t.Valid) {b : Behavior L R} :
    (∃ x, t.realization b = .ok x) ↔ t.Serves b := by
  constructor
  · rintro ⟨x, hx⟩
    exact (ht.realization_eq_ok_iff.mp hx).1
  · intro h
    obtain ⟨x, hx⟩ := ht.exists_isPlanOf (t.numbersOf b)
    exact ⟨x, ht.realization_eq_ok_iff.mpr ⟨h, hx⟩⟩

end Realization

end SequenceTree

end ExtensiveForm
