import ExtensiveForm.SequenceTree.Response
import ExtensiveForm.Proofs.Means
import ExtensiveForm.Proofs.SequenceTree.Realization

set_option autoImplicit false

namespace ExtensiveForm.SequenceTree

variable {L A : Type} {t : SequenceTree L A}

def Mixes (t : SequenceTree L A) (numbers : Nat → List Rat) : Prop :=
  ∀ ⦃k parent start : Nat⦄ ⦃label : L⦄ ⦃actions : List A⦄,
    t.IsSet k parent start label actions →
      (numbers k).length = actions.length ∧ Distribution (numbers k)

def Follows (t : SequenceTree L A) (choice : Nat → Nat) (numbers : Nat → List Rat) : Prop :=
  ∀ ⦃k parent start : Nat⦄ ⦃label : L⦄ ⦃actions : List A⦄,
    t.IsSet k parent start label actions → numbers k = pureAt actions.length (choice k)

theorem IsPlanOf.nonneg (ht : t.Valid) {numbers : Nat → List Rat} {x : Array Rat}
    (hn : t.Mixes numbers) (hx : t.IsPlanOf numbers x) {s : Nat} (hs : s < t.sequences) :
    0 ≤ x.getD s 0 := by
  refine hx.forall_getD ht zero_le_one (fun k parent start a label actions hk _ ih => ?_) hs
  exact mul_nonneg ih ((hn hk).2.getD_nonneg a)

theorem collect_append_blockOf {y c : Array Rat} {ns : List Rat} (hc : y.size + ns.length ≤ c.size)
    (reach : Rat) : collect (y ++ blockOf reach ns ns.length) c =
      collect y c + reach * mean ns fun a => c.getD (y.size + a) 0 := by
  have hsize : (y ++ blockOf reach ns ns.length).size = y.size + ns.length := by simp
  rw [collect_eq (by omega), collect_eq (by omega), hsize, Finset.sum_range_add, mean,
    Finset.mul_sum]
  congr 1
  · refine Finset.sum_congr rfl fun i hi => ?_
    rw [getD_append_blockOf_of_lt (Finset.mem_range.mp hi)]
  · refine Finset.sum_congr rfl fun a ha => ?_
    rw [getD_append_blockOf (Finset.mem_range.mp ha), mul_assoc]

/-- The most extreme number of a list in the direction of a sign. -/
structure Extreme (sign : Rat) (best : List Rat → Rat) : Prop where
  mem : ∀ {vs : List Rat}, vs ≠ [] → best vs ∈ vs
  le : ∀ {vs : List Rat} {v : Rat}, v ∈ vs → sign * v ≤ sign * best vs

theorem extreme_maximum : Extreme 1 Scalar.maximum := by
  have hmax : ∀ {vs : List Rat}, vs ≠ [] →
      Scalar.maximum vs ∈ vs ∧ ∀ v ∈ vs, v ≤ Scalar.maximum vs := by
    intro vs hvs
    obtain ⟨m, hm⟩ := Option.isSome_iff_exists.mp (List.isSome_max?_iff.mpr hvs)
    have heq : Scalar.maximum vs = m := congrArg (·.getD 0) hm
    rw [heq]
    exact List.max?_eq_some_iff.mp hm
  refine ⟨fun hvs => (hmax hvs).1, fun hv => ?_⟩
  rw [one_mul, one_mul]
  exact (hmax (List.ne_nil_of_mem hv)).2 _ hv

theorem extreme_minimum : Extreme (-1) Scalar.minimum := by
  have hmin : ∀ {vs : List Rat}, vs ≠ [] →
      Scalar.minimum vs ∈ vs ∧ ∀ v ∈ vs, Scalar.minimum vs ≤ v := by
    intro vs hvs
    obtain ⟨m, hm⟩ := Option.isSome_iff_exists.mp (List.isSome_min?_iff.mpr hvs)
    have heq : Scalar.minimum vs = m := congrArg (·.getD 0) hm
    rw [heq]
    exact List.min?_eq_some_iff.mp hm
  refine ⟨fun hvs => (hmin hvs).1, fun hv => ?_⟩
  have hle := (hmin (List.ne_nil_of_mem hv)).2 _ hv
  linarith

section Settle

variable {best : List Rat → Rat} {sign : Rat} {c : Array Rat} {start n : Nat}

def blockAt (c : Array Rat) (start n : Nat) : List Rat := (c.extract start (start + n)).toList

theorem length_blockAt (hc : start + n ≤ c.size) : (blockAt c start n).length = n := by
  simp [blockAt]
  omega

theorem getElem?_blockAt {a : Nat} (ha : a < n) (hc : start + n ≤ c.size) :
    (blockAt c start n)[a]? = some (c.getD (start + a) 0) := by
  have hlt : start + a < c.size := by omega
  rw [blockAt, Array.getElem?_toList, Array.getElem?_extract, if_pos (by omega),
    Array.getD_eq_getD_getElem?, Array.getElem?_eq_getElem hlt, Option.getD_some]

theorem Extreme.block_le (hb : Extreme sign best) (hc : start + n ≤ c.size) {a : Nat} (ha : a < n) :
    sign * c.getD (start + a) 0 ≤ sign * best (blockAt c start n) :=
  hb.le (List.mem_of_getElem? (getElem?_blockAt ha hc))

theorem Extreme.exists_block_eq (hb : Extreme sign best) (hc : start + n ≤ c.size) (hn : n ≠ 0) :
    ∃ a, a < n ∧ c.getD (start + a) 0 = best (blockAt c start n) := by
  have hl := length_blockAt hc
  have hne : blockAt c start n ≠ [] := by
    intro h
    rw [h] at hl
    exact hn hl.symm
  obtain ⟨a, ha⟩ := List.mem_iff_getElem?.mp (hb.mem hne)
  have hlt : a < n := hl ▸ (List.getElem?_eq_some_iff.mp ha).1
  rw [getElem?_blockAt hlt hc] at ha
  exact ⟨a, hlt, Option.some.inj ha⟩

def fold (best : List Rat → Rat) (c : Array Rat) (parent start n : Nat) : Array Rat :=
  c.setIfInBounds parent (c.getD parent 0 + best (blockAt c start n))

theorem IsSet.settle?_eq (best : List Rat → Rat) {k parent : Nat} {label : L} {actions : List A}
    (h : t.IsSet k parent start label actions) (hp : parent < start)
    (hc : start + actions.length ≤ c.size) :
    t.settle? best k parent c = some (fold best c parent start actions.length) := by
  have hlt : parent < c.size := by omega
  simp [settle?, block?, h.start_eq, h.stop_eq, slice?, hc, addAt?, hlt, fold, blockAt,
    Array.getD_eq_getD_getElem?]

theorem settle?_append {parent k p : Nat} {label : L} {actions : List A} (ht : t.Valid)
    (hk : k < t.size) (c : Array Rat) :
    (t.append parent label actions).settle? best k p c = t.settle? best k p c := by
  obtain ⟨p', start, l, as, hset⟩ := ht.exists_isSet hk
  have hset' := hset.append ht.fits parent label actions
  simp only [settle?, block?, hset.start_eq, hset.stop_eq, hset'.start_eq, hset'.stop_eq]

theorem settleAll?_append {parent : Nat} {label : L} {actions : List A} (ht : t.Valid)
    {sets : List (Nat × Nat)} (hs : ∀ x ∈ sets, x.2 < t.size) (c : Array Rat) :
    (t.append parent label actions).settleAll? best sets c = t.settleAll? best sets c := by
  refine foldrM_congr_of_mem (fun x hx c => ?_) c
  obtain ⟨p, k⟩ := x
  exact settle?_append ht (hs _ hx) c

theorem settleAll?_concat (sets : List (Nat × Nat)) (parent k : Nat) (c : Array Rat) :
    t.settleAll? best (sets ++ [(parent, k)]) c =
      (t.settle? best k parent c).bind (t.settleAll? best sets) := by
  rw [settleAll?, List.foldrM_append]
  simp only [List.foldrM_cons, List.foldrM_nil, Option.bind_eq_bind]
  rfl

/-- The last set is settled first, and then only the shorter tree is left. -/
theorem response?_append {parent : Nat} {label : L} {actions : List A} (ht : t.Valid)
    (hp : parent < t.sequences) (hc : t.sequences + actions.length ≤ c.size) :
    (t.append parent label actions).response? best c =
      t.response? best (fold best c parent t.sequences actions.length) := by
  have hzip : (t.parent.push parent).toList.zipIdx =
      t.parent.toList.zipIdx ++ [(parent, t.size)] := by
    simp [List.zipIdx_append, size]
  have hsets : ∀ x ∈ t.parent.toList.zipIdx, x.2 < t.size := by
    intro x hx
    obtain ⟨p, k⟩ := x
    rw [List.mem_zipIdx_iff_getElem?, Array.getElem?_toList] at hx
    exact (Array.getElem?_eq_some_iff.mp hx).1
  have hlast := (ht.fits.isSet_append parent label actions).settle?_eq best hp hc
  rw [response?, parent_append, hzip, settleAll?_concat, hlast, Option.bind_some,
    settleAll?_append ht hsets, response?]

end Settle

section Response

variable {best : List Rat → Rat} {sign : Rat} {c : Array Rat}

theorem mixes_of_append {parent : Nat} {label : L} {actions : List A} (ht : t.Fits)
    {numbers : Nat → List Rat} (h : (t.append parent label actions).Mixes numbers) :
    t.Mixes numbers :=
  fun _ _ _ _ _ hk => h (hk.append ht parent label actions)

def Bounds (t : SequenceTree L A) (sign : Rat) (c : Array Rat) (m : Rat) : Prop :=
  ∀ ⦃numbers : Nat → List Rat⦄ ⦃x : Array Rat⦄, t.Mixes numbers → t.IsPlanOf numbers x →
    sign * collect x c ≤ sign * m

structure Attains (t : SequenceTree L A) (c : Array Rat) (m : Rat) (choice : Nat → Nat) : Prop where
  choice_lt : ∀ {k parent start : Nat} {label : L} {actions : List A},
    t.IsSet k parent start label actions → choice k < actions.length
  collect_eq : ∀ {numbers : Nat → List Rat} {x : Array Rat}, t.Follows choice numbers →
    t.IsPlanOf numbers x → collect x c = m

/-- What a longer tree collects, if its last block is folded away. -/
theorem collect_append (best : List Rat → Rat) {parent : Nat} {label : L} {actions : List A}
    (ht : t.Valid) (hp : parent < t.sequences) (hc : t.sequences + actions.length ≤ c.size)
    {numbers : Nat → List Rat} {x : Array Rat}
    (hn : (numbers t.size).length = actions.length)
    (hx : (t.append parent label actions).IsPlanOf numbers x) :
    ∃ y, t.IsPlanOf numbers y ∧
      collect x c = collect y (fold best c parent t.sequences actions.length) +
        y.getD parent 0 * (mean (numbers t.size) (fun a => c.getD (t.sequences + a) 0) -
          best (blockAt c t.sequences actions.length)) := by
  obtain ⟨y, hy, rfl⟩ := hx.exists_append ht hp
  refine ⟨y, hy, ?_⟩
  have hblock := collect_append_blockOf (y := y) (c := c)
    (show y.size + (numbers t.size).length ≤ c.size by rw [hy.size_eq, hn]; exact hc)
    (y.getD parent 0)
  rw [hn, hy.size_eq] at hblock
  rw [hblock, fold, collect_setIfInBounds (by omega)]
  ring

theorem Bounds.append {parent : Nat} {label : L} {actions : List A} {m : Rat} (ht : t.Valid)
    (hp : parent < t.sequences) (hc : t.sequences + actions.length ≤ c.size)
    (hb : Extreme sign best)
    (h : t.Bounds sign (fold best c parent t.sequences actions.length) m) :
    (t.append parent label actions).Bounds sign c m := by
  intro numbers x hn hx
  obtain ⟨hl, hd⟩ := hn (ht.fits.isSet_append parent label actions)
  obtain ⟨y, hy, hcollect⟩ := collect_append best ht hp hc hl hx
  have hmix : t.Mixes numbers := mixes_of_append ht.fits hn
  have hreach := hy.nonneg ht hmix hp
  have hmean : sign * mean (numbers t.size) (fun a => c.getD (t.sequences + a) 0) ≤
      sign * best (blockAt c t.sequences actions.length) :=
    hd.mean_le fun a ha => hb.block_le hc (hl ▸ ha)
  have hrest := h hmix hy
  rw [hcollect]
  -- whatever the last block falls short of its best counts with a number that is never negative
  have hloss : y.getD parent 0 * (sign * mean (numbers t.size)
      (fun a => c.getD (t.sequences + a) 0) -
        sign * best (blockAt c t.sequences actions.length)) ≤ 0 :=
    mul_nonpos_of_nonneg_of_nonpos hreach (by linarith)
  linarith

theorem Attains.append {parent : Nat} {label : L} {actions : List A} {m : Rat} {choice : Nat → Nat}
    {a : Nat} (ht : t.Valid) (hp : parent < t.sequences)
    (hc : t.sequences + actions.length ≤ c.size) (ha : a < actions.length)
    (hbest : c.getD (t.sequences + a) 0 = best (blockAt c t.sequences actions.length))
    (h : t.Attains (fold best c parent t.sequences actions.length) m choice) :
    (t.append parent label actions).Attains c m fun k => if k = t.size then a else choice k := by
  constructor
  · intro k p start l as hk
    rcases (isSet_append_iff ht.fits).mp hk with hk | ⟨rfl, -, -, -, rfl⟩
    · rw [if_neg (Nat.ne_of_lt hk.lt_size)]
      exact h.choice_lt hk
    · rwa [if_pos rfl]
  · intro numbers x hn hx
    have hlast := hn (ht.fits.isSet_append parent label actions)
    simp only [if_true] at hlast
    obtain ⟨y, hy, hcollect⟩ := collect_append best ht hp hc (by simp [hlast]) hx
    have hrest : t.Follows choice numbers := by
      intro k p start l as hk
      rw [hn (hk.append ht.fits parent label actions), if_neg (Nat.ne_of_lt hk.lt_size)]
    rw [hcollect, h.collect_eq hrest hy, hlast, mean_pureAt ha, hbest]
    ring

theorem Valid.exists_response (ht : t.Valid) (hb : Extreme sign best) (hc : t.sequences ≤ c.size) :
    ∃ m choice, t.response? best c = some m ∧ t.Bounds sign c m ∧ t.Attains c m choice := by
  induction ht generalizing c with
  | empty =>
    have hcollect : ∀ {numbers : Nat → List Rat} {x : Array Rat},
        (SequenceTree.empty : SequenceTree L A).IsPlanOf numbers x → collect x c = c.getD 0 0 := by
      intro numbers x hx
      rw [Valid.empty.isPlanOf_unique hx (isPlanOf_empty numbers),
        collect_eq (show (#[1] : Array Rat).size ≤ c.size from hc)]
      simp [Array.getD_eq_getD_getElem?]
    refine ⟨c.getD 0 0, id, ?_, ?_, ⟨fun hk => absurd hk not_isSet_empty, ?_⟩⟩
    · have hlt : 0 < c.size := hc
      simp [response?, settleAll?, SequenceTree.empty, Array.getD_eq_getD_getElem?, hlt]
    · intro numbers x hn hx
      rw [hcollect hx]
    · intro numbers x hn hx
      exact hcollect hx
  | @append t parent label actions ht hp ha ih =>
    rw [sequences_append] at hc
    have hlen : actions.length ≠ 0 := by simpa using ha
    obtain ⟨a, hlt, hbest⟩ := hb.exists_block_eq hc hlen
    obtain ⟨m, choice, hm, hbound, hattain⟩ :=
      ih (c := fold best c parent t.sequences actions.length) (by simp [fold]; omega)
    refine ⟨m, _, ?_, hbound.append ht hp hc hb, hattain.append ht hp hc hlt hbest⟩
    rw [response?_append ht hp hc, hm]

end Response

section Behavior

variable [BEq L] [Hashable L] {b : Behavior L Rat}

theorem IsSet.numbersOf_of_at? {k parent start : Nat} {label : L} {actions : List A}
    (hk : t.IsSet k parent start label actions) {numbers : List Rat}
    (h : b.at? label actions.length = .ok numbers) : t.numbersOf b k = numbers := by
  rw [hk.numbersOf_eq, (Behavior.at?_eq_ok_iff.mp h).1, Option.getD_some]

theorem Plays.mixes (h : t.Plays Distribution b) : t.Mixes (t.numbersOf b) := by
  intro k parent start label actions hk
  obtain ⟨numbers, hnum, hd⟩ := h hk
  rw [hk.numbersOf_of_at? hnum]
  exact ⟨(Behavior.at?_eq_ok_iff.mp hnum).2, hd⟩

def pureBehavior (t : SequenceTree L A) (choice : Nat → Nat) : Behavior L Rat :=
  t.behaviorOf (t.actions.toList.mapIdx fun k actions => pureAt actions.length (choice k))

variable [LawfulBEq L]

theorem IsSet.at?_pureBehavior (hl : t.label.toList.Nodup) {k parent start : Nat} {label : L}
    {actions : List A} (hk : t.IsSet k parent start label actions) (choice : Nat → Nat) :
    (t.pureBehavior choice).at? label actions.length =
      .ok (pureAt actions.length (choice k)) := by
  rw [Behavior.at?_eq_ok_iff]
  refine ⟨(hk.last hl).getElem?_behaviorOf ?_, length_pureAt _ _⟩
  rw [List.getElem?_mapIdx, Array.getElem?_toList, hk.actions_eq, Option.map_some]

def IsPure (ns : List Rat) : Prop := ∃ a, a < ns.length ∧ ns = pureAt ns.length a

theorem plays_pureBehavior (hl : t.label.toList.Nodup) {choice : Nat → Nat}
    (hc : ∀ {k parent start : Nat} {label : L} {actions : List A},
      t.IsSet k parent start label actions → choice k < actions.length) :
    t.Plays IsPure (t.pureBehavior choice) := by
  intro k parent start label actions hk
  refine ⟨_, hk.at?_pureBehavior hl choice, choice k, ?_, ?_⟩
  · simpa using hc hk
  · rw [length_pureAt]

theorem follows_pureBehavior (hl : t.label.toList.Nodup) (choice : Nat → Nat) :
    t.Follows choice (t.numbersOf (t.pureBehavior choice)) :=
  fun _ _ _ _ _ hk => hk.numbersOf_of_at? (hk.at?_pureBehavior hl choice)

theorem IsPure.distribution {ns : List Rat} (h : IsPure ns) : Distribution ns := by
  obtain ⟨a, ha, hns⟩ := h
  rw [hns]
  exact distribution_pureAt ha

end Behavior

end ExtensiveForm.SequenceTree
