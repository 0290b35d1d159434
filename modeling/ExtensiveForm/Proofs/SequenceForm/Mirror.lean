import ExtensiveForm.Proofs.Exploration.Mirror
import ExtensiveForm.Proofs.SequenceForm.Guarded
import ExtensiveForm.Proofs.SequenceTree.Response
import ExtensiveForm.Proofs.SequenceForm.Value

/-!
Forms of games with the seats exchanged, in exact arithmetic. Main statement: the form of the mirrored
game has the trees exchanged and the negated transpose for its matrix, so plans have the opposite value
there and the same gap.
-/

set_option autoImplicit false

namespace ExtensiveForm

theorem maximum_neg (vs : List Rat) : Scalar.maximum (vs.map Neg.neg) = -Scalar.minimum vs := by
  by_cases hvs : vs = []
  · subst hvs
    rfl
  · have hne : vs.map Neg.neg ≠ [] := by simpa using hvs
    obtain ⟨v, hv, hmax⟩ := List.mem_map.mp (SequenceTree.extreme_maximum.mem hne)
    have hmin : -Scalar.minimum vs ∈ vs.map Neg.neg :=
      List.mem_map_of_mem (SequenceTree.extreme_minimum.mem hvs)
    have hge := SequenceTree.extreme_minimum.le hv
    have hle := SequenceTree.extreme_maximum.le hmin
    rw [← hmax] at hle ⊢
    linarith

theorem collect_pureAt {c : Array Rat} {i : Nat} (hi : i < c.size) :
    collect (pureAt c.size i).toArray c = c.getD i 0 := by
  have hget : ∀ j ∈ Finset.range c.size, (pureAt c.size i).toArray.getD j 0 * c.getD j 0 =
      if j = i then c.getD j 0 else 0 := by
    intro j hj
    have hj' := getD_pureAt (a := i) (Finset.mem_range.mp hj)
    rw [List.getD_eq_getElem?_getD] at hj'
    rw [Array.getD_eq_getD_getElem?, List.getElem?_toArray, hj', ite_mul, one_mul, zero_mul]
  rw [collect, Finset.sum_congr rfl hget, Finset.sum_ite_eq', if_pos (Finset.mem_range.mpr hi)]

namespace SequenceTree

variable {L A : Type}

theorem slice?_neg (c : Array Rat) (start stop : Nat) :
    slice? (c.map Neg.neg) start stop = (slice? c start stop).map (·.map Neg.neg) := by
  simp only [slice?, Array.size_map]
  split
  · simp only [← Array.map_extract, Array.toList_map, Option.map_some]
  · rfl

theorem addAt?_neg (coeffs : Array Rat) (i : Nat) (v : Rat) :
    addAt? (coeffs.map Neg.neg) i (-v) = (addAt? coeffs i v).map (·.map Neg.neg) := by
  simp only [addAt?, Array.getElem?_map]
  cases coeffs[i]? with
  | none => rfl
  | some old => simp only [Option.map_some, Array.map_setIfInBounds, neg_add]

theorem settle?_neg {best best' : List Rat → Rat} (hb : ∀ vs, best' (vs.map Neg.neg) = -best vs)
    (t : SequenceTree L A) (k parent : Nat) (c : Array Rat) :
    t.settle? best' k parent (c.map Neg.neg) = (t.settle? best k parent c).map (·.map Neg.neg) := by
  unfold settle?
  cases t.block? k with
  | none => rfl
  | some block =>
    simp only [Option.bind_eq_bind, Option.bind_some, slice?_neg]
    cases slice? c block.1 block.2 with
    | none => rfl
    | some numbers => simp only [Option.map_some, Option.bind_some, hb, addAt?_neg]

theorem settleAll?_neg {best best' : List Rat → Rat}
    (hb : ∀ vs, best' (vs.map Neg.neg) = -best vs) (t : SequenceTree L A)
    (sets : List (Nat × Nat)) (c : Array Rat) :
    t.settleAll? best' sets (c.map Neg.neg) = (t.settleAll? best sets c).map (·.map Neg.neg) := by
  induction sets using List.reverseRecOn generalizing c with
  | nil => rfl
  | append_singleton sets s ih =>
    obtain ⟨parent, k⟩ := s
    rw [settleAll?_concat, settleAll?_concat, settle?_neg hb]
    cases t.settle? best k parent c with
    | none => rfl
    | some settled => exact ih settled

/-- Responses to the opposite coefficients are the opposite ones, if what is best among the opposite
numbers is the opposite of what is best. -/
theorem response?_neg {best best' : List Rat → Rat} (hb : ∀ vs, best' (vs.map Neg.neg) = -best vs)
    (t : SequenceTree L A) (c : Array Rat) :
    t.response? best' (c.map Neg.neg) = (t.response? best c).map Neg.neg := by
  unfold response?
  rw [settleAll?_neg hb]
  cases t.settleAll? best t.parent.toList.zipIdx c with
  | none => rfl
  | some settled => simp

end SequenceTree

namespace PayoffMatrix

def mirror (m : PayoffMatrix Rat) : PayoffMatrix Rat :=
  ofEntries ((m.transpose.entries.map fun e => (e.1, e.2.1, -e.2.2)).mergeSort placeLe)

def Mirrors (m m' : PayoffMatrix Rat) : Prop :=
  m'.entries.Perm (m.entries.map fun e => (e.2.1, e.1, -e.2.2))

variable {m m' : PayoffMatrix Rat} {rows cols : Nat} {x y : Array Rat}

theorem Mirrors.symm (h : m.Mirrors m') : m'.Mirrors m := by
  have hmap := h.map fun e => (e.2.1, e.1, -e.2.2)
  rw [List.map_map] at hmap
  simp only [Function.comp_def, neg_neg, Prod.mk.eta, List.map_id'] at hmap
  exact hmap.symm

theorem Mirrors.mirror_eq (h : m.Mirrors m') (hs : m'.entries.Pairwise PlaceLt) :
    m.mirror = ofEntries m'.entries := by
  have hmap : (m.transpose.entries.map fun e => (e.1, e.2.1, -e.2.2)) =
      m.entries.map fun e => (e.2.1, e.1, -e.2.2) := by
    rw [entries_transpose, List.map_map]
    rfl
  rw [mirror, hmap, mergeSort_eq_of_perm hs h]

theorem Mirrors.between_eq (h : m.Mirrors m') (x y : Array Rat) :
    m'.between y x = -m.between x y := by
  calc
    m'.between y x = (m.entries.map fun e => -1 * (x.getD e.1 0 * e.2.2 * y.getD e.2.1 0)).sum := by
      rw [between, (h.map _).sum_eq, List.map_map]
      refine congrArg List.sum (List.map_congr_left fun e _ => ?_)
      simp only [Function.comp_apply]
      ring
    _ = -m.between x y := by rw [List.sum_map_mul_left, neg_one_mul, between]

theorem Mirrors.inside (h : m.Mirrors m') (hin : ∀ e ∈ m.entries, e.1 < rows ∧ e.2.1 < cols) :
    ∀ e ∈ m'.entries, e.1 < cols ∧ e.2.1 < rows := by
  intro e he
  obtain ⟨f, hf, rfl⟩ := List.mem_map.mp (h.mem_iff.mp he)
  exact (hin f hf).symm

theorem Mirrors.dot?_eq (h : m.Mirrors m') (hin : ∀ e ∈ m.entries, e.1 < rows ∧ e.2.1 < cols)
    (hx : x.size = rows) :
    m'.dot? x cols = (m.transposeDot? x cols).map (·.map Neg.neg) := by
  obtain ⟨c, hc, hsize, hcollect⟩ := exists_transposeDot hin hx
  obtain ⟨c', hc', hsize', hcollect'⟩ := exists_dot (h.inside hin) hx
  have hneg : c' = c.map Neg.neg := by
    refine Array.ext (by simp [hsize, hsize']) fun i hi hi' => ?_
    -- each coefficient is what one sequence collects
    have hone : c'.getD i 0 = -c.getD i 0 := by
      rw [← collect_pureAt hi, ← collect_pureAt (by simpa using hi'), hcollect', hcollect, hsize,
        hsize', h.between_eq]
    simpa [Array.getD_eq_getD_getElem?, hi, show i < c.size by simpa using hi'] using hone
  rw [hc, hc', hneg, Option.map_some]

end PayoffMatrix

namespace SequenceForm

variable {L A : Type} {f f' : SequenceForm L A Rat} {x y : Array Rat}

def mirror (f : SequenceForm L A Rat) : SequenceForm L A Rat :=
  ⟨f.second, f.first, f.payoff.mirror⟩

structure Mirrors (f f' : SequenceForm L A Rat) : Prop where
  first : f'.first = f.second
  second : f'.second = f.first
  payoff : f.payoff.Mirrors f'.payoff

theorem Mirrors.symm (h : f.Mirrors f') : f'.Mirrors f :=
  ⟨h.second.symm, h.first.symm, h.payoff.symm⟩

theorem Mirrors.bestAgainst?_eq (h : f.Mirrors f')
    (hin : ∀ e ∈ f.payoff.entries, e.1 < f.first.sequences ∧ e.2.1 < f.second.sequences)
    (hx : x.size = f.first.sequences) :
    f'.bestAgainst? x = (f.worstAgainst? x).map Neg.neg := by
  unfold bestAgainst? worstAgainst?
  rw [h.first, h.payoff.dot?_eq hin hx]
  cases f.payoff.transposeDot? x f.second.sequences with
  | none => rfl
  | some c => exact SequenceTree.response?_neg maximum_neg f.second c

theorem Mirrors.worstAgainst?_eq (h : f.Mirrors f')
    (hin : ∀ e ∈ f.payoff.entries, e.1 < f.first.sequences ∧ e.2.1 < f.second.sequences)
    (hy : y.size = f.second.sequences) :
    f'.worstAgainst? y = (f.bestAgainst? y).map Neg.neg := by
  have hin' := h.payoff.inside hin
  rw [← h.first, ← h.second] at hin'
  rw [h.symm.bestAgainst?_eq hin' (hy.trans (congrArg _ h.first.symm)), Option.map_map]
  simp

/-- Two forms of which one is the other with the seats exchanged rate plans with opposite signs and
leave the same gap between them. -/
structure Opposite (f f' : SequenceForm L A Rat) (x y : Array Rat) : Prop where
  value : ∃ v, f.value x y = .ok v ∧ f'.value y x = .ok (-v)
  gap : ∃ m, f.gap x y = .ok m ∧ f'.gap y x = .ok m

theorem exists_of_gap_eq_ok {m : Rat} (h : f.gap x y = .ok m) :
    ∃ best worst, f.bestAgainst? y = some best ∧ f.worstAgainst? x = some worst ∧
      m = best - worst := by
  unfold gap at h
  split at h
  · cases h
  · split at h
    · rename_i best worst hbest hworst
      cases h
      exact ⟨best, worst, hbest, hworst, rfl⟩
    · cases h

theorem Mirrors.opposite (h : f.Mirrors f') (hc : f.check = .ok ()) (hc' : f'.check = .ok ())
    (hx : x.size = f.first.sequences) (hy : y.size = f.second.sequences) : f.Opposite f' x y := by
  have hplans := checkPlans_eq_ok_iff.mpr ⟨hc, hx, hy⟩
  have hplans' : f'.checkPlans y x = .ok () := by
    refine checkPlans_eq_ok_iff.mpr ⟨hc', ?_, ?_⟩
    · rw [h.first, hy]
    · rw [h.second, hx]
  constructor
  · refine ⟨_, value_eq_between hplans, ?_⟩
    rw [value_eq_between hplans', h.payoff.between_eq]
  · obtain ⟨m, hm⟩ := (guarded_gap f x y).ok_iff.mpr ⟨hc, hx, hy⟩
    obtain ⟨best, worst, hbest, hworst, rfl⟩ := exists_of_gap_eq_ok hm
    have hin := (check_eq_ok_iff.mp hc).2.inside
    have hbest' := h.bestAgainst?_eq hin hx
    have hworst' := h.worstAgainst?_eq hin hy
    rw [hworst] at hbest'
    rw [hbest] at hworst'
    refine ⟨_, hm, ?_⟩
    rw [gap_eq_ok hplans' hbest' hworst', neg_sub_neg]

end SequenceForm

namespace Exploration

variable {L A : Type} [BEq L] [Hashable L] {found found' : Exploration L A Rat}
  {form form' : SequenceForm L A Rat}

theorem Forms.ofEntries_entries (h : found.Forms form) :
    PayoffMatrix.ofEntries form.payoff.entries = form.payoff := by
  rw [(PayoffMatrix.assembleBy?_eq_some_iff.mp h.payoff_eq).2, PayoffMatrix.entries_ofEntries]

theorem Mirrors.places_iff (h : found.Mirrors found') {key : SequencePair} {r c : Nat} :
    found'.Places key.swap c r ↔ found.Places key r c := by
  have hfirst := h.registry .first
  have hsecond := h.registry .second
  simp only [Seat.opponent] at hfirst hsecond
  constructor
  · rintro ⟨hr, hc⟩
    rw [hsecond] at hr
    rw [hfirst] at hc
    exact ⟨hc, hr⟩
  · rintro ⟨hr, hc⟩
    rw [← hfirst] at hr
    rw [← hsecond] at hc
    exact ⟨hc, hr⟩

theorem Mirrors.getElem?_eq_some_iff (h : found.Mirrors found') {key : SequencePair} {v : Rat} :
    found'.payoffs[key.swap]? = some v ↔ found.payoffs[key]? = some (-v) := by
  rw [h.payoffs, Option.map_eq_some_iff]
  constructor
  · rintro ⟨w, hw, rfl⟩
    rw [neg_neg, hw]
  · intro hw
    exact ⟨-v, hw, neg_neg v⟩

theorem Mirrors.mem_entries_iff (h : found.Mirrors found') (hf : found.Forms form)
    (hf' : found'.Forms form') {r c : Nat} {v : Rat} :
    (c, r, v) ∈ form'.payoff.entries ↔ (r, c, -v) ∈ form.payoff.entries := by
  have hzero : Scalar.isZero (-v) = Scalar.isZero v := by simp [Scalar.isZero]
  rw [hf.mem_entries_iff, hf'.mem_entries_iff, hzero]
  constructor
  · rintro ⟨key, hk, hz, hat⟩
    rw [← key.swap_swap] at hk hat
    exact ⟨key.swap, h.getElem?_eq_some_iff.mp hk, hz, h.places_iff.mp hat⟩
  · rintro ⟨key, hk, hz, hat⟩
    exact ⟨key.swap, h.getElem?_eq_some_iff.mpr hk, hz, h.places_iff.mpr hat⟩

theorem Mirrors.forms (h : found.Mirrors found') (hs : found.Sound) (hs' : found'.Sound)
    (hf : found.Forms form) (hf' : found'.Forms form') : form.Mirrors form' := by
  have htree : ∀ seat, form'.tree seat.opponent = form.tree seat := by
    intro seat
    rw [hf.tree_eq, hf'.tree_eq, h.registry]
  refine ⟨htree .second, htree .first, ?_⟩
  have hinj : Function.Injective fun e : Nat × Nat × Rat => (e.2.1, e.1, -e.2.2) := by
    rintro ⟨r, c, v⟩ ⟨r', c', v'⟩ heq
    simp_all
  have hnodup := (hf.nodup_entries hs).map hinj
  refine (List.perm_ext_iff_of_nodup (hf'.nodup_entries hs') hnodup).mpr ?_
  rintro ⟨c, r, v⟩
  have hmap : ((r, c, -v) : Nat × Nat × Rat) ∈ form.payoff.entries ↔
      (c, r, v) ∈ form.payoff.entries.map fun e => (e.2.1, e.1, -e.2.2) := by
    rw [← List.mem_map_of_injective hinj, neg_neg]
  rw [h.mem_entries_iff hf hf', hmap]

end Exploration

namespace Game

variable {σ L A : Type} [BEq L] [Hashable L] [BEq A] [LawfulBEq L] [LawfulBEq A]
  {g : Game σ A L Rat} {start : σ} {form : SequenceForm L A Rat} {d fuel : Nat}

/-- A game is built if it is built with the seats exchanged, and then the one form is the other with
the seats exchanged. -/
theorem build_mirror (h : g.build fuel start = some (.ok form)) :
    g.mirror.build fuel start = some (.ok form.mirror) ∧ form.Mirrors form.mirror := by
  obtain ⟨found, hfound, hf⟩ := build_eq_ok_iff.mp h
  obtain ⟨found', hfound', hm⟩ := explore_mirror hfound
  have hs := (explored_of_explore hfound).sound
  have hs' := (explored_of_explore hfound').sound
  obtain ⟨form', hf'⟩ := hs'.exists_form
  have hmirrors := hm.forms hs hs' hf hf'
  have heq : form' = form.mirror := by
    rw [SequenceForm.mirror, ← hmirrors.first, ← hmirrors.second,
      hmirrors.payoff.mirror_eq (hf'.pairwise_entries hs'), hf'.ofEntries_entries]
  exact ⟨build_eq_ok_iff.mpr ⟨found', hfound', heq ▸ hf'⟩, heq ▸ hmirrors⟩

/-- Exchanging the seats of a finite game exchanges the seats of its form: building both comes to a
result, they succeed together, and the plans of one form have the opposite value and the same gap in the
other. -/
theorem exists_build_mirror (hd : g.EndsWithin d start) (hfuel : g.treeSize d start ≤ fuel) :
    ∃ result result', g.build fuel start = some result ∧ g.mirror.build fuel start = some result' ∧
      ((∃ form, result = .ok form) ↔ ∃ form', result' = .ok form') ∧
      ∀ form, result = .ok form → result' = .ok form.mirror ∧
        ∀ x y, x.size = form.first.sequences → y.size = form.second.sequences →
          form.Opposite form.mirror x y := by
  obtain ⟨result, hresult⟩ := exists_build hd hfuel
  obtain ⟨result', hresult'⟩ :=
    exists_build (endsWithin_mirror_iff.mpr hd) ((treeSize_mirror g d start).trans_le hfuel)
  refine ⟨result, result', hresult, hresult', ⟨?_, ?_⟩, ?_⟩
  · rintro ⟨form, rfl⟩
    exact ⟨_, Option.some.inj (hresult'.symm.trans (build_mirror hresult).1)⟩
  · rintro ⟨form', rfl⟩
    have hback := (build_mirror hresult').1
    rw [mirror_mirror] at hback
    exact ⟨_, Option.some.inj (hresult.symm.trans hback)⟩
  · rintro form rfl
    obtain ⟨hmirror, hmirrors⟩ := build_mirror hresult
    refine ⟨Option.some.inj (hresult'.symm.trans hmirror), fun x y hx hy => ?_⟩
    exact hmirrors.opposite (check_eq_ok_of_build hresult) (check_eq_ok_of_build hmirror) hx hy

end Game

theorem exists_build_mirror_raffle : ∃ form, raffle.build 11 0 = some (.ok form) ∧
    raffle.mirror.build 11 0 = some (.ok form.mirror) ∧
      ∀ x y, x.size = form.first.sequences → y.size = form.second.sequences →
        form.Opposite form.mirror x y := by
  obtain ⟨form, hform⟩ := wellFormed_raffle.exists_build endsWithin_raffle treeSize_raffle.le
  obtain ⟨result, result', hresult, hresult', -, hmirror⟩ :=
    Game.exists_build_mirror endsWithin_raffle treeSize_raffle.le
  cases hresult.symm.trans hform
  obtain ⟨rfl, hopposite⟩ := hmirror form rfl
  exact ⟨form, hform, hresult', hopposite⟩

end ExtensiveForm
