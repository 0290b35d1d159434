import Mathlib.Data.Set.Function
import ExtensiveForm.Proofs.SequenceForm.Represents

/-!
Games whose chance moves are listed in another order. A walk through such a game finds the same sets in
another order, so that all numbers of its form change. Main statement: the two forms differ by a renaming
of the sequences, in exact arithmetic.
-/

set_option autoImplicit false

namespace ExtensiveForm

namespace Game

variable {σ A L R : Type}

def reorder (g : Game σ A L R) (actions : σ → List A) : Game σ A L R := { g with actions := actions }

structure Reorders (g : Game σ A L R) (actions : σ → List A) : Prop where
  perm : ∀ s, g.player s = some .chance → (actions s).Perm (g.actions s)
  eq : ∀ s, g.player s ≠ some .chance → actions s = g.actions s

variable {g : Game σ A L R} {actions : σ → List A}

@[simp] theorem player_reorder : (g.reorder actions).player = g.player := rfl

@[simp] theorem actions_reorder : (g.reorder actions).actions = actions := rfl

@[simp] theorem observation_reorder : (g.reorder actions).observation = g.observation := rfl

theorem Reorders.symm (h : g.Reorders actions) : (g.reorder actions).Reorders g.actions :=
  ⟨fun s hs => (h.perm s hs).symm, fun s hs => (h.eq s hs).symm⟩

theorem Reorders.perm_actions (h : g.Reorders actions) (s : σ) : (actions s).Perm (g.actions s) := by
  by_cases hs : g.player s = some .chance
  · exact h.perm s hs
  · rw [h.eq s hs]

theorem Reorders.successors_perm (h : g.Reorders actions) (s : σ) :
    ((g.reorder actions).successors s).Perm (g.successors s) := by
  unfold successors
  simp only [reorder]
  cases g.player s with
  | none => rfl
  | some player => exact (h.perm_actions s).map _

theorem Reorders.answers (h : g.Reorders actions) {s : σ} (hs : g.Answers s) :
    (g.reorder actions).Answers s := by
  have hperm := h.perm_actions s
  constructor
  · exact hs.payoff
  · intro hp he
    exact hs.actions hp (hperm.symm.trans (.of_eq he)).eq_nil
  · intro hp a ha
    exact hs.chanceProb hp a (hperm.mem_iff.mp ha)
  · exact hs.observation

section Positions

variable [Zero R] [Mul R] {p q : Position σ L R}

theorem Reorders.nexts_perm (h : g.Reorders actions) (p : Position σ L R) :
    ((g.reorder actions).nexts p).Perm (g.nexts p) := by
  unfold nexts
  simp only [reorder]
  cases hp : g.player p.state with
  | none => rfl
  | some player =>
    cases player with
    | chance => exact (h.perm p.state hp).map _
    | seat seat => rw [h.eq p.state (by simp [hp])]

theorem Reorders.reaches_iff (h : g.Reorders actions) :
    (g.reorder actions).Reaches p q ↔ g.Reaches p q := by
  unfold Reaches
  simp only [(h.nexts_perm _).mem_iff]

theorem Reorders.endings_perm (h : g.Reorders actions) (d : Nat) (p : Position σ L R) :
    ((g.reorder actions).endings d p).Perm (g.endings d p) := by
  induction d generalizing p with
  | zero => rfl
  | succ d ih =>
    unfold endings
    by_cases hp : g.player p.state = none
    · simp [reorder, hp]
    · simp only [player_reorder, Option.isNone_iff_eq_none, hp, if_false]
      exact (h.nexts_perm p).flatMap fun q _ => ih q

end Positions

theorem Reorders.earningsAt_eq [BEq L] {g : Game σ A L Rat} (h : g.Reorders actions) (d : Nat)
    (past : PerSeat (History L)) (p : Position σ L Rat) :
    (g.reorder actions).earningsAt d past p = g.earningsAt d past p :=
  (((h.endings_perm d p).filter _).map _).sum_eq

theorem Reorders.wellFormed [Scalar R] (h : g.Reorders actions) {start : σ}
    (hg : g.WellFormed start) : (g.reorder actions).WellFormed start := by
  constructor
  · intro p hp
    exact h.answers (hg.answers p (h.reaches_iff.mp hp))
  · intro p q seat label hp hq hps hqs hpl hql
    have hrecall := hg.perfectRecall p q seat label (h.reaches_iff.mp hp) (h.reaches_iff.mp hq) hps
      hqs hpl hql
    have hseat : ∀ s : σ, g.player s = some (.seat seat) → actions s = g.actions s := by
      intro s hs
      exact h.eq s (by simp [hs])
    exact ⟨(hseat _ hps).trans (hrecall.1.trans (hseat _ hqs).symm), hrecall.2⟩

end Game

namespace SequenceTree

variable {L A : Type}

/-- A renaming of the sequences of one tree to those of another. The empty sequence keeps its name, and
the actions of a set become those of a set with the same label, in their order. -/
structure Renames (t t' : SequenceTree L A) (rename : Nat → Nat) : Prop where
  bijOn : Set.BijOn rename (Set.Iio t.sequences) (Set.Iio t'.sequences)
  empty : rename 0 = 0
  isSet : ∀ k parent start label actions, t.IsSet k parent start label actions →
    ∃ k' start', t'.IsSet k' (rename parent) start' label actions ∧
      ∀ a < actions.length, rename (start + a) = start' + a

structure Distinct (t : SequenceTree L A) : Prop where
  valid : t.Valid
  set_unique : ∀ {k k' parent parent' start start' label actions actions'},
    t.IsSet k parent start label actions → t.IsSet k' parent' start' label actions' → k = k'
  place_unique : ∀ {s s' h}, t.OwnHistory s h → t.OwnHistory s' h → s = s'

structure Alike (t t' : SequenceTree L A) : Prop where
  set_iff : ∀ {label actions}, (∃ k parent start, t.IsSet k parent start label actions) ↔
    ∃ k parent start, t'.IsSet k parent start label actions
  history_iff : ∀ {h}, (∃ s, t.OwnHistory s h) ↔ ∃ s, t'.OwnHistory s h

variable {t t' : SequenceTree L A} {rename : Nat → Nat}

theorem Alike.exists_isSet (h : t.Alike t') (ht' : t'.Distinct) {k parent start : Nat} {label : L}
    {actions : List A} (hne : actions ≠ []) (hk : t.IsSet k parent start label actions)
    {past : History L} (hp : t.OwnHistory parent past) :
    ∃ k' parent' start', t'.IsSet k' parent' start' label actions ∧ t'.OwnHistory parent' past := by
  obtain ⟨k', parent', start', hk'⟩ := h.set_iff.mp ⟨k, parent, start, hk⟩
  -- the history of the set's first action tells both the set and the history before it
  obtain ⟨s, hs⟩ := h.history_iff.mp ⟨_, .move hk (List.length_pos_iff.mpr hne) hp⟩
  refine ⟨k', parent', start', hk', ?_⟩
  generalize he : past ++ [(label, 0)] = e at hs
  cases hs with
  | empty => simp at he
  | move hset ha hpast =>
    obtain ⟨rfl, hlast⟩ := List.append_inj' he rfl
    simp only [List.cons.injEq, Prod.mk.injEq, and_true] at hlast
    obtain ⟨rfl, -⟩ := hlast
    cases ht'.set_unique hset hk'
    cases hset.parent_eq.symm.trans hk'.parent_eq
    exact hpast

theorem Alike.renames (h : t.Alike t') (ht : t.Distinct) (ht' : t'.Distinct)
    (hr : ∀ s past, t.OwnHistory s past → t'.OwnHistory (rename s) past) : t.Renames t' rename := by
  refine ⟨⟨?_, ?_, ?_⟩, ?_, ?_⟩
  · intro s hs
    obtain ⟨past, hpast⟩ := ht.valid.exists_ownHistory hs
    exact ht'.valid.ownHistory_lt (hr s past hpast)
  · intro s hs s' hs' heq
    obtain ⟨past, hpast⟩ := ht.valid.exists_ownHistory hs
    obtain ⟨past', hpast'⟩ := ht.valid.exists_ownHistory hs'
    cases ht'.valid.ownHistory_unique (hr s past hpast) (heq ▸ hr s' past' hpast')
    exact ht.place_unique hpast hpast'
  · intro s' hs'
    obtain ⟨past, hpast'⟩ := ht'.valid.exists_ownHistory hs'
    obtain ⟨s, hpast⟩ := h.history_iff.mpr ⟨s', hpast'⟩
    exact ⟨s, ht.valid.ownHistory_lt hpast, ht'.place_unique (hr s past hpast) hpast'⟩
  · exact ht'.place_unique (hr 0 [] .empty) .empty
  · intro k parent start label actions hk
    obtain ⟨hlt, hne, hle⟩ := ht.valid.isSet_bounds hk
    have hpos := List.length_pos_iff.mpr hne
    obtain ⟨past, hpast⟩ := ht.valid.exists_ownHistory (show parent < t.sequences by omega)
    obtain ⟨k', parent', start', hk', hpast'⟩ := h.exists_isSet ht' hne hk hpast
    cases ht'.place_unique hpast' (hr parent past hpast)
    refine ⟨k', start', hk', fun a ha => ?_⟩
    exact ht'.place_unique (hr _ _ (.move hk ha hpast)) (.move hk' ha hpast')

/-- Sequences are named after the ones with the same own history. -/
theorem Alike.exists_rename (h : t.Alike t') (ht : t.Distinct) :
    ∃ rename : Nat → Nat, ∀ s past, t.OwnHistory s past → t'.OwnHistory (rename s) past := by
  have hname : ∀ s, ∃ s', ∀ past, t.OwnHistory s past → t'.OwnHistory s' past := by
    intro s
    by_cases hs : ∃ past, t.OwnHistory s past
    · obtain ⟨past, hpast⟩ := hs
      obtain ⟨s', hs'⟩ := h.history_iff.mp ⟨s, hpast⟩
      exact ⟨s', fun past' hpast' => ht.valid.ownHistory_unique hpast hpast' ▸ hs'⟩
    · exact ⟨0, fun past hpast => absurd ⟨past, hpast⟩ hs⟩
  choose rename hrename using hname
  exact ⟨rename, hrename⟩

end SequenceTree

/-- A renaming of the sequences of both seats under which the matrices have the same entries. -/
structure SequenceForm.Renames {L A R : Type} (f f' : SequenceForm L A R)
    (rename : Seat → Nat → Nat) : Prop where
  tree : ∀ seat, (f.tree seat).Renames (f'.tree seat) (rename seat)
  payoff : f'.payoff.entries.Perm
    (f.payoff.entries.map fun e => (rename .first e.1, rename .second e.2.1, e.2.2))

namespace Game

variable {σ L A : Type} [BEq L] [Hashable L]

theorem Explored.distinct {R : Type} [Scalar R] {g : Game σ A L R} {start : σ}
    {found : Exploration L A R} {form : SequenceForm L A R} (hx : g.Explored start found)
    (hf : found.Forms form) (seat : Seat) : (form.tree seat).Distinct := by
  have hr := hx.sound.registry seat
  rw [hf.tree_eq]
  exact ⟨hr.layout.valid, hr.set_unique, hr.place_unique⟩

/-- What can be reached does not depend on the order, so the trees tell of the same. -/
theorem Reorders.alike {R : Type} [Scalar R] {g : Game σ A L R} {actions : σ → List A}
    {start : σ} {found found' : Exploration L A R} {form form' : SequenceForm L A R}
    (h : g.Reorders actions) (hx : g.Explored start found) (hf : found.Forms form)
    (hx' : (g.reorder actions).Explored start found') (hf' : found'.Forms form') (seat : Seat) :
    (form.tree seat).Alike (form'.tree seat) := by
  constructor
  · intro label as
    rw [hx.exists_isSet_iff hf, hx'.exists_isSet_iff hf']
    refine exists_congr fun q => ?_
    rw [h.reaches_iff, player_reorder, observation_reorder, actions_reorder]
    refine and_congr_right fun _ => and_congr_right fun hq => ?_
    rw [h.eq q.state (by simp [hq])]
  · intro past
    rw [hx.exists_ownHistory_iff hf, hx'.exists_ownHistory_iff hf']
    simp only [h.reaches_iff]

variable [BEq A] [LawfulBEq L] [LawfulBEq A] {g : Game σ A L Rat} {actions : σ → List A} {start : σ}
  {form form' : SequenceForm L A Rat} {d fuel : Nat}

theorem Reorders.exists_renames (h : g.Reorders actions) (hd : g.EndsWithin d start)
    (hbuild : g.build fuel start = some (.ok form))
    (hbuild' : (g.reorder actions).build fuel start = some (.ok form')) :
    ∃ rename, form.Renames form' rename := by
  obtain ⟨found, hf, hx, hw⟩ := exists_explored hbuild
  obtain ⟨found', hf', hx', hw'⟩ := exists_explored hbuild'
  have hd' : (g.reorder actions).EndsWithin d start := (endsWithin_iff_of_perm h.successors_perm).mpr hd
  have halike := h.alike hx hf hx' hf'
  choose rename hrename using fun seat => (halike seat).exists_rename (hx.distinct hf seat)
  have htree : ∀ seat, (form.tree seat).Renames (form'.tree seat) (rename seat) :=
    fun seat => (halike seat).renames (hx.distinct hf seat) (hx'.distinct hf' seat) (hrename seat)
  -- an entry is what the plays with two own histories earn, and a renamed sequence keeps its history
  have hmem : ∀ {r c v}, r < form.first.sequences → c < form.second.sequences →
      ((rename .first r, rename .second c, v) ∈ form'.payoff.entries ↔
        (r, c, v) ∈ form.payoff.entries) := by
    intro r c v hr hc
    obtain ⟨past, hr, hc⟩ := hf.exists_past hx.sound hr hc
    rw [hw.mem_entries_iff hd hf hr hc, hw'.mem_entries_iff hd' hf' (hrename .first r _ hr)
      (hrename .second c _ hc), h.earningsAt_eq]
  refine ⟨rename, htree, (List.perm_ext_iff_of_nodup (hf'.nodup_entries hx'.sound) ?_).mpr ?_⟩
  · refine (hf.nodup_entries hx.sound).map_on ?_
    rintro ⟨r, c, v⟩ he ⟨r', c', v'⟩ he' heq
    obtain ⟨hr, hc⟩ := hf.entry_lt hx.sound he
    obtain ⟨hr', hc'⟩ := hf.entry_lt hx.sound he'
    simp only [Prod.mk.injEq] at heq ⊢
    exact ⟨(htree .first).bijOn.injOn hr hr' heq.1, (htree .second).bijOn.injOn hc hc' heq.2.1,
      heq.2.2⟩
  · rintro ⟨r', c', v⟩
    rw [List.mem_map]
    constructor
    · intro he'
      obtain ⟨hr', hc'⟩ := hf'.entry_lt hx'.sound he'
      obtain ⟨r, hr, rfl⟩ := (htree .first).bijOn.surjOn hr'
      obtain ⟨c, hc, rfl⟩ := (htree .second).bijOn.surjOn hc'
      exact ⟨(r, c, v), (hmem hr hc).mp he', rfl⟩
    · rintro ⟨e, he, heq⟩
      obtain ⟨hr, hc⟩ := hf.entry_lt hx.sound he
      exact heq ▸ (hmem hr hc).mpr he

/-- The order of chance's moves does not matter: building both games comes to a result, they succeed
together, and then the one form is the other with its sequences renamed. -/
theorem exists_build_reorder (h : g.Reorders actions) (hd : g.EndsWithin d start)
    (hfuel : g.treeSize d start ≤ fuel) :
    ∃ result result', g.build fuel start = some result ∧
      (g.reorder actions).build fuel start = some result' ∧
      ((∃ form, result = .ok form) ↔ ∃ form', result' = .ok form') ∧
      ∀ form form', result = .ok form → result' = .ok form' →
        ∃ rename, form.Renames form' rename := by
  have hd' : (g.reorder actions).EndsWithin d start :=
    (endsWithin_iff_of_perm h.successors_perm).mpr hd
  have hfuel' : (g.reorder actions).treeSize d start ≤ fuel :=
    (treeSize_eq_of_perm h.successors_perm d start).trans_le hfuel
  obtain ⟨result, hresult⟩ := exists_build hd hfuel
  obtain ⟨result', hresult'⟩ := exists_build hd' hfuel'
  refine ⟨result, result', hresult, hresult', ⟨?_, ?_⟩, ?_⟩
  · rintro ⟨form, rfl⟩
    obtain ⟨found, -, hx, -⟩ := exists_explored hresult
    obtain ⟨form', hform'⟩ := (h.wellFormed hx.wellFormed).exists_build hd' hfuel'
    exact ⟨form', Option.some.inj (hresult'.symm.trans hform')⟩
  · rintro ⟨form', rfl⟩
    obtain ⟨found', -, hx', -⟩ := exists_explored hresult'
    obtain ⟨form, hform⟩ := (h.symm.wellFormed hx'.wellFormed).exists_build hd hfuel
    exact ⟨form, Option.some.inj (hresult.symm.trans hform)⟩
  · rintro form form' rfl rfl
    exact h.exists_renames hd hresult hresult'

end Game

def secondDrawFirst (s : Nat) : List Nat := if s = 0 then [1, 0] else raffle.actions s

theorem reorders_secondDrawFirst : raffle.Reorders secondDrawFirst := by
  constructor
  · intro s hs
    by_cases h : s = 0
    · subst h
      exact .swap 0 1 []
    · rw [secondDrawFirst, if_neg h]
  · intro s hs
    have h : s ≠ 0 := by
      rintro rfl
      exact hs rfl
    rw [secondDrawFirst, if_neg h]

theorem exists_build_secondDrawFirst : ∃ form form' rename, raffle.build 11 0 = some (.ok form) ∧
    (raffle.reorder secondDrawFirst).build 11 0 = some (.ok form') ∧ form.Renames form' rename := by
  obtain ⟨result, result', hresult, hresult', hiff, hrename⟩ :=
    Game.exists_build_reorder reorders_secondDrawFirst endsWithin_raffle treeSize_raffle.le
  obtain ⟨form, hform⟩ := wellFormed_raffle.exists_build endsWithin_raffle treeSize_raffle.le
  cases hresult.symm.trans hform
  obtain ⟨form', rfl⟩ := hiff.mp ⟨form, rfl⟩
  obtain ⟨rename, hrenames⟩ := hrename form form' rfl rfl
  exact ⟨form, form', rename, hform, hresult', hrenames⟩

end ExtensiveForm
