import ExtensiveForm.SequenceForm.Build
import ExtensiveForm.Proofs.Exploration.Coverage
import ExtensiveForm.Proofs.PayoffMatrix.Assembly
import ExtensiveForm.Proofs.Registry.Layout

/-!
The form that is built of an exploration. Main statements: every sound exploration has a form, the
form passes its own check, and its sets are those at which a seat acts at a reachable position.
-/

set_option autoImplicit false

namespace ExtensiveForm

namespace Exploration

variable {L A R : Type} [BEq L] [Hashable L] {found : Exploration L A R}
  {form : SequenceForm L A R}

theorem Stands.exists_flat (hs : found.Sound) {key : SequencePair} {past : PerSeat (History L)}
    (h : found.Stands key past) (seat : Seat) :
    ∃ n, (key.get seat).flat? (found.registry seat).offsets = some n ∧
      (found.registry seat).layout.tree.OwnHistory n (past.get seat) :=
  (hs.registry seat).exists_flat (h seat)

structure Places (found : Exploration L A R) (key : SequencePair) (r c : Nat) : Prop where
  row : key.first.flat? (found.registry .first).offsets = some r
  col : key.second.flat? (found.registry .second).offsets = some c

variable [Scalar R]

/-- The form of an exploration: a laid-out tree for each registry, and the assembled matrix. -/
structure Forms (found : Exploration L A R) (form : SequenceForm L A R) : Prop where
  tree_eq : ∀ seat, form.tree seat = (found.registry seat).layout.tree
  payoff_eq : PayoffMatrix.assembleBy? (·.flat? (found.registry .first).offsets)
    (·.flat? (found.registry .second).offsets) found.payoffs.toList = some form.payoff

theorem form?_eq_some_iff : found.form? = some form ↔ found.Forms form := by
  obtain ⟨first, second, payoff⟩ := form
  simp only [form?, Option.map_eq_some_iff, SequenceForm.mk.injEq]
  constructor
  · intro h
    obtain ⟨payoff', h, rfl, rfl, rfl⟩ := h
    exact ⟨fun seat => by cases seat <;> rfl, h⟩
  · intro h
    exact ⟨payoff, h.payoff_eq, (h.tree_eq .first).symm, (h.tree_eq .second).symm, rfl⟩

theorem Sound.exists_form (hs : found.Sound) : ∃ form, found.Forms form := by
  have hplace : ∀ p ∈ found.payoffs.toList, Scalar.isZero p.2 = false →
      (PayoffMatrix.place? (·.flat? (found.registry .first).offsets)
        (·.flat? (found.registry .second).offsets) p).isSome := by
    intro p hp _
    obtain ⟨key, v⟩ := p
    obtain ⟨past, hpast⟩ := hs.keys (Std.HashMap.mem_toList_iff_getElem?_eq_some.mp hp)
    obtain ⟨r, hr, -⟩ := hpast.exists_flat hs .first
    obtain ⟨c, hc, -⟩ := hpast.exists_flat hs .second
    rw [Option.isSome_iff_exists]
    exact ⟨(r, c, v), PayoffMatrix.place?_eq_some_iff.mpr ⟨hr, hc, rfl⟩⟩
  exact ⟨⟨_, _, _⟩, form?_eq_some_iff.mp (by
    simp only [form?, PayoffMatrix.assemble?]
    exact congrArg _ (PayoffMatrix.assembleBy?_eq_some_iff.mpr ⟨hplace, rfl⟩))⟩

namespace Forms

theorem valid (h : found.Forms form) (hs : found.Sound) (seat : Seat) : (form.tree seat).Valid := by
  rw [h.tree_eq]
  exact (hs.registry seat).layout.valid

theorem nodup_label [LawfulBEq L] (h : found.Forms form) (hs : found.Sound) (seat : Seat) :
    (form.tree seat).label.toList.Nodup := by
  rw [h.tree_eq]
  exact (hs.registry seat).nodup_label

theorem mem_entries_iff (h : found.Forms form) {r c : Nat} {v : R} :
    (r, c, v) ∈ form.payoff.entries ↔
      ∃ key, found.payoffs[key]? = some v ∧ Scalar.isZero v = false ∧ found.Places key r c := by
  rw [PayoffMatrix.mem_entries_iff h.payoff_eq]
  simp only [Std.HashMap.mem_toList_iff_getElem?_eq_some]
  constructor
  · intro h
    obtain ⟨key, hk, hz, hr, hc⟩ := h
    exact ⟨key, hk, hz, hr, hc⟩
  · intro h
    obtain ⟨key, hk, hz, hr, hc⟩ := h
    exact ⟨key, hk, hz, hr, hc⟩

theorem places_iff (h : found.Forms form) (hs : found.Sound) {key : SequencePair}
    {past : PerSeat (History L)} (hkey : found.Stands key past) {r c : Nat} :
    found.Places key r c ↔
      form.first.OwnHistory r past.first ∧ form.second.OwnHistory c past.second := by
  obtain ⟨r', hr', hfirst⟩ := hkey.exists_flat hs .first
  obtain ⟨c', hc', hsecond⟩ := hkey.exists_flat hs .second
  have htree₁ : form.first = (found.registry .first).layout.tree := h.tree_eq .first
  have htree₂ : form.second = (found.registry .second).layout.tree := h.tree_eq .second
  rw [htree₁, htree₂]
  constructor
  · intro hat
    cases hr'.symm.trans hat.row
    cases hc'.symm.trans hat.col
    exact ⟨hfirst, hsecond⟩
  · intro hpast
    obtain ⟨s, hs₁, hsr⟩ := (hs.registry .first).exists_sequence hpast.1
    obtain ⟨s', hs₂, hsc⟩ := (hs.registry .second).exists_sequence hpast.2
    cases (hs.registry .first).sequence_unique hs₁ (hkey .first)
    cases (hs.registry .second).sequence_unique hs₂ (hkey .second)
    exact ⟨hsr, hsc⟩

theorem exists_stands_of_places (h : found.Forms form) (hs : found.Sound) {key : SequencePair}
    {v : R} (hkey : found.payoffs[key]? = some v) {r c : Nat} (hat : found.Places key r c) :
    ∃ past, found.Stands key past ∧ form.first.OwnHistory r past.first ∧
      form.second.OwnHistory c past.second := by
  obtain ⟨past, hpast⟩ := hs.keys hkey
  exact ⟨past, hpast, (h.places_iff hs hpast).mp hat⟩

theorem entry_lt (h : found.Forms form) (hs : found.Sound) {e : Nat × Nat × R}
    (he : e ∈ form.payoff.entries) : e.1 < form.first.sequences ∧ e.2.1 < form.second.sequences := by
  obtain ⟨r, c, v⟩ := e
  obtain ⟨key, hk, -, hat⟩ := h.mem_entries_iff.mp he
  obtain ⟨past, -, hr, hc⟩ := h.exists_stands_of_places hs hk hat
  exact ⟨(h.valid hs .first).ownHistory_lt hr, (h.valid hs .second).ownHistory_lt hc⟩

theorem exists_past (h : found.Forms form) (hs : found.Sound) {r c : Nat}
    (hr : r < form.first.sequences) (hc : c < form.second.sequences) :
    ∃ past : PerSeat (History L),
      form.first.OwnHistory r past.first ∧ form.second.OwnHistory c past.second := by
  obtain ⟨first, hfirst⟩ := (h.valid hs .first).exists_ownHistory hr
  obtain ⟨second, hsecond⟩ := (h.valid hs .second).exists_ownHistory hc
  exact ⟨⟨first, second⟩, hfirst, hsecond⟩

/-- Distinct pairs of sequences go to distinct places. -/
theorem pairwise_entries (h : found.Forms form) (hs : found.Sound) :
    form.payoff.entries.Pairwise PayoffMatrix.PlaceLt := by
  refine PayoffMatrix.pairwise_placeLt h.payoff_eq ?_ ?_
  · exact Std.HashMap.distinct_keys_toList.imp fun hpq => by simpa using hpq
  · intro p hp q hq _ _ e f he hf hr hc
    obtain ⟨key, v⟩ := p
    obtain ⟨key', v'⟩ := q
    obtain ⟨past, hpast⟩ := hs.keys (Std.HashMap.mem_toList_iff_getElem?_eq_some.mp hp)
    obtain ⟨past', hpast'⟩ := hs.keys (Std.HashMap.mem_toList_iff_getElem?_eq_some.mp hq)
    obtain ⟨hr₁, hc₁, -⟩ := PayoffMatrix.place?_eq_some_iff.mp he
    obtain ⟨hr₂, hc₂, -⟩ := PayoffMatrix.place?_eq_some_iff.mp hf
    rw [← hr] at hr₂
    rw [← hc] at hc₂
    refine PerSeat.ext_get fun seat => ?_
    cases seat with
    | first => exact (hs.registry .first).flat_injective (hpast .first) (hpast' .first) hr₁ hr₂
    | second => exact (hs.registry .second).flat_injective (hpast .second) (hpast' .second) hc₁ hc₂

theorem nodup_entries (h : found.Forms form) (hs : found.Sound) : form.payoff.entries.Nodup :=
  (h.pairwise_entries hs).imp PayoffMatrix.ne_of_placeLt

theorem check_eq_ok (h : found.Forms form) (hs : found.Sound) : form.check = .ok () := by
  have hfirst := (h.valid hs .first).check_eq_ok
  have hsecond := (h.valid hs .second).check_eq_ok
  have hmatrix := SequenceForm.checkMatrix_eq_ok h.payoff_eq (h.pairwise_entries hs)
    fun e he => h.entry_lt hs he
  simp only [SequenceForm.check, SequenceForm.checkTree, hfirst, hsecond]
  exact hmatrix

theorem checkPlans_eq_ok (h : found.Forms form) (hs : found.Sound) {x y : Array R}
    (hx : x.size = form.first.sequences) (hy : y.size = form.second.sequences) :
    form.checkPlans x y = .ok () := by
  simp only [SequenceForm.checkPlans, h.check_eq_ok hs, hx, hy]
  simp

end Forms

end Exploration

namespace Game

variable {σ L A R : Type} [BEq L] [Hashable L] [Scalar R] {g : Game σ A L R} {fuel : Nat}
  {start : σ} {found : Exploration L A R} {form : SequenceForm L A R}

theorem Explored.exists_isSet_iff (hx : g.Explored start found) (hf : found.Forms form)
    {seat : Seat} {label : L} {actions : List A} :
    (∃ k parent first, (form.tree seat).IsSet k parent first label actions) ↔
      ∃ q, g.Reaches (.start start) q ∧ g.player q.state = some (.seat seat) ∧
        g.observation q.state = some label ∧ g.actions q.state = actions := by
  have hr := hx.sound.registry seat
  rw [hf.tree_eq]
  constructor
  · intro h
    obtain ⟨k, parent, first, hset⟩ := h
    obtain ⟨i, info, hi, rfl, rfl, -⟩ := hr.exists_infoset hset
    obtain ⟨q, hq, hsee⟩ := hx.sourced seat i info hi
    exact ⟨q, hq, hsee.player, hsee.observation, hsee.actions.symm⟩
  · intro h
    obtain ⟨q, hq, hp, ho, rfl⟩ := h
    obtain ⟨i, info, hi, hsee⟩ := (hx.recorded hq).infoset seat hp
    obtain ⟨k, parent, first, -, -, hset⟩ := hr.exists_isSet hi
    cases ho.symm.trans hsee.observation
    rw [hsee.actions] at hset
    exact ⟨k, parent, first, hset⟩

theorem Explored.exists_ownHistory_iff (hx : g.Explored start found) (hf : found.Forms form)
    {seat : Seat} {h : History L} : (∃ n, (form.tree seat).OwnHistory n h) ↔
      ∃ q, g.Reaches (.start start) q ∧ q.past.get seat = h := by
  have hr := hx.sound.registry seat
  constructor
  · intro hn
    obtain ⟨n, hn⟩ := hn
    cases hn with
    | empty => exact ⟨.start start, .refl, by simp [Position.start]⟩
    | @move k parent first a label actions h hk ha hp =>
      -- the move leads on from the position at which the set was registered
      rw [hf.tree_eq] at hk hp
      obtain ⟨i, info, hi, rfl, rfl, -, hparent⟩ := hr.exists_infoset hk
      obtain ⟨q, hq, hsee⟩ := hx.sourced seat i info hi
      obtain ⟨n, hn, hpast⟩ := hr.exists_flat hsee.parent
      cases hparent.symm.trans hn
      cases hr.layout.valid.ownHistory_unique hp hpast
      obtain ⟨next, hnext, hrec⟩ := exists_mem_nexts hsee.player hsee.observation (hsee.actions ▸ ha)
      exact ⟨next, hq.next hnext, hrec⟩
  · intro hq
    obtain ⟨q, hq, rfl⟩ := hq
    suffices hs : ∃ s, (found.registry seat).OwnHistory s (q.past.get seat) by
      obtain ⟨s, hs⟩ := hs
      obtain ⟨n, -, hn⟩ := hr.exists_flat hs
      exact ⟨n, hf.tree_eq seat ▸ hn⟩
    induction hq with
    | refl => exact ⟨.empty, by simpa [Position.start] using .empty⟩
    | @tail q next hq hnext ih =>
      obtain ⟨s, hs⟩ := ih
      rcases past_of_mem_nexts hnext seat with hsame | ⟨label, a, hp, ho, ha, hrec⟩
      · exact ⟨s, hsame ▸ hs⟩
      · obtain ⟨i, info, hi, hsee⟩ := (hx.recorded hq).infoset seat hp
        cases ho.symm.trans hsee.observation
        rw [hrec]
        exact ⟨_, .move hi (hsee.actions ▸ ha) hsee.parent⟩

variable [BEq A]

theorem build_eq_ok_iff : g.build fuel start = some (.ok form) ↔
    ∃ found, g.explore fuel start = some (.ok found) ∧ found.Forms form := by
  simp only [← Exploration.form?_eq_some_iff]
  unfold build
  cases g.explore fuel start with
  | none => simp
  | some result =>
    cases result with
    | error v => simp
    | ok found => cases h : found.form? <;> simp [h]

theorem exists_build {d : Nat} (hd : g.EndsWithin d start) (hfuel : g.treeSize d start ≤ fuel) :
    ∃ result, g.build fuel start = some result := by
  obtain ⟨result, h⟩ := exists_explore hd hfuel
  unfold build
  rw [h]
  cases result with
  | error v => exact ⟨_, rfl⟩
  | ok found =>
    cases hf : found.form? with
    | none => exact ⟨.error .strayPayoff, by simp only [hf]⟩
    | some form => exact ⟨.ok form, by simp only [hf]⟩

theorem exists_explored [LawfulBEq L] [LawfulBEq A] (h : g.build fuel start = some (.ok form)) :
    ∃ found, found.Forms form ∧ g.Explored start found ∧
      g.Explores [.start start] .empty found := by
  obtain ⟨found, hfound, hf⟩ := build_eq_ok_iff.mp h
  exact ⟨found, hf, explored_of_explore hfound, explores_of_explore hfound⟩

/-- Every form that is built passes its own check. -/
theorem check_eq_ok_of_build [LawfulBEq L] [LawfulBEq A] (h : g.build fuel start = some (.ok form)) :
    form.check = .ok () := by
  obtain ⟨found, hf, hx, -⟩ := exists_explored h
  exact hf.check_eq_ok hx.sound

theorem WellFormed.exists_build [LawfulBEq L] [LawfulBEq A] {d : Nat} (hg : g.WellFormed start)
    (hd : g.EndsWithin d start) (hfuel : g.treeSize d start ≤ fuel) :
    ∃ form, g.build fuel start = some (.ok form) := by
  obtain ⟨found, hfound⟩ := hg.exists_explore hd hfuel
  obtain ⟨form, hf⟩ := (explored_of_explore hfound).sound.exists_form
  exact ⟨form, build_eq_ok_iff.mpr ⟨found, hfound, hf⟩⟩

/-- A well-formed game whose plays all end has one form, which is there from some fuel on. -/
theorem WellFormed.exists_build_eq_ite [LawfulBEq L] [LawfulBEq A] {d : Nat}
    (hg : g.WellFormed start) (hd : g.EndsWithin d start) :
    ∃ form n, ∀ fuel, g.build fuel start = if n ≤ fuel then some (.ok form) else none := by
  obtain ⟨found, hfound⟩ := hg.exists_explore hd le_rfl
  obtain ⟨form, hf⟩ := (explored_of_explore hfound).sound.exists_form
  obtain ⟨n, hn⟩ := exists_forall_explore_eq_ite hfound
  refine ⟨form, n, fun fuel => ?_⟩
  rw [build, hn]
  by_cases hle : n ≤ fuel
  · simp only [if_pos hle, Exploration.form?_eq_some_iff.mpr hf]
  · simp only [if_neg hle]

end Game

end ExtensiveForm
