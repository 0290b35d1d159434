import Mathlib.Data.Set.Card
import ExtensiveForm.Game.Table
import ExtensiveForm.Proofs.Exploration.Coverage
import ExtensiveForm.SequenceForm.Build

/-!
Games with finitely many states, from which plays may come back to where they have been. A walk does
not remember the states it has seen; what ends it is that no seat can come to one information set
twice. Main statement: a walk comes to a result unless chance can go round a cycle alone, and it
refuses every game in which a cycle can be reached.
-/

set_option autoImplicit false

namespace ExtensiveForm.Game

variable {σ L A R : Type} {g : Game σ A L R} {s t : σ}

def Returns (g : Game σ A L R) : σ → σ → Prop :=
  Relation.TransGen fun s t => t ∈ g.successors s

/-- As `Returns`, with moves of chance only. -/
def Drifts (g : Game σ A L R) : σ → σ → Prop :=
  Relation.TransGen fun s t => g.player s = some .chance ∧ t ∈ g.successors s

def Faces (g : Game σ A L R) (seat : Seat) (label : L) (s : σ) : Prop :=
  g.player s = some (.seat seat) ∧ g.observation s = some label

theorem Drifts.returns (h : g.Drifts s t) : g.Returns s t :=
  Relation.TransGen.mono (fun _ _ h => h.2) _ _ h

theorem EndsWithin.not_returns {d : Nat} (hd : g.EndsWithin d s) : ¬g.Returns s s := by
  intro h
  induction d generalizing s with
  | zero =>
    obtain ⟨t, ht, -⟩ := Relation.TransGen.head'_iff.mp h
    rw [show g.successors s = [] from hd] at ht
    exact absurd ht List.not_mem_nil
  | succ d ih =>
    obtain ⟨t, ht, hs⟩ := Relation.TransGen.head'_iff.mp h
    exact ih (hd t ht) (Relation.TransGen.tail' hs ht)

section Rank

variable {start : σ}

noncomputable def drift (g : Game σ A L R) (s : σ) : Nat := {t | g.Drifts s t}.ncard

theorem finite_drifts (hfin : {s | g.Leads start s}.Finite) (hs : g.Leads start s) :
    {t | g.Drifts s t}.Finite :=
  hfin.subset fun _ ht => hs.trans ht.returns.to_reflTransGen

theorem drift_le (hfin : {s | g.Leads start s}.Finite) (hs : g.Leads start s) :
    g.drift s ≤ {s | g.Leads start s}.ncard :=
  Set.ncard_le_ncard (fun _ ht => hs.trans ht.returns.to_reflTransGen) hfin

/-- Each move of chance leaves fewer of them, if chance does not go round in a cycle. -/
theorem drift_lt (hfin : {s | g.Leads start s}.Finite) (hs : g.Leads start s)
    (hchance : ∀ s, g.Leads start s → ¬g.Drifts s s) (hp : g.player s = some .chance)
    (ht : t ∈ g.successors s) : g.drift t < g.drift s := by
  refine Set.ncard_lt_ncard ⟨fun u hu => ?_, fun hsub => ?_⟩ (finite_drifts hfin hs)
  · exact Relation.TransGen.head ⟨hp, ht⟩ hu
  · exact hchance t (hs.tail ht) (hsub (Relation.TransGen.single ⟨hp, ht⟩))

variable {p q : Position σ L R} {n : Nat}

/-- A bound on the moves still to come, if there are `n` information sets: each of them may be passed
once by its seat, and between two of them chance moves. -/
noncomputable def ahead (g : Game σ A L R) (n : Nat) (p : Position σ L R) : Nat :=
  (2 * n - (p.past.first.length + p.past.second.length)) * (n + 1) + g.drift p.state

noncomputable def looks (g : Game σ A L R) (n : Nat) (p : Position σ L R) : Nat :=
  g.treeSize (g.ahead n p) p.state

variable [Zero R] [Mul R]

/-- Every move leaves fewer moves to come: a seat remembers one more, or chance has moved. -/
theorem ahead_lt (hfin : {s | g.Leads start s}.Finite) (hs : g.Leads start p.state)
    (hchance : ∀ s, g.Leads start s → ¬g.Drifts s s) (hn : {s | g.Leads start s}.ncard = n)
    (hanswers : g.Answers p.state) (hq : q ∈ g.nexts p)
    (hlength : q.past.first.length + q.past.second.length ≤ 2 * n) :
    g.ahead n q < g.ahead n p := by
  have hq' := state_mem_successors hq
  have hle : g.drift q.state ≤ n := hn ▸ drift_le hfin (hs.tail hq')
  unfold ahead
  cases hp : g.player p.state with
  | none => simp [nexts, hp] at hq
  | some player =>
    cases player with
    | chance =>
      have hpast : q.past = p.past := by
        simp only [nexts, hp] at hq
        obtain ⟨a, -, rfl⟩ := List.mem_map.mp hq
        rfl
      rw [hpast]
      exact Nat.add_lt_add_left (drift_lt hfin hs hchance hp hq') _
    | seat seat =>
      obtain ⟨label, ho⟩ := Option.isSome_iff_exists.mp (hanswers.observation seat hp)
      have hpast : q.past.first.length + q.past.second.length =
          p.past.first.length + p.past.second.length + 1 := by
        simp only [nexts, hp, ho] at hq
        obtain ⟨a, -, rfl⟩ := List.mem_mapIdx.mp hq
        cases seat <;> simp [recordMove, PerSeat.set, PerSeat.get] <;> omega
      have hleft : 2 * n - (p.past.first.length + p.past.second.length) =
          2 * n - (q.past.first.length + q.past.second.length) + 1 := by omega
      rw [hleft]
      generalize 2 * n - (q.past.first.length + q.past.second.length) = left
      rw [Nat.add_one_mul]
      omega

theorem sum_looks_lt (hless : ∀ q ∈ g.nexts p, g.ahead n q < g.ahead n p) :
    ((g.nexts p).map (g.looks n)).sum < g.looks n p := by
  cases hk : g.ahead n p with
  | zero =>
    have hnil : g.nexts p = [] :=
      List.eq_nil_iff_forall_not_mem.mpr fun q hq => Nat.not_lt_zero _ (hk ▸ hless q hq)
    rw [hnil]
    exact g.treeSize_pos _ _
  | succ k =>
    have hbelow : ∀ q ∈ g.nexts p, g.looks n q ≤ g.treeSize k q.state :=
      fun q hq => g.treeSize_mono (Nat.le_of_lt_succ (hk.subst (hless q hq))) _
    have hsum := List.sum_le_sum hbelow
    rw [looks, hk, treeSize, ← map_state_nexts, List.map_map]
    exact Nat.lt_one_add_iff.mpr hsum

end Rank

section Walk

variable [BEq L] [Hashable L] [Scalar R] {start : σ} {found : Exploration L A R}

/-- All sets a seat remembers are different and seen somewhere, so there are no more than states. -/
theorem Sourced.length_le (hsource : g.Sourced (.start start) found) (hs : found.Sound)
    (hfin : {s | g.Leads start s}.Finite) {seat : Seat} {last : Sequence} {past : History L}
    (h : (found.registry seat).OwnHistory last past) :
    past.length ≤ {s | g.Leads start s}.ncard := by
  classical
  have hr := hs.registry seat
  have hsub : ((past.map Prod.fst).map some).toFinset ⊆
      (hfin.toFinset.image g.observation) := by
    intro o ho
    obtain ⟨label, hl, rfl⟩ := List.mem_map.mp (List.mem_toFinset.mp ho)
    obtain ⟨i, info, hi, hlabel⟩ := hr.exists_infoset_of_mem h hl
    obtain ⟨q, hq, hsee⟩ := hsource seat i info hi
    exact Finset.mem_image.mpr ⟨q.state, hfin.mem_toFinset.mpr hq.leads, hlabel ▸ hsee.observation⟩
  have hnodup : ((past.map Prod.fst).map some).Nodup :=
    (hr.nodup_labels h).map (Option.some_injective L)
  calc
    past.length = ((past.map Prod.fst).map some).toFinset.card := by
      rw [List.toFinset_card_of_nodup hnodup, List.length_map, List.length_map]
    _ ≤ (hfin.toFinset.image g.observation).card := Finset.card_le_card hsub
    _ ≤ hfin.toFinset.card := Finset.card_image_le
    _ = {s | g.Leads start s}.ncard := (Set.ncard_eq_toFinset_card _ hfin).symm

theorem Stage.exists_stands {pending : List (Frame σ R)} {ps : List (Position σ L R)}
    (h : g.Stage start found pending ps) {p : Position σ L R} (hp : p ∈ ps) :
    ∃ key, found.Stands key p.past := by
  obtain ⟨i, hi, rfl⟩ := List.getElem_of_mem hp
  obtain ⟨hlength, hat⟩ := List.forall₂_iff_get.mp h.frames
  exact ⟨_, (hat i (hlength ▸ hi) hi).last⟩

variable [BEq A] [LawfulBEq A] [LawfulBEq L]

theorem exists_explore_of_finite (hfin : {s | g.Leads start s}.Finite)
    (hchance : ∀ s, g.Leads start s → ¬g.Drifts s s) :
    ∃ fuel result, g.explore fuel start = some result := by
  generalize hn : {s | g.Leads start s}.ncard = n
  refine ⟨g.looks n (.start start), ?_⟩
  rw [explore, walk_eq_worklist]
  refine exists_worklist (fun fuel found pending => ∃ ps, g.Stage start found pending ps ∧
    (ps.map (g.looks n)).sum ≤ fuel) ?_ ?_ ⟨_, stage_start start, by simp⟩
  · rintro found frame pending ⟨ps, hstage, hsum⟩
    obtain ⟨p, ps, -, -, rfl⟩ := List.forall₂_cons_left_iff.mp hstage.frames
    have hpos : 0 < g.looks n p := g.treeSize_pos _ _
    simp only [List.map_cons, List.sum_cons] at hsum
    omega
  · rintro fuel found frame pending next below ⟨ps, hstage, hsum⟩ hl
    obtain ⟨p, ps, hfr, -, rfl⟩ := List.forall₂_cons_left_iff.mp hstage.frames
    have hnext := hstage.look hl
    have hp := hstage.reaches p List.mem_cons_self
    have hanswers := ((absorbs_of_look hstage.sound hfr hl).1.recorded hstage.sound).answers
    have hless : ∀ q ∈ g.nexts p, g.ahead n q < g.ahead n p := by
      intro q hq
      refine ahead_lt hfin hp.leads hchance hn hanswers hq ?_
      obtain ⟨key, hkey⟩ := hnext.exists_stands (List.mem_append_left ps hq)
      have hfirst := hnext.sourced.length_le hnext.sound hfin (hkey .first)
      have hsecond := hnext.sourced.length_le hnext.sound hfin (hkey .second)
      simp only [PerSeat.get] at hfirst hsecond
      omega
    refine ⟨_, hnext, ?_⟩
    have hbelow := sum_looks_lt hless
    simp only [List.map_cons, List.sum_cons, List.map_append, List.sum_append] at hsum ⊢
    omega

omit [LawfulBEq A] [LawfulBEq L] in
theorem not_returns_of_explore {fuel : Nat} (h : g.explore fuel start = some (.ok found))
    (hs : g.Leads start s) : ¬g.Returns s s := by
  rw [explore, walk_eq_worklist] at h
  obtain ⟨d, hd⟩ := exists_endsWithin_of_runs map_state_of_look (runs_of_worklist h)
  have hstart : g.EndsWithin d start := hd _ (List.mem_singleton_self _)
  refine EndsWithin.not_returns (d := d) ?_
  clear h hd
  induction hs with
  | refl => exact hstart
  | tail _ ht ih => exact ih.successor ht

abbrev Paths (g : Game σ A L R) (start : σ) :
    Nat → Exploration L A R → List (List (Frame σ R) × Frame σ R) → Prop :=
  Trails g.look (.root start) .empty

omit [LawfulBEq A] [LawfulBEq L] in
theorem Paths.explore_eq {n : Nat} {pending : List (List (Frame σ R) × Frame σ R)}
    (h : g.Paths start n found pending) (fuel : Nat) :
    g.explore (n + fuel) start = g.walk fuel (pending.map Prod.snd) found := by
  rw [explore, walk_eq_worklist, walk_eq_worklist, Trails.worklist_eq h]

def Remembers (g : Game σ A L R) (item : List (Frame σ R) × Frame σ R) (p : Position σ L R) : Prop :=
  ∀ f ∈ item.1, ∀ seat label, g.Faces seat label f.state → label ∈ (p.past.get seat).map Prod.fst

omit [BEq L] [Hashable L] [BEq A] [LawfulBEq A] [LawfulBEq L] in
theorem Remembers.next {way : List (Frame σ R)} {frame below : Frame σ R} {p q : Position σ L R}
    (h : g.Remembers (way, frame) p) (hstate : frame.state = p.state) (hq : q ∈ g.nexts p) :
    g.Remembers (way ++ [frame], below) q := by
  intro f hf seat label hface
  rcases List.mem_append.mp hf with hf | hf
  · have hmem := h f hf seat label hface
    rcases past_of_mem_nexts hq seat with hpast | ⟨l, a, -, -, -, hpast⟩
    · rwa [hpast]
    · rw [hpast, List.map_append]
      exact List.mem_append_left _ hmem
  · rw [List.mem_singleton.mp hf, hstate] at hface
    obtain ⟨hp, ho⟩ := hface
    simp only [nexts, hp, ho] at hq
    obtain ⟨a, -, rfl⟩ := List.mem_mapIdx.mp hq
    simp [recordMove]

theorem Paths.exists_stage {n : Nat} {pending : List (List (Frame σ R) × Frame σ R)}
    (h : g.Paths start n found pending) :
    ∃ ps, g.Stage start found (pending.map Prod.snd) ps ∧
      List.Forall₂ g.Remembers pending ps := by
  induction h with
  | start => exact ⟨_, stage_start start, .cons (fun f hf => absurd hf List.not_mem_nil) .nil⟩
  | @look n now next way below frame pending _ hl ih =>
    obtain ⟨ps, hstage, hways⟩ := ih
    obtain ⟨p, ps, hway, hrest, rfl⟩ := List.forall₂_cons_left_iff.mp hways
    have hstate := (List.forall₂_cons.mp hstage.frames).1.state
    have hnext := hstage.look hl
    have hlength : below.length = (g.nexts p).length := by
      have hmap := congrArg List.length (map_state_of_look hl)
      rwa [hstate, ← map_state_nexts, List.length_map, List.length_map] at hmap
    refine ⟨g.nexts p ++ ps, ?_, List.rel_append (List.forall₂_map_left_iff.mpr ?_) hrest⟩
    · rw [List.map_append, List.map_map]
      simpa [Function.comp_def] using hnext
    · refine List.forall₂_iff_get.mpr ⟨hlength, fun i hi hi' => ?_⟩
      exact hway.next hstate (List.get_mem _ _)

theorem Paths.not_faces {n : Nat} {next : Exploration L A R} {way : List (Frame σ R)}
    {frame : Frame σ R} {below : List (Frame σ R)} {pending : List (List (Frame σ R) × Frame σ R)}
    {seat : Seat} {label : L} (h : g.Paths start n found ((way, frame) :: pending))
    (hl : g.look found frame = .ok (next, below)) (hface : g.Faces seat label frame.state) :
    ∀ f ∈ way, ¬g.Faces seat label f.state := by
  intro f hf hf'
  obtain ⟨ps, hstage, hways⟩ := h.exists_stage
  obtain ⟨p, ps, hway, -, rfl⟩ := List.forall₂_cons_left_iff.mp hways
  have hat := (List.forall₂_cons.mp hstage.frames).1
  obtain ⟨hp, ho⟩ := hat.state ▸ hface
  obtain ⟨ha, -⟩ := absorbs_of_look hstage.sound hat hl
  obtain ⟨hs', -⟩ := ha.sound hstage.sound
  obtain ⟨i, info, hi, hsee⟩ := (ha.recorded hstage.sound).infoset seat hp
  cases ho.symm.trans hsee.observation
  exact (hs'.registry seat).label_not_mem hi hsee.parent (hway f hf seat _ hf')

end Walk

section Main

variable [BEq L] [LawfulBEq L] [Hashable L] [BEq A] [LawfulBEq A] [Scalar R] {start : σ}

/-- Over finitely many states, on which chance cannot go round in a cycle alone, an exploration comes to
a result, and if any cycle can be reached it is an error; no path passes the check twice at one
information set. -/
theorem exists_explore_eq_ite (hfin : {s | g.Leads start s}.Finite)
    (hchance : ∀ s, g.Leads start s → ¬g.Drifts s s) :
    ∃ n result, (∀ fuel, g.explore fuel start = if n ≤ fuel then some result else none) ∧
      ((∃ s, g.Leads start s ∧ g.Returns s s) → ∃ v, result = .error v ∧
        ∀ fuel, g.build fuel start = if n ≤ fuel then some (.error (.violation v)) else none) ∧
      ∀ {m found next way frame below pending}, g.Paths start m found ((way, frame) :: pending) →
        g.look found frame = .ok (next, below) → ∀ seat label, g.Faces seat label frame.state →
          ∀ f ∈ way, ¬g.Faces seat label f.state := by
  obtain ⟨fuel, result, hresult⟩ := exists_explore_of_finite (R := R) hfin hchance
  obtain ⟨n, hexplore⟩ := exists_forall_explore_eq_ite hresult
  refine ⟨n, result, hexplore, ?_, fun h hl seat label hface => h.not_faces hl hface⟩
  rintro ⟨s, hs, hreturn⟩
  cases result with
  | ok found =>
    have hfound := hexplore n
    rw [if_pos le_rfl] at hfound
    exact absurd hreturn (not_returns_of_explore hfound hs)
  | error v =>
    refine ⟨v, rfl, fun fuel => ?_⟩
    rw [build, hexplore]
    by_cases hle : n ≤ fuel
    · rw [if_pos hle, if_pos hle]
    · rw [if_neg hle, if_neg hle]

end Main

end ExtensiveForm.Game

namespace ExtensiveForm

def redraw : Game Nat Nat Nat Rat :=
  Table.game #[
    ⟨some .chance, none, none, [⟨0, 1, some (1 / 2)⟩, ⟨1, 2, some (1 / 2)⟩]⟩,
    ⟨some (.seat .first), some 0, none, [⟨0, 0, none⟩, ⟨1, 2, none⟩]⟩,
    ⟨none, none, some 1, []⟩]

theorem lt_of_leads_redraw {s : Nat} (h : redraw.Leads 0 s) : s < 3 := by
  have hstep : ∀ s < 3, ∀ t ∈ redraw.successors s, t < 3 := by decide
  induction h with
  | refl => decide
  | tail _ ht ih => exact hstep _ ih _ ht

theorem finite_redraw : {s | redraw.Leads 0 s}.Finite :=
  (Set.finite_lt_nat 3).subset fun _ h => lt_of_leads_redraw h

theorem not_drifts_redraw {s : Nat} (hs : redraw.Leads 0 s) : ¬redraw.Drifts s s := by
  have hchance : ∀ s < 3, redraw.player s = some .chance → s = 0 := by decide
  have hstep : ∀ t ∈ redraw.successors 0, redraw.player t ≠ some .chance := by decide
  intro h
  obtain ⟨t, ⟨hp, ht⟩, hrest⟩ := Relation.TransGen.head'_iff.mp h
  cases hchance s (lt_of_leads_redraw hs) hp
  rcases hrest.cases_head with rfl | ⟨u, ⟨hp', -⟩, -⟩
  · exact hstep 0 ht hp
  · exact hstep t ht hp'

theorem returns_redraw : redraw.Returns 0 0 :=
  .tail (b := 1) (.single (by decide)) (by decide)

theorem explore_redraw : ∃ n v, ∀ fuel,
    redraw.explore fuel 0 = (if n ≤ fuel then some (.error v) else none) ∧
      redraw.build fuel 0 = (if n ≤ fuel then some (.error (.violation v)) else none) := by
  obtain ⟨n, result, hexplore, hcycle, -⟩ :=
    Game.exists_explore_eq_ite finite_redraw fun s hs => not_drifts_redraw hs
  obtain ⟨v, rfl, hbuild⟩ := hcycle ⟨0, .refl, returns_redraw⟩
  exact ⟨n, v, fun fuel => ⟨hexplore fuel, hbuild fuel⟩⟩

end ExtensiveForm
