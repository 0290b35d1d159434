import ExtensiveForm.Proofs.Exploration.Course

/-!
What an exploration knows in the end. Main statements: a successful exploration has registered every
reachable decision and nothing else, and an exploration succeeds if all questions have answers and
equal labels come with equal actions and equal own histories.
-/

set_option autoImplicit false

namespace ExtensiveForm.Game

variable {σ A L R : Type} [BEq L] [Hashable L] {g : Game σ A L R}

structure Sees (g : Game σ A L R) (r : Registry L A) (seat : Seat) (q : Position σ L R)
    (info : Infoset L A) : Prop where
  player : g.player q.state = some (.seat seat)
  observation : g.observation q.state = some info.label
  actions : info.actions = g.actions q.state
  parent : r.OwnHistory info.parent (q.past.get seat)

theorem Sees.mono {r r' : Registry L A} {seat : Seat} {q : Position σ L R} {info : Infoset L A}
    (h : g.Sees r seat q info) (hr : r.Extends r') : g.Sees r' seat q info :=
  ⟨h.player, h.observation, h.actions, h.parent.mono hr⟩

structure Recorded (g : Game σ A L R) (e : Exploration L A R) (q : Position σ L R) : Prop where
  answers : g.Answers q.state
  infoset : ∀ seat, g.player q.state = some (.seat seat) →
    ∃ (i : Nat) (info : Infoset L A), (e.registry seat).infosets[i]? = some info ∧
      g.Sees (e.registry seat) seat q info

theorem Recorded.mono {e e' : Exploration L A R} {q : Position σ L R} (h : g.Recorded e q)
    (he : e.Extends e') : g.Recorded e' q := by
  refine ⟨h.answers, fun seat hp => ?_⟩
  obtain ⟨i, info, hi, hs⟩ := h.infoset seat hp
  exact ⟨i, info, he seat i info hi, hs.mono (he seat)⟩

variable [Scalar R]

def Sourced (g : Game σ A L R) (root : Position σ L R) (e : Exploration L A R) : Prop :=
  ∀ (seat : Seat) (i : Nat) (info : Infoset L A), (e.registry seat).infosets[i]? = some info →
    ∃ q, g.Reaches root q ∧ g.Sees (e.registry seat) seat q info

theorem sourced_empty (root : Position σ L R) : g.Sourced root .empty := by
  intro seat i info h
  cases seat <;> simp [Exploration.empty, Exploration.registry, Registry.empty] at h

/-- A stage of a walk: what has been found comes from reachable positions, and so does what is still
pending. -/
structure Stage (g : Game σ A L R) (start : σ) (found : Exploration L A R)
    (pending : List (Frame σ R)) (ps : List (Position σ L R)) : Prop where
  sound : found.Sound
  sourced : g.Sourced (.start start) found
  frames : List.Forall₂ (Frame.At found) pending ps
  reaches : ∀ p ∈ ps, g.Reaches (.start start) p

theorem stage_start (start : σ) : g.Stage start .empty [.root start] [.start start] := by
  refine ⟨Exploration.sound_empty, sourced_empty _, ?_, ?_⟩
  · exact .cons ⟨rfl, rfl, Exploration.stands_both_empty _⟩ .nil
  · exact fun p hp => List.mem_singleton.mp hp ▸ .refl

structure Explored (g : Game σ A L R) (start : σ) (e : Exploration L A R) : Prop where
  sound : e.Sound
  recorded : ∀ {q : Position σ L R}, g.Reaches (.start start) q → g.Recorded e q
  sourced : g.Sourced (.start start) e

/-- All questions have answers, and whenever a seat sees one label it has the same actions before it
and the same own moves behind it. -/
structure WellFormed (g : Game σ A L R) (start : σ) : Prop where
  answers : ∀ p, g.Reaches (.start start) p → g.Answers p.state
  perfectRecall : ∀ p q seat label, g.Reaches (.start start) p → g.Reaches (.start start) q →
    g.player p.state = some (.seat seat) → g.player q.state = some (.seat seat) →
    g.observation p.state = some label → g.observation q.state = some label →
    g.actions p.state = g.actions q.state ∧ p.past.get seat = q.past.get seat

theorem Explored.wellFormed {start : σ} {e : Exploration L A R} (h : g.Explored start e) :
    g.WellFormed start := by
  refine ⟨fun p hp => (h.recorded hp).answers, ?_⟩
  intro p q seat label hp hq hps hqs hpl hql
  obtain ⟨i, x, hi, hx⟩ := (h.recorded hp).infoset seat hps
  obtain ⟨j, y, hj, hy⟩ := (h.recorded hq).infoset seat hqs
  have hlx : x.label = label := Option.some.inj (hx.observation.symm.trans hpl)
  have hly : y.label = label := Option.some.inj (hy.observation.symm.trans hql)
  -- both positions were entered as one set, which has one list of actions and one parent
  have hij := (h.sound.registry seat).index_unique hi hj (hlx.trans hly.symm)
  subst hij
  cases hi.symm.trans hj
  exact ⟨hx.actions.symm.trans hy.actions, hx.parent.unique hy.parent⟩

variable [BEq A] [LawfulBEq A] [LawfulBEq L]

theorem Absorbs.recorded {found found' : Exploration L A R} {p : Position σ L R}
    (h : g.Absorbs found p found') (hs : found.Sound) : g.Recorded found' p := by
  cases h with
  | terminal hp hv hk =>
    exact ⟨.of_node (node_eq_terminal_iff.mpr ⟨hp, hv⟩), fun seat hseat => by simp [hp] at hseat⟩
  | chance hp ha hc =>
    exact ⟨.of_node (node_eq_chance_iff.mpr ⟨hp, ha, hc, rfl⟩), fun seat hseat => by
      simp [hp] at hseat⟩
  | @decision seat label parent i found' hp ha ho hh he =>
    obtain ⟨-, hx, hi⟩ := hs.enter he ha ⟨_, hh⟩
    refine ⟨.of_node (node_eq_decision_iff.mpr ⟨hp, ha, ho, rfl⟩), fun t ht => ?_⟩
    rw [hp, Option.some.injEq, Player.seat.injEq] at ht
    subst ht
    exact ⟨i, _, hi, hp, ho, rfl, hh.mono (hx seat)⟩

theorem Absorbs.sourced {found found' : Exploration L A R} {root p : Position σ L R}
    (h : g.Absorbs found p found') (hs : found.Sound) (hp : g.Reaches root p)
    (hf : g.Sourced root found) : g.Sourced root found' := by
  cases h with
  | terminal _ _ _ =>
    intro seat i info hi
    rw [Exploration.registry_addPayoff] at hi ⊢
    exact hf seat i info hi
  | chance _ _ _ => exact hf
  | @decision seat label parent i found' hpl ha ho hh he =>
    obtain ⟨-, hx, -⟩ := hs.enter he ha ⟨_, hh⟩
    obtain ⟨hr, hother, -⟩ := Exploration.enter_eq_ok he
    have hold : ∀ {t : Seat} {j : Nat} {info : Infoset L A},
        (found.registry t).infosets[j]? = some info →
          ∃ q, g.Reaches root q ∧ g.Sees (found'.registry t) t q info := by
      intro t j info hj
      obtain ⟨q, hq, hsee⟩ := hf t j info hj
      exact ⟨q, hq, hsee.mono (hx t)⟩
    intro t j info hj
    by_cases ht : t = seat
    · subst ht
      rcases (hs.registry t).enter_origin hr hj with hj | rfl
      · exact hold hj
      · exact ⟨p, hp, hpl, ho, rfl, hh.mono (hx t)⟩
    · exact hold (hother t ht ▸ hj)

theorem Explores.recorded {found found' : Exploration L A R} {ps : List (Position σ L R)}
    (h : g.Explores ps found found') (hs : found.Sound) {p q : Position σ L R} (hp : p ∈ ps)
    (hq : g.Reaches p q) : g.Recorded found' q := by
  induction h generalizing p with
  | done found => exact absurd hp List.not_mem_nil
  | @look p₀ rest found next found' h hrest ih =>
    obtain ⟨hs', -⟩ := h.sound hs
    rcases List.mem_cons.mp hp with rfl | hp
    · rcases reaches_iff.mp hq with rfl | ⟨r, hr, hrq⟩
      · exact (h.recorded hs).mono (hrest.sound hs').2
      · exact ih hs' (List.mem_append_left _ hr) hrq
    · exact ih hs' (List.mem_append_right _ hp) hq

theorem Explores.sourced {found found' : Exploration L A R} {root : Position σ L R}
    {ps : List (Position σ L R)} (h : g.Explores ps found found') (hs : found.Sound)
    (hp : ∀ p ∈ ps, g.Reaches root p) (hf : g.Sourced root found) : g.Sourced root found' := by
  induction h with
  | done found => exact hf
  | @look p rest found next found' h hrest ih =>
    obtain ⟨hpr, hrr⟩ := List.forall_mem_cons.mp hp
    refine ih (h.sound hs).1 ?_ (h.sourced hs hpr hf)
    exact List.forall_mem_append.mpr ⟨fun q hq => hpr.next hq, hrr⟩

theorem explored_of_explore {fuel : Nat} {start : σ} {found : Exploration L A R}
    (h : g.explore fuel start = some (.ok found)) : g.Explored start found := by
  have hx := explores_of_explore h
  refine ⟨(hx.sound Exploration.sound_empty).1, fun hq => ?_, ?_⟩
  · exact hx.recorded Exploration.sound_empty (List.mem_singleton_self _) hq
  · refine hx.sourced Exploration.sound_empty ?_ (sourced_empty _)
    exact fun p hp => List.mem_singleton.mp hp ▸ .refl

omit [LawfulBEq L] in
theorem WellFormed.exists_look {start : σ} (hg : g.WellFormed start) {found : Exploration L A R}
    {frame : Frame σ R} {p : Position σ L R} (hs : found.Sound)
    (hf : g.Sourced (.start start) found) (hat : frame.At found p)
    (hp : g.Reaches (.start start) p) : ∃ result, g.look found frame = .ok result := by
  obtain ⟨n, hn⟩ := (hg.answers p hp).exists_node
  unfold look
  rw [hat.state, hn]
  cases n with
  | terminal v => exact ⟨_, rfl⟩
  | chance branches => exact ⟨_, rfl⟩
  | decision seat label moves =>
    obtain ⟨hps, -, hpl, rfl⟩ := node_eq_decision_iff.mp hn
    have hr := hs.registry seat
    obtain ⟨i, r, he⟩ : ∃ i r, (found.registry seat).enter
        ⟨label, g.actions p.state, frame.last.get seat⟩ = .ok (i, r) := by
      refine hr.enter_of_agree fun j known hj hl => ?_
      -- the position at which the label was frozen stands for all others that were entered under it
      obtain ⟨q, hq, hsee⟩ := hf seat j known hj
      have hql : g.observation q.state = some label := hsee.observation.trans (congrArg some hl)
      obtain ⟨ha, hpast⟩ := hg.perfectRecall p q seat label hp hq hps hsee.player hpl hql
      have hparent := hr.sequence_unique (hpast ▸ hsee.parent) (hat.last seat)
      have hacts : known.actions = g.actions p.state := hsee.actions.trans ha.symm
      have hlabel : known.label = label := hl
      rw [← hlabel, ← hacts, ← hparent]
    obtain ⟨e', he'⟩ := Exploration.exists_enter he
    simp only [moves_map_fst, he']
    exact ⟨_, rfl⟩

theorem Stage.look {start : σ} {found next : Exploration L A R} {frame : Frame σ R}
    {below pending : List (Frame σ R)} {p : Position σ L R} {ps : List (Position σ L R)}
    (h : g.Stage start found (frame :: pending) (p :: ps))
    (hl : g.look found frame = .ok (next, below)) :
    g.Stage start next (below ++ pending) (g.nexts p ++ ps) := by
  obtain ⟨hs, hf, hat, hreach⟩ := h
  obtain ⟨hp, hps⟩ := List.forall_mem_cons.mp hreach
  obtain ⟨hfr, hrest⟩ := List.forall₂_cons.mp hat
  obtain ⟨ha, hb⟩ := absorbs_of_look hs hfr hl
  obtain ⟨hs', hx⟩ := ha.sound hs
  refine ⟨hs', ha.sourced hs hp hf, ?_, ?_⟩
  · exact List.rel_append hb (hrest.imp fun _ _ hq => hq.mono hx)
  · exact List.forall_mem_append.mpr ⟨fun q hq => hp.next hq, hps⟩

theorem WellFormed.exists_stage {start : σ} (hg : g.WellFormed start) {found : Exploration L A R}
    {frame : Frame σ R} {pending : List (Frame σ R)}
    (h : ∃ ps, g.Stage start found (frame :: pending) ps) :
    ∃ next below, g.look found frame = .ok (next, below) ∧
      ∃ ps, g.Stage start next (below ++ pending) ps := by
  obtain ⟨ps, h⟩ := h
  obtain ⟨p, ps, hfr, -, rfl⟩ := List.forall₂_cons_left_iff.mp h.frames
  obtain ⟨⟨next, below⟩, hl⟩ :=
    hg.exists_look h.sound h.sourced hfr (h.reaches p List.mem_cons_self)
  exact ⟨next, below, hl, _, h.look hl⟩

theorem WellFormed.exists_explore {start : σ} (hg : g.WellFormed start) {d fuel : Nat}
    (hd : g.EndsWithin d start) (hfuel : g.treeSize d start ≤ fuel) :
    ∃ found, g.explore fuel start = some (.ok found) := by
  obtain ⟨result, h⟩ := Game.exists_explore (R := R) hd hfuel
  have hw := h
  rw [explore, walk_eq_worklist] at hw
  obtain ⟨found, rfl⟩ :=
    worklist_ne_error (fun found pending => ∃ ps, g.Stage start found pending ps)
      (fun hstage => hg.exists_stage hstage) ⟨_, stage_start start⟩ hw
  exact ⟨found, h⟩

end ExtensiveForm.Game
