import ExtensiveForm.Proofs.SequenceForm.Build

/-!
Games told by their plays, which are lists of legal actions. Main statement: if plays are bounded in
length, all questions have answers after each, and what a seat is shown when it is to act settles its
actions and its own moves, then the game is built from every state that a play leads to.
-/

set_option autoImplicit false

namespace ExtensiveForm.Game

variable {σ A L R : Type} {g : Game σ A L R} {s : σ} {a : A} {as bs : List A} {seat : Seat}

def Legal (g : Game σ A L R) : σ → List A → Prop
  | _, [] => True
  | s, a :: as => g.player s ≠ none ∧ a ∈ g.actions s ∧ g.Legal (g.step s a) as

theorem legal_append_iff : g.Legal s (as ++ bs) ↔ g.Legal s as ∧ g.Legal (g.play s as) bs := by
  induction as generalizing s with
  | nil => simp [Legal]
  | cons a as ih => simp [Legal, ih, and_assoc]

theorem legal_concat_iff : g.Legal s (as ++ [a]) ↔
    g.Legal s as ∧ g.player (g.play s as) ≠ none ∧ a ∈ g.actions (g.play s as) := by
  simp [legal_append_iff, Legal]

theorem play_concat (g : Game σ A L R) (s : σ) (as : List A) (a : A) :
    g.play s (as ++ [a]) = g.step (g.play s as) a := by
  simp [play_append]

theorem Legal.invariant {P : List A → σ → Prop} (h : g.Legal s as) (hstart : P [] s)
    (hstep : ∀ {as t a}, P as t → g.player t ≠ none → a ∈ g.actions t →
      P (as ++ [a]) (g.step t a)) : P as (g.play s as) := by
  induction as using List.reverseRecOn with
  | nil => exact hstart
  | append_singleton as a ih =>
    obtain ⟨has, hp, ha⟩ := legal_concat_iff.mp h
    rw [play_concat]
    exact hstep (ih has) hp ha

structure Complete (g : Game σ A L R) (s : σ) (as : List A) : Prop where
  legal : g.Legal s as
  maximal : ∀ a, ¬g.Legal s (as ++ [a])

theorem Legal.exists_complete {d : Nat} (hd : ∀ as, g.Legal s as → as.length ≤ d)
    (h : g.Legal s as) : ∃ bs, g.Complete s (as ++ bs) := by
  -- each action that is added brings the play nearer to the bound
  induction hn : d - as.length generalizing as with
  | zero =>
    refine ⟨[], by simpa using h, fun a ha => ?_⟩
    have hlen := hd _ ha
    simp at hlen
    omega
  | succ n ih =>
    by_cases hmore : ∃ a, g.Legal s (as ++ [a])
    · obtain ⟨a, ha⟩ := hmore
      obtain ⟨bs, hbs⟩ := ih ha (by simp; omega)
      exact ⟨a :: bs, by simpa using hbs⟩
    · exact ⟨[], by simpa using h, by simpa using hmore⟩

structure Turn (g : Game σ A L R) (s : σ) (seat : Seat) (as : List A) : Prop where
  legal : g.Legal s as
  player : g.player (g.play s as) = some (.seat seat)

section Length

theorem mem_successors_iff {t : σ} :
    t ∈ g.successors s ↔ g.player s ≠ none ∧ ∃ a ∈ g.actions s, g.step s a = t := by
  unfold successors
  cases g.player s <;> simp

theorem endsWithin_of_length_le {d : Nat} (h : ∀ as, g.Legal s as → as.length ≤ d) :
    g.EndsWithin d s := by
  induction d generalizing s with
  | zero =>
    refine List.eq_nil_iff_forall_not_mem.mpr fun t ht => ?_
    obtain ⟨hp, a, ha, -⟩ := mem_successors_iff.mp ht
    have hlen := h [a] ⟨hp, ha, trivial⟩
    simp at hlen
  | succ d ih =>
    intro t ht
    obtain ⟨hp, a, ha, rfl⟩ := mem_successors_iff.mp ht
    refine ih fun as has => ?_
    have hlen := h (a :: as) ⟨hp, ha, has⟩
    simpa using hlen

theorem EndsWithin.play {d : Nat} (h : g.EndsWithin d s) (ha : g.Legal s as) :
    g.EndsWithin d (g.play s as) := by
  induction as generalizing s with
  | nil => exact h
  | cons a as ih =>
    obtain ⟨hp, hmem, has⟩ := ha
    exact ih (h.successor (mem_successors_iff.mpr ⟨hp, a, hmem, rfl⟩)) has

end Length

section OwnMoves

variable [BEq A]

def ownMove (g : Game σ A L R) (seat : Seat) (s : σ) (a : A) : History L :=
  if g.player s = some (.seat seat) then
    (g.observation s).toList.map fun label => (label, (g.actions s).idxOf a)
  else []

def ownMoves (g : Game σ A L R) (seat : Seat) : σ → List A → History L
  | _, [] => []
  | s, a :: as => g.ownMove seat s a ++ g.ownMoves seat (g.step s a) as

theorem ownMove_of_player_ne (h : g.player s ≠ some (.seat seat)) : g.ownMove seat s a = [] :=
  if_neg h

theorem ownMoves_append :
    g.ownMoves seat s (as ++ bs) = g.ownMoves seat s as ++ g.ownMoves seat (g.play s as) bs := by
  induction as generalizing s with
  | nil => rfl
  | cons a as ih => simp [ownMoves, ih]

theorem ownMoves_concat :
    g.ownMoves seat s (as ++ [a]) = g.ownMoves seat s as ++ g.ownMove seat (g.play s as) a := by
  simp [ownMoves_append, ownMoves]

variable [LawfulBEq A] [Zero R] [Mul R]

/-- No action of a seat is listed twice, so an own move says which one it was. -/
theorem exists_ownMove_of_mem_nexts {p q : Position σ L R} (h : q ∈ g.nexts p)
    (hn : ∀ seat, g.player p.state = some (.seat seat) → (g.actions p.state).Nodup) :
    g.player p.state ≠ none ∧ ∃ a ∈ g.actions p.state, q.state = g.step p.state a ∧
      ∀ seat, q.past.get seat = p.past.get seat ++ g.ownMove seat p.state a := by
  unfold nexts at h
  split at h
  · exact absurd h List.not_mem_nil
  · rename_i hp
    obtain ⟨a, ha, rfl⟩ := List.mem_map.mp h
    exact ⟨by simp [hp], a, ha, rfl, fun seat => by simp [ownMove, hp]⟩
  · rename_i t hp
    obtain ⟨i, hi, rfl⟩ := List.mem_mapIdx.mp h
    refine ⟨by simp [hp], _, List.getElem_mem hi, rfl, fun seat => ?_⟩
    have hidx := (hn t hp).idxOf_getElem i hi
    by_cases ht : seat = t
    · subst ht
      cases ho : g.observation p.state <;> simp [ownMove, recordMove, hp, ho, hidx]
    · have hne : ¬t = seat := fun he => ht he.symm
      cases ho : g.observation p.state <;> simp [ownMove, recordMove, PerSeat.get_set, hp, hne, ht]

theorem Reaches.exists_play [One R] {p : Position σ L R} (h : g.Reaches (.start s) p)
    (hn : ∀ seat as, g.Turn s seat as → (g.actions (g.play s as)).Nodup) :
    ∃ as, g.Legal s as ∧ p.state = g.play s as ∧
      ∀ seat, p.past.get seat = g.ownMoves seat s as := by
  induction h with
  | refl => exact ⟨[], trivial, rfl, fun seat => by simp [Position.start, ownMoves]⟩
  | @tail p q _ hq ih =>
    obtain ⟨as, has, hstate, hpast⟩ := ih
    obtain ⟨hp, a, ha, hnext, hmove⟩ := exists_ownMove_of_mem_nexts hq fun seat hp => by
      rw [hstate] at hp ⊢
      exact hn seat as ⟨has, hp⟩
    rw [hstate] at hp ha hnext hmove
    refine ⟨as ++ [a], legal_concat_iff.mpr ⟨has, hp, ha⟩, by rw [play_concat, hnext], ?_⟩
    intro seat
    rw [hmove, hpast, ownMoves_concat]

end OwnMoves

/-- What a seat is shown when it is to act is its view of the play, and its actions follow from it. -/
structure Shows {V : Type} (g : Game σ A L R) (s : σ) (view : Seat → List A → V) : Prop where
  isSome_observation : ∀ {seat as}, g.Turn s seat as → (g.observation (g.play s as)).isSome
  observation_iff : ∀ {seat as bs}, g.Turn s seat as → g.Turn s seat bs →
    (g.observation (g.play s as) = g.observation (g.play s bs) ↔ view seat as = view seat bs)
  actions_eq : ∀ {seat as bs}, g.Turn s seat as → g.Turn s seat bs → view seat as = view seat bs →
    g.actions (g.play s as) = g.actions (g.play s bs)

def Converts [BEq L] [Hashable L] [BEq A] [Scalar R] (g : Game σ A L R) (s : σ) : Prop :=
  ∃ d, g.EndsWithin d s ∧ ∀ fuel, g.treeSize d s ≤ fuel →
    ∃ form, g.build fuel s = some (.ok form)

def ConvertsThroughout [BEq L] [Hashable L] [BEq A] [Scalar R] (g : Game σ A L R) (s : σ) : Prop :=
  ∀ as, g.Legal s as → g.Converts (g.play s as)

structure Playable [BEq A] (g : Game σ A L R) (s : σ) : Prop where
  length_le : ∃ d, ∀ as, g.Legal s as → as.length ≤ d
  answers : ∀ as, g.Legal s as → g.Answers (g.play s as)
  nodup : ∀ seat as, g.Turn s seat as → (g.actions (g.play s as)).Nodup
  remembers : ∀ {seat as bs}, g.Turn s seat as → g.Turn s seat bs →
    g.observation (g.play s as) = g.observation (g.play s bs) →
      g.actions (g.play s as) = g.actions (g.play s bs) ∧
        g.ownMoves seat s as = g.ownMoves seat s bs

theorem Playable.complete_iff [BEq A] (h : g.Playable s) (ha : g.Legal s as) :
    g.Complete s as ↔ g.player (g.play s as) = none := by
  constructor
  · intro hc
    by_contra hp
    obtain ⟨a, hmem⟩ := List.exists_mem_of_ne_nil _ ((h.answers as ha).actions hp)
    exact hc.maximal a (legal_concat_iff.mpr ⟨ha, hp, hmem⟩)
  · intro hp
    exact ⟨ha, fun a hmore => (legal_concat_iff.mp hmore).2.1 hp⟩

theorem Playable.exists_complete [BEq A] (h : g.Playable s) (ha : g.Legal s as) :
    ∃ bs, g.Complete s (as ++ bs) := by
  obtain ⟨d, hd⟩ := h.length_le
  exact ha.exists_complete hd

theorem Turn.append (ha : g.Legal s as) (h : g.Turn (g.play s as) seat bs) :
    g.Turn s seat (as ++ bs) :=
  ⟨legal_append_iff.mpr ⟨ha, h.legal⟩, by rw [play_append, h.player]⟩

variable [BEq A] [LawfulBEq A] [Scalar R]

/-- Below a state that a play leads to, all plays go on from that play. -/
theorem Playable.wellFormed (h : g.Playable s) (ha : g.Legal s as) :
    g.WellFormed (g.play s as) := by
  have hn : ∀ seat bs, g.Turn (g.play s as) seat bs → (g.actions (g.play (g.play s as) bs)).Nodup := by
    intro seat bs hb
    rw [← play_append]
    exact h.nodup seat (as ++ bs) (hb.append ha)
  constructor
  · intro p hp
    obtain ⟨bs, hb, hstate, -⟩ := hp.exists_play hn
    rw [hstate, ← play_append]
    exact h.answers (as ++ bs) (legal_append_iff.mpr ⟨ha, hb⟩)
  · intro p q seat label hp hq hps hqs hpl hql
    obtain ⟨bs, hb, hbs, hbpast⟩ := hp.exists_play hn
    obtain ⟨cs, hc, hcs, hcpast⟩ := hq.exists_play hn
    rw [hbs] at hps hpl ⊢
    rw [hcs] at hqs hql ⊢
    have hown := h.remembers (Turn.append ha ⟨hb, hps⟩) (Turn.append ha ⟨hc, hqs⟩) (by
      rw [play_append, play_append, hpl, hql])
    -- both plays go on from `as`, so what was done before cancels
    rw [play_append, play_append, ownMoves_append, ownMoves_append] at hown
    rw [hbpast, hcpast]
    exact ⟨hown.1, List.append_cancel_left hown.2⟩

theorem Playable.wellFormed_start (h : g.Playable s) : g.WellFormed s := by
  have hnone : g.Legal s [] := trivial
  exact h.wellFormed hnone

theorem Playable.convertsThroughout [BEq L] [LawfulBEq L] [Hashable L] (h : g.Playable s) :
    g.ConvertsThroughout s := by
  intro as ha
  obtain ⟨d, hd⟩ := h.length_le
  have hends := (endsWithin_of_length_le hd).play ha
  exact ⟨d, hends, fun fuel hfuel => (h.wellFormed ha).exists_build hends hfuel⟩

end ExtensiveForm.Game
