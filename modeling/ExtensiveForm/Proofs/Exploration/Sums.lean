import ExtensiveForm.Proofs.Exploration.Course

set_option autoImplicit false

namespace ExtensiveForm

namespace Exploration

variable {L A R : Type} [BEq L] [Hashable L] {e : Exploration L A R} {key key' : SequencePair}
  {past past' : PerSeat (History L)}

theorem Sound.key_eq_iff (he : e.Sound) (hk : e.Stands key past) (hk' : e.Stands key' past') :
    key' = key ↔ past' = past := by
  constructor
  · rintro rfl
    exact PerSeat.ext_get fun seat => (hk' seat).unique (hk seat)
  · rintro rfl
    exact PerSeat.ext_get fun seat => (he.registry seat).sequence_unique (hk' seat) (hk seat)

end Exploration

namespace Game

variable {σ A L R : Type} [BEq L] [Scalar R] {g : Game σ A L R} {d : Nat} {past : PerSeat (History L)}
  {p : Position σ L R}

/-- What the plays pay in which both seats did all of what is given and nothing else, each with the
probability of chance's moves, from left to right. -/
def earned (g : Game σ A L R) (d : Nat) (past : PerSeat (History L)) (p : Position σ L R) : List R :=
  ((g.endings d p).filter fun q => q.past.first == past.first && q.past.second == past.second).map
    fun q => (g.payoff q.state).getD 0 * q.chance

def totalAt (g : Game σ A L R) (d : Nat) (past : PerSeat (History L)) (p : Position σ L R) : R :=
  (g.earned d past p).foldl (· + ·) 0

theorem earned_of_player_ne_none (hd : g.EndsWithin d p.state) (h : g.player p.state ≠ none) :
    g.earned d past p = (g.nexts p).flatMap (g.earned d past) := by
  unfold earned
  rw [endings_of_player_ne_none hd h, List.filter_flatMap, List.map_flatMap]

theorem earned_of_player_eq_none {v : R} (h : g.player p.state = none)
    (hv : g.payoff p.state = some v) : g.earned d past p =
      if p.past.first == past.first && p.past.second == past.second then [v * p.chance] else [] := by
  rw [earned, endings_of_player_eq_none h, List.filter_cons, List.filter_nil]
  split
  · rw [List.map_cons, hv]
    rfl
  · rfl

variable [LawfulBEq L]

omit [Scalar R] in
theorem beq_past_iff {past' : PerSeat (History L)} :
    (past'.first == past.first && past'.second == past.second) = true ↔ past' = past := by
  rw [Bool.and_eq_true, beq_iff_eq, beq_iff_eq]
  constructor
  · rintro ⟨hfirst, hsecond⟩
    refine PerSeat.ext_get fun seat => ?_
    cases seat with
    | first => exact hfirst
    | second => exact hsecond
  · rintro rfl
    exact ⟨rfl, rfl⟩

theorem mem_earned_iff {t : R} : t ∈ g.earned d past p ↔
    ∃ q ∈ g.endings d p, q.past = past ∧ (g.payoff q.state).getD 0 * q.chance = t := by
  simp only [earned, List.mem_map, List.mem_filter, beq_past_iff, and_assoc]

variable [Hashable L] [BEq A] [LawfulBEq A] {found found' : Exploration L A R}
  {ps : List (Position σ L R)} {key : SequencePair}

/-- Each end of a play adds its term to the pair of sequences that stands for what both seats did. -/
theorem Explores.getD_payoffs_eq_foldl (h : g.Explores ps found found') (hs : found.Sound)
    (hd : ∀ p ∈ ps, g.EndsWithin d p.state) (hkey : found'.Stands key past) :
    found'.payoffs.getD key 0 =
      (ps.flatMap (g.earned d past)).foldl (· + ·) (found.payoffs.getD key 0) := by
  induction h with
  | done found => rfl
  | @look p rest found next found' h hrest ih =>
    obtain ⟨hdp, hdr⟩ := List.forall_mem_cons.mp hd
    obtain ⟨hs', -⟩ := h.sound hs
    obtain ⟨hs'', hx⟩ := hrest.sound hs'
    have hbelow : ∀ q ∈ g.nexts p, g.EndsWithin d q.state :=
      fun q hq => hdp.successor (state_mem_successors hq)
    rw [ih hs' (List.forall_mem_append.mpr ⟨hbelow, hdr⟩) hkey, List.flatMap_append,
      List.flatMap_cons]
    by_cases hp : g.player p.state = none
    · have hnexts : g.nexts p = [] := by simp [nexts, hp]
      rw [hnexts, List.flatMap_nil, List.nil_append]
      cases h with
      | @terminal v key' _ hv hk =>
        have hk' : found'.Stands key' p.past := by
          intro seat
          exact (hk seat).mono (by simpa using hx seat)
        rw [Exploration.payoffs_addPayoff, Std.HashMap.getD_insert]
        by_cases hpast : p.past = past
        · obtain rfl := (hs''.key_eq_iff hkey hk').mpr hpast
          rw [if_pos BEq.rfl, earned_of_player_eq_none hp hv, if_pos (beq_past_iff.mpr hpast)]
          rfl
        · have hne : ¬(key' == key) = true := by
            rw [beq_iff_eq, hs''.key_eq_iff hkey hk']
            exact hpast
          rw [if_neg hne, earned_of_player_eq_none hp hv, if_neg (mt beq_past_iff.mp hpast),
            List.nil_append]
      | chance hc => simp [hp] at hc
      | decision hc => simp [hp] at hc
    · rw [h.payoffs_of_player_ne_none hp, earned_of_player_ne_none hdp hp]

theorem Explores.getD_payoffs {start : σ} (h : g.Explores [.start start] .empty found)
    (hd : g.EndsWithin d start) (hkey : found.Stands key past) :
    found.payoffs.getD key 0 = g.totalAt d past (.start start) := by
  rw [totalAt, h.getD_payoffs_eq_foldl Exploration.sound_empty (by simpa [Position.start] using hd) hkey,
    List.flatMap_cons, List.flatMap_nil, List.append_nil]
  simp [Exploration.empty]

end Game

end ExtensiveForm
