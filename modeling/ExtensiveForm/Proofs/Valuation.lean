import Mathlib.Tactic.Ring
import ExtensiveForm.Proofs.Earnings
import ExtensiveForm.Proofs.SequenceTree.Realization
import ExtensiveForm.Proofs.Worklist

/-!
The value of a profile, found by a walk over all paths in exact arithmetic. Main statement: a profile
that serves at every reachable decision is worth what all plays earn, each taken with the product of
the profile's numbers along what both seats did.
-/

set_option autoImplicit false

namespace ExtensiveForm

def Profile.along {L R : Type} [BEq L] [Hashable L] [Zero R] [One R] [Mul R] (profile : Profile L R)
    (past : PerSeat (History L)) : R :=
  profile.first.along past.first * profile.second.along past.second

theorem Profile.along_recordMove {L : Type} [BEq L] [Hashable L] (profile : Profile L Rat)
    (past : PerSeat (History L)) (seat : Seat) (label : L) (a : Nat) :
    Profile.along profile (recordMove past seat a (some label)) =
      Profile.along profile past * (((profile.get seat)[label]?).getD []).getD a 0 := by
  cases seat with
  | first =>
    simp only [Profile.along, recordMove, PerSeat.set, PerSeat.get, Behavior.along_append]
    ring
  | second =>
    simp only [Profile.along, recordMove, PerSeat.set, PerSeat.get, Behavior.along_append]
    ring

structure Visit.At {σ L : Type} [BEq L] [Hashable L] (profile : Profile L Rat) (v : Visit σ Rat)
    (p : Position σ L Rat) : Prop where
  state : v.state = p.state
  weight : v.weight = Profile.along profile p.past * p.chance

namespace Game

def Serves {σ L A R : Type} [BEq L] [Hashable L] (g : Game σ A L R) (s : σ)
    (profile : Profile L R) : Prop :=
  ∀ seat label, g.player s = some (.seat seat) → g.observation s = some label →
    ∃ numbers, (profile.get seat).at? label (g.actions s).length = .ok numbers

variable {σ L A : Type} [BEq L] [Hashable L] {g : Game σ A L Rat} {profile : Profile L Rat}
  {visit : Visit σ Rat} {p : Position σ L Rat} {d fuel : Nat}

/-- One look moves what a position earns from the pending states to the total. -/
theorem weigh_eq_ok {total total' : Rat} {below : List (Visit σ Rat)} (hv : visit.At profile p)
    (hd : g.EndsWithin d p.state) (h : g.weigh profile total visit = .ok (total', below)) :
    total' + ((g.nexts p).map (g.earnings d (Profile.along profile))).sum =
        total + g.earnings d (Profile.along profile) p ∧
      List.Forall₂ (Visit.At profile) below (g.nexts p) ∧ g.Serves p.state profile := by
  obtain ⟨state, weight⟩ := visit
  obtain ⟨hstate, hweight⟩ := hv
  simp only at hstate hweight
  subst hstate hweight
  unfold weigh at h
  split at h
  · cases h
  · rename_i v hn
    obtain ⟨hp, hpay⟩ := node_eq_terminal_iff.mp hn
    cases h
    refine ⟨?_, by simp [nexts, hp], by simp [Serves, hp]⟩
    rw [earnings_of_player_eq_none hp]
    simp only [nexts, hp, List.map_nil, List.sum_nil, earning, hpay, Option.getD_some]
    ring
  · rename_i branches hn
    obtain ⟨hp, ha, hc, rfl⟩ := node_eq_chance_iff.mp hn
    cases h
    refine ⟨by rw [earnings_of_player_ne_none hd (by simp [hp])], ?_, by simp [Serves, hp]⟩
    simp only [nexts, hp, List.map_map, List.forall₂_map_left_iff, List.forall₂_map_right_iff,
      List.forall₂_same]
    intro a _
    exact ⟨rfl, mul_assoc _ _ _⟩
  · rename_i seat label moves hn
    obtain ⟨hp, ha, ho, rfl⟩ := node_eq_decision_iff.mp hn
    split at h
    · cases h
    · rename_i numbers hnum
      cases h
      rw [length_moves] at hnum
      obtain ⟨hb, hl⟩ := Behavior.at?_eq_ok_iff.mp hnum
      refine ⟨by rw [earnings_of_player_ne_none hd (by simp [hp])], ?_, ?_⟩
      · simp only [nexts, hp, ho, List.forall₂_iff_get]
        refine ⟨by simp [hl], fun i hi hi' => ?_⟩
        have hlt : i < (g.actions p.state).length := by simpa using hi'
        have hlt' : i < numbers.length := hl ▸ hlt
        have hnumber : (numbers[i]?).getD 0 = numbers[i] := by simp [hlt']
        refine ⟨by simp [moves], ?_⟩
        simp only [List.get_eq_getElem, List.getElem_mapIdx, List.getElem_zipWith,
          Profile.along_recordMove, hb, Option.getD_some, List.getD_eq_getElem?_getD, hnumber]
        ring
      · intro t l ht hlabel
        cases hp.symm.trans ht
        cases ho.symm.trans hlabel
        exact ⟨numbers, hnum⟩

theorem exists_weigh (total : Rat) (hv : visit.state = p.state) (ha : g.Answers p.state)
    (hs : g.Serves p.state profile) : ∃ result, g.weigh profile total visit = .ok result := by
  obtain ⟨n, hn⟩ := ha.exists_node
  unfold weigh
  rw [hv, hn]
  cases n with
  | terminal v => exact ⟨_, rfl⟩
  | chance branches => exact ⟨_, rfl⟩
  | decision seat label moves =>
    obtain ⟨hp, -, ho, rfl⟩ := node_eq_decision_iff.mp hn
    obtain ⟨numbers, hnum⟩ := hs seat label hp ho
    simp only [length_moves, hnum]
    exact ⟨_, rfl⟩

theorem valueWalk_eq_ok {pending : List (Visit σ Rat)} {ps : List (Position σ L Rat)}
    {total v : Rat} (hat : List.Forall₂ (Visit.At profile) pending ps)
    (hd : ∀ p ∈ ps, g.EndsWithin d p.state)
    (h : g.valueWalk profile fuel pending total = some (.ok v)) :
    v = total + (ps.map (g.earnings d (Profile.along profile))).sum ∧
      ∀ p ∈ ps, ∀ q, g.Reaches p q → g.Serves q.state profile := by
  rw [valueWalk_eq_worklist] at h
  have hruns := runs_of_worklist h
  clear h
  -- the total and what the pending positions earn add up to the same before and after each look
  induction hruns generalizing ps with
  | done total =>
    cases hat
    exact ⟨by simp, by simp⟩
  | @look visit pending below total total' v hw _ ih =>
    cases hat with
    | @cons _ p _ ps hv hrest =>
      obtain ⟨hdp, hdr⟩ := List.forall_mem_cons.mp hd
      obtain ⟨htotal, hbelow, hserves⟩ := weigh_eq_ok hv hdp hw
      have hd' : ∀ q ∈ g.nexts p ++ ps, g.EndsWithin d q.state :=
        List.forall_mem_append.mpr ⟨fun q hq => hdp.successor (state_mem_successors hq), hdr⟩
      obtain ⟨hv', hs'⟩ := ih (List.rel_append hbelow hrest) hd'
      refine ⟨?_, ?_⟩
      · rw [hv', List.map_append, List.sum_append, List.map_cons, List.sum_cons, ← add_assoc,
          htotal, add_assoc]
      · intro r hr q hq
        rcases List.mem_cons.mp hr with rfl | hr
        · rcases reaches_iff.mp hq with rfl | ⟨next, hnext, hq⟩
          · exact hserves
          · exact hs' next (List.mem_append_left _ hnext) q hq
        · exact hs' r (List.mem_append_right _ hr) q hq

/-- Nothing stands in the way of a walk: below all pending positions there are answers and numbers. -/
def Clear (g : Game σ A L Rat) (profile : Profile L Rat) (d : Nat) (pending : List (Visit σ Rat)) :
    Prop :=
  ∃ ps, List.Forall₂ (Visit.At profile) pending ps ∧ (∀ p ∈ ps, g.EndsWithin d p.state) ∧
    ∀ p ∈ ps, ∀ q, g.Reaches p q → g.Answers q.state ∧ g.Serves q.state profile

theorem Clear.exists_weigh {pending : List (Visit σ Rat)} (h : g.Clear profile d (visit :: pending))
    (total : Rat) : ∃ total' below, g.weigh profile total visit = .ok (total', below) ∧
      g.Clear profile d (below ++ pending) := by
  obtain ⟨ps, hat, hd, hs⟩ := h
  cases hat with
  | @cons _ p _ ps hv hrest =>
    obtain ⟨hdp, hdr⟩ := List.forall_mem_cons.mp hd
    obtain ⟨hsp, hsr⟩ := List.forall_mem_cons.mp hs
    obtain ⟨hanswers, hserves⟩ := hsp p .refl
    obtain ⟨⟨total', below⟩, hw⟩ := Game.exists_weigh total hv.state hanswers hserves
    obtain ⟨-, hbelow, -⟩ := weigh_eq_ok hv hdp hw
    refine ⟨total', below, hw, g.nexts p ++ ps, List.rel_append hbelow hrest, ?_, ?_⟩
    · exact List.forall_mem_append.mpr ⟨fun q hq => hdp.successor (state_mem_successors hq), hdr⟩
    · exact List.forall_mem_append.mpr
        ⟨fun r hr q hq => hsp q (reaches_iff.mpr (Or.inr ⟨r, hr, hq⟩)), hsr⟩

variable {start : σ}

theorem at_start : Visit.At profile (⟨start, 1⟩ : Visit σ Rat) (.start start) :=
  ⟨rfl, by simp [Position.start, Profile.along, PerSeat.both, Behavior.along]⟩

theorem expectedValue_eq_ok_iff (hd : g.EndsWithin d start) (hfuel : g.treeSize d start ≤ fuel)
    (ha : ∀ q, g.Reaches (.start start) q → g.Answers q.state) {v : Rat} :
    g.expectedValue fuel start profile = some (.ok v) ↔
      (∀ q, g.Reaches (.start start) q → g.Serves q.state profile) ∧
        v = g.earnings d (Profile.along profile) (.start start) := by
  have hat : List.Forall₂ (Visit.At profile) [(⟨start, 1⟩ : Visit σ Rat)] [.start start] :=
    .cons at_start .nil
  have hds : ∀ p ∈ [(.start start : Position σ L Rat)], g.EndsWithin d p.state :=
    List.forall_mem_singleton.mpr hd
  constructor
  · intro h
    obtain ⟨hv, hs⟩ := valueWalk_eq_ok hat hds h
    exact ⟨hs _ List.mem_cons_self, by simpa using hv⟩
  · intro h
    obtain ⟨hs, rfl⟩ := h
    obtain ⟨result, hresult⟩ := exists_expectedValue hd hfuel profile
    have hclear : g.Clear profile d [(⟨start, 1⟩ : Visit σ Rat)] := by
      refine ⟨[.start start], hat, hds, fun p hp q hq => ?_⟩
      rw [List.mem_singleton.mp hp] at hq
      exact ⟨ha q hq, hs q hq⟩
    have hw := hresult
    rw [expectedValue, valueWalk_eq_worklist] at hw
    obtain ⟨v, rfl⟩ := worklist_ne_error (fun _ pending => g.Clear profile d pending)
      (fun h => h.exists_weigh _) hclear hw
    obtain ⟨hv, -⟩ := valueWalk_eq_ok hat hds hresult
    rw [hresult, hv]
    simp

end Game

end ExtensiveForm
