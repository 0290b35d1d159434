import Mathlib.Algebra.BigOperators.Ring.List
import Mathlib.Algebra.Ring.Rat
import Mathlib.Tactic.NormNum
import ExtensiveForm.Proofs.PerfectRecall
import ExtensiveForm.Proofs.SequenceTree.Outcome
import ExtensiveForm.Proofs.Valuation

/-!
The value of a profile by recursion on the game. Main statements: the walk over all paths fails at the
first state, from left to right and each before those below it, at which something is missing; if there is
none, then in exact arithmetic it adds up to the expectation.
-/

set_option autoImplicit false

namespace ExtensiveForm

namespace Game

section States

variable {σ A L R : Type} {g : Game σ A L R} {s : σ}

def states (g : Game σ A L R) : Nat → σ → List σ
  | 0, s => [s]
  | d + 1, s => s :: (g.successors s).flatMap (g.states d)

theorem states_of_le {d d' : Nat} (h : g.EndsWithin d s) (hd : d ≤ d') :
    g.states d' s = g.states d s := by
  induction d generalizing d' s with
  | zero =>
    cases d' with
    | zero => rfl
    | succ d' => simp [states, show g.successors s = [] from h]
  | succ d ih =>
    cases d' with
    | zero => omega
    | succ d' =>
      rw [states, states]
      exact congrArg (s :: ·) (List.flatMap_congr fun t ht => ih (h t ht) (by omega))

theorem states_eq {d : Nat} (h : g.EndsWithin d s) :
    g.states d s = s :: (g.successors s).flatMap (g.states d) :=
  (states_of_le h (Nat.le_succ d)).symm

theorem mem_states_iff {d : Nat} {t : σ} (h : g.EndsWithin d s) :
    t ∈ g.states d s ↔ g.Leads s t := by
  constructor
  · intro ht
    induction d generalizing s with
    | zero => exact List.mem_singleton.mp ht ▸ .refl
    | succ d ih =>
      rcases List.mem_cons.mp ht with rfl | ht
      · exact .refl
      · obtain ⟨u, hu, ht⟩ := List.mem_flatMap.mp ht
        exact .head hu (ih (h u hu) ht)
  · intro ht
    induction ht using Relation.ReflTransGen.head_induction_on with
    | refl => cases d <;> simp [states]
    | head hu _ ih =>
      rw [states_eq h]
      exact List.mem_cons_of_mem _ (List.mem_flatMap.mpr ⟨_, hu, ih (h.successor hu)⟩)

end States

section Faults

variable {σ L A R : Type} [BEq L] [Hashable L] {g : Game σ A L R} {profile : Profile L R} {s : σ}
  {e : ValuationFault L}

inductive Faults (g : Game σ A L R) (profile : Profile L R) (s : σ) : ValuationFault L → Prop where
  | payoff (hp : g.player s = none) (h : g.payoff s = none) :
    Faults g profile s (.breach .noPayoff)
  | actions {player : Player} (hp : g.player s = some player) (h : g.actions s = []) :
    Faults g profile s (.breach (.noLegalActions player))
  | chanceProb {a : A} (hp : g.player s = some .chance) (ha : a ∈ g.actions s)
      (h : g.chanceProb s a = none) : Faults g profile s (.breach .noChanceProb)
  | observation {seat : Seat} (hp : g.player s = some (.seat seat)) (ha : g.actions s ≠ [])
      (h : g.observation s = none) : Faults g profile s (.breach (.noObservation seat))
  | strategy {seat : Seat} {label : L} {fault : StrategyFault}
      (hp : g.player s = some (.seat seat)) (ha : g.actions s ≠ [])
      (ho : g.observation s = some label)
      (h : (profile.get seat).Fails label (g.actions s).length fault) :
    Faults g profile s (.strategy seat label fault)

/-- The first of the states at which something is missing, told by what is missing there. -/
def FaultsFirst (g : Game σ A L R) (profile : Profile L R) :
    List σ → ValuationFault L → Prop
  | [], _ => False
  | s :: rest, e => g.Faults profile s e ∨
      (∀ e', ¬g.Faults profile s e') ∧ g.FaultsFirst profile rest e

theorem exists_faultsFirst_iff {ss : List σ} :
    (∃ e, g.FaultsFirst profile ss e) ↔ ∃ s ∈ ss, ∃ e, g.Faults profile s e := by
  induction ss with
  | nil => simp [FaultsFirst]
  | cons s ss ih =>
    simp only [FaultsFirst, exists_or, exists_and_left, ih, List.exists_mem_cons_iff]
    by_cases hs : ∃ e, g.Faults profile s e
    · simp only [hs, true_or]
    · simp only [not_exists.mp hs, not_false_eq_true, implies_true, true_and]

variable [Scalar R]

theorem faults_of_node {b : Breach} (h : g.node s = .error b) : g.Faults profile s (.breach b) := by
  unfold node at h
  split at h
  · rename_i hp
    split at h
    · rename_i hnone
      cases h
      exact .payoff hp hnone
    · cases h
  · rename_i player hp
    split at h
    · rename_i ha
      cases h
      exact .actions hp ha
    · rename_i a rest ha
      split at h
      · split at h
        · rename_i hnone
          cases h
          obtain ⟨a', ha', hnone⟩ := branches?_eq_none_iff.mp hnone
          exact .chanceProb hp (ha ▸ ha') hnone
        · cases h
      · split at h
        · rename_i hnone
          cases h
          exact .observation hp (by simp [ha]) hnone
        · cases h

theorem weigh_eq_error_iff (total : R) {v : Visit σ R} :
    g.weigh profile total v = .error e ↔ g.Faults profile v.state e := by
  constructor
  · intro h
    unfold weigh at h
    split at h
    · rename_i b hn
      cases h
      exact faults_of_node hn
    · cases h
    · cases h
    · rename_i seat label moves hn
      obtain ⟨hp, ha, ho, rfl⟩ := node_eq_decision_iff.mp hn
      split at h
      · rename_i fault hf
        cases h
        rw [length_moves] at hf
        exact .strategy hp ha ho (Behavior.at?_eq_error_iff.mp hf)
      · cases h
  · intro h
    cases h with
    | payoff hp h => simp [weigh, node, hp, h]
    | actions hp h => simp [weigh, node, hp, h]
    | chanceProb hp ha h =>
      obtain ⟨a, rest, hrest⟩ := List.exists_cons_of_ne_nil (List.ne_nil_of_mem ha)
      have hb := branches?_eq_none_iff.mpr ⟨_, ha, h⟩
      rw [hrest] at hb
      simp [weigh, node, hp, hrest, hb]
    | observation hp ha h =>
      obtain ⟨a, rest, hrest⟩ := List.exists_cons_of_ne_nil ha
      simp [weigh, node, hp, hrest, h]
    | strategy hp ha ho h =>
      simp only [weigh, node_eq_decision_iff.mpr ⟨hp, ha, ho, rfl⟩, length_moves,
        Behavior.at?_eq_error_iff.mpr h]

/-- From each stage on, the walk fails for the first of the states that are pending and of those below
them. -/
theorem valueWalk_eq_error_iff {d fuel : Nat} {pending : List (Visit σ R)} {total : R}
    {result : Except (ValuationFault L) R} (hd : ∀ v ∈ pending, g.EndsWithin d v.state)
    (h : g.valueWalk profile fuel pending total = some result) :
    result = .error e ↔
      g.FaultsFirst profile ((pending.map Visit.state).flatMap (g.states d)) e := by
  induction fuel generalizing pending total with
  | zero =>
    cases pending with
    | nil => cases h; simp [FaultsFirst]
    | cons v pending => cases h
  | succ fuel ih =>
    cases pending with
    | nil => cases h; simp [FaultsFirst]
    | cons v pending =>
      obtain ⟨hv, hrest⟩ := List.forall_mem_cons.mp hd
      rw [List.map_cons, List.flatMap_cons, states_eq hv, List.cons_append, FaultsFirst]
      rw [valueWalk] at h
      split at h
      · rename_i e' hw
        cases h
        simp only [← weigh_eq_error_iff total, hw]
        simp
      · rename_i total' below hw
        have hmap := map_state_of_weigh hw
        have hd' : ∀ v ∈ below ++ pending, g.EndsWithin d v.state :=
          List.forall_mem_append.mpr
            ⟨fun b hb => hv.successor (hmap ▸ List.mem_map_of_mem hb), hrest⟩
        rw [ih hd' h, List.map_append, List.flatMap_append, hmap]
        simp only [← weigh_eq_error_iff total, hw]
        simp

theorem expectedValue_eq_error_iff {d fuel : Nat} {start : σ}
    {result : Except (ValuationFault L) R} (hd : g.EndsWithin d start)
    (h : g.expectedValue fuel start profile = some result) :
    result = .error e ↔ g.FaultsFirst profile (g.states d start) e := by
  simpa using valueWalk_eq_error_iff (e := e) (List.forall_mem_singleton.mpr hd) h

end Faults

section Expectation

variable {σ L A : Type} [BEq L] [Hashable L] {g : Game σ A L Rat} {profile : Profile L Rat} {s : σ}
  {d fuel : Nat}

def listed (g : Game σ A L Rat) (profile : Profile L Rat) (seat : Seat) (s : σ) : List Rat :=
  ((g.observation s).bind fun label => (profile.get seat)[label]?).getD []

def worth (g : Game σ A L Rat) (profile : Profile L Rat) (below : σ → Rat) (s : σ) : Rat :=
  match g.player s with
  | none => (g.payoff s).getD 0
  | some .chance =>
    ((g.actions s).map fun a => (g.chanceProb s a).getD 0 * below (g.step s a)).sum
  | some (.seat seat) =>
    (((g.actions s).zip (g.listed profile seat s)).map fun (a, p) => p * below (g.step s a)).sum

def expectation (g : Game σ A L Rat) (profile : Profile L Rat) : Nat → σ → Rat
  | 0, _ => 0
  | d + 1, s => g.worth profile (g.expectation profile d) s

theorem worth_congr {value value' : σ → Rat} (h : ∀ t ∈ g.successors s, value t = value' t) :
    g.worth profile value s = g.worth profile value' s := by
  unfold worth
  unfold successors at h
  split
  · rfl
  · rename_i hp
    simp only [hp, List.forall_mem_map] at h
    rw [List.map_congr_left fun a ha => by rw [h a ha]]
  · rename_i seat hp
    simp only [hp, List.forall_mem_map] at h
    refine congrArg List.sum (List.map_congr_left fun x hx => ?_)
    exact congrArg (x.2 * ·) (h x.1 (List.of_mem_zip hx).1)

theorem expectation_of_lt {d' : Nat} (h : g.EndsWithin d s) (hd : d < d') :
    g.expectation profile d' s = g.expectation profile (d + 1) s := by
  induction d generalizing d' s with
  | zero =>
    obtain ⟨d', rfl⟩ := Nat.exists_eq_add_of_lt hd
    refine worth_congr fun t ht => ?_
    rw [show g.successors s = [] from h] at ht
    exact absurd ht List.not_mem_nil
  | succ d ih =>
    obtain ⟨d', rfl⟩ := Nat.exists_eq_add_of_lt hd
    exact worth_congr fun t ht => ih (h t ht) (by omega)

theorem expectation_eq_worth (h : g.EndsWithin d s) :
    g.expectation profile (d + 1) s = g.worth profile (g.expectation profile (d + 1)) s :=
  (expectation_of_lt h (by omega : d < d + 1 + 1)).symm

/-- One look moves what a state is worth from the pending states to the total. -/
theorem add_sum_of_weigh {total total' : Rat} {v : Visit σ Rat} {below : List (Visit σ Rat)}
    (value : σ → Rat) (h : g.weigh profile total v = .ok (total', below)) :
    total' + (below.map fun b => b.weight * value b.state).sum =
      total + v.weight * g.worth profile value v.state := by
  unfold weigh at h
  split at h
  · cases h
  · rename_i payoff hn
    obtain ⟨hp, hpay⟩ := node_eq_terminal_iff.mp hn
    cases h
    simp [worth, hp, hpay, mul_comm]
  · rename_i branches hn
    obtain ⟨hp, -, -, rfl⟩ := node_eq_chance_iff.mp hn
    cases h
    simp only [worth, hp, List.map_map, Function.comp_def, mul_assoc, List.sum_map_mul_left]
  · rename_i seat label moves hn
    obtain ⟨hp, -, ho, rfl⟩ := node_eq_decision_iff.mp hn
    split at h
    · cases h
    · rename_i numbers hnum
      cases h
      obtain ⟨hb, -⟩ := Behavior.at?_eq_ok_iff.mp hnum
      have hlisted : g.listed profile seat v.state = numbers := by
        rw [listed, ho, Option.bind_some, hb, Option.getD_some]
      simp only [worth, hp, hlisted]
      rw [← List.sum_map_mul_left]
      simp only [moves, List.zip_eq_zipWith, List.map_zipWith, List.zipWith_map_left, mul_assoc]

theorem valueWalk_eq_add_sum {pending : List (Visit σ Rat)} {total v : Rat}
    (hd : ∀ v ∈ pending, g.EndsWithin d v.state)
    (h : g.valueWalk profile fuel pending total = some (.ok v)) :
    v = total +
      (pending.map fun v => v.weight * g.expectation profile (d + 1) v.state).sum := by
  rw [valueWalk_eq_worklist] at h
  have hruns := runs_of_worklist h
  clear h
  induction hruns with
  | done total => simp
  | @look visit pending below total total' v hw _ ih =>
    obtain ⟨hv, hrest⟩ := List.forall_mem_cons.mp hd
    have hmap := map_state_of_weigh hw
    have hd' : ∀ v ∈ below ++ pending, g.EndsWithin d v.state :=
      List.forall_mem_append.mpr
        ⟨fun b hb => hv.successor (hmap ▸ List.mem_map_of_mem hb), hrest⟩
    rw [ih hd', List.map_append, List.sum_append, ← add_assoc, add_sum_of_weigh _ hw,
      ← expectation_eq_worth hv, List.map_cons, List.sum_cons, add_assoc]

theorem eq_expectation_of_expectedValue {start : σ} {v : Rat} (hd : g.EndsWithin d start)
    (h : g.expectedValue fuel start profile = some (.ok v)) :
    v = g.expectation profile (d + 1) start := by
  simpa using valueWalk_eq_add_sum (List.forall_mem_singleton.mpr hd) h

theorem expectedValue_eq_some_expectation {start : σ} (hd : g.EndsWithin d start)
    (hfuel : g.treeSize d start ≤ fuel) (ha : ∀ q, g.Reaches (.start start) q → g.Answers q.state)
    (hs : ∀ s, g.Leads start s → g.Serves s profile) :
    g.expectedValue fuel start profile = some (.ok (g.expectation profile (d + 1) start)) := by
  have hserves : ∀ q, g.Reaches (.start start) q → g.Serves q.state profile :=
    fun q hq => hs q.state hq.leads
  have hv := (expectedValue_eq_ok_iff hd hfuel ha).mpr ⟨hserves, rfl⟩
  rw [hv, eq_expectation_of_expectedValue hd hv]

end Expectation

/-- The walk ends, in any arithmetic with the first fault if there is one, and in exact arithmetic with the
expectation if there is none. -/
theorem expectedValue_eq_expectation {σ A L R : Type} [BEq L] [Hashable L] [Scalar R] {d fuel : Nat} :
    (∀ (g : Game σ A L R) (start : σ) (profile : Profile L R), g.EndsWithin d start →
      g.treeSize d start ≤ fuel →
        ∃ result, g.expectedValue fuel start profile = some result ∧
          ∀ e, result = .error e ↔ g.FaultsFirst profile (g.states d start) e) ∧
      ∀ (g : Game σ A L Rat) (start : σ) (profile : Profile L Rat), g.EndsWithin d start →
        g.treeSize d start ≤ fuel →
          ∃ result, g.expectedValue fuel start profile = some result ∧
            ∀ v, result = .ok v ↔ (∀ s ∈ g.states d start, ∀ e, ¬g.Faults profile s e) ∧
              v = g.expectation profile (d + 1) start := by
  constructor
  · intro g start profile hd hfuel
    obtain ⟨result, hresult⟩ := exists_expectedValue hd hfuel profile
    exact ⟨result, hresult, fun e => expectedValue_eq_error_iff hd hresult⟩
  · intro g start profile hd hfuel
    obtain ⟨result, hresult⟩ := exists_expectedValue hd hfuel profile
    refine ⟨result, hresult, fun v => ?_⟩
    have hclear : (∀ s ∈ g.states d start, ∀ e, ¬g.Faults profile s e) ↔
        ∀ e, result ≠ .error e := by
      simp only [ne_eq, expectedValue_eq_error_iff hd hresult, ← not_exists, exists_faultsFirst_iff]
      simp
    rw [hclear]
    cases result with
    | error e => simp
    | ok w =>
      have hw := eq_expectation_of_expectedValue hd hresult
      simp [hw, eq_comm]

end Game

def mixedProfile : Profile Nat Rat :=
  ⟨((∅ : Behavior Nat Rat).insert 0 [1 / 2, 1 / 2]).insert 1 [1, 0],
    (∅ : Behavior Nat Rat).insert 2 [1 / 2, 1 / 2]⟩

def lackingProfile : Profile Nat Rat :=
  ⟨((∅ : Behavior Nat Rat).insert 0 [1 / 2, 1 / 2]).insert 1 [1], ∅⟩

theorem expectation_raffle : raffle.expectation mixedProfile 4 0 = -1 / 4 ∧
    (∀ s ∈ raffle.states 3 0, ∀ e, ¬raffle.Faults mixedProfile s e) ∧
      raffle.FaultsFirst lackingProfile (raffle.states 3 0) (.strategy .second 2 .missing) := by
  have h₀ : raffle.node 0 = .ok (.chance [(1 / 3, 1), (2 / 3, 2)]) := rfl
  have h₁ : raffle.node 1 = .ok (.decision .first 0 [(0, 3), (1, 5)]) := rfl
  have h₂ : raffle.node 2 = .ok (.decision .first 1 [(0, 4), (1, 6)]) := rfl
  have h₃ : raffle.node 3 = .ok (.decision .second 2 [(0, 7), (1, 5)]) := rfl
  have h₄ : raffle.node 4 = .ok (.decision .second 2 [(0, 8), (1, 5)]) := rfl
  have h₅ : raffle.node 5 = .ok (.terminal 1) := rfl
  have h₆ : raffle.node 6 = .ok (.terminal (-1)) := rfl
  have h₇ : raffle.node 7 = .ok (.terminal 2) := rfl
  have h₈ : raffle.node 8 = .ok (.terminal (-3)) := rfl
  have hmixed : raffle.expectedValue 11 0 mixedProfile = some (.ok (-1 / 4)) := by
    have hdraw₁ : mixedProfile.first.at? 0 2 = .ok [1 / 2, 1 / 2] := by
      simp [Behavior.at?_eq_ok_iff, mixedProfile, Std.HashMap.getElem_insert]
    have hdraw₂ : mixedProfile.first.at? 1 2 = .ok [1, 0] := by
      simp [Behavior.at?_eq_ok_iff, mixedProfile]
    have hreply : mixedProfile.second.at? 2 2 = .ok [1 / 2, 1 / 2] := by
      simp [Behavior.at?_eq_ok_iff, mixedProfile]
    simp [Game.expectedValue, Game.valueWalk, Game.weigh, h₀, h₁, h₂, h₃, h₄, h₅, h₆, h₇, h₈,
      PerSeat.get, hdraw₁, hdraw₂, hreply]
    norm_num
  have hlacking : raffle.expectedValue 11 0 lackingProfile =
      some (.error (.strategy .second 2 .missing)) := by
    have hdraw₁ : lackingProfile.first.at? 0 2 = .ok [1 / 2, 1 / 2] := by
      simp [Behavior.at?_eq_ok_iff, lackingProfile, Std.HashMap.getElem_insert]
    have hreply : lackingProfile.second.at? 2 2 = .error .missing := by
      simp [Behavior.at?, lackingProfile]
    simp [Game.expectedValue, Game.valueWalk, Game.weigh, h₀, h₁, h₃, PerSeat.get, hdraw₁, hreply]
  obtain ⟨hfaults, hvalue⟩ :=
    @Game.expectedValue_eq_expectation Nat Nat Nat Rat _ _ _ 3 11
  obtain ⟨_, hrun, hworth⟩ := hvalue raffle 0 mixedProfile endsWithin_raffle treeSize_raffle.le
  cases hrun.symm.trans hmixed
  obtain ⟨_, hrun', herror⟩ := hfaults raffle 0 lackingProfile endsWithin_raffle treeSize_raffle.le
  cases hrun'.symm.trans hlacking
  obtain ⟨hclear, hsum⟩ := (hworth _).mp rfl
  exact ⟨hsum.symm, hclear, (herror _).mp rfl⟩

end ExtensiveForm
