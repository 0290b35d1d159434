import ExtensiveForm.Proofs.SequenceForm.Check
import ExtensiveForm.Proofs.SequenceForm.ExpectedValue
import ExtensiveForm.Proofs.SequenceTree.Response

/-!
How far a profile is from an equilibrium, in exact arithmetic. Main statement: the gap of two plans is
the most that the first seat can get minus the least that the second seat can concede, and it is zero
exactly in equilibrium.
-/

set_option autoImplicit false

namespace ExtensiveForm

/-- Payoffs are the first seat's gain and the second seat's loss. -/
def Seat.sign : Seat → Rat
  | .first => 1
  | .second => -1

def Seat.gain (seat : Seat) (v : Rat) : Rat := seat.sign * v

@[simp] theorem Seat.gain_first (v : Rat) : Seat.first.gain v = v := one_mul v

@[simp] theorem Seat.gain_second (v : Rat) : Seat.second.gain v = -v := neg_one_mul v

def Seat.best : Seat → List Rat → Rat
  | .first => Scalar.maximum
  | .second => Scalar.minimum

theorem Seat.extreme_best (seat : Seat) : SequenceTree.Extreme seat.sign seat.best := by
  cases seat with
  | first => exact SequenceTree.extreme_maximum
  | second => exact SequenceTree.extreme_minimum

namespace Game

variable {σ L A : Type} [BEq L] [Hashable L]

/-- The value that is best for a seat among all distributions it can play, if the other seat plays
as given; some behavior that takes one action at each set attains it. -/
structure Optimum (g : Game σ A L Rat) (fuel : Nat) (start : σ) (profile : Profile L Rat)
    (seat : Seat) (m : Rat) : Prop where
  gain_le : ∀ b, g.Plays Distribution start seat b →
    ∃ v, g.expectedValue fuel start (profile.set seat b) = some (.ok v) ∧ seat.gain v ≤ seat.gain m
  attained : ∃ b, g.Plays SequenceTree.IsPure start seat b ∧
    g.expectedValue fuel start (profile.set seat b) = some (.ok m)

/-- No seat gains by playing another distribution. -/
def IsNash (g : Game σ A L Rat) (fuel : Nat) (start : σ) (profile : Profile L Rat) : Prop :=
  ∃ v, g.expectedValue fuel start profile = some (.ok v) ∧
    ∀ seat b w, g.Plays Distribution start seat b →
      g.expectedValue fuel start (profile.set seat b) = some (.ok w) → seat.gain w ≤ seat.gain v

variable {g : Game σ A L Rat} {start : σ} {profile : Profile L Rat} {fuel : Nat} {seat : Seat}
  {m v : Rat}

theorem Plays.imp {P Q : List Rat → Prop} {b : Behavior L Rat} (h : g.Plays P start seat b)
    (hpq : ∀ ns, P ns → Q ns) : g.Plays Q start seat b := by
  intro q label hq hp ho
  obtain ⟨numbers, hnum, hn⟩ := h q label hq hp ho
  exact ⟨numbers, hnum, hpq numbers hn⟩

theorem Optimum.value_le (h : g.Optimum fuel start profile seat m)
    (hp : g.Plays Distribution start seat (profile.get seat))
    (hv : g.expectedValue fuel start profile = some (.ok v)) : seat.gain v ≤ seat.gain m := by
  have hset : profile.set seat (profile.get seat) = profile := by cases seat <;> rfl
  obtain ⟨w, hw, hle⟩ := h.gain_le _ hp
  rw [hset] at hw
  cases hw.symm.trans hv
  exact hle

theorem Optimum.eq_of_isNash (h : g.Optimum fuel start profile seat m)
    (hp : g.Plays Distribution start seat (profile.get seat)) (hn : g.IsNash fuel start profile)
    (hv : g.expectedValue fuel start profile = some (.ok v)) : m = v := by
  obtain ⟨w, hw, hbest⟩ := hn
  cases hw.symm.trans hv
  obtain ⟨b, hb, hm⟩ := h.attained
  have hle := hbest seat b m (hb.imp fun _ hns => hns.distribution) hm
  have hge := h.value_le hp hv
  cases seat with
  | first =>
    rw [Seat.gain_first, Seat.gain_first] at hle hge
    exact le_antisymm hle hge
  | second =>
    rw [Seat.gain_second, Seat.gain_second] at hle hge
    linarith

/-- Two optima are never the wrong way round, and meet exactly in equilibrium. -/
theorem gap_of_optima {best worst : Rat}
    (hp : ∀ seat, g.Plays Distribution start seat (profile.get seat))
    (hv : g.expectedValue fuel start profile = some (.ok v))
    (hbest : g.Optimum fuel start profile .first best)
    (hworst : g.Optimum fuel start profile .second worst) :
    0 ≤ best - worst ∧ (best - worst = 0 ↔ g.IsNash fuel start profile) := by
  have hup := hbest.value_le (hp .first) hv
  have hdown := hworst.value_le (hp .second) hv
  rw [Seat.gain_first, Seat.gain_first] at hup
  rw [Seat.gain_second, Seat.gain_second] at hdown
  refine ⟨by linarith, ?_, ?_⟩
  · intro hzero
    refine ⟨v, hv, fun seat b w hb hw => ?_⟩
    cases seat with
    | first =>
      obtain ⟨w', hw', hle⟩ := hbest.gain_le b hb
      cases hw'.symm.trans hw
      rw [Seat.gain_first, Seat.gain_first] at hle ⊢
      linarith
    | second =>
      obtain ⟨w', hw', hle⟩ := hworst.gain_le b hb
      cases hw'.symm.trans hw
      rw [Seat.gain_second, Seat.gain_second] at hle ⊢
      linarith
  · intro hnash
    rw [hbest.eq_of_isNash (hp .first) hnash hv, hworst.eq_of_isNash (hp .second) hnash hv, sub_self]

section Response

variable [LawfulBEq L] {found : Exploration L A Rat} {form : SequenceForm L A Rat}

theorem Explored.exists_optimum (hx : g.Explored start found) (hf : found.Forms form) (seat : Seat)
    (profile : Profile L Rat) {c : Array Rat} (hc : (form.tree seat).sequences ≤ c.size)
    (hcollect : ∀ b x, (form.tree seat).realization b = .ok x →
      g.expectedValue fuel start (profile.set seat b) = some (.ok (collect x c))) :
    ∃ m, (form.tree seat).response? seat.best c = some m ∧
      g.Optimum fuel start profile seat m := by
  have hvalid := hf.valid hx.sound seat
  have hnodup := hf.nodup_label hx.sound seat
  obtain ⟨m, choice, hm, hbounds, hattains⟩ := hvalid.exists_response seat.extreme_best hc
  have hpure := SequenceTree.plays_pureBehavior hnodup hattains.choice_lt
  refine ⟨m, hm, fun b hb => ?_, _, (hx.plays_iff hf).mp hpure, ?_⟩
  · have hplays := (hx.plays_iff hf).mpr hb
    obtain ⟨x, hrx⟩ := hvalid.exists_realization_iff.mpr hplays.serves
    obtain ⟨-, hxp⟩ := hvalid.realization_eq_ok_iff.mp hrx
    exact ⟨_, hcollect b x hrx, hbounds hplays.mixes hxp⟩
  · obtain ⟨x, hrx⟩ := hvalid.exists_realization_iff.mpr hpure.serves
    obtain ⟨-, hxp⟩ := hvalid.realization_eq_ok_iff.mp hrx
    have hfollows := SequenceTree.follows_pureBehavior hnodup choice
    rw [hcollect _ x hrx, hattains.collect_eq hfollows hxp]

variable [BEq A] [LawfulBEq A] {d : Nat} {x y : Array Rat}

theorem Explores.exists_bestAgainst (hw : g.Explores [.start start] .empty found)
    (hx : g.Explored start found) (hf : found.Forms form) (hd : g.EndsWithin d start)
    (hfuel : g.treeSize d start ≤ fuel) (hry : form.second.realization profile.second = .ok y) :
    ∃ m, form.bestAgainst? y = some m ∧ g.Optimum fuel start profile .first m := by
  obtain ⟨-, hyp⟩ := (hf.valid hx.sound .second).realization_eq_ok_iff.mp hry
  obtain ⟨c, hdot, hc, hcollect⟩ :=
    PayoffMatrix.exists_dot (fun e he => hf.entry_lt hx.sound he) hyp.size_eq
  obtain ⟨m, hm, hopt⟩ := hx.exists_optimum hf .first profile hc.ge
    fun b x hrx => by
      rw [hcollect]
      exact hw.expectedValue_of_realization hx hf hd hfuel hrx hry
  exact ⟨m, SequenceForm.bestAgainst?_eq_some hdot hm, hopt⟩

theorem Explores.exists_worstAgainst (hw : g.Explores [.start start] .empty found)
    (hx : g.Explored start found) (hf : found.Forms form) (hd : g.EndsWithin d start)
    (hfuel : g.treeSize d start ≤ fuel) (hrx : form.first.realization profile.first = .ok x) :
    ∃ m, form.worstAgainst? x = some m ∧ g.Optimum fuel start profile .second m := by
  obtain ⟨-, hxp⟩ := (hf.valid hx.sound .first).realization_eq_ok_iff.mp hrx
  obtain ⟨c, hdot, hc, hcollect⟩ :=
    PayoffMatrix.exists_transposeDot (fun e he => hf.entry_lt hx.sound he) hxp.size_eq
  obtain ⟨m, hm, hopt⟩ := hx.exists_optimum hf .second profile hc.ge
    fun b y hry => by
      rw [hcollect]
      exact hw.expectedValue_of_realization hx hf hd hfuel hrx hry
  exact ⟨m, SequenceForm.worstAgainst?_eq_some hdot hm, hopt⟩

end Response

/-- The gap of the plans of distributions is what both seats could still gain, never negative, and
zero exactly in equilibrium. -/
theorem exists_gap_eq [LawfulBEq L] [BEq A] [LawfulBEq A] {form : SequenceForm L A Rat}
    {d fuel' : Nat} (hd : g.EndsWithin d start) (hbuild : g.build fuel start = some (.ok form))
    (hfuel : g.treeSize d start ≤ fuel')
    (hplays : ∀ seat, (form.tree seat).Plays Distribution (profile.get seat)) :
    ∃ x y best worst, form.first.realization profile.first = .ok x ∧
      form.second.realization profile.second = .ok y ∧ form.gap x y = .ok (best - worst) ∧
        g.Optimum fuel' start profile .first best ∧ g.Optimum fuel' start profile .second worst ∧
          0 ≤ best - worst ∧ (best - worst = 0 ↔ g.IsNash fuel' start profile) := by
  obtain ⟨found, hf, hx, hw⟩ := exists_explored hbuild
  have hvalid := hf.valid hx.sound
  obtain ⟨x, hrx⟩ := (hvalid .first).exists_realization_iff.mpr (hplays .first).serves
  obtain ⟨y, hry⟩ := (hvalid .second).exists_realization_iff.mpr (hplays .second).serves
  obtain ⟨-, hxp⟩ := (hvalid .first).realization_eq_ok_iff.mp hrx
  obtain ⟨-, hyp⟩ := (hvalid .second).realization_eq_ok_iff.mp hry
  obtain ⟨best, hbest, hopt⟩ := hw.exists_bestAgainst hx hf hd hfuel hry
  obtain ⟨worst, hworst, hopt'⟩ := hw.exists_worstAgainst hx hf hd hfuel hrx
  have hplans := hf.checkPlans_eq_ok hx.sound hxp.size_eq hyp.size_eq
  have hgap := SequenceForm.gap_eq_ok hplans hbest hworst
  have hv := hw.expectedValue_of_realization hx hf hd hfuel hrx hry
  have hp := fun seat => (hx.plays_iff hf).mp (hplays seat)
  exact ⟨x, y, best, worst, hrx, hry, hgap, hopt, hopt', gap_of_optima hp hv hopt hopt'⟩

end Game

def evenProfile : Profile Nat Rat :=
  ⟨Std.HashMap.ofList [(0, [1 / 2, 1 / 2])], Std.HashMap.ofList [(1, [1 / 2, 1 / 2])]⟩

theorem at?_evenProfile (seat : Seat) :
    (evenProfile.get seat).at? seat.index 2 = .ok [1 / 2, 1 / 2] := by
  cases seat <;> simp [Behavior.at?_eq_ok_iff, evenProfile, PerSeat.get, Seat.index]

theorem plays_pennies_iff {P : List Rat → Prop} {seat : Seat} {b : Behavior Nat Rat} :
    pennies.Plays P 0 seat b ↔ ∃ u v, b.at? seat.index 2 = .ok [u, v] ∧ P [u, v] := by
  have hseat : seat ∈ [Seat.first, Seat.second] := by cases seat <;> simp
  have hacts : ∀ q ∈ pennies.positions 2 (.start 0), ∀ seat ∈ [Seat.first, Seat.second],
      pennies.player q.state = some (.seat seat) →
        pennies.observation q.state = some seat.index ∧ (pennies.actions q.state).length = 2 := by
    decide
  have hsome : ∀ seat ∈ [Seat.first, Seat.second], ∃ q ∈ pennies.positions 2 (.start 0),
      pennies.player q.state = some (.seat seat) := by decide
  constructor
  · intro h
    obtain ⟨q, hq, hp⟩ := hsome seat hseat
    obtain ⟨ho, hl⟩ := hacts q hq seat hseat hp
    obtain ⟨numbers, hnum, hn⟩ :=
      h q _ ((Game.mem_positions_iff endsWithin_pennies).mp hq) hp ho
    rw [hl] at hnum
    obtain ⟨u, v, rfl⟩ := List.length_eq_two.mp (Behavior.at?_eq_ok_iff.mp hnum).2
    exact ⟨u, v, hnum, hn⟩
  · intro h q label hq hp ho
    obtain ⟨u, v, hnum, hn⟩ := h
    obtain ⟨ho', hl⟩ := hacts q ((Game.mem_positions_iff endsWithin_pennies).mpr hq) seat hseat hp
    cases ho'.symm.trans ho
    exact ⟨_, hl ▸ hnum, hn⟩

theorem isNash_evenProfile : pennies.IsNash 7 0 evenProfile := by
  refine ⟨0, ?_, fun seat b w hb hw => ?_⟩
  · rw [expectedValue_pennies evenProfile (at?_evenProfile .first) (at?_evenProfile .second)]
    norm_num
  · obtain ⟨u, v, hnum, -⟩ := plays_pennies_iff.mp hb
    have hzero : pennies.expectedValue 7 0 (evenProfile.set seat b) = some (.ok 0) := by
      cases seat with
      | first =>
        rw [expectedValue_pennies (evenProfile.set .first b) hnum (at?_evenProfile .second)]
        norm_num
      | second =>
        rw [expectedValue_pennies (evenProfile.set .second b) (at?_evenProfile .first) hnum]
        norm_num
    cases hw.symm.trans hzero
    exact le_refl _

theorem gap_evenProfile : ∃ form x y, pennies.build 7 0 = some (.ok form) ∧
    form.first.realization evenProfile.first = .ok x ∧
      form.second.realization evenProfile.second = .ok y ∧ form.gap x y = .ok 0 := by
  obtain ⟨form, hform⟩ := wellFormed_pennies.exists_build endsWithin_pennies treeSize_pennies.le
  obtain ⟨found, hf, hx, -⟩ := Game.exists_explored hform
  have hhalf : Distribution [1 / 2, 1 / 2] := by
    constructor
    · simp
    · norm_num
  have hplays : ∀ seat, (form.tree seat).Plays Distribution (evenProfile.get seat) := fun seat =>
    (hx.plays_iff hf).mpr (plays_pennies_iff.mpr ⟨_, _, at?_evenProfile seat, hhalf⟩)
  obtain ⟨x, y, best, worst, hrx, hry, hgap, -, -, -, hnash⟩ :=
    Game.exists_gap_eq endsWithin_pennies hform treeSize_pennies.le hplays
  rw [hnash.mpr isNash_evenProfile] at hgap
  exact ⟨form, x, y, hform, hrx, hry, hgap⟩

end ExtensiveForm
