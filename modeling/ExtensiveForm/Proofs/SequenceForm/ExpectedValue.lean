import Mathlib.Tactic.NormNum
import ExtensiveForm.Proofs.PerfectRecall
import ExtensiveForm.Proofs.SequenceForm.Strategies
import ExtensiveForm.Proofs.SequenceForm.Value

set_option autoImplicit false

namespace ExtensiveForm

namespace Game

variable {σ L A : Type} [BEq L] [Hashable L] [BEq A] [LawfulBEq L] [LawfulBEq A]
  {g : Game σ A L Rat} {start : σ} {found : Exploration L A Rat} {form : SequenceForm L A Rat}
  {profile : Profile L Rat} {d fuel fuel' : Nat}

omit [BEq A] [LawfulBEq L] [LawfulBEq A] in
theorem Explored.exists_realization_iff (hx : g.Explored start found) (hf : found.Forms form) :
    (∀ q, g.Reaches (.start start) q → g.Serves q.state profile) ↔
      (∃ x, form.first.realization profile.first = .ok x) ∧
        ∃ y, form.second.realization profile.second = .ok y := by
  rw [hx.serves_iff hf]
  have hfirst := (hf.valid hx.sound .first).exists_realization_iff (b := profile.first)
  have hsecond := (hf.valid hx.sound .second).exists_realization_iff (b := profile.second)
  constructor
  · intro h
    exact ⟨hfirst.mpr (h .first), hsecond.mpr (h .second)⟩
  · intro h seat
    cases seat with
    | first => exact hfirst.mp h.1
    | second => exact hsecond.mp h.2

/-- Plans of a profile are worth in the matrix what all plays earn. -/
theorem Explores.between_realization (hw : g.Explores [.start start] .empty found)
    (hd : g.EndsWithin d start) (hf : found.Forms form) {x y : Array Rat}
    (hx : form.first.realization profile.first = .ok x)
    (hy : form.second.realization profile.second = .ok y) :
    form.value x y = .ok (form.payoff.between x y) ∧
      form.payoff.between x y = g.earnings d (Profile.along profile) (.start start) := by
  have hs := (hw.sound Exploration.sound_empty).1
  obtain ⟨-, hxp⟩ := (hf.valid hs .first).realization_eq_ok_iff.mp hx
  obtain ⟨-, hyp⟩ := (hf.valid hs .second).realization_eq_ok_iff.mp hy
  refine ⟨hf.value_eq_between hs hxp.size_eq hyp.size_eq, ?_⟩
  exact hw.between_eq hd hf (fun h => hxp.getD_eq_along h) (fun h => hyp.getD_eq_along h)

theorem Explores.expectedValue_of_realization (hw : g.Explores [.start start] .empty found)
    (hx : g.Explored start found) (hf : found.Forms form) (hd : g.EndsWithin d start)
    (hfuel : g.treeSize d start ≤ fuel) {x y : Array Rat}
    (hrx : form.first.realization profile.first = .ok x)
    (hry : form.second.realization profile.second = .ok y) :
    g.expectedValue fuel start profile = some (.ok (form.payoff.between x y)) := by
  obtain ⟨-, hbetween⟩ := hw.between_realization hd hf hrx hry
  rw [expectedValue_eq_ok_iff hd hfuel fun q hq => (hx.recorded hq).answers]
  exact ⟨(hx.exists_realization_iff hf).mpr ⟨⟨x, hrx⟩, y, hry⟩, hbetween⟩

/-- The walk over all paths ends; it gives a value exactly if both behaviors have plans, and then the
one that these plans have in the form. -/
theorem expectedValue_eq_value (hd : g.EndsWithin d start)
    (hbuild : g.build fuel start = some (.ok form)) (hfuel : g.treeSize d start ≤ fuel')
    (profile : Profile L Rat) :
    ∃ result, g.expectedValue fuel' start profile = some result ∧
      ((∃ v, result = .ok v) ↔ (∃ x, form.first.realization profile.first = .ok x) ∧
        ∃ y, form.second.realization profile.second = .ok y) ∧
      ∀ x y, form.first.realization profile.first = .ok x →
        form.second.realization profile.second = .ok y →
          ∃ v, form.value x y = .ok v ∧ result = .ok v := by
  obtain ⟨found, hf, hx, hw⟩ := exists_explored hbuild
  obtain ⟨result, hresult⟩ := exists_expectedValue hd hfuel profile
  have hvalue : ∀ v, result = .ok v ↔
      (∀ q, g.Reaches (.start start) q → g.Serves q.state profile) ∧
        v = g.earnings d (Profile.along profile) (.start start) := by
    intro v
    rw [← expectedValue_eq_ok_iff hd hfuel fun q hq => (hx.recorded hq).answers, hresult,
      Option.some.injEq]
  refine ⟨result, hresult, ?_, ?_⟩
  · rw [← hx.exists_realization_iff hf]
    simp only [hvalue, exists_and_left, exists_eq, and_true]
  · intro x y hrx hry
    obtain ⟨hval, -⟩ := hw.between_realization hd hf hrx hry
    have hwalk := hw.expectedValue_of_realization hx hf hd hfuel hrx hry
    exact ⟨_, hval, Option.some.inj (hresult.symm.trans hwalk)⟩

end Game

theorem expectedValue_pennies (profile : Profile Nat Rat) {p q u v : Rat}
    (hfirst : profile.first.at? 0 2 = .ok [p, q]) (hsecond : profile.second.at? 1 2 = .ok [u, v]) :
    pennies.expectedValue 7 0 profile = some (.ok ((p - q) * (u - v))) := by
  have h₀ : pennies.node 0 = .ok (.decision .first 0 [(0, 1), (1, 2)]) := rfl
  have h₁ : pennies.node 1 = .ok (.decision .second 1 [(0, 3), (1, 4)]) := rfl
  have h₂ : pennies.node 2 = .ok (.decision .second 1 [(0, 4), (1, 3)]) := rfl
  have h₃ : pennies.node 3 = .ok (.terminal 1) := rfl
  have h₄ : pennies.node 4 = .ok (.terminal (-1)) := rfl
  simp [Game.expectedValue, Game.valueWalk, Game.weigh, h₀, h₁, h₂, h₃, h₄, PerSeat.get, hfirst,
    hsecond]
  ring

def boldProfile : Profile Nat Rat :=
  ⟨Std.HashMap.ofList [(0, [2, -3])], Std.HashMap.ofList [(1, [1, 5])]⟩

theorem value_boldProfile : ∃ form x y, pennies.build 7 0 = some (.ok form) ∧
    form.first.realization boldProfile.first = .ok x ∧
      form.second.realization boldProfile.second = .ok y ∧ form.value x y = .ok (-20) ∧
        pennies.expectedValue 7 0 boldProfile = some (.ok (-20)) := by
  obtain ⟨form, hform⟩ := wellFormed_pennies.exists_build endsWithin_pennies treeSize_pennies.le
  have hwalk : pennies.expectedValue 7 0 boldProfile = some (.ok (-20)) := by
    have hfirst : boldProfile.first.at? 0 2 = .ok [2, -3] := by
      simp [Behavior.at?_eq_ok_iff, boldProfile]
    have hsecond : boldProfile.second.at? 1 2 = .ok [1, 5] := by
      simp [Behavior.at?_eq_ok_iff, boldProfile]
    rw [expectedValue_pennies boldProfile hfirst hsecond]
    norm_num
  obtain ⟨result, hresult, hiff, hvalue⟩ :=
    Game.expectedValue_eq_value endsWithin_pennies hform treeSize_pennies.le boldProfile
  cases hresult.symm.trans hwalk
  obtain ⟨⟨x, hx⟩, y, hy⟩ := hiff.mp ⟨_, rfl⟩
  obtain ⟨v, hv, hsame⟩ := hvalue x y hx hy
  cases hsame
  exact ⟨form, x, y, hform, hx, hy, hv, hwalk⟩

end ExtensiveForm
