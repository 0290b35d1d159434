import Mathlib.Order.Bounds.Basic
import ExtensiveForm.Proofs.SequenceForm.Check
import ExtensiveForm.Proofs.SequenceForm.Equilibrium
import ExtensiveForm.Proofs.SequenceTree.Polytope

/-!
The gap of two plans of a form that passes its check, built or loaded, in exact arithmetic. Main
statement: it is what the best plan of the first seat gets minus what the best plan of the second seat
concedes, never negative, and zero exactly at a saddle point.
-/

set_option autoImplicit false

namespace ExtensiveForm

namespace SequenceForm

variable {L A : Type} {f : SequenceForm L A Rat} {x y : Array Rat} {best worst : Rat}

def valuesAgainst (f : SequenceForm L A Rat) (y : Array Rat) : Set Rat :=
  {v | ∃ x, f.first.IsPlan x ∧ f.payoff.between x y = v}

def valuesOf (f : SequenceForm L A Rat) (x : Array Rat) : Set Rat :=
  {v | ∃ y, f.second.IsPlan y ∧ f.payoff.between x y = v}

def IsSaddle (f : SequenceForm L A Rat) (x y : Array Rat) : Prop :=
  ∀ x' y', f.first.IsPlan x' → f.second.IsPlan y' →
    f.payoff.between x' y ≤ f.payoff.between x y ∧ f.payoff.between x y ≤ f.payoff.between x y'

theorem exists_isGreatest (hc : f.check = .ok ()) (hy : f.second.IsPlan y) :
    ∃ best, f.bestAgainst? y = some best ∧ IsGreatest (f.valuesAgainst y) best := by
  obtain ⟨hvalid, hordered⟩ := check_eq_ok_iff.mp hc
  obtain ⟨c, hdot, hsize, hcollect⟩ := PayoffMatrix.exists_dot hordered.inside hy.size_eq
  obtain ⟨best, hbest, ⟨x, hx, -, hxbest⟩, hle⟩ :=
    (hvalid .first).exists_response_isPlan Seat.first.extreme_best hsize.ge
  refine ⟨best, bestAgainst?_eq_some hdot hbest, ⟨x, hx, (hcollect x).symm.trans hxbest⟩, ?_⟩
  rintro v ⟨x', hx', rfl⟩
  have hsign := hle x' hx'
  rw [hcollect] at hsign
  simpa [Seat.sign] using hsign

theorem exists_isLeast (hc : f.check = .ok ()) (hx : f.first.IsPlan x) :
    ∃ worst, f.worstAgainst? x = some worst ∧ IsLeast (f.valuesOf x) worst := by
  obtain ⟨hvalid, hordered⟩ := check_eq_ok_iff.mp hc
  obtain ⟨c, hdot, hsize, hcollect⟩ := PayoffMatrix.exists_transposeDot hordered.inside hx.size_eq
  obtain ⟨worst, hworst, ⟨y, hy, -, hyworst⟩, hle⟩ :=
    (hvalid .second).exists_response_isPlan Seat.second.extreme_best hsize.ge
  refine ⟨worst, worstAgainst?_eq_some hdot hworst, ⟨y, hy, (hcollect y).symm.trans hyworst⟩, ?_⟩
  rintro v ⟨y', hy', rfl⟩
  have hsign := hle y' hy'
  rw [hcollect] at hsign
  simpa [Seat.sign] using hsign

/-- Each extreme is the value of the two plans themselves exactly if no plan improves on it. -/
theorem isSaddle_iff (hx : f.first.IsPlan x) (hy : f.second.IsPlan y)
    (hbest : IsGreatest (f.valuesAgainst y) best) (hworst : IsLeast (f.valuesOf x) worst) :
    f.IsSaddle x y ↔ best = f.payoff.between x y ∧ worst = f.payoff.between x y := by
  constructor
  · intro h
    obtain ⟨⟨x', hx', hbest'⟩, hup⟩ := hbest
    obtain ⟨⟨y', hy', hworst'⟩, hdown⟩ := hworst
    obtain ⟨hle, hge⟩ := h x' y' hx' hy'
    exact ⟨le_antisymm (hbest' ▸ hle) (hup ⟨x, hx, rfl⟩),
      le_antisymm (hdown ⟨y, hy, rfl⟩) (hworst' ▸ hge)⟩
  · rintro ⟨hb, hw⟩ x' y' hx' hy'
    exact ⟨hb ▸ hbest.2 ⟨x', hx', rfl⟩, hw ▸ hworst.2 ⟨y', hy', rfl⟩⟩

/-- The gap of two plans comes to a result: what each seat could still gain, both together. -/
theorem exists_gap_eq_sub (hc : f.check = .ok ()) (hx : f.first.IsPlan x) (hy : f.second.IsPlan y) :
    ∃ best worst, f.gap x y = .ok (best - worst) ∧ IsGreatest (f.valuesAgainst y) best ∧
      IsLeast (f.valuesOf x) worst ∧ 0 ≤ best - worst ∧ (best - worst = 0 ↔ f.IsSaddle x y) := by
  obtain ⟨best, hbest, hgreatest⟩ := exists_isGreatest hc hy
  obtain ⟨worst, hworst, hleast⟩ := exists_isLeast hc hx
  have hgap := gap_eq_ok (checkPlans_eq_ok_iff.mpr ⟨hc, hx.size_eq, hy.size_eq⟩) hbest hworst
  have hup : f.payoff.between x y ≤ best := hgreatest.2 ⟨x, hx, rfl⟩
  have hdown : worst ≤ f.payoff.between x y := hleast.2 ⟨y, hy, rfl⟩
  refine ⟨best, worst, hgap, hgreatest, hleast, by linarith, ?_⟩
  rw [isSaddle_iff hx hy hgreatest hleast]
  constructor
  · intro hzero
    exact ⟨by linarith, by linarith⟩
  · rintro ⟨hb, hw⟩
    rw [hb, hw, sub_self]

end SequenceForm

/-- A form as a file may hold it: the set below the first seat's first action is laid out last. -/
def loadedForm : SequenceForm Nat Nat Rat where
  first := ⟨#[0, 0, 1], #[1, 3, 5, 7], #[0, 1, 2], #[[0, 1], [0, 1], [0, 1]]⟩
  second := ⟨#[0, 2], #[1, 3, 6], #[0, 1], #[[0, 1], [0, 1, 2]]⟩
  payoff := .ofEntries [(2, 1, 1), (3, 3, 4), (4, 0, -2), (5, 4, 1 / 2), (6, 1, -3)]

def firstPlan : Array Rat := #[1, 1 / 3, 2 / 3, 1 / 2, 1 / 2, 1 / 6, 1 / 6]

def secondPlan : Array Rat := #[1, 1 / 4, 3 / 4, 1 / 4, 1 / 2, 0]

theorem check_loadedForm : loadedForm.check = .ok () := by decide +kernel

theorem isPlan_firstPlan : loadedForm.first.IsPlan firstPlan := by decide +kernel

theorem isPlan_secondPlan : loadedForm.second.IsPlan secondPlan := by decide +kernel

theorem gap_loadedForm : ∃ best worst,
    loadedForm.gap firstPlan secondPlan = .ok (best - worst) ∧
      IsGreatest (loadedForm.valuesAgainst secondPlan) best ∧
        IsLeast (loadedForm.valuesOf firstPlan) worst ∧ 0 ≤ best - worst ∧
          (best - worst = 0 ↔ loadedForm.IsSaddle firstPlan secondPlan) :=
  SequenceForm.exists_gap_eq_sub check_loadedForm isPlan_firstPlan isPlan_secondPlan

end ExtensiveForm
