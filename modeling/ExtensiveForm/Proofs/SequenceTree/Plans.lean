import ExtensiveForm.Proofs.SequenceTree.Check
import ExtensiveForm.Proofs.SequenceTree.Polytope

set_option autoImplicit false

namespace ExtensiveForm

variable {L A : Type} {t : SequenceTree L A} {x : Array Rat}

namespace SequenceTree

/-- The responses bound what plans collect, and plans of zeros and ones collect them. -/
theorem exists_extreme_responses (hc : t.check = .ok ()) {c : Array Rat} (hs : t.sequences ≤ c.size) :
    ∃ most least, t.maximize? c = some most ∧ t.minimize? c = some least ∧
      (∀ x, t.IsPlan x → least ≤ collect x c ∧ collect x c ≤ most) ∧
        (∃ x, t.IsPlan x ∧ (∀ v ∈ x, v = 0 ∨ v = 1) ∧ collect x c = most) ∧
          ∃ x, t.IsPlan x ∧ (∀ v ∈ x, v = 0 ∨ v = 1) ∧ collect x c = least := by
  have ht := check_eq_ok_iff.mp hc
  obtain ⟨most, hmost, hup, hle⟩ := ht.exists_response_isPlan extreme_maximum hs
  obtain ⟨least, hleast, hdown, hge⟩ := ht.exists_response_isPlan extreme_minimum hs
  refine ⟨most, least, hmost, hleast, fun x hx => ⟨?_, ?_⟩, hup, hdown⟩
  · have hsign := hge x hx
    linarith
  · have hsign := hle x hx
    linarith

end SequenceTree

def bushyTree : SequenceTree Nat Nat :=
  ⟨#[0, 1, 1, 0, 1, 7], #[1, 3, 5, 8, 9, 11, 13], #[0, 1, 2, 3, 4, 5],
    #[[0, 1], [0, 1], [0, 1, 2], [0], [0, 1], [0, 1]]⟩

def bushyGains : Array Rat := #[1, -1, 2, 3, 1 / 2, 0, 4, -5, -2, 1, 7, 8, -3, 100]

theorem responses_bushyTree :
    bushyTree.check = .ok () ∧ bushyTree.sequences ≤ bushyGains.size ∧
      bushyTree.maximize? bushyGains = some 12 ∧ bushyTree.minimize? bushyGains = some (-17 / 2) ∧
        (∀ x, bushyTree.IsPlan x →
          -17 / 2 ≤ collect x bushyGains ∧ collect x bushyGains ≤ 12) ∧
          ∃ x, bushyTree.IsPlan x ∧ (∀ v ∈ x, v = 0 ∨ v = 1) ∧ collect x bushyGains = 12 := by
  have hcheck : bushyTree.check = .ok () := by decide
  have hsize : bushyTree.sequences ≤ bushyGains.size := by decide
  have hmost : bushyTree.maximize? bushyGains = some 12 := by decide +kernel
  have hleast : bushyTree.minimize? bushyGains = some (-17 / 2) := by decide +kernel
  obtain ⟨most, least, hmost', hleast', hbounds, hup, -⟩ := SequenceTree.exists_extreme_responses hcheck hsize
  cases hmost.symm.trans hmost'
  cases hleast.symm.trans hleast'
  exact ⟨hcheck, hsize, hmost, hleast, hbounds, hup⟩

namespace SequenceTree

section Behavior

variable [BEq L] [Hashable L] {b : Behavior L Rat}

theorem Valid.isPlan_of_realization (ht : t.Valid) (hb : t.Plays Distribution b)
    (hx : t.realization b = .ok x) : t.IsPlan x :=
  (ht.realization_eq_ok_iff.mp hx).2.isPlan ht hb.mixes

def behaviorBy (t : SequenceTree L A) (x : Array Rat) : Behavior L Rat :=
  t.behaviorOf ((List.range t.size).map (t.sharesOf x))

variable [LawfulBEq L] (ht : t.Valid) (hl : t.label.toList.Nodup) (hx : t.IsPlan x)

include ht hl hx

theorem IsPlan.at?_behaviorBy {k parent start : Nat} {label : L} {actions : List A}
    (hk : t.IsSet k parent start label actions) :
    (t.behaviorBy x).at? label actions.length = .ok (t.sharesOf x k) := by
  have hshares : ((List.range t.size).map (t.sharesOf x))[k]? = some (t.sharesOf x k) := by
    simp [hk.lt_size]
  have hfound := (hk.last hl).getElem?_behaviorOf hshares
  exact Behavior.at?_eq_ok_iff.mpr ⟨hfound, (hx.mixes ht hk).1⟩

theorem IsPlan.plays_behaviorBy : t.Plays Distribution (t.behaviorBy x) :=
  fun _ _ _ _ _ hk => ⟨_, hx.at?_behaviorBy ht hl hk, (hx.mixes ht hk).2⟩

theorem IsPlan.realization_behaviorBy : t.realization (t.behaviorBy x) = .ok x := by
  refine ht.realization_eq_ok_iff.mpr ⟨(hx.plays_behaviorBy ht hl).serves, ?_⟩
  refine hx.isPlanOf.congr fun {k} hlt => ?_
  obtain ⟨parent, start, label, actions, hk⟩ := ht.exists_isSet hlt
  exact (hk.numbersOf_of_at? (hx.at?_behaviorBy ht hl hk)).symm

omit ht hx in
/-- Every behavior of distributions has a plan, and what they all have are the plans. -/
theorem exists_realization_eq_iff_isPlan (hc : t.check = .ok ()) :
    (∀ b, t.Plays Distribution b → ∃ x, t.realization b = .ok x) ∧
      ∀ x, (∃ b, t.Plays Distribution b ∧ t.realization b = .ok x) ↔ t.IsPlan x := by
  have ht := check_eq_ok_iff.mp hc
  refine ⟨fun b hb => ht.exists_realization_iff.mpr hb.serves, fun x => ⟨?_, ?_⟩⟩
  · rintro ⟨b, hb, hx⟩
    exact ht.isPlan_of_realization hb hx
  · intro hx
    exact ⟨t.behaviorBy x, hx.plays_behaviorBy ht hl, hx.realization_behaviorBy ht hl⟩

end Behavior

end SequenceTree

def thinPlan : Array Rat := #[1, 1 / 3, 2 / 3, 1 / 3, 0, 1 / 6, 1 / 6, 0, 1, 1 / 12, 1 / 4, 0, 0]

theorem exists_behavior_thinPlan : bushyTree.check = .ok () ∧ bushyTree.label.toList.Nodup ∧
    bushyTree.IsPlan thinPlan ∧
      ∃ b, bushyTree.Plays Distribution b ∧ bushyTree.realization b = .ok thinPlan := by
  have hcheck : bushyTree.check = .ok () := by decide
  have hlabels : bushyTree.label.toList.Nodup := by decide
  have hplan : bushyTree.IsPlan thinPlan := by decide +kernel
  obtain ⟨-, hiff⟩ := SequenceTree.exists_realization_eq_iff_isPlan hlabels hcheck
  exact ⟨hcheck, hlabels, hplan, (hiff thinPlan).mpr hplan⟩

end ExtensiveForm
