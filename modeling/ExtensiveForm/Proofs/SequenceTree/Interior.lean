import Mathlib.Data.List.SplitLengths
import ExtensiveForm.Proofs.SequenceTree.Blocks
import ExtensiveForm.Proofs.SequenceTree.Plans

set_option autoImplicit false

namespace ExtensiveForm

theorem completelyMixed_normalize {ws : List Rat} (hne : ws ≠ []) (hpos : ∀ w ∈ ws, 0 < w) :
    CompletelyMixed (SequenceTree.normalize ws) := by
  have htotal : 0 < ws.sum := List.sum_pos ws hpos hne
  have hpos' : ∀ p ∈ SequenceTree.normalize ws, 0 < p := by
    intro p hp
    obtain ⟨w, hw, rfl⟩ := List.mem_map.mp hp
    rw [sum_rat]
    exact div_pos (hpos w hw) htotal
  refine completelyMixed_of_pos hpos' ?_
  calc (SequenceTree.normalize ws).sum
    _ = (ws.map fun w => w * (ws.sum)⁻¹).sum := by
      simp only [SequenceTree.normalize, sum_rat, div_eq_mul_inv]
    _ = ws.sum * (ws.sum)⁻¹ := by rw [List.sum_map_mul_right, List.map_id']
    _ = 1 := mul_inv_cancel₀ htotal.ne'

theorem completelyMixed_evenNumbers {n : Nat} (hn : n ≠ 0) :
    CompletelyMixed (SequenceTree.evenNumbers n) := by
  have hcast : (n : Rat) ≠ 0 := Nat.cast_ne_zero.mpr hn
  have hpos : ∀ p ∈ (SequenceTree.evenNumbers n : List Rat), 0 < p := by
    intro p hp
    rw [List.eq_of_mem_replicate hp]
    exact one_div_pos.mpr (Nat.cast_pos.mpr (Nat.pos_of_ne_zero hn))
  refine completelyMixed_of_pos hpos ?_
  rw [SequenceTree.evenNumbers, List.sum_replicate, nsmul_eq_mul]
  exact mul_one_div_cancel hcast

namespace SequenceTree

variable {L A : Type} {t : SequenceTree L A}

def Consistent (t : SequenceTree L A) : Prop :=
  ∀ i < t.size, ∀ j < t.size, t.label[i]? = t.label[j]? →
    t.actions[i]?.map List.length = t.actions[j]?.map List.length

instance [DecidableEq L] (t : SequenceTree L A) : Decidable t.Consistent :=
  inferInstanceAs (Decidable (∀ i < t.size, ∀ j < t.size, t.label[i]? = t.label[j]? →
    t.actions[i]?.map List.length = t.actions[j]?.map List.length))

theorem exists_last {k : Nat} {label : L} (hk : t.label[k]? = some label) : ∃ j, t.Last j label := by
  induction hd : t.label.size - k using Nat.strongRecOn generalizing k with
  | ind d ih =>
    by_cases hlater : ∃ j, k < j ∧ t.label[j]? = some label
    · obtain ⟨j, hj, hlabel⟩ := hlater
      have hlt : j < t.label.size := (Array.getElem?_eq_some_iff.mp hlabel).1
      exact ih (t.label.size - j) (by omega) hlabel rfl
    · exact ⟨k, hk, fun j hj hlabel => hlater ⟨j, hj, hlabel⟩⟩

/-- If sets with the same label have equally many actions, what holds of the numbers of each set holds of
those that the behavior has there, though they may be another set's. -/
theorem Consistent.plays_behaviorOf [BEq L] [Hashable L] [LawfulBEq L] (hl : t.Consistent)
    (ht : t.Valid) {P : List Rat → Prop} {numbers : List (List Rat)}
    (h : ∀ ⦃k parent start : Nat⦄ ⦃label : L⦄ ⦃actions : List A⦄,
      t.IsSet k parent start label actions →
        ∃ ns, numbers[k]? = some ns ∧ ns.length = actions.length ∧ P ns) :
    t.Plays P (t.behaviorOf numbers) := by
  intro k parent start label actions hk
  obtain ⟨j, hj⟩ := exists_last hk.label_eq
  have hlt : j < t.size := ht.fits.label_size ▸ (Array.getElem?_eq_some_iff.mp hj.1).1
  obtain ⟨parent', start', label', actions', hset⟩ := ht.exists_isSet hlt
  cases hj.1.symm.trans hset.label_eq
  obtain ⟨ns, hns, hlen, hP⟩ := h hset
  have hwidth := hl k hk.lt_size j hlt (hk.label_eq.trans hj.1.symm)
  rw [hk.actions_eq, hset.actions_eq, Option.map_some, Option.map_some, Option.some.injEq] at hwidth
  exact ⟨ns, Behavior.at?_eq_ok_iff.mpr ⟨hj.getElem?_behaviorOf hns, hlen.trans hwidth.symm⟩, hP⟩

theorem Consistent.plays_uniformBehavior [BEq L] [Hashable L] [LawfulBEq L] (hl : t.Consistent)
    (ht : t.Valid) : t.Plays CompletelyMixed t.uniformBehavior := by
  refine hl.plays_behaviorOf ht fun k parent start label actions hk => ?_
  have hne : actions.length ≠ 0 := fun h => (ht.isSet_bounds hk).2.1 (List.length_eq_zero_iff.mp h)
  refine ⟨evenNumbers actions.length, ?_, length_evenNumbers _, completelyMixed_evenNumbers hne⟩
  rw [List.getElem?_map, Array.getElem?_toList, hk.actions_eq, Option.map_some]

section Plan

variable [BEq L] [Hashable L] {b : Behavior L Rat} {x : Array Rat}

theorem IsPlanOf.pos (ht : t.Valid) (hb : t.Plays CompletelyMixed b)
    (hx : t.IsPlanOf (t.numbersOf b) x) : ∀ v ∈ x, 0 < v := by
  refine forall_mem_of_getD fun s hs => ?_
  refine hx.forall_getD ht one_pos (fun k parent start a label actions hk ha ih => ?_)
    (hx.size_eq ▸ hs)
  obtain ⟨numbers, hnum, hmix⟩ := hb hk
  have hlt : a < numbers.length := (Behavior.at?_eq_ok_iff.mp hnum).2 ▸ ha
  have hget : numbers.getD a 0 = numbers[a] := by simp [List.getD_eq_getElem?_getD, hlt]
  rw [hk.numbersOf_of_at? hnum, hget]
  exact mul_pos ih (hmix.pos _ (List.getElem_mem hlt))

theorem Valid.exists_realization_pos (ht : t.Valid) (hb : t.Plays CompletelyMixed b) :
    ∃ x, t.realization b = .ok x ∧ t.IsPlan x ∧ ∀ v ∈ x, 0 < v := by
  obtain ⟨x, hx⟩ := ht.exists_realization_iff.mpr hb.serves
  have hdist : t.Plays Distribution b := hb.imp fun _ h => h.toDistribution
  exact ⟨x, hx, ht.isPlan_of_realization hdist hx, (ht.realization_eq_ok_iff.mp hx).2.pos ht hb⟩

end Plan

section Draws

variable {G R : Type}

def draws (draw : StateM G R) : Nat → G → List R × G
  | 0, g => ([], g)
  | n + 1, g =>
    ((draw.run g).1 :: (draws draw n (draw.run g).2).1, (draws draw n (draw.run g).2).2)

variable {draw : StateM G R}

theorem length_draws (n : Nat) (g : G) : (draws draw n g).1.length = n := by
  induction n generalizing g with
  | zero => rfl
  | succ n ih => rw [draws, List.length_cons, ih]

theorem forall_mem_draws {P : R → Prop} (h : ∀ g, P (draw.run g).1) (n : Nat) (g : G) :
    ∀ u ∈ (draws draw n g).1, P u := by
  induction n generalizing g with
  | zero => simp [draws]
  | succ n ih =>
    rw [draws, List.forall_mem_cons]
    exact ⟨h g, ih _⟩

theorem draws_add (m n : Nat) (g : G) : draws draw (m + n) g =
    ((draws draw m g).1 ++ (draws draw n (draws draw m g).2).1,
      (draws draw n (draws draw m g).2).2) := by
  induction m generalizing g with
  | zero => simp [draws]
  | succ m ih => rw [Nat.succ_add, draws, ih, draws, List.cons_append]

theorem run_mapM_draw (draw : StateM G R) (actions : List A) (g : G) :
    (actions.mapM fun _ => draw).run g = draws draw actions.length g := by
  induction actions generalizing g with
  | nil => rfl
  | cons a actions ih =>
    rw [List.mapM_cons]
    simp only [StateT.run_bind, StateT.run_pure, ih, draws, List.length_cons]
    rfl

/-- Draws made set by set are one row of draws, cut into the widths of the sets. -/
theorem run_mapM_mapM_draw (draw : StateM G R) (sets : List (List A)) (g : G) :
    (sets.mapM fun actions : List A => actions.mapM fun _ => draw).run g =
      ((sets.map List.length).splitLengths (draws draw (sets.map List.length).sum g).1,
        (draws draw (sets.map List.length).sum g).2) := by
  induction sets generalizing g with
  | nil => rfl
  | cons actions sets ih =>
    rw [List.mapM_cons]
    simp only [StateT.run_bind, StateT.run_pure, ih, run_mapM_draw]
    simp [draws_add, length_draws]
    rfl

theorem getElem?_splitLengths {widths : List Nat} {k width : Nat} (h : widths[k]? = some width)
    (us : List R) :
    (widths.splitLengths us)[k]? = some ((us.drop (widths.take k).sum).take width) := by
  induction widths generalizing k us with
  | nil => cases h
  | cons w widths ih =>
    rw [List.splitLengths_cons]
    cases k with
    | zero =>
      cases h
      rfl
    | succ k =>
      rw [List.getElem?_cons_succ] at h ⊢
      rw [ih h, List.drop_drop, List.take_succ_cons, List.sum_cons]

theorem Valid.sequences_eq_sum (ht : t.Valid) :
    t.sequences - 1 = (t.actions.toList.map List.length).sum := by
  have hlast := ht.fits.last.symm.trans (ht.ordered.offset_eq (Nat.le_refl _))
  have htake : t.actions.toList.take t.size = t.actions.toList := by
    rw [← ht.fits.actions_size, ← Array.length_toList, List.take_length]
  rw [Option.some.inj hlast, free, htake, Nat.add_sub_cancel_left]

def weightsOf (t : SequenceTree L A) (us : List R) : List (List R) :=
  (t.actions.toList.map List.length).splitLengths us

theorem Valid.getElem?_weightsOf (ht : t.Valid) {k parent start : Nat} {label : L}
    {actions : List A} (hk : t.IsSet k parent start label actions) (us : List R) :
    (t.weightsOf us)[k]? = some ((us.drop (start - 1)).take actions.length) := by
  have hwidth : (t.actions.toList.map List.length)[k]? = some actions.length := by
    rw [List.getElem?_map, Array.getElem?_toList, hk.actions_eq, Option.map_some]
  have hstart := hk.start_eq.symm.trans (ht.ordered.offset_eq hk.lt_size.le)
  rw [weightsOf, getElem?_splitLengths hwidth, ← List.map_take, Option.some.inj hstart, free,
    Nat.add_sub_cancel_left]

theorem Valid.run_randomBehavior [BEq L] [Hashable L] [Scalar R] (ht : t.Valid) (g : G) :
    (t.randomBehavior draw).run g =
      (t.behaviorOf ((t.weightsOf (draws draw (t.sequences - 1) g).1).map normalize),
        (draws draw (t.sequences - 1) g).2) := by
  have hsets : (t.label.toList.zip t.actions.toList).map Prod.snd = t.actions.toList :=
    List.map_snd_zip (by simp [ht.fits.label_size, ht.fits.actions_size])
  have hrun := run_mapM_mapM_draw draw t.actions.toList g
  rw [← hsets, List.mapM_map, hsets, ← ht.sequences_eq_sum] at hrun
  exact congrArg (fun r => (t.behaviorOf (r.1.map normalize), r.2)) hrun

end Draws

section Random

variable [BEq L] [Hashable L] [LawfulBEq L]

theorem Consistent.plays_weightsOf (hl : t.Consistent) (ht : t.Valid) {us : List Rat}
    (hlen : us.length = t.sequences - 1) (hpos : ∀ u ∈ us, 0 < u) :
    t.Plays CompletelyMixed (t.behaviorOf ((t.weightsOf us).map normalize)) := by
  refine hl.plays_behaviorOf ht fun k parent start label actions hk => ?_
  obtain ⟨hp, hne, hle⟩ := ht.isSet_bounds hk
  have hwidth : ((us.drop (start - 1)).take actions.length).length = actions.length := by
    rw [List.length_take, List.length_drop]
    omega
  have hmem : ∀ w ∈ (us.drop (start - 1)).take actions.length, 0 < w :=
    fun w hw => hpos w (List.mem_of_mem_drop (List.mem_of_mem_take hw))
  refine ⟨normalize ((us.drop (start - 1)).take actions.length), ?_, ?_, ?_⟩
  · rw [List.getElem?_map, ht.getElem?_weightsOf hk, Option.map_some]
  · rw [length_normalize, hwidth]
  · refine completelyMixed_normalize (fun hnil => hne ?_) hmem
    rw [← List.length_eq_zero_iff, ← hwidth, hnil, List.length_nil]

/-- The even behavior and every drawn one have plans without zeros; a drawn one takes one draw for each
sequence but the empty one, in the order of their numbers. -/
theorem exists_interior_plans (hc : t.check = .ok ()) (hl : t.Consistent) :
    (∃ x, t.realization t.uniformBehavior = .ok x ∧ t.IsPlan x ∧ ∀ v ∈ x, 0 < v) ∧
      ∀ {G : Type} (draw : StateM G Rat), (∀ g, 1 / 100 ≤ (draw.run g).1 ∧ (draw.run g).1 < 1) →
        ∀ g, ∃ b x us g', (t.randomBehavior draw).run g = (b, g') ∧
          draws draw (t.sequences - 1) g = (us, g') ∧
            t.realization b = .ok x ∧ t.IsPlan x ∧ (∀ v ∈ x, 0 < v) ∧
              ∀ ⦃k parent start : Nat⦄ ⦃label : L⦄ ⦃actions : List A⦄,
                t.IsSet k parent start label actions → t.Last k label →
                  b[label]? = some (normalize ((us.drop (start - 1)).take actions.length)) := by
  have ht := check_eq_ok_iff.mp hc
  refine ⟨ht.exists_realization_pos (hl.plays_uniformBehavior ht), fun draw hrange g => ?_⟩
  have hpos : ∀ u ∈ (draws draw (t.sequences - 1) g).1, 0 < u := by
    refine forall_mem_draws (fun g => ?_) _ g
    have hlow := (hrange g).1
    linarith
  obtain ⟨x, hx, hplan, hentry⟩ :=
    ht.exists_realization_pos (hl.plays_weightsOf ht (length_draws _ g) hpos)
  refine ⟨_, x, _, _, ht.run_randomBehavior g, rfl, hx, hplan, hentry, ?_⟩
  intro k parent start label actions hk hlast
  refine hlast.getElem?_behaviorOf ?_
  rw [List.getElem?_map, ht.getElem?_weightsOf hk, Option.map_some]

end Random

end SequenceTree

def echoTree : SequenceTree Nat Nat :=
  ⟨#[0, 1, 4], #[1, 3, 5, 6], #[7, 7, 8], #[[0, 1], [1, 0], [2]]⟩

def tenths : StateM Nat Rat := fun n => (((n % 9 + 1 : Nat) : Rat) / 10, n + 1)

theorem interior_plans_echoTree : echoTree.check = .ok () ∧ echoTree.Consistent ∧
    (∀ n, 1 / 100 ≤ (tenths.run n).1 ∧ (tenths.run n).1 < 1) ∧
      ∃ b x us n, (echoTree.randomBehavior tenths).run 0 = (b, n) ∧
        SequenceTree.draws tenths (echoTree.sequences - 1) 0 = (us, n) ∧
          echoTree.realization b = .ok x ∧ echoTree.IsPlan x ∧ (∀ v ∈ x, 0 < v) ∧
            b[7]? = some (SequenceTree.normalize [3 / 10, 4 / 10]) := by
  have hcheck : echoTree.check = .ok () := by decide
  have hlabels : echoTree.Consistent := by decide
  have hrange : ∀ n, 1 / 100 ≤ (tenths.run n).1 ∧ (tenths.run n).1 < 1 := by
    intro n
    have hlt : n % 9 + 1 < 10 := by omega
    have hcast : ((n % 9 + 1 : Nat) : Rat) < 10 := by exact_mod_cast hlt
    have hle : (1 : Rat) ≤ ((n % 9 + 1 : Nat) : Rat) := by exact_mod_cast Nat.le_add_left 1 (n % 9)
    have hval : (tenths.run n).1 = ((n % 9 + 1 : Nat) : Rat) / 10 := rfl
    rw [hval]
    constructor <;> linarith
  obtain ⟨-, hrandom⟩ := SequenceTree.exists_interior_plans hcheck hlabels
  obtain ⟨b, x, us, n, hrun, hdraws, hx, hplan, hpos, hlast⟩ := hrandom tenths hrange 0
  have hus : us = [1 / 10, 2 / 10, 3 / 10, 4 / 10, 5 / 10] := by
    have hfirst : (SequenceTree.draws tenths (echoTree.sequences - 1) 0).1 =
        [1 / 10, 2 / 10, 3 / 10, 4 / 10, 5 / 10] := by decide +kernel
    rw [← hfirst, hdraws]
  have hset : echoTree.IsSet 1 1 3 7 [1, 0] := ⟨rfl, rfl, rfl, rfl, rfl⟩
  have hseven : echoTree.Last 1 7 := by
    refine ⟨rfl, fun j hj hlabel => ?_⟩
    have hlt : j < 3 := (Array.getElem?_eq_some_iff.mp hlabel).1
    obtain rfl : j = 2 := by omega
    exact absurd hlabel (by decide)
  refine ⟨hcheck, hlabels, hrange, b, x, us, n, hrun, hdraws, hx, hplan, hpos, ?_⟩
  rw [hlast hset hseven, hus]
  rfl

end ExtensiveForm
