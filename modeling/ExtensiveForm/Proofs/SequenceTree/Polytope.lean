import Mathlib.Algebra.BigOperators.Field
import Mathlib.Algebra.BigOperators.Intervals
import Mathlib.Algebra.Order.BigOperators.Ring.Finset
import Mathlib.Order.Bounds.Basic
import ExtensiveForm.Proofs.SequenceTree.Response

/-!
Plans of a tree told without a behavior, in exact arithmetic: what flows into a set flows out of it.
Main statements: on a valid tree these are the plans of distributions, and the response to coefficients
is the most extreme number that one of them collects.
-/

set_option autoImplicit false

namespace ExtensiveForm

/-- Each action's share of what reaches a set; all goes to the first action if nothing does. -/
def shares (reach : Rat) (amount : Nat → Rat) (width : Nat) : List Rat :=
  if reach = 0 then pureAt width 0 else (List.range width).map fun a => amount a / reach

section Shares

variable {reach : Rat} {amount : Nat → Rat} {width : Nat}

@[simp] theorem length_shares : (shares reach amount width).length = width := by
  unfold shares
  split <;> simp

theorem getD_shares (hr : reach ≠ 0) {a : Nat} (ha : a < width) :
    (shares reach amount width).getD a 0 = amount a / reach := by
  simp [shares, hr, List.getD_eq_getElem?_getD, ha]

variable (hn : ∀ a < width, 0 ≤ amount a) (hs : ∑ a ∈ Finset.range width, amount a = reach)

include hn hs in
theorem mul_getD_shares {a : Nat} (ha : a < width) :
    reach * (shares reach amount width).getD a 0 = amount a := by
  by_cases hr : reach = 0
  · have hle : ∀ b ∈ Finset.range width, 0 ≤ amount b := fun b hb => hn b (Finset.mem_range.mp hb)
    have hzero := (Finset.sum_eq_zero_iff_of_nonneg hle).mp (hs.trans hr)
    rw [hr, zero_mul, hzero a (Finset.mem_range.mpr ha)]
  · rw [getD_shares hr ha, mul_div_cancel₀ _ hr]

include hn hs in
theorem distribution_shares (hw : 0 < width) : Distribution (shares reach amount width) := by
  by_cases hr : reach = 0
  · rw [shares, if_pos hr]
    exact distribution_pureAt hw
  · have hnonneg : 0 ≤ reach :=
      hs ▸ Finset.sum_nonneg fun a ha => hn a (Finset.mem_range.mp ha)
    constructor
    · intro p hp
      rw [shares, if_neg hr] at hp
      obtain ⟨a, ha, rfl⟩ := List.mem_map.mp hp
      exact div_nonneg (hn a (List.mem_range.mp ha)) hnonneg
    · have hget : ∀ a ∈ Finset.range width, (shares reach amount width).getD a 0 * 1 =
          amount a / reach := by
        intro a ha
        rw [mul_one, getD_shares hr (Finset.mem_range.mp ha)]
      rw [← mean_one, mean, length_shares, Finset.sum_congr rfl hget, ← Finset.sum_div, hs,
        div_self hr]

end Shares

namespace SequenceTree

variable {L A : Type}

/-- A number for each sequence, never negative: one for the empty sequence, and for each set the
numbers of its block sum up to that of its parent. -/
structure IsPlan (t : SequenceTree L A) (x : Array Rat) : Prop where
  size_eq : x.size = t.sequences
  nonneg : ∀ s < x.size, 0 ≤ x.getD s 0
  root : x[0]? = some 1
  flow : ∀ k < t.size, ∑ s ∈ Finset.Ico (t.offset.getD k 0) (t.offset.getD (k + 1) 0), x.getD s 0 =
    x.getD (t.parent.getD k 0) 0

theorem isPlan_iff {t : SequenceTree L A} {x : Array Rat} : t.IsPlan x ↔
    x.size = t.sequences ∧ (∀ s < x.size, 0 ≤ x.getD s 0) ∧ x[0]? = some 1 ∧
      ∀ k < t.size, ∑ s ∈ Finset.Ico (t.offset.getD k 0) (t.offset.getD (k + 1) 0), x.getD s 0 =
        x.getD (t.parent.getD k 0) 0 :=
  ⟨fun ⟨hs, hn, hr, hf⟩ => ⟨hs, hn, hr, hf⟩, fun ⟨hs, hn, hr, hf⟩ => ⟨hs, hn, hr, hf⟩⟩

instance (t : SequenceTree L A) (x : Array Rat) : Decidable (t.IsPlan x) :=
  decidable_of_iff _ isPlan_iff.symm

variable {t : SequenceTree L A} {x : Array Rat}

theorem IsPlan.getD_nonneg (hx : t.IsPlan x) (s : Nat) : 0 ≤ x.getD s 0 := by
  by_cases hs : s < x.size
  · exact hx.nonneg s hs
  · rw [getD_of_size_le (Nat.le_of_not_lt hs)]

section Block

variable {k parent start : Nat} {label : L} {actions : List A}

theorem IsSet.flow_iff (hk : t.IsSet k parent start label actions) (x : Array Rat) :
    ∑ s ∈ Finset.Ico (t.offset.getD k 0) (t.offset.getD (k + 1) 0), x.getD s 0 =
        x.getD (t.parent.getD k 0) 0 ↔
      ∑ a ∈ Finset.range actions.length, x.getD (start + a) 0 = x.getD parent 0 := by
  have hstart : t.offset.getD k 0 = start := by
    rw [Array.getD_eq_getD_getElem?, hk.start_eq, Option.getD_some]
  have hstop : t.offset.getD (k + 1) 0 = start + actions.length := by
    rw [Array.getD_eq_getD_getElem?, hk.stop_eq, Option.getD_some]
  have hparent : t.parent.getD k 0 = parent := by
    rw [Array.getD_eq_getD_getElem?, hk.parent_eq, Option.getD_some]
  rw [hstart, hstop, hparent, Finset.sum_Ico_eq_sum_range, Nat.add_sub_cancel_left]

def sharesOf (t : SequenceTree L A) (x : Array Rat) (k : Nat) : List Rat :=
  shares (x.getD (t.parent.getD k 0) 0) (fun a => x.getD (t.offset.getD k 0 + a) 0)
    (t.actions.getD k []).length

theorem IsSet.sharesOf_eq (hk : t.IsSet k parent start label actions) (x : Array Rat) :
    t.sharesOf x k =
      shares (x.getD parent 0) (fun a => x.getD (start + a) 0) actions.length := by
  simp only [sharesOf, Array.getD_eq_getD_getElem?, hk.parent_eq, hk.start_eq, hk.actions_eq,
    Option.getD_some]

end Block

/-- A plan is the plan of its shares. -/
theorem IsPlan.isPlanOf (hx : t.IsPlan x) : t.IsPlanOf (t.sharesOf x) x := by
  refine ⟨hx.size_eq, hx.root, fun {k parent start a label actions} hk ha => ?_⟩
  have hflow := (hk.flow_iff x).mp (hx.flow k hk.lt_size)
  rw [hk.sharesOf_eq, mul_getD_shares (fun a _ => hx.getD_nonneg _) hflow ha]

theorem IsPlan.mixes (ht : t.Valid) (hx : t.IsPlan x) : t.Mixes (t.sharesOf x) := by
  intro k parent start label actions hk
  have hflow := (hk.flow_iff x).mp (hx.flow k hk.lt_size)
  have hwidth : 0 < actions.length := List.length_pos_iff.mpr (ht.isSet_bounds hk).2.1
  rw [hk.sharesOf_eq]
  exact ⟨length_shares, distribution_shares (fun a _ => hx.getD_nonneg _) hflow hwidth⟩

theorem IsPlanOf.isPlan (ht : t.Valid) {numbers : Nat → List Rat} (hn : t.Mixes numbers)
    (hx : t.IsPlanOf numbers x) : t.IsPlan x := by
  refine ⟨hx.size_eq, fun s hs => hx.nonneg ht hn (hx.size_eq ▸ hs), hx.root, fun k hlt => ?_⟩
  obtain ⟨parent, start, label, actions, hk⟩ := ht.exists_isSet hlt
  obtain ⟨hlen, hdist⟩ := hn hk
  refine (hk.flow_iff x).mpr ?_
  calc
    _ = ∑ a ∈ Finset.range actions.length, x.getD parent 0 * ((numbers k).getD a 0 * 1) := by
      refine Finset.sum_congr rfl fun a ha => ?_
      rw [hx.block hk (Finset.mem_range.mp ha), mul_one]
    _ = x.getD parent 0 * mean (numbers k) fun _ => 1 := by
      rw [mean, hlen, Finset.mul_sum]
    _ = x.getD parent 0 := by
      rw [mean_one, hdist.sum_eq, mul_one]

section Response

variable {best : List Rat → Rat} {sign m : Rat} {c : Array Rat} {choice : Nat → Nat}

def chosen (t : SequenceTree L A) (choice : Nat → Nat) (k : Nat) : List Rat :=
  pureAt (t.actions.getD k []).length (choice k)

theorem follows_chosen (t : SequenceTree L A) (choice : Nat → Nat) :
    t.Follows choice (t.chosen choice) := by
  intro k parent start label actions hk
  rw [chosen, Array.getD_eq_getD_getElem?, hk.actions_eq, Option.getD_some]

theorem Attains.mixes (h : t.Attains c m choice) : t.Mixes (t.chosen choice) := by
  intro k parent start label actions hk
  rw [follows_chosen t choice hk]
  exact ⟨length_pureAt _ _, distribution_pureAt (h.choice_lt hk)⟩

theorem IsPlanOf.eq_zero_or_one (ht : t.Valid) {numbers : Nat → List Rat}
    (hn : t.Follows choice numbers) (hx : t.IsPlanOf numbers x) : ∀ v ∈ x, v = 0 ∨ v = 1 := by
  refine forall_mem_of_getD fun s hs => ?_
  refine hx.forall_getD (P := fun v => v = 0 ∨ v = 1) ht (Or.inr rfl)
    (fun k parent start a label actions hk ha ih => ?_) (hx.size_eq ▸ hs)
  rw [hn hk, getD_pureAt ha, mul_ite, mul_one, mul_zero]
  split
  · exact ih
  · exact Or.inl rfl

/-- The response to coefficients is what some plan of zeros and ones collects, and no plan collects more
of it in the direction of the sign. -/
theorem Valid.exists_response_isPlan (ht : t.Valid) (hb : Extreme sign best)
    (hc : t.sequences ≤ c.size) : ∃ m, t.response? best c = some m ∧
      (∃ x, t.IsPlan x ∧ (∀ v ∈ x, v = 0 ∨ v = 1) ∧ collect x c = m) ∧
        ∀ x, t.IsPlan x → sign * collect x c ≤ sign * m := by
  obtain ⟨m, choice, hm, hbounds, hattains⟩ := ht.exists_response hb hc
  obtain ⟨x, hx⟩ := ht.exists_isPlanOf (t.chosen choice)
  have hfollows := follows_chosen t choice
  exact ⟨m, hm, ⟨x, hx.isPlan ht hattains.mixes, hx.eq_zero_or_one ht hfollows,
    hattains.collect_eq hfollows hx⟩, fun x hx => hbounds (hx.mixes ht) hx.isPlanOf⟩

end Response

end SequenceTree

end ExtensiveForm
