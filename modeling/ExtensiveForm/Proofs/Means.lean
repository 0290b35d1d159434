import Mathlib.Algebra.BigOperators.Ring.Finset
import Mathlib.Algebra.Order.BigOperators.Group.Finset
import Mathlib.Algebra.Order.Field.Rat
import Mathlib.Data.List.ProdSigma
import Mathlib.Tactic.Linarith
import Mathlib.Tactic.Ring
import ExtensiveForm.Scalar

set_option autoImplicit false

namespace ExtensiveForm

theorem sum_rat (xs : List Rat) : Scalar.sum xs = xs.sum :=
  List.sum_eq_foldl.symm

theorem ofInt_rat (z : Int) : (Scalar.ofInt z : Rat) = z := by
  cases z with
  | ofNat n => rfl
  | negSucc n => simp [Scalar.ofInt, Scalar.ofNat, Int.cast_negSucc]

def collect (x c : Array Rat) : Rat := ∑ i ∈ Finset.range c.size, x.getD i 0 * c.getD i 0

theorem getD_of_size_le {x : Array Rat} {i : Nat} (h : x.size ≤ i) : x.getD i 0 = 0 := by
  simp [Array.getD_eq_getD_getElem?, h]

theorem forall_mem_of_getD {x : Array Rat} {P : Rat → Prop} (h : ∀ s < x.size, P (x.getD s 0)) :
    ∀ v ∈ x, P v := by
  intro v hv
  obtain ⟨s, hs, rfl⟩ := Array.mem_iff_getElem.mp hv
  have hget : x.getD s 0 = x[s] := by simp [Array.getD_eq_getD_getElem?, hs]
  exact hget ▸ h s hs

theorem collect_eq {x c : Array Rat} (h : x.size ≤ c.size) :
    collect x c = ∑ i ∈ Finset.range x.size, x.getD i 0 * c.getD i 0 := by
  unfold collect
  symm
  refine Finset.sum_subset (Finset.range_mono h) fun i _ hi => ?_
  rw [getD_of_size_le (by simpa using hi), zero_mul]

theorem collect_setIfInBounds {x c : Array Rat} {i : Nat} (hi : i < c.size) (v : Rat) :
    collect x (c.setIfInBounds i (c.getD i 0 + v)) = collect x c + x.getD i 0 * v := by
  have hget : ∀ j ∈ Finset.range c.size,
      x.getD j 0 * (c.setIfInBounds i (c.getD i 0 + v)).getD j 0 =
        x.getD j 0 * c.getD j 0 + if i = j then x.getD j 0 * v else 0 := by
    intro j hj
    have hlt := Finset.mem_range.mp hj
    by_cases hij : i = j
    · subst hij
      simp [Array.getD_eq_getD_getElem?, hi]
      ring
    · simp [Array.getD_eq_getD_getElem?, hij, Array.getElem?_setIfInBounds_ne]
  unfold collect
  rw [Array.size_setIfInBounds, Finset.sum_congr rfl hget, Finset.sum_add_distrib,
    Finset.sum_ite_eq, if_pos (Finset.mem_range.mpr hi)]

structure Distribution (ns : List Rat) : Prop where
  nonneg : ∀ p ∈ ns, 0 ≤ p
  sum_eq : ns.sum = 1

/-- A distribution that leaves no action out. -/
structure CompletelyMixed (ns : List Rat) : Prop extends Distribution ns where
  pos : ∀ p ∈ ns, 0 < p

theorem completelyMixed_of_pos {ns : List Rat} (hpos : ∀ p ∈ ns, 0 < p) (hsum : ns.sum = 1) :
    CompletelyMixed ns :=
  ⟨⟨fun p hp => (hpos p hp).le, hsum⟩, hpos⟩

def pureAt (n a : Nat) : List Rat := (List.range n).map fun i => if i = a then 1 else 0

@[simp] theorem length_pureAt (n a : Nat) : (pureAt n a).length = n := by simp [pureAt]

theorem getD_pureAt {n a i : Nat} (h : i < n) : (pureAt n a).getD i 0 = if i = a then 1 else 0 := by
  simp [pureAt, List.getD_eq_getElem?_getD, h]

def mean (ns : List Rat) (value : Nat → Rat) : Rat :=
  ∑ a ∈ Finset.range ns.length, ns.getD a 0 * value a

theorem mean_one (ns : List Rat) : mean ns (fun _ => 1) = ns.sum := by
  unfold mean
  simp only [mul_one]
  induction ns with
  | nil => rfl
  | cons p ns ih =>
    rw [List.length_cons, Finset.sum_range_succ', List.sum_cons, ← ih, add_comm]
    rfl

theorem mean_pureAt {n a : Nat} (h : a < n) (value : Nat → Rat) :
    mean (pureAt n a) value = value a := by
  have hget : ∀ i ∈ Finset.range n, (pureAt n a).getD i 0 * value i =
      if i = a then value i else 0 := by
    intro i hi
    rw [getD_pureAt (Finset.mem_range.mp hi), ite_mul, one_mul, zero_mul]
  rw [mean, length_pureAt, Finset.sum_congr rfl hget, Finset.sum_ite_eq',
    if_pos (Finset.mem_range.mpr h)]

theorem distribution_pureAt {n a : Nat} (h : a < n) : Distribution (pureAt n a) := by
  constructor
  · intro p hp
    obtain ⟨i, -, rfl⟩ := List.mem_map.mp hp
    split
    · exact zero_le_one
    · exact le_refl 0
  · rw [← mean_one, mean_pureAt h]

theorem Distribution.getD_nonneg {ns : List Rat} (h : Distribution ns) (a : Nat) :
    0 ≤ ns.getD a 0 := by
  rw [List.getD_eq_getElem?_getD]
  cases ha : ns[a]? with
  | none => exact le_refl 0
  | some p => exact h.nonneg p (List.mem_of_getElem? ha)

/-- A sign of one bounds a mean from above, a sign of minus one from below. -/
theorem Distribution.mean_le {ns : List Rat} (h : Distribution ns) {value : Nat → Rat}
    {sign bound : Rat} (hv : ∀ a, a < ns.length → sign * value a ≤ sign * bound) :
    sign * mean ns value ≤ sign * bound := by
  calc
    sign * mean ns value = ∑ a ∈ Finset.range ns.length, ns.getD a 0 * (sign * value a) := by
      rw [mean, Finset.mul_sum]
      exact Finset.sum_congr rfl fun a _ => by ring
    _ ≤ ∑ a ∈ Finset.range ns.length, ns.getD a 0 * (sign * bound) := by
      refine Finset.sum_le_sum fun a ha => ?_
      exact mul_le_mul_of_nonneg_left (hv a (Finset.mem_range.mp ha)) (h.getD_nonneg a)
    _ = sign * bound := by
      rw [← Finset.sum_mul]
      have hone := mean_one ns
      simp only [mean, mul_one] at hone
      rw [hone, h.sum_eq, one_mul]

theorem flatMap_map_eq_map_product {α β γ : Type} (xs : List α) (ys : List β) (f : α → β → γ) :
    (xs.flatMap fun x => ys.map (f x)) = (xs ×ˢ ys).map fun p => f p.1 p.2 := by
  induction xs with
  | nil => rfl
  | cons x xs ih =>
    rw [List.flatMap_cons, ih, List.product_cons, List.map_append, List.map_map]
    rfl

theorem sum_map_product {α β : Type} (xs : List α) (ys : List β) (f : α × β → Rat) :
    ((xs ×ˢ ys).map f).sum = (xs.map fun x => (ys.map fun y => f (x, y)).sum).sum := by
  induction xs with
  | nil => rfl
  | cons x xs ih =>
    rw [List.product_cons, List.map_append, List.sum_append, ih, List.map_map, List.map_cons,
      List.sum_cons]
    rfl

theorem weighted_sum_comm {α β : Type} (xs : List (α × Rat)) (ys : List (β × Rat))
    (f : α × Rat → β × Rat → Rat) : (xs.map fun x => x.2 * (ys.map fun y => y.2 * f x y).sum).sum =
      (ys.map fun y => y.2 * (xs.map fun x => x.2 * f x y).sum).sum := by
  induction xs with
  | nil => simp
  | cons x xs ih =>
    have hterm : ∀ y ∈ ys, y.2 * (((x :: xs).map fun x => x.2 * f x y).sum) =
        x.2 * (y.2 * f x y) + y.2 * (xs.map fun x => x.2 * f x y).sum := by
      intro y _
      rw [List.map_cons, List.sum_cons, mul_add, mul_left_comm]
    rw [List.map_congr_left hterm, List.sum_map_add, List.sum_map_mul_left, ← ih, List.map_cons,
      List.sum_cons]

theorem sum_eq_neg {α : Type} {xs : List α} {f f' : α → Rat} (h : ∀ x ∈ xs, f x = -f' x) :
    (xs.map f).sum = -(xs.map f').sum := by
  rw [List.map_congr_left h, List.sum_neg, List.map_map]
  rfl

end ExtensiveForm
