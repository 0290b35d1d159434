import Mathlib.Algebra.BigOperators.Group.Finset.Basic
import Mathlib.Data.Char
import Mathlib.Data.Fintype.BigOperators
import Mathlib.Data.List.Permutation
import Mathlib.Data.List.ProdSigma
import Mathlib.Data.List.Sort
import Mathlib.Data.Nat.Factorial.Basic
import ExtensiveForm.Proofs.Games.LiarsDice
import ExtensiveForm.Proofs.Means

set_option autoImplicit false

namespace ExtensiveForm.Games.LiarsDice

open scoped Nat

def sides : List Char := ['1', '2', '3', '4', '5', '6']

section Sorted

variable {fs roll : List Char} {n dice : Nat}

theorem nodup_sortedOver (hn : fs.Nodup) (n : Nat) : (sortedOver fs n).Nodup := by
  induction fs, n using sortedOver.induct with
  | case1 fs => simp [sortedOver]
  | case2 n => simp [sortedOver]
  | case3 f fs n ih ih' =>
    rw [sortedOver, List.nodup_append]
    refine ⟨(ih hn).map List.cons_injective, ih' hn.of_cons, ?_⟩
    rintro _ hroll roll' hroll' rfl
    obtain ⟨rest, -, rfl⟩ := List.mem_map.mp hroll
    exact hn.notMem (mem_of_mem_sortedOver hroll' List.mem_cons_self)

theorem length_of_mem_sortedOver (h : roll ∈ sortedOver fs n) : roll.length = n := by
  induction fs, n using sortedOver.induct generalizing roll with
  | case1 fs => simpa [sortedOver] using h
  | case2 n => simp [sortedOver] at h
  | case3 f fs n ih ih' =>
    rw [sortedOver, List.mem_append, List.mem_map] at h
    rcases h with ⟨rest, hrest, rfl⟩ | h
    · rw [List.length_cons, ih hrest]
    · exact ih' h

theorem pairwise_of_mem_sortedOver (hfs : fs.Pairwise (· < ·)) (h : roll ∈ sortedOver fs n) :
    roll.Pairwise (· ≤ ·) := by
  induction fs, n using sortedOver.induct generalizing roll with
  | case1 fs => simp_all [sortedOver]
  | case2 n => simp [sortedOver] at h
  | case3 f fs n ih ih' =>
    obtain ⟨hf, hfs'⟩ := List.pairwise_cons.mp hfs
    rw [sortedOver, List.mem_append, List.mem_map] at h
    rcases h with ⟨rest, hrest, rfl⟩ | h
    · refine List.pairwise_cons.mpr ⟨fun c hc => ?_, ih hfs hrest⟩
      rcases List.mem_cons.mp (mem_of_mem_sortedOver hrest hc) with rfl | hc
      · exact le_rfl
      · exact (hf c hc).le
    · exact ih' hfs' h

/-- A sorted list starts with the smallest face, or shows it nowhere. -/
theorem mem_sortedOver_of_pairwise (hfs : fs.Pairwise (· < ·)) (hlen : roll.length = n)
    (hmem : ∀ c ∈ roll, c ∈ fs) (hsorted : roll.Pairwise (· ≤ ·)) : roll ∈ sortedOver fs n := by
  induction fs, n using sortedOver.induct generalizing roll with
  | case1 fs =>
    rw [sortedOver, List.length_eq_zero_iff.mp hlen, List.mem_singleton]
  | case2 n =>
    obtain ⟨c, rest, rfl⟩ := List.exists_cons_of_length_eq_add_one hlen
    exact absurd (hmem c List.mem_cons_self) List.not_mem_nil
  | case3 f fs n ih ih' =>
    obtain ⟨hf, hfs'⟩ := List.pairwise_cons.mp hfs
    obtain ⟨c, rest, rfl⟩ := List.exists_cons_of_length_eq_add_one hlen
    obtain ⟨hmin, hrest⟩ := List.pairwise_cons.mp hsorted
    obtain ⟨hc, hmem'⟩ := List.forall_mem_cons.mp hmem
    rw [sortedOver, List.mem_append, List.mem_map]
    by_cases hcf : c = f
    · subst hcf
      exact .inl ⟨rest, ih hfs (Nat.succ.inj hlen) hmem' hrest, rfl⟩
    · -- the first die shows more than `f`, and so do the others
      have hfc : f < c := hf c ((List.mem_cons.mp hc).resolve_left hcf)
      have habove : ∀ d ∈ c :: rest, f < d :=
        List.forall_mem_cons.mpr ⟨hfc, fun d hd => hfc.trans_le (hmin d hd)⟩
      refine .inr (ih' hfs' hlen (fun d hd => ?_) hsorted)
      exact (List.mem_cons.mp (hmem d hd)).resolve_left (habove d hd).ne'

theorem pairwise_sides : sides.Pairwise (· < ·) := by decide

theorem mem_rolls_iff : roll ∈ rolls dice ↔
    roll.length = dice ∧ (∀ c ∈ roll, c ∈ sides) ∧ roll.Pairwise (· ≤ ·) := by
  constructor
  · intro h
    exact ⟨length_of_mem_sortedOver h, fun c hc => mem_of_mem_sortedOver h hc,
      pairwise_of_mem_sortedOver pairwise_sides h⟩
  · rintro ⟨hlen, hmem, hsorted⟩
    exact mem_sortedOver_of_pairwise pairwise_sides hlen hmem hsorted

theorem nodup_rolls (dice : Nat) : (rolls dice).Nodup :=
  nodup_sortedOver (pairwise_sides.imp fun h => h.ne) dice

end Sorted

section Arrangements

variable {α : Type} [DecidableEq α]

theorem toFinset_permutations {l : List α} (hl : l ≠ []) : l.permutations.toFinset =
    l.toFinset.biUnion fun c => (l.erase c).permutations.toFinset.image (c :: ·) := by
  ext t
  simp only [List.mem_toFinset, List.mem_permutations, Finset.mem_biUnion, Finset.mem_image]
  constructor
  · intro h
    cases t with
    | nil => exact absurd h.symm.eq_nil hl
    | cons c t =>
      obtain ⟨hc, ht⟩ := List.cons_perm_iff_perm_erase.mp h
      exact ⟨c, hc, t, ht, rfl⟩
  · rintro ⟨c, hc, t, ht, rfl⟩
    exact List.cons_perm_iff_perm_erase.mpr ⟨hc, ht⟩

theorem card_permutations {l : List α} (hl : l ≠ []) : l.permutations.toFinset.card =
    ∑ c ∈ l.toFinset, (l.erase c).permutations.toFinset.card := by
  rw [toFinset_permutations hl, Finset.card_biUnion]
  · exact Finset.sum_congr rfl fun c _ => Finset.card_image_of_injective _ List.cons_injective
  · intro c _ d _ hcd
    refine Finset.disjoint_left.mpr fun t ht ht' => ?_
    obtain ⟨_, -, rfl⟩ := Finset.mem_image.mp ht
    obtain ⟨_, -, h⟩ := Finset.mem_image.mp ht'
    exact hcd (List.cons.inj h).1.symm

theorem prod_factorial_count {l : List α} {c : α} (hc : c ∈ l) :
    ∏ d ∈ l.toFinset, (l.count d)! =
      l.count c * ∏ d ∈ (l.erase c).toFinset, ((l.erase c).count d)! := by
  have hsub : (l.erase c).toFinset ⊆ l.toFinset := fun d hd =>
    List.mem_toFinset.mpr (List.mem_of_mem_erase (List.mem_toFinset.mp hd))
  have hout : ∀ d ∈ l.toFinset, d ∉ (l.erase c).toFinset → ((l.erase c).count d)! = 1 := by
    intro d _ hd
    rw [List.count_eq_zero_of_not_mem fun h => hd (List.mem_toFinset.mpr h), Nat.factorial_zero]
  have hother : ∀ d ∈ l.toFinset.erase c, (l.count d)! = ((l.erase c).count d)! := by
    intro d hd
    rw [List.count_erase_of_ne (Finset.ne_of_mem_erase hd)]
  have hcount : (l.erase c).count c + 1 = l.count c := by
    have hpos := List.count_pos_iff.mpr hc
    rw [List.count_erase_self]
    omega
  have hmem := List.mem_toFinset.mpr hc
  rw [Finset.prod_subset hsub hout, ← Finset.mul_prod_erase _ _ hmem,
    ← Finset.mul_prod_erase _ _ hmem, Finset.prod_congr rfl hother, ← hcount, Nat.factorial_succ,
    mul_assoc]

/-- The multinomial coefficient counts arrangements. -/
theorem card_permutations_mul (l : List α) :
    l.permutations.toFinset.card * ∏ c ∈ l.toFinset, (l.count c)! = l.length ! := by
  induction hn : l.length generalizing l with
  | zero =>
    rw [List.length_eq_zero_iff] at hn
    subst hn
    simp
  | succ n ih =>
    have hl : l ≠ [] := by
      rintro rfl
      cases hn
    have hterm : ∀ c ∈ l.toFinset, (l.erase c).permutations.toFinset.card *
        ∏ d ∈ l.toFinset, (l.count d)! = l.count c * n ! := by
      intro c hc
      have hc := List.mem_toFinset.mp hc
      have hlen : (l.erase c).length = n := by rw [List.length_erase_of_mem hc, hn, Nat.add_sub_cancel]
      rw [prod_factorial_count hc, ← ih (l.erase c) hlen, mul_left_comm]
    rw [card_permutations hl, Finset.sum_mul, Finset.sum_congr rfl hterm, ← Finset.sum_mul,
      List.sum_toFinset_count_eq_length, hn, Nat.factorial_succ]

end Arrangements

section Probability

variable {roll : List Char} {dice : Nat}

def throws (dice : Nat) : Finset (Fin dice → Char) := Fintype.piFinset fun _ => sides.toFinset

/-- The throws whose dice, in whatever order, are those of a roll. -/
def arrangements (dice : Nat) (roll : List Char) : Finset (Fin dice → Char) :=
  (throws dice).filter fun t => (List.ofFn t).Perm roll

theorem mem_throws_iff {t : Fin dice → Char} : t ∈ throws dice ↔ ∀ c ∈ List.ofFn t, c ∈ sides := by
  simp [throws, List.mem_ofFn]

theorem card_throws (dice : Nat) : (throws dice).card = 6 ^ dice := by
  have hsides : sides.toFinset.card = 6 := by decide
  rw [throws, Fintype.card_piFinset_const, hsides]

theorem card_arrangements (h : roll ∈ rolls dice) :
    (arrangements dice roll).card = roll.permutations.toFinset.card := by
  obtain ⟨rfl, hmem, -⟩ := mem_rolls_iff.mp h
  have himage : (arrangements roll.length roll).image List.ofFn = roll.permutations.toFinset := by
    ext l
    simp only [arrangements, Finset.mem_image, Finset.mem_filter, mem_throws_iff, List.mem_toFinset,
      List.mem_permutations]
    constructor
    · rintro ⟨t, ⟨-, ht⟩, rfl⟩
      exact ht
    · intro hl
      obtain ⟨t, rfl⟩ : ∃ t : Fin roll.length → Char, List.ofFn t = l := by
        rw [← hl.length_eq]
        exact ⟨l.get, List.ofFn_get l⟩
      exact ⟨t, ⟨fun c hc => hmem c (hl.subset hc), hl⟩, rfl⟩
  rw [← himage, Finset.card_image_of_injective _ List.ofFn_injective]

/-- Each throw comes to one roll: its dice, sorted. -/
theorem sum_card_arrangements (dice : Nat) :
    ∑ roll ∈ (rolls dice).toFinset, (arrangements dice roll).card = 6 ^ dice := by
  have hsorted : ∀ l : List Char, (l.mergeSort (· ≤ ·)).Pairwise (· ≤ ·) :=
    List.pairwise_mergeSort' _
  have hperm : ∀ l : List Char, (l.mergeSort (· ≤ ·)).Perm l := fun l => List.mergeSort_perm l _
  have hmaps : ((throws dice : Finset _) : Set (Fin dice → Char)).MapsTo
      (fun t => (List.ofFn t).mergeSort (· ≤ ·)) (rolls dice).toFinset := by
    intro t ht
    have hmem := mem_throws_iff.mp ht
    simp only [List.coe_toFinset, Set.mem_ofPred_eq, mem_rolls_iff]
    refine ⟨?_, fun c hc => hmem c ((hperm _).subset hc), hsorted _⟩
    rw [(hperm _).length_eq, List.length_ofFn]
  rw [← card_throws, Finset.card_eq_sum_card_fiberwise hmaps]
  refine Finset.sum_congr rfl fun roll hroll => congrArg _ (Finset.filter_congr fun t _ => ?_)
  obtain ⟨-, -, hroll⟩ := mem_rolls_iff.mp (List.mem_toFinset.mp hroll)
  constructor
  · exact fun h => ((hperm _).trans h).eq_of_pairwise' (hsorted _) hroll
  · rintro rfl
    exact (hperm _).symm

theorem factorial_rat (n : Nat) : (Scalar.factorial n : Rat) = n ! := by
  induction n with
  | zero => rfl
  | succ n ih =>
    rw [Scalar.factorial, ih, Nat.factorial_succ, Nat.cast_mul, mul_comm]
    rfl

theorem nodup_eraseDups (l : List Char) : l.eraseDups.Nodup := by
  induction hn : l.length using Nat.strongRecOn generalizing l with
  | ind n ih =>
    cases l with
    | nil => simp
    | cons c l =>
      rw [List.eraseDups_cons, List.nodup_cons]
      refine ⟨by simp, ih _ ?_ _ rfl⟩
      exact hn ▸ Nat.lt_succ_of_le (List.length_filter_le _ l)

theorem prod_repeats (roll : List Char) : ((repeats roll).map fun n => (n ! : Rat)).prod =
    ((∏ c ∈ roll.toFinset, (roll.count c)! : Nat) : Rat) := by
  have hset : roll.toFinset = roll.eraseDups.toFinset := by
    ext c
    simp
  rw [hset, List.prod_toFinset _ (nodup_eraseDups roll), repeats, List.map_map, Nat.cast_list_prod,
    List.map_map]
  rfl

theorem rollProb_eq_div (roll : List Char) : rollProb dice roll =
    (dice ! / ((∏ c ∈ roll.toFinset, (roll.count c)! : Nat) : Rat) / 6 ^ dice : Rat) := by
  have hfold : ∀ (ns : List Nat) (ways : Rat),
      ns.foldl (fun ways n => ways / Scalar.factorial n) ways =
        ways / (ns.map fun n => (n ! : Rat)).prod := by
    intro ns
    induction ns with
    | nil => simp
    | cons n ns ih =>
      intro ways
      rw [List.foldl_cons, ih, List.map_cons, List.prod_cons, div_div, factorial_rat]
  rw [rollProb, hfold, prod_repeats, factorial_rat]
  simp [Scalar.ofNat, faces]

/-- A roll is as likely as its arrangements are many. -/
theorem rollProb_eq (h : roll ∈ rolls dice) :
    rollProb dice roll = ((arrangements dice roll).card / 6 ^ dice : Rat) := by
  have hcount := card_permutations_mul roll
  have hpos : ((∏ c ∈ roll.toFinset, (roll.count c)! : Nat) : Rat) ≠ 0 :=
    Nat.cast_ne_zero.mpr (Finset.prod_ne_zero_iff.mpr fun c _ => Nat.factorial_ne_zero _)
  rw [(mem_rolls_iff.mp h).1, ← card_arrangements h] at hcount
  rw [rollProb_eq_div, ← hcount, Nat.cast_mul, mul_div_cancel_right₀ _ hpos]

theorem rollProb_pos (h : roll ∈ rolls dice) : (0 : Rat) < rollProb dice roll := by
  have hself : roll ∈ roll.permutations.toFinset :=
    List.mem_toFinset.mpr (List.mem_permutations.mpr (List.Perm.refl roll))
  rw [rollProb_eq h, card_arrangements h]
  exact div_pos (Nat.cast_pos.mpr (Finset.card_pos.mpr ⟨roll, hself⟩)) (by positivity)

theorem sum_rollProb (dice : Nat) : ((rolls dice).map (rollProb (R := Rat) dice)).sum = 1 := by
  have hcount : ((rolls dice).map fun roll => ((arrangements dice roll).card : Rat)).sum =
      6 ^ dice := by
    rw [← List.sum_toFinset _ (nodup_rolls dice)]
    exact_mod_cast sum_card_arrangements dice
  rw [List.map_congr_left fun roll h => rollProb_eq h]
  simp only [div_eq_mul_inv]
  rw [List.sum_map_mul_right, hcount, mul_inv_cancel₀ (by positivity)]

end Probability

section Game

variable {dice : Nat}

theorem deals_eq_map (dice : Nat) : State.deals dice =
    (rolls dice ×ˢ rolls dice).map fun p => String.ofList (p.1 ++ ':' :: p.2) :=
  flatMap_map_eq_map_product (rolls dice) (rolls dice) fun a b => String.ofList (a ++ ':' :: b)

theorem chanceProb_deal {a : List Char} (ha : a ∈ rolls dice) (b : List Char) :
    State.chanceProb dice .start (String.ofList (a ++ ':' :: b)) =
      some (rollProb dice a * rollProb dice b : Rat) := by
  have hp : State.start.player = some .chance := rfl
  rw [State.chanceProb, if_neg (by simp [hp]), splitColon?_deal ha]
  rfl

theorem mixed_deals (dice : Nat) : ∃ ps,
    (State.deals dice).mapM (State.chanceProb (R := Rat) dice .start) = some ps ∧
      CompletelyMixed ps := by
  refine ⟨(rolls dice ×ˢ rolls dice).map fun p => rollProb dice p.1 * rollProb dice p.2, ?_,
    completelyMixed_of_pos ?_ ?_⟩
  · rw [deals_eq_map]
    exact mapM_map_eq_some fun p hp => chanceProb_deal (List.mem_product.mp hp).1 p.2
  · intro q hq
    obtain ⟨p, hp, rfl⟩ := List.mem_map.mp hq
    obtain ⟨ha, hb⟩ := List.mem_product.mp hp
    exact mul_pos (rollProb_pos ha) (rollProb_pos hb)
  · rw [sum_map_product]
    simp only [List.sum_map_mul_left, sum_rollProb, mul_one]

theorem readDice_eq_ok_iff {n : Nat} : readDice n = .ok n ↔ 1 ≤ n ∧ n ≤ 9 := by
  unfold readDice
  split
  · simp
    omega
  · simp
    omega

/-- The rolls are the sorted throws, each as likely as there are throws that come to it, and all pairs of
them are dealt. -/
theorem rolls_distribution (dice : Nat) :
    (readDice dice = .ok dice ↔ 1 ≤ dice ∧ dice ≤ 9) ∧
    (rolls dice).Nodup ∧
    (∀ roll, roll ∈ rolls dice ↔
      roll.length = dice ∧ (∀ c ∈ roll, c ∈ sides) ∧ roll.Pairwise (· ≤ ·)) ∧
    (∀ roll ∈ rolls dice,
      rollProb dice roll = ((arrangements dice roll).card / 6 ^ dice : Rat)) ∧
    (game (R := Rat) dice).actions .start =
      (rolls dice ×ˢ rolls dice).map (fun p => String.ofList (p.1 ++ ':' :: p.2)) ∧
    ∃ ps, ((game (R := Rat) dice).actions .start).mapM ((game dice).chanceProb .start) = some ps ∧
      CompletelyMixed ps := by
  refine ⟨readDice_eq_ok_iff, nodup_rolls dice, fun roll => mem_rolls_iff, ?_, deals_eq_map dice,
    mixed_deals dice⟩
  exact fun roll h => rollProb_eq h

theorem rolls_distribution_pair : ['1', '1', '5'] ∈ rolls 3 ∧
    (rollProb 3 ['1', '1', '5'] : Rat) = (arrangements 3 ['1', '1', '5']).card / 6 ^ 3 ∧
    (arrangements 3 ['1', '1', '5']).card = 3 := by
  obtain ⟨-, -, hmem, hprob, -⟩ := rolls_distribution 3
  have hroll : ['1', '1', '5'] ∈ rolls 3 := (hmem _).mpr ⟨rfl, by simp [sides], by simp⟩
  have hcount := card_permutations_mul ['1', '1', '5']
  have hrepeats : ∏ c ∈ ['1', '1', '5'].toFinset, (['1', '1', '5'].count c)! = 2 := by decide
  have hall : ['1', '1', '5'].length ! = 3 * 2 := by decide
  rw [hrepeats, hall] at hcount
  refine ⟨hroll, hprob _ hroll, ?_⟩
  rw [card_arrangements hroll]
  omega

end Game

end ExtensiveForm.Games.LiarsDice
