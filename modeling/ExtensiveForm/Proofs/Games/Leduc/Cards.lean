import Mathlib.Algebra.BigOperators.Group.List.Basic
import Mathlib.Data.Finset.Prod
import Mathlib.Data.Fintype.Prod
import Mathlib.Data.List.ProdSigma
import Mathlib.Tactic.FieldSimp
import ExtensiveForm.Proofs.Games.Leduc
import ExtensiveForm.Proofs.Means

set_option autoImplicit false

namespace ExtensiveForm.Games.Leduc

section Deck

def cards (ranks : List Char) : Finset (Char × Bool) := ranks.toFinset ×ˢ Finset.univ

/-- Three different cards of the deck, in the order in which they are drawn, that show given ranks. -/
def draws (ranks : List Char) (a b c : Char) :
    Finset ((Char × Bool) × (Char × Bool) × (Char × Bool)) :=
  (cards ranks ×ˢ cards ranks ×ˢ cards ranks).filter fun t =>
    (t.1 ≠ t.2.1 ∧ t.1 ≠ t.2.2 ∧ t.2.1 ≠ t.2.2) ∧ t.1.1 = a ∧ t.2.1.1 = b ∧ t.2.2.1 = c

/-- Which copies may be drawn: two cards of one rank are its two copies. -/
def copies (a b c : Char) : Finset (Bool × Bool × Bool) :=
  Finset.univ.filter fun i =>
    (a = b → i.1 ≠ i.2.1) ∧ (a = c → i.1 ≠ i.2.2) ∧ (b = c → i.2.1 ≠ i.2.2)

variable {ranks : List Char} {a b c : Char}

theorem draws_eq_image (ha : a ∈ ranks) (hb : b ∈ ranks) (hc : c ∈ ranks) :
    draws ranks a b c = (copies a b c).image fun i => ((a, i.1), (b, i.2.1), (c, i.2.2)) := by
  ext ⟨⟨x, i⟩, ⟨y, j⟩, z, k⟩
  simp only [draws, copies, cards, Finset.mem_filter, Finset.mem_product, Finset.mem_image,
    List.mem_toFinset, Finset.mem_univ, Prod.mk.injEq, Prod.exists, ne_eq]
  constructor
  · rintro ⟨-, hne, rfl, rfl, rfl⟩
    exact ⟨i, j, k, by simpa using hne, by simp⟩
  · rintro ⟨i, j, k, hne, ⟨rfl, rfl⟩, ⟨rfl, rfl⟩, rfl, rfl⟩
    exact ⟨by simp [ha, hb, hc], by simpa using hne, by simp⟩

theorem card_copies (a b c : Char) : (copies a b c).card = 2 * (if a = b then 1 else 2) *
    (2 - (if a = c then 1 else 0) - if b = c then 1 else 0) := by
  by_cases hab : a = b
  · subst hab
    by_cases hac : a = c
    · simp [copies, hac]
    · simp [copies, hac]
      rfl
  · by_cases hac : a = c
    · subst hac
      simp [copies, hab, Ne.symm hab]
      rfl
    · by_cases hbc : b = c
      · simp [copies, hac, hbc]
        rfl
      · simp [copies, hab, hac, hbc]

/-- Each copy that was drawn before leaves one less of its rank. -/
theorem card_draws (ha : a ∈ ranks) (hb : b ∈ ranks) (hc : c ∈ ranks) :
    (draws ranks a b c).card = 2 * (if a = b then 1 else 2) *
      (2 - (if a = c then 1 else 0) - if b = c then 1 else 0) := by
  have hinj : Function.Injective fun i : Bool × Bool × Bool =>
      ((a, i.1), (b, i.2.1), (c, i.2.2)) := by
    rintro ⟨i, j, k⟩ ⟨i', j', k'⟩ h
    simpa using h
  rw [draws_eq_image ha hb hc, Finset.card_image_of_injective _ hinj, card_copies]

end Deck

section Chances

def dealChance (n : Rat) (a b : Char) : Rat := (if a = b then 1 else 2) / (n * (2 * n - 1))

def flopChance (n : Rat) (a b c : Char) : Rat :=
  if a ≠ b ∧ (c = a ∨ c = b) then 1 / (2 * (n - 1)) else 1 / (n - 1)

variable {ranks : List Char} {a b c : Char}

theorem dealProb?_eq {n : Nat} (hn : 2 ≤ n) (a b : Char) :
    State.dealProb? n [a, b] = some (dealChance n a b) := by
  have hcast : ((n * (2 * n - 1) : Nat) : Rat) = n * (2 * n - 1) := by
    rw [Nat.cast_mul, Nat.cast_sub (by omega)]
    simp
  simp only [State.dealProb?, dealChance, Scalar.ofNat, hcast]
  split_ifs <;> rfl

theorem dealChance_pos {n : Rat} (hn : 2 ≤ n) (a b : Char) : 0 < dealChance n a b := by
  unfold dealChance
  have hpos : 0 < n * (2 * n - 1) := mul_pos (by linarith) (by linarith)
  split_ifs
  · exact div_pos one_pos hpos
  · exact div_pos two_pos hpos

theorem flopChance_pos {n : Rat} (hn : 2 ≤ n) (a b c : Char) : 0 < flopChance n a b c := by
  unfold flopChance
  have hpos : 0 < n - 1 := by linarith
  split_ifs
  · exact one_div_pos.mpr (mul_pos two_pos hpos)
  · exact one_div_pos.mpr hpos

/-- A deal and a flop are as likely as three cards drawn in a row. -/
theorem dealChance_mul_flopChance {n : Rat} (hn : 2 ≤ n) (ha : a ∈ ranks) (hb : b ∈ ranks)
    (hc : c ∈ ranks) (hne : ¬(a = b ∧ b = c)) :
    dealChance n a b * flopChance n a b c =
      (draws ranks a b c).card / (2 * n * (2 * n - 1) * (2 * n - 2)) := by
  have h1 : n ≠ 0 := by linarith
  have h2 : 2 * n - 1 ≠ 0 := by linarith
  have h3 : n - 1 ≠ 0 := by linarith
  have h4 : 2 * n - 2 = 2 * (n - 1) := by ring
  rw [card_draws ha hb hc, dealChance, flopChance, h4]
  by_cases hab : a = b
  · subst hab
    have hac : ¬a = c := fun h => hne ⟨rfl, h⟩
    simp [hac]
    field_simp
    norm_num
  · by_cases hac : a = c
    · subst hac
      simp [hab, Ne.symm hab]
      field_simp
      norm_num
    · by_cases hbc : b = c
      · subst hbc
        simp [hab]
        field_simp
        norm_num
      · simp [hab, hac, hbc, Ne.symm hac, Ne.symm hbc]
        field_simp
        norm_num

theorem sum_dealChance_right (hlen : 2 ≤ ranks.length) (hn : ranks.Nodup) (ha : a ∈ ranks) :
    (ranks.map (dealChance ranks.length a)).sum = 1 / ranks.length := by
  have hsplit : dealChance ranks.length a = fun b => if b = a
      then 1 / ((ranks.length : Rat) * (2 * ranks.length - 1))
      else 2 / (ranks.length * (2 * ranks.length - 1)) := by
    funext b
    simp only [dealChance, eq_comm (a := a)]
    split_ifs <;> rfl
  have hcast : (2 : Rat) ≤ ranks.length := by exact_mod_cast hlen
  have h1 : (ranks.length : Rat) ≠ 0 := by linarith
  have h2 : 2 * (ranks.length : Rat) - 1 ≠ 0 := by linarith
  rw [hsplit, List.sum_map_ite_eq, List.count_eq_one_of_mem hn ha]
  simp
  field_simp
  ring

theorem sum_dealChance (hlen : 2 ≤ ranks.length) (hn : ranks.Nodup) :
    ((ranks ×ˢ ranks).map fun p => dealChance ranks.length p.1 p.2).sum = 1 := by
  have hcast : (2 : Rat) ≤ ranks.length := by exact_mod_cast hlen
  have h1 : (ranks.length : Rat) ≠ 0 := by linarith
  have hrow : ranks.map (fun a => (ranks.map (dealChance ranks.length a)).sum) =
      ranks.map fun _ => 1 / (ranks.length : Rat) :=
    List.map_congr_left fun a ha => sum_dealChance_right hlen hn ha
  rw [sum_map_product, hrow]
  simp [h1]

theorem sum_flopChance (hlen : 2 ≤ ranks.length) (hn : ranks.Nodup) (ha : a ∈ ranks)
    (hb : b ∈ ranks) : ((ranks.filter fun c => ¬(a = b ∧ b = c)).map
      (flopChance ranks.length a b)).sum = 1 := by
  have hcast : (2 : Rat) ≤ ranks.length := by exact_mod_cast hlen
  have h1 : (ranks.length : Rat) - 1 ≠ 0 := by linarith
  by_cases hab : a = b
  · -- one rank is out, and the others are equally likely
    subst hab
    have hconst : flopChance ranks.length a a = fun _ => 1 / ((ranks.length : Rat) - 1) := by
      funext c
      simp [flopChance]
    have hfilter : (ranks.filter fun c => ¬(a = a ∧ a = c)) = ranks.filter (· ≠ a) :=
      List.filter_congr fun c _ => by simp [eq_comm]
    have hadd : (((ranks.filter (· ≠ a)).length : Nat) : Rat) + 1 = ranks.length := by
      exact_mod_cast length_filter_ne hn ha
    rw [hfilter, hconst, List.map_const', List.sum_replicate, nsmul_eq_mul, ← hadd]
    rw [← hadd] at h1
    field_simp
    ring
  · -- all ranks are left, two of them with one copy
    have hsplit : flopChance ranks.length a b = fun c =>
        if c = a then 1 / (2 * ((ranks.length : Rat) - 1))
        else if c = b then 1 / (2 * ((ranks.length : Rat) - 1))
        else 1 / ((ranks.length : Rat) - 1) := by
      funext c
      by_cases hca : c = a
      · simp [flopChance, hab, hca]
      · simp [flopChance, hab, hca]
    have hfilter : (ranks.filter fun c => ¬(a = b ∧ b = c)) = ranks := by simp [hab]
    rw [hfilter, hsplit, List.sum_map_ite_eq, List.sum_map_ite_eq, List.count_eq_one_of_mem hn ha,
      List.count_eq_one_of_mem hn hb]
    simp [hab]
    field_simp
    ring

end Chances

section Game

variable {ranks : List Char} {a b c : Char} {ws : List String} {s : State}

theorem readRanks_eq_ok (hlen : 2 ≤ ranks.length) (hn : ranks.Nodup) :
    readRanks (String.ofList ranks) = .ok ranks := by
  have hrep : repeated? ranks = none := repeated?_eq_none_iff.mpr hn
  have hmany : ¬ranks.length < 2 := by omega
  simp [readRanks, hmany, hrep]

theorem deals_eq_map (ranks : List Char) :
    State.deals ranks = (ranks ×ˢ ranks).map fun p => String.ofList [p.1, p.2] :=
  flatMap_map_eq_map_product ranks ranks fun a b => String.ofList [a, b]

theorem After.hole?_eq_some (h : After ranks (String.ofList [a, b]) ws s) :
    s.hole? .first = some a ∧ s.hole? .second = some b := by
  simp [State.hole?, cardAt?, h.history_eq, Seat.index]

theorem After.flops_eq (h : After ranks (String.ofList [a, b]) ws s) :
    s.flops ranks = (ranks.filter fun c => ¬(a = b ∧ b = c)).map Char.toString := by
  obtain ⟨hfirst, hsecond⟩ := h.hole?_eq_some
  rw [State.flops, hfirst, hsecond]
  refine congrArg _ (List.filter_congr fun c _ => ?_)
  by_cases hab : a = b
  · simp [hab, eq_comm]
  · simp [hab]

theorem After.chanceProb_flop (h : After ranks (String.ofList [a, b]) ws s)
    (hlen : 2 ≤ ranks.length) (hp : s.player = some .chance) (c : Char) :
    s.chanceProb ranks c.toString = some (flopChance ranks.length a b c) := by
  obtain ⟨hfirst, hsecond⟩ := h.hole?_eq_some
  have hhistory : s.history ≠ [] := by simp [h.history_eq]
  have hcast : ((ranks.length - 1 : Nat) : Rat) = ranks.length - 1 := by
    rw [Nat.cast_sub (by omega), Nat.cast_one]
  have hcast' : ((2 * (ranks.length - 1) : Nat) : Rat) = 2 * (ranks.length - 1) := by
    rw [Nat.cast_mul, hcast, Nat.cast_ofNat]
  simp [State.chanceProb, State.flopProb?, hp, hhistory, hfirst, hsecond, flopChance, Scalar.ofNat,
    hcast, hcast']

theorem chanceProb_deal (hlen : 2 ≤ ranks.length) (a b : Char) :
    State.chanceProb ranks .start (String.ofList [a, b]) = some (dealChance ranks.length a b) := by
  have hp : State.start.player = some .chance := rfl
  rw [State.chanceProb, if_neg (by simp [hp]), String.toList_ofList, ← dealProb?_eq hlen]
  rfl

structure Offers (ranks : List Char) (a b : Char) (s : State) : Prop where
  actions_eq : (game (R := Rat) ranks).actions s =
    (ranks.filter fun c => ¬(a = b ∧ b = c)).map Char.toString
  mixed : ∃ ps, ((game (R := Rat) ranks).actions s).mapM ((game ranks).chanceProb s) = some ps ∧
    CompletelyMixed ps
  chances : ∀ c ∈ ranks, ¬(a = b ∧ b = c) → ∃ p q : Rat,
    (game ranks).chanceProb .start (String.ofList [a, b]) = some p ∧
    (game ranks).chanceProb s c.toString = some q ∧
    p * q = (draws ranks a b c).card /
      (2 * ranks.length * (2 * ranks.length - 1) * (2 * ranks.length - 2))

theorem After.offers (h : After ranks (String.ofList [a, b]) ws s) (hlen : 2 ≤ ranks.length)
    (hn : ranks.Nodup) (ha : a ∈ ranks) (hb : b ∈ ranks) (hp : s.player = some .chance) :
    Offers ranks a b s := by
  have hcast : (2 : Rat) ≤ ranks.length := by exact_mod_cast hlen
  have hhistory : s.history ≠ [] := by simp [h.history_eq]
  have hactions : State.actions ranks s =
      (ranks.filter fun c => ¬(a = b ∧ b = c)).map Char.toString := by
    rw [actions_of_player_eq_chance hp hhistory, h.flops_eq]
  constructor
  · exact hactions
  · refine ⟨_, ?_, completelyMixed_of_pos ?_ (sum_flopChance hlen hn ha hb)⟩
    · change (State.actions ranks s).mapM (State.chanceProb ranks s) = _
      rw [hactions]
      exact mapM_map_eq_some fun c _ => h.chanceProb_flop hlen hp c
    · intro q hq
      obtain ⟨c, -, rfl⟩ := List.mem_map.mp hq
      exact flopChance_pos hcast a b c
  · intro c hc hne
    exact ⟨_, _, chanceProb_deal hlen a b, h.chanceProb_flop hlen hp c,
      dealChance_mul_flopChance hcast ha hb hc hne⟩

theorem mixed_deals (hlen : 2 ≤ ranks.length) (hn : ranks.Nodup) :
    ∃ ps, (State.deals ranks).mapM (State.chanceProb ranks .start) = some ps ∧
      CompletelyMixed ps := by
  have hcast : (2 : Rat) ≤ ranks.length := by exact_mod_cast hlen
  refine ⟨_, ?_, completelyMixed_of_pos ?_ (sum_dealChance hlen hn)⟩
  · rw [deals_eq_map]
    exact mapM_map_eq_some fun p _ => chanceProb_deal hlen p.1 p.2
  · intro q hq
    obtain ⟨p, -, rfl⟩ := List.mem_map.mp hq
    exact dealChance_pos hcast p.1 p.2

theorem nodup_deals (hn : ranks.Nodup) : (State.deals ranks).Nodup := by
  rw [deals_eq_map]
  refine (hn.product hn).map fun p p' h => ?_
  have hlist := congrArg String.toList h
  simp at hlist
  exact Prod.ext hlist.1 hlist.2

/-- All ordered pairs of ranks are dealt, and then all ranks of which a copy is left, with the
probabilities of drawing three cards from the deck. -/
theorem offers_of_legal (hlen : 2 ≤ ranks.length) (hn : ranks.Nodup) :
    readRanks (String.ofList ranks) = .ok ranks ∧
    (game (R := Rat) ranks).actions .start =
      (ranks ×ˢ ranks).map (fun p => String.ofList [p.1, p.2]) ∧
    ((game (R := Rat) ranks).actions .start).Nodup ∧
    ((game (R := Rat) ranks).actions .start).length = ranks.length * ranks.length ∧
    (∃ ps, ((game (R := Rat) ranks).actions .start).mapM ((game ranks).chanceProb .start) =
      some ps ∧ CompletelyMixed ps) ∧
    ∀ a ∈ ranks, ∀ b ∈ ranks, ∀ ws,
      (game (R := Rat) ranks).Legal .start (String.ofList [a, b] :: ws) →
      (game (R := Rat) ranks).player
        ((game (R := Rat) ranks).play .start (String.ofList [a, b] :: ws)) = some .chance →
      Offers ranks a b ((game (R := Rat) ranks).play .start (String.ofList [a, b] :: ws)) := by
  have hdeals : (game (R := Rat) ranks).actions .start = State.deals ranks := rfl
  rw [hdeals]
  refine ⟨readRanks_eq_ok hlen hn, deals_eq_map ranks, nodup_deals hn, ?_, mixed_deals hlen hn, ?_⟩
  · rw [deals_eq_map, List.length_map, List.length_product]
  · intro a ha b hb ws h hp
    exact (after_of_legal h).offers hlen hn ha hb hp

theorem offers_pair : 2 ≤ [',', 'J'].length ∧ [',', 'J'].Nodup ∧
    (game (R := Rat) [',', 'J']).Legal .start [",,", "Check", "Raise", "Call"] ∧
    Offers [',', 'J'] ',' ','
      ((game (R := Rat) [',', 'J']).play .start [",,", "Check", "Raise", "Call"]) := by
  have hlen : 2 ≤ [',', 'J'].length := by decide
  have hn : [',', 'J'].Nodup := by decide
  have hl : (game (R := Rat) [',', 'J']).Legal .start [",,", "Check", "Raise", "Call"] := by
    simp only [Game.Legal]
    decide
  obtain ⟨-, -, -, -, -, hoffers⟩ := offers_of_legal hlen hn
  exact ⟨hlen, hn, hl, hoffers ',' (by decide) ',' (by decide) _ hl (by decide)⟩

end Game

end ExtensiveForm.Games.Leduc
