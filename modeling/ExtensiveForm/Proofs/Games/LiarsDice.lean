import Mathlib.Data.List.Nodup
import ExtensiveForm.Games.LiarsDice
import ExtensiveForm.Proofs.Games.Deals
import ExtensiveForm.Proofs.Text.Digits

set_option autoImplicit false

namespace ExtensiveForm.Games.LiarsDice

theorem of_readDice {n dice : Nat} (h : readDice n = .ok dice) : dice ≠ 0 ∧ dice ≤ 9 := by
  unfold readDice at h
  split at h
  · cases h
  · cases h
    omega

section Bids

theorem toList_text (b : Bid) :
    b.text.toList = Nat.toDigits 10 b.face ++ ':' :: Nat.toDigits 10 b.count := by
  simp [Bid.text, toString]

theorem readBid?_text {b : Bid} (hf : b.face < bidLimit) (hc : b.count < bidLimit) :
    readBid? b.text = some b := by
  have hcolon : ':' ∉ Nat.toDigits 10 b.face := Text.not_mem_toDigits (by decide)
  simp [readBid?, toList_text, Text.splitColon?_append hcolon, readNumber?, Text.natural?_toDigits,
    Option.filter, hf, hc]

theorem text_injective : Function.Injective Bid.text := by
  intro b b' h
  have hcolon : ∀ n, ':' ∉ Nat.toDigits 10 n := fun n => Text.not_mem_toDigits (by decide)
  have hsplit := congrArg (fun w => Text.splitColon? w.toList) h
  simp only [toList_text, Text.splitColon?_append (hcolon _), Option.some.injEq,
    Prod.mk.injEq] at hsplit
  have hread : ∀ {m n}, Nat.toDigits 10 m = Nat.toDigits 10 n → m = n := by
    intro m n heq
    have hm := Text.natural?_toDigits m
    rw [heq, Text.natural?_toDigits] at hm
    exact (Option.some.inj hm).symm
  obtain ⟨face, count⟩ := b
  obtain ⟨face', count'⟩ := b'
  rw [Bid.mk.injEq]
  exact ⟨hread hsplit.1, hread hsplit.2⟩

theorem comma_not_mem_text (b : Bid) : ',' ∉ b.text.toList := by
  have hdigits : ∀ n, ',' ∉ Nat.toDigits 10 n := fun n => Text.not_mem_toDigits (by decide)
  simp [toList_text, hdigits]

theorem text_ne_liar (b : Bid) : b.text ≠ liar := by
  intro h
  have hcolon : ':' ∈ b.text.toList := by simp [toList_text]
  rw [h] at hcolon
  revert hcolon
  decide

theorem mem_higherBids_iff {dice : Nat} {last b : Bid} : b ∈ State.higherBids dice last ↔
    last.face ≤ b.face ∧ b.face ≤ faces ∧ 1 ≤ b.count ∧ b.count ≤ 2 * dice ∧
      (last.face < b.face ∨ last.count < b.count) := by
  obtain ⟨face, count⟩ := b
  simp [State.higherBids, List.mem_range'_1]
  omega

def Bid.Within (dice : Nat) (b : Bid) : Prop :=
  1 ≤ b.face ∧ b.face ≤ faces ∧ 1 ≤ b.count ∧ b.count ≤ 2 * dice

/-- Bids rise by face, then count. -/
def Bid.Below (b b' : Bid) : Prop := b.face < b'.face ∨ b.face = b'.face ∧ b.count < b'.count

theorem Bid.Below.trans {b b' b'' : Bid} (h : b.Below b') (h' : b'.Below b'') : b.Below b'' := by
  unfold Bid.Below at *
  omega

theorem Bid.Below.ne {b b' : Bid} (h : b.Below b') : b ≠ b' := by
  rintro rfl
  unfold Bid.Below at h
  omega

theorem mem_higherBids_getD_iff {dice : Nat} {last : Option Bid} {b : Bid}
    (hlast : ∀ l ∈ last, 1 ≤ l.face) : b ∈ State.higherBids dice (last.getD ⟨1, 0⟩) ↔
      b.Within dice ∧ ∀ l ∈ last, l.Below b := by
  rw [mem_higherBids_iff]
  unfold Bid.Within Bid.Below
  cases last with
  | none =>
    simp
    omega
  | some l =>
    have hface := hlast l rfl
    simp
    omega

theorem pairwise_higherBids (dice : Nat) (last : Bid) :
    (State.higherBids dice last).Pairwise Bid.Below := by
  have hrange : ∀ m n, (List.range' m n).Pairwise (· < ·) := fun m n => List.pairwise_lt_range'
  unfold State.higherBids
  rw [List.pairwise_flatMap]
  constructor
  · intro face _
    rw [List.pairwise_map]
    exact ((hrange _ _).filter _).imp fun h => .inr ⟨rfl, h⟩
  · refine (hrange _ _).imp ?_
    intro f f' hlt b hb b' hb'
    obtain ⟨c, -, rfl⟩ := List.mem_map.mp hb
    obtain ⟨c', -, rfl⟩ := List.mem_map.mp hb'
    exact .inl hlt

theorem nodup_higherBids (dice : Nat) (last : Bid) : (State.higherBids dice last).Nodup :=
  (pairwise_higherBids dice last).imp Bid.Below.ne

theorem pairwise_concat {bs : List Bid} {b : Bid} (h : bs.Pairwise Bid.Below)
    (hb : ∀ l ∈ bs.getLast?, l.Below b) : (bs ++ [b]).Pairwise Bid.Below := by
  refine List.pairwise_append.mpr ⟨h, List.pairwise_singleton _ _, fun l hl b' hb' => ?_⟩
  rw [List.mem_singleton.mp hb']
  rcases List.eq_nil_or_concat' bs with rfl | ⟨bs, l', rfl⟩
  · cases hl
  · have hlast : l'.Below b := hb l' (by simp)
    rcases List.mem_append.mp hl with hl | hl
    · exact ((List.pairwise_append.mp h).2.2 l hl l' (List.mem_singleton_self l')).trans hlast
    · rwa [List.mem_singleton.mp hl]

theorem length_higherBids_first (dice : Nat) :
    (State.higherBids dice ⟨1, 0⟩).length = 12 * dice := by
  have hall : ∀ face : Nat, (List.range' 1 (2 * dice)).filter
      (fun count => decide (1 < face) || decide (0 < count)) = List.range' 1 (2 * dice) := by
    intro face
    rw [List.filter_eq_self]
    intro count hcount
    have hpos : 0 < count := (List.mem_range'_1.mp hcount).1
    simp [hpos]
  simp [State.higherBids, faces, hall]
  omega

theorem length_le_of_rising {dice : Nat} {bs : List Bid} (h : bs.Pairwise Bid.Below)
    (hwithin : ∀ b ∈ bs, b.Within dice) : bs.length ≤ 12 * dice := by
  have hsub : bs ⊆ State.higherBids dice ⟨1, 0⟩ := fun b hb =>
    (@mem_higherBids_getD_iff dice none b (by simp)).mpr ⟨hwithin b hb, by simp⟩
  have hnodup : bs.Nodup := h.imp Bid.Below.ne
  rw [← length_higherBids_first]
  exact (hnodup.subperm hsub).length_le

end Bids

section Rolls

theorem mem_of_mem_sortedOver {fs roll : List Char} {n : Nat} {c : Char} (h : roll ∈ sortedOver fs n)
    (hc : c ∈ roll) : c ∈ fs := by
  induction fs, n using sortedOver.induct generalizing roll with
  | case1 fs =>
    simp only [sortedOver, List.mem_singleton] at h
    simp [h] at hc
  | case2 n => simp [sortedOver] at h
  | case3 f fs n ih ih' =>
    simp only [sortedOver, List.mem_append, List.mem_map] at h
    rcases h with ⟨rest, hrest, rfl⟩ | h
    · rcases List.mem_cons.mp hc with rfl | hc
      · exact List.mem_cons_self
      · exact ih hrest hc
    · exact List.mem_cons_of_mem f (ih' h hc)

theorem sortedOver_ne_nil (f : Char) (fs : List Char) (n : Nat) : sortedOver (f :: fs) n ≠ [] := by
  induction n with
  | zero => simp [sortedOver]
  | succ n ih => simp [sortedOver, ih]

theorem isDigit_of_mem_roll {dice : Nat} {roll : List Char} {c : Char} (h : roll ∈ rolls dice)
    (hc : c ∈ roll) : c.isDigit := by
  have hall : ['1', '2', '3', '4', '5', '6'].all Char.isDigit := by decide
  exact List.all_eq_true.mp hall c (mem_of_mem_sortedOver h hc)

theorem not_mem_roll {dice : Nat} {roll : List Char} {c : Char} (h : roll ∈ rolls dice)
    (hc : c.isDigit = false) : c ∉ roll := by
  intro hmem
  rw [isDigit_of_mem_roll h hmem] at hc
  cases hc

theorem splitColon?_deal {dice : Nat} {a : List Char} (ha : a ∈ rolls dice) (b : List Char) :
    Text.splitColon? (String.ofList (a ++ ':' :: b)).toList = some (a, b) := by
  rw [String.toList_ofList, Text.splitColon?_append (not_mem_roll ha (by decide))]

end Rolls

section Replies

def replies (dice : Nat) : Option Bid → List String
  | none => (State.higherBids dice ⟨1, 0⟩).map Bid.text
  | some bid => (State.higherBids dice bid).map Bid.text ++ [liar]

theorem nodup_replies (dice : Nat) (last : Option Bid) : (replies dice last).Nodup := by
  cases last with
  | none => exact (nodup_higherBids dice _).map text_injective
  | some bid =>
    refine List.nodup_append.mpr ⟨(nodup_higherBids dice bid).map text_injective,
      List.nodup_singleton liar, ?_⟩
    intro w hw w' hw'
    obtain ⟨b, -, rfl⟩ := List.mem_map.mp hw
    rw [List.mem_singleton.mp hw']
    exact text_ne_liar b

theorem replies_ne_nil {dice : Nat} (hd : dice ≠ 0) (last : Option Bid) :
    replies dice last ≠ [] := by
  cases last with
  | none =>
    have hmem : (⟨1, 1⟩ : Bid) ∈ State.higherBids dice ⟨1, 0⟩ :=
      mem_higherBids_iff.mpr (by simp [faces]; omega)
    exact List.ne_nil_of_mem (List.mem_map_of_mem hmem)
  | some bid => simp [replies]

end Replies

inductive Line (dice : Nat) : List String → Option Bid → Bool → Prop where
  | opened : Line dice [] none false
  | raised {ws : List String} {last : Option Bid} {b : Bid} (h : Line dice ws last false)
      (hb : b ∈ State.higherBids dice (last.getD ⟨1, 0⟩)) :
      Line dice (ws ++ [b.text]) (some b) false
  | called {ws : List String} {b : Bid} (h : Line dice ws (some b) false) :
      Line dice (ws ++ [liar]) (some b) true

namespace Line

variable {dice : Nat} {ws : List String} {last last' : Option Bid} {ended ended' : Bool} {b : Bid}

theorem getLast?_eq_liar_iff (h : Line dice ws last ended) :
    ws.getLast? = some liar ↔ ended = true := by
  cases h with
  | opened => simp
  | raised h hb => simp [text_ne_liar]
  | called h => simp

/-- The bids of a line rise, so there are no more of them than may open. -/
theorem exists_bids (h : Line dice ws last ended) : ∃ bs : List Bid,
    ws = bs.map Bid.text ++ (if ended then [liar] else []) ∧ last = bs.getLast? ∧
      bs.Pairwise Bid.Below ∧ ∀ b ∈ bs, b.Within dice := by
  induction h with
  | opened => exact ⟨[], by simp⟩
  | @raised ws last b h hb ih =>
    obtain ⟨bs, rfl, rfl, hrise, hwithin⟩ := ih
    have hface : ∀ l ∈ bs.getLast?, 1 ≤ l.face :=
      fun l hl => (hwithin l (List.mem_of_getLast? hl)).1
    obtain ⟨hb, hbelow⟩ := (mem_higherBids_getD_iff hface).mp hb
    refine ⟨bs ++ [b], by simp, by simp, ?_, ?_⟩
    · exact pairwise_concat hrise hbelow
    · simpa [or_imp, forall_and] using ⟨hwithin, hb⟩
  | called h ih =>
    obtain ⟨bs, rfl, hlast, hrest⟩ := ih
    exact ⟨bs, by simp, hlast, hrest⟩

theorem comma_not_mem (h : Line dice ws last ended) {w : String} (hw : w ∈ ws) :
    ',' ∉ w.toList := by
  induction h with
  | opened => cases hw
  | raised h hb ih =>
    rcases List.mem_append.mp hw with hw | hw
    · exact ih hw
    · rw [List.mem_singleton.mp hw]
      exact comma_not_mem_text _
  | called h ih =>
    rcases List.mem_append.mp hw with hw | hw
    · exact ih hw
    · rw [List.mem_singleton.mp hw]
      decide

theorem length_le_of_dice (h : Line dice ws last ended) : ws.length ≤ 12 * dice + 1 := by
  obtain ⟨bs, rfl, -, hrise, hwithin⟩ := h.exists_bids
  have hle := length_le_of_rising hrise hwithin
  cases ended <;> simp <;> omega

theorem isSome_of_ended (h : Line dice ws last true) : last.isSome := by
  cases h
  rfl

theorem unique (h : Line dice ws last false) (h' : Line dice ws last' false) : last = last' := by
  cases h with
  | opened =>
    generalize hw : ([] : List String) = ws at h'
    cases h' with
    | opened => rfl
    | raised _ _ => simp at hw
  | @raised ws _ b _ _ =>
    generalize hw : ws ++ [b.text] = ws' at h'
    cases h' with
    | opened => simp at hw
    | raised _ _ =>
      obtain ⟨-, hw⟩ := List.append_inj' hw rfl
      rw [text_injective (List.singleton_inj.mp hw)]

theorem append (h : Line dice ws last false) (hdice : dice ≤ 9) {a : String}
    (ha : a ∈ replies dice last) :
    ∃ ended, Line dice (ws ++ [a]) (if a = liar then last else readBid? a) ended := by
  have hraise : ∀ b ∈ State.higherBids dice (last.getD ⟨1, 0⟩),
      ∃ ended, Line dice (ws ++ [b.text])
        (if b.text = liar then last else readBid? b.text) ended := by
    intro b hb
    obtain ⟨-, hface, -, hcount, -⟩ := mem_higherBids_iff.mp hb
    have hlimit : 18 < bidLimit := by decide
    rw [if_neg (text_ne_liar b), readBid?_text (by simp only [faces] at hface; omega) (by omega)]
    exact ⟨false, .raised h hb⟩
  cases last with
  | none =>
    obtain ⟨b, hb, rfl⟩ := List.mem_map.mp ha
    exact hraise b hb
  | some bid =>
    rcases List.mem_append.mp ha with ha | ha
    · obtain ⟨b, hb, rfl⟩ := List.mem_map.mp ha
      exact hraise b hb
    · rw [List.mem_singleton.mp ha, if_pos rfl]
      exact ⟨true, .called h⟩

end Line

def ownRoll (seat : Seat) (deal : String) : Option String :=
  (Text.splitColon? deal.toList).map fun (a, b) => String.ofList ((⟨a, b⟩ : PerSeat _).get seat)

theorem exists_rolls_of_mem_deals {dice : Nat} {deal : String} (h : deal ∈ State.deals dice) :
    ∃ a ∈ rolls dice, ∃ b ∈ rolls dice, deal = String.ofList (a ++ ':' :: b) := by
  obtain ⟨a, ha, h⟩ := List.mem_flatMap.mp h
  obtain ⟨b, hb, rfl⟩ := List.mem_map.mp h
  exact ⟨a, ha, b, hb, rfl⟩

theorem ownRoll_deal {dice : Nat} {a : List Char} (ha : a ∈ rolls dice) (b : List Char)
    (seat : Seat) : ownRoll seat (String.ofList (a ++ ':' :: b)) =
      some (String.ofList ((⟨a, b⟩ : PerSeat _).get seat)) := by
  rw [ownRoll, splitColon?_deal ha, Option.map_some]

theorem comma_not_mem_ownRoll {dice : Nat} {seat : Seat} {deal v : String}
    (h : deal ∈ State.deals dice) (hv : ownRoll seat deal = some v) : ',' ∉ v.toList := by
  obtain ⟨a, ha, b, hb, rfl⟩ := exists_rolls_of_mem_deals h
  rw [ownRoll_deal ha] at hv
  cases hv
  rw [String.toList_ofList]
  cases seat with
  | first => exact not_mem_roll ha (by decide)
  | second => exact not_mem_roll hb (by decide)

namespace State

variable {s : State} {seat : Seat} {a : String}

theorem history_step : (s.step a).history = s.history ++ [a] := rfl

theorem hands_step (h : s.player = some (.seat seat)) : (s.step a).hands = s.hands := by
  simp only [step, h, act]
  split_ifs <;> rfl

theorem bid_step (h : s.player = some (.seat seat)) :
    (s.step a).bid = if a = liar then s.bid else readBid? a := by
  simp only [step, h, act]
  split_ifs <;> rfl

end State

structure After (dice : Nat) (deal : String) (ws : List String) (s : State) : Prop where
  hands : ∃ a ∈ rolls dice, ∃ b ∈ rolls dice, deal = String.ofList (a ++ ':' :: b) ∧
    s.hands = some ⟨a, b⟩
  history_eq : s.history = deal :: ws
  line : ∃ ended, Line dice ws s.bid ended

namespace After

variable {dice : Nat} {deal deal' a : String} {ws : List String} {s s' : State} {seat : Seat}

theorem ne_liar (h : After dice deal ws s) : deal ≠ liar := by
  obtain ⟨a, -, b, -, rfl, -⟩ := h.hands
  intro heq
  have hcolon : ':' ∈ (String.ofList (a ++ ':' :: b)).toList := by simp
  rw [heq] at hcolon
  revert hcolon
  decide

theorem player_eq (h : After dice deal ws s) : s.player =
    if ws.getLast? = some liar then none
    else if ws.length % 2 = 0 then some (.seat .first)
    else some (.seat .second) := by
  obtain ⟨a, -, b, -, -, hh⟩ := h.hands
  have hlast := getLast?_deal h.ne_liar ws
  have hodd : (ws.length + 1) % 2 = 0 ↔ ¬ws.length % 2 = 0 := by omega
  by_cases hl : ws.getLast? = some liar
  · simp [State.player, h.history_eq, hlast, hl]
  · by_cases hw : ws.length % 2 = 0
    · simp [State.player, h.history_eq, hlast, hl, hh, hodd, hw]
    · simp [State.player, h.history_eq, hlast, hl, hh, hodd, hw]

theorem exists_seat (h : After dice deal ws s) (hp : s.player ≠ none) :
    ∃ seat, s.player = some (.seat seat) := by
  rw [h.player_eq] at hp ⊢
  split_ifs at hp ⊢
  · exact absurd rfl hp
  · exact ⟨.first, rfl⟩
  · exact ⟨.second, rfl⟩

theorem player_eq_none_iff (h : After dice deal ws s) {ended : Bool}
    (hl : Line dice ws s.bid ended) : s.player = none ↔ ended = true := by
  rw [h.player_eq, ← hl.getLast?_eq_liar_iff]
  split_ifs with hlast <;> simp [hlast]

theorem line_of_player_ne_none (h : After dice deal ws s) (hp : s.player ≠ none) :
    Line dice ws s.bid false := by
  obtain ⟨ended, hl⟩ := h.line
  cases ended with
  | false => exact hl
  | true => exact absurd ((h.player_eq_none_iff hl).mpr rfl) hp

theorem player_ne_chance (h : After dice deal ws s) : s.player ≠ some .chance := by
  intro hp
  obtain ⟨seat, hseat⟩ := h.exists_seat (by simp [hp])
  cases hseat.symm.trans hp

theorem actions_eq (h : After dice deal ws s) (hp : s.player ≠ none) :
    s.actions dice = replies dice s.bid := by
  obtain ⟨seat, hseat⟩ := h.exists_seat hp
  rw [State.actions, hseat]
  rfl

theorem actions_congr (h : After dice deal ws s) (h' : After dice deal' ws s')
    (hp : s.player = some (.seat seat)) : s.actions dice = s'.actions dice := by
  have hp' : s'.player = some (.seat seat) := (h'.player_eq.trans h.player_eq.symm).trans hp
  have hne : s.player ≠ none := by simp [hp]
  have hne' : s'.player ≠ none := by simp [hp']
  rw [h.actions_eq hne, h'.actions_eq hne',
    (h.line_of_player_ne_none hne).unique (h'.line_of_player_ne_none hne')]

theorem step (h : After dice deal ws s) (hdice : dice ≤ 9) (hp : s.player ≠ none)
    (ha : a ∈ s.actions dice) : After dice deal (ws ++ [a]) (s.step a) := by
  have hl := h.line_of_player_ne_none hp
  rw [h.actions_eq hp] at ha
  obtain ⟨seat, hseat⟩ := h.exists_seat hp
  refine ⟨?_, ?_, ?_⟩
  · rw [State.hands_step hseat]
    exact h.hands
  · rw [State.history_step, h.history_eq, List.cons_append]
  · rw [State.bid_step hseat]
    exact hl.append hdice ha

theorem observation_eq (h : After dice deal ws s) (hp : s.player = some (.seat seat)) :
    ∃ v, ownRoll seat deal = some v ∧ s.observation = some (seen v ws) := by
  obtain ⟨a, ha, b, -, rfl, hh⟩ := h.hands
  exact ⟨_, ownRoll_deal ha b seat, by simp [State.observation, hp, hh, h.history_eq]⟩

theorem isSome_payoff {R : Type} [Scalar R] (h : After dice deal ws s) (hp : s.player = none) :
    (s.payoff (R := R)).isSome := by
  obtain ⟨ended, hl⟩ := h.line
  rw [(h.player_eq_none_iff hl).mp hp] at hl
  simp [State.payoff, hp, hl.isSome_of_ended]

end After

section Game

variable {R : Type} [Scalar R] {dice : Nat} {deal : String} {ws : List String}

theorem answers_start : (game (R := R) dice).Answers .start := by
  constructor
  · intro hp
    cases hp
  · intro _
    obtain ⟨a, ha⟩ := List.exists_mem_of_ne_nil (rolls dice) (sortedOver_ne_nil _ _ _)
    exact List.ne_nil_of_mem (List.mem_flatMap.mpr ⟨a, ha, List.mem_map_of_mem ha⟩)
  · intro _ deal hdeal
    obtain ⟨a, ha, b, -, rfl⟩ := exists_rolls_of_mem_deals (show deal ∈ State.deals dice from hdeal)
    have hp : State.start.player = some .chance := rfl
    show (State.chanceProb (R := R) dice .start _).isSome
    simp only [State.chanceProb, hp, splitColon?_deal ha]
    rfl
  · intro seat hp
    cases hp

theorem after_deal (h : deal ∈ State.deals dice) :
    After dice deal [] ((game (R := R) dice).step .start deal) := by
  obtain ⟨a, ha, b, hb, rfl⟩ := exists_rolls_of_mem_deals h
  have hact : State.act .start (String.ofList (a ++ ':' :: b)) .chance =
      { State.start with hands := some ⟨a, b⟩ } := by
    simp only [State.act, splitColon?_deal ha]
  have hstep : (game (R := R) dice).step .start (String.ofList (a ++ ':' :: b)) =
      { State.act .start (String.ofList (a ++ ':' :: b)) .chance with
        history := [String.ofList (a ++ ':' :: b)] } := rfl
  rw [hstep, hact]
  exact ⟨⟨a, ha, b, hb, rfl, rfl⟩, rfl, false, .opened⟩

theorem after_of_legal (hdice : dice ≤ 9)
    (h : (game (R := R) dice).Legal .start (deal :: ws)) :
    After dice deal ws ((game (R := R) dice).play .start (deal :: ws)) :=
  h.2.2.invariant (after_deal h.2.1) fun ht hp ha => ht.step hdice hp ha

theorem dealt (hdice : dice ≤ 9) : Dealt (game (R := R) dice) .start ownRoll := by
  constructor
  · rfl
  · intro deal deal' ws hl hl'
    exact (after_of_legal hdice hl).player_eq.trans (after_of_legal hdice hl').player_eq.symm
  · intro seat deal deal' ws ht ht'
    exact (after_of_legal hdice ht.legal).actions_congr (after_of_legal hdice ht'.legal) ht.player
  · intro seat deal ws ht
    exact (after_of_legal hdice ht.legal).observation_eq ht.player
  · intro seat deal deal' v v' hl hl' hv hv'
    exact told_of_not_mem (comma_not_mem_ownRoll hl.2.1 hv) (comma_not_mem_ownRoll hl'.2.1 hv')
  · intro deal deal' ws w w' hl hl'
    obtain ⟨_, hline⟩ := (after_of_legal hdice hl).line
    obtain ⟨_, hline'⟩ := (after_of_legal hdice hl').line
    exact told_of_not_mem (hline.comma_not_mem (by simp)) (hline'.comma_not_mem (by simp))

theorem answers_of_legal (hdice : dice ≤ 9) (hpos : dice ≠ 0)
    (h : (game (R := R) dice).Legal .start (deal :: ws)) :
    (game (R := R) dice).Answers ((game (R := R) dice).play .start (deal :: ws)) := by
  have ha := after_of_legal hdice h
  constructor
  · exact ha.isSome_payoff
  · exact fun hp => (ha.actions_eq hp).trans_ne (replies_ne_nil hpos _)
  · exact fun hp => absurd hp ha.player_ne_chance
  · exact fun seat hp => (dealt hdice).shows.isSome_observation ⟨h, hp⟩

theorem playable (hdice : dice ≤ 9) (hpos : dice ≠ 0) : (game (R := R) dice).Playable .start := by
  refine (dealt hdice).playable (12 * dice + 1) ?_ answers_start
    (fun deal ws => answers_of_legal hdice hpos) ?_
  · intro deal ws h
    obtain ⟨_, hline⟩ := (after_of_legal hdice h).line
    exact hline.length_le_of_dice
  · intro seat deal ws ht
    have hp := ht.player.trans_ne (Option.some_ne_none _)
    show (State.actions dice _).Nodup
    rw [(after_of_legal hdice ht.legal).actions_eq hp]
    exact nodup_replies dice _

end Game

end ExtensiveForm.Games.LiarsDice
