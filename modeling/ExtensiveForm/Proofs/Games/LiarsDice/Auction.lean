import ExtensiveForm.Proofs.Games.LiarsDice

set_option autoImplicit false

namespace ExtensiveForm.Games.LiarsDice

variable {R : Type} [Scalar R] {dice : Nat} {a b : List Char} {bs : List Bid} {bid : Bid}
  {ws as : List String} {deal : String} {s : State} {seat : Seat}

section Offer

theorem exists_replies_eq {last : Option Bid} (hlast : ∀ l ∈ last, 1 ≤ l.face) : ∃ next : List Bid,
    replies dice last = next.map Bid.text ++ (if last.isSome then [liar] else []) ∧
      next.Pairwise Bid.Below ∧ ∀ b, b ∈ next ↔ b.Within dice ∧ ∀ l ∈ last, l.Below b := by
  refine ⟨State.higherBids dice (last.getD ⟨1, 0⟩), ?_, pairwise_higherBids dice _,
    fun b => mem_higherBids_getD_iff hlast⟩
  cases last with
  | none => simp [replies]
  | some l => simp [replies]

end Offer

section Settlement

def settled (shown : List Char) (bid : Bid) (maker : Seat) : R :=
  if bid.count ≤ shown.count (Nat.digitChar bid.face) ↔ maker = .first then 1 else -1

theorem State.player_eq_none_iff (s : State) : s.player = none ↔ s.history.getLast? = some liar := by
  unfold State.player
  split_ifs with hlast <;> simp [hlast]

theorem showing_eq (hh : s.hands = some ⟨a, b⟩) (hface : bid.face ≤ faces) :
    s.showing bid.face = (a ++ b).count (Nat.digitChar bid.face) := by
  have hdigit : ¬10 ≤ bid.face := by
    simp only [faces] at hface
    omega
  simp [State.showing, hh, hdigit]

theorem After.eq_first_iff (h : After dice deal ws s) (hp : s.player = some (.seat seat)) :
    seat = .first ↔ ws.length % 2 = 0 := by
  rw [h.player_eq] at hp
  split_ifs at hp with hlast heven
  · cases hp
    simp [heven]
  · cases hp
    simp [heven]

/-- The number of actions tells who made the last bid. -/
theorem payoff_of_called (hh : s.hands = some ⟨a, b⟩) (hbid : s.bid = some bid)
    (hface : bid.face ≤ faces) (hlen : s.history.length % 2 = 1 ↔ seat = .first)
    (hp : s.player = none) : s.payoff = some (settled (a ++ b) bid seat : R) := by
  simp [State.payoff, hp, hbid, showing_eq hh hface, settled, hlen]

end Settlement

section Game

/-- A play after a roll: bids that rise, of which the state keeps the last, and at most the call. -/
structure Auction (R : Type) [Scalar R] (dice : Nat) (a b : List Char) (bs : List Bid)
    (as : List String) (s : State) : Prop where
  rolls : a ∈ rolls dice ∧ b ∈ rolls dice
  history_eq : s.history = as
  said : as = String.ofList (a ++ ':' :: b) ::
    (bs.map Bid.text ++ if s.player = none then [liar] else [])
  bid_eq : s.bid = bs.getLast?
  rising : bs.Pairwise Bid.Below
  within : ∀ bid ∈ bs, bid.Within dice
  length_le : bs.length ≤ 12 * dice
  actions_eq : s.player ≠ none → ∃ next : List Bid,
    s.actions dice = next.map Bid.text ++ (if s.bid.isSome then [liar] else []) ∧
      next.Pairwise Bid.Below ∧
      ∀ bid, bid ∈ next ↔ bid.Within dice ∧ ∀ last ∈ s.bid, last.Below bid
  payoff_eq : s.player = none → ∃ bid maker, s.bid = some bid ∧
    (game (R := R) dice).Turn .start maker
      (String.ofList (a ++ ':' :: b) :: bs.dropLast.map Bid.text) ∧
    (game dice).payoff s = some (settled (a ++ b) bid maker : R)

theorem exists_maker (hdice : dice ≤ 9)
    (h : (game (R := R) dice).Legal .start (deal :: ((bs ++ [bid]).map Bid.text ++ [liar]))) :
    ∃ maker, (game (R := R) dice).Turn .start maker (deal :: bs.map Bid.text) ∧
      (maker = .first ↔ bs.length % 2 = 0) := by
  have hsplit : deal :: ((bs ++ [bid]).map Bid.text ++ [liar]) =
      (deal :: bs.map Bid.text) ++ [bid.text, liar] := by simp
  rw [hsplit, Game.legal_append_iff] at h
  obtain ⟨hl, hopen, -⟩ := h
  have hafter := after_of_legal hdice hl
  obtain ⟨maker, hmaker⟩ := hafter.exists_seat hopen
  refine ⟨maker, ⟨hl, hmaker⟩, ?_⟩
  rw [hafter.eq_first_iff hmaker, List.length_map]

theorem exists_auction (hdice : dice ≤ 9) (h : (game (R := R) dice).Legal .start (deal :: ws)) :
    ∃ a b bs, Auction R dice a b bs (deal :: ws)
      ((game (R := R) dice).play .start (deal :: ws)) := by
  have hafter := after_of_legal hdice h
  generalize (game (R := R) dice).play .start (deal :: ws) = s at hafter
  obtain ⟨a, ha, b, hb, rfl, hh⟩ := hafter.hands
  obtain ⟨ended, hline⟩ := hafter.line
  have hend := hafter.player_eq_none_iff hline
  obtain ⟨bs, rfl, hbid, hrise, hwithin⟩ := hline.exists_bids
  refine ⟨a, b, bs, ?_⟩
  constructor
  · exact ⟨ha, hb⟩
  · exact hafter.history_eq
  · simp [hend]
  · exact hbid
  · exact hrise
  · exact hwithin
  · exact length_le_of_rising hrise hwithin
  · intro hp
    rw [hafter.actions_eq hp]
    refine exists_replies_eq fun l hl => ?_
    rw [hbid] at hl
    exact (hwithin l (List.mem_of_getLast? hl)).1
  · intro hp
    rw [hend.mp hp] at hline h hafter
    obtain ⟨bid, hlast⟩ := Option.isSome_iff_exists.mp hline.isSome_of_ended
    obtain ⟨bs, rfl⟩ := List.getLast?_eq_some_iff.mp (hbid.symm.trans hlast)
    have hface : bid.face ≤ faces := (hwithin bid (by simp)).2.1
    obtain ⟨maker, hmaker, hfirst⟩ := exists_maker hdice h
    refine ⟨bid, maker, hlast, by simpa using hmaker, ?_⟩
    -- the deal, the last bid and the call are odd in number
    have hlen : s.history.length % 2 = 1 ↔ maker = .first := by
      rw [hafter.history_eq, hfirst]
      simp
      omega
    exact payoff_of_called hh hlast hface hlen hp

/-- A play of liar's dice is a roll, bids that rise and the call, and can always be played so far. -/
theorem auction_of_legal {n : Nat} (hn : readDice n = .ok dice)
    (h : (game (R := R) dice).Legal .start as) :
    (∃ more, (game (R := R) dice).Complete .start (as ++ more)) ∧
    ((game (R := R) dice).Complete .start as ↔ as.getLast? = some liar) ∧
    (as ≠ [] → ∃ a b bs, Auction R dice a b bs as ((game (R := R) dice).play .start as)) := by
  obtain ⟨hpos, hdice⟩ := of_readDice hn
  refine ⟨(playable hdice hpos).exists_complete h, ?_, ?_⟩
  · rw [(playable hdice hpos).complete_iff h]
    change State.player _ = none ↔ _
    rw [State.player_eq_none_iff]
    cases as with
    | nil => rfl
    | cons deal ws => rw [(after_of_legal hdice h).history_eq]
  · intro hne
    obtain ⟨deal, ws, rfl⟩ := List.exists_cons_of_ne_nil hne
    exact exists_auction hdice h

def falseSix : List String := ["3:5", "5:1", "6:1", "liar"]

theorem auction_falseSix : readDice 1 = .ok 1 ∧
    (game (R := Rat) 1).Legal .start falseSix ∧ (game (R := Rat) 1).Complete .start falseSix ∧
    ∃ a b bs, Auction Rat 1 a b bs falseSix ((game (R := Rat) 1).play .start falseSix) := by
  have hn : readDice 1 = .ok 1 := by decide
  have hl : (game (R := Rat) 1).Legal .start falseSix := by
    refine ⟨by decide, ?_, by decide, by decide, by decide, by decide, by decide, by decide, trivial⟩
    show "3:5" ∈ State.deals 1
    simp only [State.deals, rolls, sortedOver]
    decide
  obtain ⟨-, hcomplete, hauction⟩ := auction_of_legal hn hl
  exact ⟨hn, hl, hcomplete.mpr rfl, hauction (by decide)⟩

end Game

end ExtensiveForm.Games.LiarsDice
