import Mathlib.Data.List.TakeWhile
import ExtensiveForm.Proofs.Games.Leduc.Cards

set_option autoImplicit false

namespace ExtensiveForm.Games.Leduc

section Words

def isBetting (w : String) : Bool := w ∈ ["Check", "Raise", "Fold", "Call"]

def earlyWords (ws : List String) : List String := ws.takeWhile isBetting

def lateWords (ws : List String) : List String := (ws.dropWhile isBetting).tail

def roundWords (ws : List String) : List String :=
  if ∀ w ∈ ws, isBetting w then ws else lateWords ws

def speaker (k : Nat) : Seat := if k % 2 = 0 then .first else .second

def told (size : Nat) (seat : Seat) (bets : PerSeat Nat) (w : String) : PerSeat Nat :=
  if w = "Raise" then bets.set seat (bets.get seat.opponent + size)
  else if w = "Call" then bets.set seat (bets.get seat.opponent)
  else bets

/-- The bets after the words of a round, which the seats say in turn. -/
def betsAfter (size : Nat) (bets : PerSeat Nat) (ws : List String) : PerSeat Nat :=
  (ws.mapIdx fun k w => (speaker k, w)).foldl (fun bets said => told size said.1 bets said.2) bets

def betsOf (ws : List String) : PerSeat Nat :=
  betsAfter 4 (betsAfter 2 (.both 1) (earlyWords ws)) (lateWords ws)

@[simp] theorem betsAfter_nil (size : Nat) (bets : PerSeat Nat) : betsAfter size bets [] = bets := rfl

theorem betsAfter_concat (size : Nat) (bets : PerSeat Nat) (ws : List String) (w : String) :
    betsAfter size bets (ws ++ [w]) = told size (speaker ws.length) (betsAfter size bets ws) w := by
  simp [betsAfter, List.mapIdx_append]

theorem speaker_succ (k : Nat) : speaker (k + 1) = (speaker k).opponent := by
  by_cases hk : k % 2 = 0
  · have hodd : (k + 1) % 2 ≠ 0 := by omega
    simp [speaker, hk, hodd, Seat.opponent]
  · have heven : (k + 1) % 2 = 0 := by omega
    simp [speaker, hk, heven, Seat.opponent]

variable {early late : List String} {w : String}

theorem words_of_forall (h : ∀ w ∈ early, isBetting w) :
    earlyWords early = early ∧ lateWords early = [] ∧ roundWords early = early := by
  have hround : roundWords early = early := if_pos h
  simp [earlyWords, lateWords, hround, List.takeWhile_eq_self_iff.mpr h,
    List.dropWhile_eq_nil_iff.mpr h]

theorem words_append_cons (h : ∀ w ∈ early, isBetting w) (hw : isBetting w = false) :
    earlyWords (early ++ w :: late) = early ∧ lateWords (early ++ w :: late) = late ∧
      roundWords (early ++ w :: late) = late := by
  have hround : roundWords (early ++ w :: late) = lateWords (early ++ w :: late) :=
    if_neg fun hall => by simp [hall w (by simp)] at hw
  simp [hround, earlyWords, lateWords, List.takeWhile_append_of_pos h,
    List.dropWhile_append_of_pos h, hw]

theorem isBetting_toString (c : Char) : isBetting c.toString = false := by
  have hlen : ∀ w ∈ ["Check", "Raise", "Fold", "Call"], w.toList.length ≠ 1 := by decide
  rw [isBetting, decide_eq_false_iff_not]
  intro hc
  exact hlen _ hc (by simp)

theorem isBetting_of_mem_replies {raises : Nat} (h : w ∈ Phase.replies raises) : isBetting w := by
  have hall : ∀ w ∈ ["Check", "Raise", "Fold", "Call"], isBetting w := by decide
  refine hall w ?_
  rcases raises with _ | _ | raises
  all_goals
    simp [Phase.replies] at h ⊢
    tauto

end Words

theorem Phase.next_of_chance {p : Phase} {w : String} (hp : p.player = some .chance) :
    p.next w = .betting true false 0 .first := by
  cases p with
  | betting => cases hp
  | reveal => rfl
  | finished => cases hp

def Stakes (ws : List String) (bets : PerSeat Nat) : Phase → Prop
  | .betting _ _ raises seat =>
    seat = speaker ws.length ∧ ws.count "Raise" = raises ∧ raises ≤ 2 ∧
      if raises = 0 then bets.first = bets.second else bets.get seat < bets.get seat.opponent
  | .reveal => ws.count "Raise" ≤ 2 ∧ bets.first = bets.second
  | .finished => ws.count "Raise" ≤ 2 ∧ (ws.getLast? ≠ some "Fold" → bets.first = bets.second)

namespace Stakes

variable {ws : List String} {bets : PerSeat Nat} {late checked : Bool} {raises size : Nat}
  {seat : Seat} {w : String}

theorem count_le {p : Phase} (h : Stakes ws bets p) : ws.count "Raise" ≤ 2 := by
  cases p with
  | betting =>
    obtain ⟨-, hcount, hle, -⟩ := h
    omega
  | reveal => exact h.1
  | finished => exact h.1

theorem seat_eq {p : Phase} (h : Stakes ws bets p) (hp : p.player = some (.seat seat)) :
    seat = speaker ws.length := by
  cases p with
  | betting =>
    cases hp
    exact h.1
  | reveal => cases hp
  | finished => cases hp

theorem level {p : Phase} (h : Stakes ws bets p) (hp : p.player = some .chance) :
    bets.first = bets.second := by
  cases p with
  | betting => cases hp
  | reveal => exact h.2
  | finished => cases hp

/-- Nobody folds unless there is a raise to answer. -/
theorem fold_lt {p : Phase} {s : State} {ranks : List Char} (h : Stakes ws s.bets p) (hat : At p s)
    (hp : s.player = some (.seat seat)) (hfold : "Fold" ∈ s.actions ranks) :
    s.bets.get seat < s.bets.get seat.opponent := by
  rw [hat.player_eq] at hp
  cases hat with
  | @betting _ _ raises _ _ hround =>
    cases hp
    rw [hround.actions_eq] at hfold
    have hraises : raises ≠ 0 := by
      rintro rfl
      simp [Phase.replies] at hfold
    simpa [hraises] using h.2.2.2
  | reveal => cases hp
  | finished => cases hp

theorem speaker_concat (h : Stakes ws bets (.betting late checked raises seat)) (w : String) :
    seat.opponent = speaker (ws ++ [w]).length := by
  rw [List.length_append, List.length_singleton, speaker_succ, h.1]

theorem raise (h : Stakes ws bets (.betting late checked raises seat)) (hsize : 0 < size)
    (hr : raises < 2) : Stakes (ws ++ ["Raise"]) (told size seat bets "Raise")
      (.betting late checked (raises + 1) seat.opponent) := by
  refine ⟨h.speaker_concat _, by simp [h.2.1], hr, ?_⟩
  simp [told]
  omega

theorem check (h : Stakes ws bets (.betting late checked 0 seat)) :
    Stakes (ws ++ ["Check"]) bets (.betting late true 0 seat.opponent) := by
  exact ⟨h.speaker_concat _, by simp [h.2.1], by omega, h.2.2.2⟩

theorem fold (h : Stakes ws bets (.betting late checked raises seat)) :
    Stakes (ws ++ ["Fold"]) bets .finished := by
  obtain ⟨-, hcount, hle, -⟩ := h
  exact ⟨by simp [hcount, hle], by simp⟩

theorem endRound (h : Stakes ws bets (.betting late checked raises seat)) {bets' : PerSeat Nat}
    (hw : w ≠ "Raise") (hlevel : bets'.first = bets'.second) :
    Stakes (ws ++ [w]) bets' (if late then .finished else .reveal) := by
  have hcount : (ws ++ [w]).count "Raise" ≤ 2 := by
    simpa [List.count_append, List.count_singleton, hw] using h.count_le
  cases late with
  | true => exact ⟨hcount, fun _ => hlevel⟩
  | false => exact ⟨hcount, hlevel⟩

theorem level_call (bets : PerSeat Nat) (seat : Seat) :
    (told size seat bets "Call").first = (told size seat bets "Call").second := by
  cases seat <;> simp [told, PerSeat.set, PerSeat.get, Seat.opponent]

theorem next (h : Stakes ws bets (.betting late checked raises seat)) (hsize : 0 < size)
    (hw : w ∈ Phase.replies raises) :
    Stakes (ws ++ [w]) (told size seat bets w) (Phase.next (.betting late checked raises seat) w) := by
  have hfold : Stakes (ws ++ ["Fold"]) (told size seat bets "Fold")
      (Phase.next (.betting late checked raises seat) "Fold") := by
    simpa [told, Phase.next] using h.fold
  have hcall : Stakes (ws ++ ["Call"]) (told size seat bets "Call")
      (Phase.next (.betting late checked raises seat) "Call") := by
    simpa [Phase.next] using h.endRound (by decide) (level_call bets seat)
  rcases raises with _ | _ | raises
  · rcases List.mem_pair.mp hw with rfl | rfl
    · cases checked with
      | false => simpa [told, Phase.next] using h.check
      | true => simpa [told, Phase.next] using h.endRound (w := "Check") (by decide) h.2.2.2
    · exact h.raise hsize (by omega)
  · simp only [Phase.replies, List.mem_cons, List.not_mem_nil, or_false] at hw
    rcases hw with rfl | rfl | rfl
    · exact hfold
    · exact hcall
    · exact h.raise hsize (by omega)
  · rcases List.mem_pair.mp hw with rfl | rfl
    · exact hfold
    · exact hcall

end Stakes

section Act

variable {s : State} {seat : Seat} {w : String}

theorem bets_endRound (s : State) : s.endRound.bets = s.bets := by
  unfold State.endRound
  split_ifs <;> rfl

theorem community_endRound (s : State) : s.endRound.community = s.community := by
  unfold State.endRound
  split_ifs <;> rfl

theorem bets_act (s : State) (seat : Seat) (w : String) :
    (s.act seat w).bets = told s.raiseSize seat s.bets w := by
  unfold State.act told
  split_ifs with hraise hcheck hcall hcall
  · rfl
  · rw [hcheck.1] at hcall
    exact absurd hcall (by decide)
  · exact bets_endRound s
  · exact bets_endRound _
  · rfl
  · rfl

theorem community_act (s : State) (seat : Seat) (w : String) :
    (s.act seat w).community = s.community := by
  unfold State.act
  split_ifs
  · rfl
  · exact community_endRound s
  · exact community_endRound _
  · rfl
  · rfl

end Act

inductive Ledger (ranks : List Char) (a b : Char) : List String → Phase → State → Prop where
  | early {ws : List String} {p : Phase} {s : State} (hcard : s.community = none)
      (hwords : ∀ w ∈ ws, isBetting w) (hbets : s.bets = betsAfter 2 (.both 1) ws)
      (hstakes : Stakes ws s.bets p) : Ledger ranks a b ws p s
  | late {early ws : List String} {c : Char} {p : Phase} {s : State}
      (hcard : s.community = some c) (hmem : c ∈ ranks) (hleft : ¬(a = b ∧ b = c))
      (hearly : ∀ w ∈ early, isBetting w) (hcount : early.count "Raise" ≤ 2)
      (hwords : ∀ w ∈ ws, isBetting w)
      (hbets : s.bets = betsAfter 4 (betsAfter 2 (.both 1) early) ws)
      (hstakes : Stakes ws s.bets p) : Ledger ranks a b (early ++ c.toString :: ws) p s

namespace Ledger

variable {ranks : List Char} {a b : Char} {ws : List String} {p : Phase} {s : State} {w : String}

theorem step_betting {late checked : Bool} {raises : Nat} {seat : Seat}
    (h : Ledger ranks a b ws (.betting late checked raises seat) s)
    (hround : InRound late checked raises seat s) (hw : w ∈ Phase.replies raises) :
    Ledger ranks a b (ws ++ [w]) (Phase.next (.betting late checked raises seat) w) (s.step w) := by
  have hcommunity : (s.step w).community = s.community := by
    rw [hround.step_eq]
    exact community_act s seat w
  have hact : (s.step w).bets = told s.raiseSize seat s.bets w := by
    rw [hround.step_eq]
    exact bets_act s seat w
  have hsome := hround.isSome_community
  have hflop := hround.flop_eq
  have hbetting := isBetting_of_mem_replies hw
  cases h with
  | early hcard hwords hbets hstakes =>
    have hsize : s.raiseSize = 2 := by
      simp [State.raiseSize, hflop, ← hsome, hcard]
    rw [hsize] at hact
    refine .early (hcommunity.trans hcard) ?_ ?_ ?_
    · simpa [or_imp, forall_and] using ⟨hwords, hbetting⟩
    · rw [hact, betsAfter_concat, ← hbets, ← hstakes.1]
    · rw [hact]
      exact hstakes.next (by omega) hw
  | @late early ws c _ _ hcard hmem hleft hearly hcount hwords hbets hstakes =>
    have hsize : s.raiseSize = 4 := by
      simp [State.raiseSize, hflop, ← hsome, hcard]
    rw [hsize] at hact
    rw [List.append_assoc, List.cons_append]
    refine .late (hcommunity.trans hcard) hmem hleft hearly hcount ?_ ?_ ?_
    · simpa [or_imp, forall_and] using ⟨hwords, hbetting⟩
    · rw [hact, betsAfter_concat, ← hbets, ← hstakes.1]
    · rw [hact]
      exact hstakes.next (by omega) hw

theorem step_reveal (h : Ledger ranks a b ws .reveal s) (hcommunity : s.community = none)
    (hp : s.player = some .chance) (hhistory : s.history ≠ []) {c : Char} (hc : c ∈ ranks)
    (hleft : ¬(a = b ∧ b = c)) :
    Ledger ranks a b (ws ++ [c.toString]) (.betting true false 0 .first) (s.step c.toString) := by
  have hstep : s.step c.toString = { s with
      community := some c, history := s.history ++ [c.toString], last := some .chance } := by
    simp [State.step, State.reveal, hp, hhistory]
  rw [hstep]
  cases h with
  | early hcard hwords hbets hstakes =>
    refine .late rfl hc hleft hwords hstakes.1 (by simp) ?_ ?_
    · rw [betsAfter_nil, ← hbets]
    · exact ⟨rfl, rfl, by omega, hstakes.2⟩
  | late hcard => simp [hcommunity] at hcard

theorem step (h : Ledger ranks a b ws p s) (hat : At p s)
    (hafter : After ranks (String.ofList [a, b]) ws s) (hw : w ∈ s.actions ranks) :
    Ledger ranks a b (ws ++ [w]) (p.next w) (s.step w) := by
  have hplayer := hat.player_eq
  cases hat with
  | betting hround =>
    rw [hround.actions_eq] at hw
    exact h.step_betting hround hw
  | reveal hended hflop hcommunity hraises hhistory =>
    rw [actions_of_player_eq_chance hplayer hhistory, hafter.flops_eq] at hw
    obtain ⟨c, hc, rfl⟩ := List.mem_map.mp hw
    obtain ⟨hmem, hleft⟩ := List.mem_filter.mp hc
    exact h.step_reveal hcommunity hplayer hhistory hmem (of_decide_eq_true hleft)
  | finished => simp [State.actions, hplayer, Phase.player] at hw

theorem words (h : Ledger ranks a b ws p s) : (earlyWords ws).count "Raise" ≤ 2 ∧
    (lateWords ws).count "Raise" ≤ 2 ∧ s.bets = betsOf ws ∧ Stakes (roundWords ws) s.bets p := by
  cases h with
  | early hcard hwords hbets hstakes =>
    obtain ⟨hearly, hlate, hround⟩ := words_of_forall hwords
    rw [betsOf, hearly, hlate, hround]
    exact ⟨hstakes.count_le, by simp, hbets, hstakes⟩
  | @late _ _ c _ _ hcard hmem hleft hwords hcount _ hbets hstakes =>
    obtain ⟨hearly, hlate, hround⟩ := words_append_cons hwords (isBetting_toString c)
    rw [betsOf, hearly, hlate, hround]
    exact ⟨hcount, hstakes.count_le, hbets, hstakes⟩

end Ledger

section Settlement

variable {R : Type} [Scalar R] {ranks : List Char} {a b c : Char} {s : State}

def forfeit (bets : PerSeat Nat) : Seat → R
  | .first => -Scalar.ofNat bets.first
  | .second => Scalar.ofNat bets.second

/-- How the first seat fares at a showdown: a pair with the community card wins, else the rank that
stands later in the list. -/
def verdict (ranks : List Char) (a b c : Char) : Ordering :=
  if a = c then .gt else if b = c then .lt else compare (ranks.idxOf a) (ranks.idxOf b)

def share (bet : Nat) : Ordering → R
  | .gt => Scalar.ofNat bet
  | .lt => -Scalar.ofNat bet
  | .eq => 0

theorem verdict_eq_iff (ha : a ∈ ranks) (hleft : ¬(a = b ∧ b = c)) :
    verdict ranks a b c = .eq ↔ a = b := by
  unfold verdict
  split_ifs with hac hbc
  · subst hac
    simpa [eq_comm] using hleft
  · subst hbc
    simpa using hac
  · rw [compare_eq_iff_eq, List.idxOf_inj ha]

theorem showdown_eq (ha : a ∈ ranks) (hb : b ∈ ranks) (hfirst : s.hole? .first = some a)
    (hsecond : s.hole? .second = some b) (hcard : s.community = some c) :
    s.showdown ranks = some (share s.bets.first (verdict ranks a b c) : R) := by
  simp only [State.showdown, hfirst, hsecond, hcard, rank?_of_mem ha, rank?_of_mem hb,
    Option.bind_eq_bind, Option.bind_some, Option.pure_def, verdict]
  split_ifs with hac hbc hlt hgt
  · rfl
  · rfl
  · rw [compare_gt_iff_gt.mpr hlt]
    rfl
  · rw [compare_lt_iff_lt.mpr hgt]
    rfl
  · rw [compare_eq_iff_eq.mpr (by omega)]
    rfl

end Settlement

section Game

variable {R : Type} [Scalar R] {ranks : List Char} {a b : Char} {ws as : List String} {p : Phase}
  {s : State} {seat : Seat} {w : String}

theorem ledger_of_legal
    (h : (game (R := R) ranks).Legal .start (String.ofList [a, b] :: ws)) :
    Ledger ranks a b ws (ws.foldl Phase.next .first)
      ((game (R := R) ranks).play .start (String.ofList [a, b] :: ws)) := by
  have hstart : Ledger ranks a b [] Phase.first
      ((game (R := R) ranks).step .start (String.ofList [a, b])) := by
    refine .early rfl (by simp) rfl ⟨rfl, rfl, by omega, rfl⟩
  have hrun := h.2.2.invariant (P := fun ws s => After ranks (String.ofList [a, b]) ws s ∧
    Ledger ranks a b ws (ws.foldl Phase.next .first) s)
    ⟨after_deal (exists_cards_of_mem_deals h.2.1), hstart⟩ ?_
  · exact hrun.2
  · rintro ws s w ⟨hafter, hledger⟩ - hw
    refine ⟨hafter.step hw, ?_⟩
    rw [List.foldl_concat]
    exact hledger.step hafter.phase hafter hw

/-- How a play ends: a fold costs the folder its bet, and whoever loses a showdown pays the bet that
both have made. -/
inductive Ending (R : Type) [Scalar R] (ranks : List Char) (s : State) : List String → Prop where
  | fold {seat : Seat} {as : List String} (turn : (game (R := R) ranks).Turn .start seat as)
      (payoff_eq : (game ranks).payoff s = some (forfeit s.bets seat : R)) :
      Ending R ranks s (as ++ ["Fold"])
  | showdown {a b c : Char} {early late : List String} (cards : a ∈ ranks ∧ b ∈ ranks ∧ c ∈ ranks)
      (words : ∀ w ∈ early ++ late, isBetting w) (settled : late.getLast? ≠ some "Fold")
      (level : s.bets.first = s.bets.second) (tie_iff : verdict ranks a b c = .eq ↔ a = b)
      (payoff_eq : (game ranks).payoff s =
        some (share s.bets.first (verdict ranks a b c) : R)) :
      Ending R ranks s (String.ofList [a, b] :: (early ++ c.toString :: late))

structure Account (R : Type) [Scalar R] (ranks : List Char) (as : List String) (s : State) :
    Prop where
  history_eq : s.history = as
  early_raises : (earlyWords as.tail).count "Raise" ≤ 2
  late_raises : (lateWords as.tail).count "Raise" ≤ 2
  bets_eq : s.bets = betsOf as.tail
  seat_eq : ∀ seat, s.player = some (.seat seat) → seat = speaker (roundWords as.tail).length
  opens : s.player = some .chance →
    ∀ w ∈ s.actions ranks, (s.step w).player = some (.seat .first)
  level : s.player = some .chance → s.bets.first = s.bets.second
  fold_lt : ∀ seat, s.player = some (.seat seat) → "Fold" ∈ s.actions ranks →
    s.bets.get seat < s.bets.get seat.opponent
  ending : s.player = none → Ending R ranks s as

theorem account_start : Account R ranks [] .start := by
  constructor
  · rfl
  · decide
  · decide
  · rfl
  · intro seat h
    cases h
  · intro _ w hw
    exact (after_deal (exists_cards_of_mem_deals hw)).phase.player_eq
  · exact fun _ => rfl
  · intro seat h
    cases h
  · intro h
    cases h

theorem fold_not_mem_of_chance (hp : s.player = some .chance) : "Fold" ∉ s.actions ranks := by
  intro hw
  by_cases hh : s.history = []
  · have hdeal : "Fold" ∈ State.deals ranks := by simpa [State.actions, hp, hh] using hw
    obtain ⟨a, -, b, -, hab⟩ := exists_cards_of_mem_deals hdeal
    simpa using congrArg (·.toList.length) hab
  · rw [actions_of_player_eq_chance hp hh] at hw
    obtain ⟨r, -, hr⟩ := exists_rank_of_mem_flops hw
    simpa using congrArg (·.toList.length) hr

theorem ending_of_fold (h : (game (R := R) ranks).Legal .start (as ++ ["Fold"])) :
    Ending R ranks ((game (R := R) ranks).play .start (as ++ ["Fold"])) (as ++ ["Fold"]) := by
  obtain ⟨has, hopen, hfold⟩ := Game.legal_concat_iff.mp h
  rw [Game.play_concat]
  cases hp : (game (R := R) ranks).player ((game (R := R) ranks).play .start as) with
  | none => exact absurd hp hopen
  | some player =>
    cases player with
    | chance => exact absurd hfold (fold_not_mem_of_chance hp)
    | seat seat =>
      refine .fold ⟨has, hp⟩ ?_
      generalize (game (R := R) ranks).play .start as = s at hp
      change s.player = _ at hp
      change (s.step "Fold").payoff ranks = some (forfeit (s.step "Fold").bets seat)
      cases seat <;> simp [State.payoff, State.step, State.act, hp, forfeit]

theorem Ledger.ending (h : Ledger ranks a b ws .finished s)
    (hafter : After ranks (String.ofList [a, b]) ws s) (ha : a ∈ ranks) (hb : b ∈ ranks)
    (hcard : s.community.isSome) (hended : s.ended = true)
    (hlast : s.history.getLast? ≠ some "Fold") :
    Ending R ranks s (String.ofList [a, b] :: ws) := by
  have hpayoff : (game (R := R) ranks).payoff s = s.showdown ranks := by
    simp [game, State.payoff, hended, hlast]
  obtain ⟨hfirst, hsecond⟩ := hafter.hole?_eq_some
  cases h with
  | early hnone => simp [hnone] at hcard
  | @late early late c _ _ hsome hmem hleft hearly hcount hlate hbets hstakes =>
    have hsettled : late.getLast? ≠ some "Fold" := by
      intro hfold
      refine hlast ?_
      rw [hafter.history_eq]
      simp [List.getLast?_cons, List.getLast?_append, hfold]
    refine .showdown ⟨ha, hb, hmem⟩ ?_ hsettled (hstakes.2 hsettled) (verdict_eq_iff ha hleft) ?_
    · simpa [or_imp, forall_and] using ⟨hearly, hlate⟩
    · rw [hpayoff, showdown_eq ha hb hfirst hsecond hsome]

theorem ending_of_legal (h : (game (R := R) ranks).Legal .start (String.ofList [a, b] :: ws))
    (ha : a ∈ ranks) (hb : b ∈ ranks)
    (hs : (game (R := R) ranks).play .start (String.ofList [a, b] :: ws) = s)
    (hp : s.player = none) : Ending R ranks s (String.ofList [a, b] :: ws) := by
  have hafter := after_of_legal h
  obtain ⟨p, hat, hledger⟩ : ∃ p, At p s ∧ Ledger ranks a b ws p s :=
    ⟨_, hs ▸ hafter.phase, hs ▸ ledger_of_legal h⟩
  rw [hs] at hafter
  rw [hat.player_eq] at hp
  cases hat with
  | betting => cases hp
  | reveal => cases hp
  | finished hended hlast hsettled =>
    by_cases hfold : s.history.getLast? = some "Fold"
    · rw [hafter.history_eq] at hfold
      obtain ⟨as, has⟩ := List.getLast?_eq_some_iff.mp hfold
      rw [has] at h hs ⊢
      rw [← hs]
      exact ending_of_fold h
    · exact hledger.ending hafter ha hb (hsettled.resolve_left hfold) hended hfold

/-- In every play of Leduc hold'em the first seat opens both rounds, nobody folds to an equal bet, the
bets are what was said and are level between the rounds and at the showdown, and the payoff follows. -/
theorem account_of_legal (h : (game (R := R) ranks).Legal .start as) :
    Account R ranks as ((game (R := R) ranks).play .start as) := by
  cases as with
  | nil => exact account_start
  | cons deal ws =>
    obtain ⟨a, ha, b, hb, rfl⟩ := exists_cards_of_mem_deals h.2.1
    have hafter := after_of_legal h
    obtain ⟨hearly, hlate, hbets, hstakes⟩ := (ledger_of_legal h).words
    have hplayer := hafter.phase.player_eq
    constructor
    · exact hafter.history_eq
    · exact hearly
    · exact hlate
    · exact hbets
    · intro seat hp
      exact hstakes.seat_eq (hplayer.symm.trans hp)
    · intro hp w hw
      rw [(hafter.phase.step hw).player_eq, Phase.next_of_chance (hplayer.symm.trans hp)]
      rfl
    · intro hp
      exact hstakes.level (hplayer.symm.trans hp)
    · intro seat hp
      exact hstakes.fold_lt hafter.phase hp
    · exact ending_of_legal h ha hb rfl

def raisedRounds : List String := [",J", "Raise", "Raise", "Call", ",", "Check", "Raise", "Call"]

theorem account_raisedRounds : (game (R := Rat) [',', 'J']).Legal .start raisedRounds ∧
    Account Rat [',', 'J'] raisedRounds ((game (R := Rat) [',', 'J']).play .start raisedRounds) := by
  have hl : (game (R := Rat) [',', 'J']).Legal .start raisedRounds := by
    simp only [Game.Legal, raisedRounds]
    decide
  exact ⟨hl, account_of_legal hl⟩

end Game

end ExtensiveForm.Games.Leduc
