import ExtensiveForm.Games.Leduc
import ExtensiveForm.Proofs.Games.Deals

set_option autoImplicit false

namespace ExtensiveForm.Games.Leduc

theorem of_readRanks {text : String} {ranks : List Char} (h : readRanks text = .ok ranks) :
    2 ≤ ranks.length ∧ ranks.Nodup := by
  simp only [readRanks] at h
  split at h
  · cases h
  · rename_i hlen
    split at h
    · cases h
    · rename_i hrep
      cases h
      exact ⟨by omega, repeated?_eq_none_iff.mp hrep⟩

inductive Phase where
  | betting (late checked : Bool) (raises : Nat) (seat : Seat)
  | reveal
  | finished

namespace Phase

def first : Phase := .betting false false 0 .first

def player : Phase → Option Player
  | .betting _ _ _ seat => some (.seat seat)
  | .reveal => some .chance
  | .finished => none

def replies : Nat → List String
  | 0 => ["Check", "Raise"]
  | 1 => ["Fold", "Call", "Raise"]
  | _ + 2 => ["Fold", "Call"]

/-- A round ends with a call or a second check, and the play with a fold or after the late round. -/
def next : Phase → String → Phase
  | .betting late checked raises seat, w =>
    if w = "Raise" then .betting late checked (raises + 1) seat.opponent
    else if w = "Check" ∧ checked = false then .betting late true raises seat.opponent
    else if w = "Fold" ∨ late = true then .finished
    else .reveal
  | .reveal, _ => .betting true false 0 .first
  | .finished, _ => .finished

def left : Phase → Nat
  | .betting late checked raises _ =>
    (if late then 0 else 5) + if raises = 0 then (if checked then 3 else 4) else 1 + (2 - raises)
  | .reveal => 5
  | .finished => 0

theorem comma_not_mem_reply {raises : Nat} {w : String} (h : w ∈ replies raises) :
    ',' ∉ w.toList := by
  have hall : ∀ w ∈ ["Check", "Raise", "Fold", "Call"], ',' ∉ w.toList := by decide
  refine hall w ?_
  unfold replies at h
  split at h <;> simp at h ⊢ <;> tauto

theorem nodup_replies (raises : Nat) : (replies raises).Nodup := by
  unfold replies
  split <;> decide

theorem replies_ne_nil (raises : Nat) : replies raises ≠ [] := by
  unfold replies
  split <;> decide

theorem left_next_lt {late checked : Bool} {raises : Nat} {seat : Seat} {w : String}
    (h : w ∈ replies raises) :
    ((betting late checked raises seat).next w).left < (betting late checked raises seat).left := by
  unfold replies at h
  split at h
  all_goals
    simp only [List.mem_cons, List.not_mem_nil, or_false] at h
    cases late <;> cases checked <;> rcases h with rfl | rfl | rfl <;> simp [next, left]

end Phase

structure InRound (late checked : Bool) (raises : Nat) (seat : Seat) (s : State) : Prop where
  ended_eq : s.ended = false
  flop_eq : s.flop = late
  isSome_community : s.community.isSome = late
  raises_eq : s.raises = raises
  last_iff : s.last = some (.seat .first) ↔ seat = .second
  raised_iff : s.history.getLast? = some "Raise" ↔ raises ≠ 0
  checked_iff : s.history.getLast? = some "Check" ↔ checked = true ∧ raises = 0
  history_ne_nil : s.history ≠ []

inductive At : Phase → State → Prop where
  | betting {late checked : Bool} {raises : Nat} {seat : Seat} {s : State}
      (h : InRound late checked raises seat s) : At (.betting late checked raises seat) s
  | reveal {s : State} (ended : s.ended = false) (flop : s.flop = true)
      (community : s.community = none) (raises : s.raises = 0) (history : s.history ≠ []) :
      At .reveal s
  | finished {s : State} (ended : s.ended = true) (last : s.last ≠ none)
      (settled : s.history.getLast? = some "Fold" ∨ s.community.isSome) : At .finished s

namespace InRound

variable {late checked : Bool} {raises : Nat} {seat : Seat} {s : State} {a : String}

theorem player_eq (h : InRound late checked raises seat s) : s.player = some (.seat seat) := by
  have hflop : (s.flop && s.community.isNone) = false := by
    rw [h.flop_eq, ← h.isSome_community]
    cases s.community <;> rfl
  have hhistory : s.history.isEmpty = false := by simpa using h.history_ne_nil
  simp only [State.player, h.ended_eq, hflop, hhistory, h.last_iff]
  cases seat <;> simp

theorem actions_eq (h : InRound late checked raises seat s) (ranks : List Char) :
    s.actions ranks = Phase.replies raises := by
  rcases raises with _ | _ | raises
  all_goals simp [State.actions, h.player_eq, State.bettingActions, h.raised_iff, h.raises_eq,
    Phase.replies]

theorem step_eq (h : InRound late checked raises seat s) : s.step a =
    { s.act seat a with history := s.history ++ [a], last := some (.seat seat) } := by
  simp [State.step, h.player_eq]

theorem step_raise (h : InRound late checked raises seat s) :
    InRound late checked (raises + 1) seat.opponent (s.step "Raise") := by
  rw [h.step_eq]
  obtain ⟨hended, hflop, hcommunity, hraises, -⟩ := h
  constructor
  all_goals simp [State.act, *]
  cases seat <;> simp [Seat.opponent]

theorem step_check (h : InRound late false 0 seat s) :
    InRound late true 0 seat.opponent (s.step "Check") := by
  rw [h.step_eq]
  have hchecked : s.history.getLast? ≠ some "Check" := by simp [h.checked_iff]
  obtain ⟨hended, hflop, hcommunity, hraises, -⟩ := h
  constructor
  all_goals simp [State.act, *]
  cases seat <;> simp [Seat.opponent]

theorem step_fold (h : InRound late checked raises seat s) : At .finished (s.step "Fold") := by
  rw [h.step_eq]
  constructor
  all_goals simp [State.act]

theorem step_endRound (h : InRound late checked raises seat s) {bets : PerSeat Nat}
    (ha : s.act seat a = State.endRound { s with bets := bets, raises := 0 }) :
    At (if late then .finished else .reveal) (s.step a) := by
  rw [h.step_eq, ha]
  obtain ⟨hended, hflop, hcommunity, hraises, -⟩ := h
  cases late with
  | true =>
    rw [if_pos rfl]
    constructor
    all_goals simp [State.endRound, *]
  | false =>
    rw [if_neg Bool.false_ne_true]
    constructor
    all_goals simp_all [State.endRound]

theorem step (h : InRound late checked raises seat s) (ha : a ∈ Phase.replies raises) :
    At (Phase.next (.betting late checked raises seat) a) (s.step a) := by
  have hraise : At (Phase.next (.betting late checked raises seat) "Raise") (s.step "Raise") :=
    .betting h.step_raise
  have hfold : At (Phase.next (.betting late checked raises seat) "Fold") (s.step "Fold") := by
    simpa [Phase.next] using h.step_fold
  have hcall : At (Phase.next (.betting late checked raises seat) "Call") (s.step "Call") := by
    have hact : s.act seat "Call" = State.endRound
        { s with bets := s.bets.set seat (s.bets.get seat.opponent), raises := 0 } := by
      simp [State.act]
    simpa [Phase.next] using h.step_endRound hact
  rcases raises with _ | _ | raises
  · rcases List.mem_pair.mp ha with rfl | rfl
    · cases checked with
      | false => exact .betting h.step_check
      | true =>
        have hact : s.act seat "Check" = State.endRound { s with bets := s.bets, raises := 0 } := by
          simp [State.act, h.checked_iff, ← h.raises_eq]
        simpa [Phase.next] using h.step_endRound hact
    · exact hraise
  · simp only [Phase.replies, List.mem_cons, List.not_mem_nil, or_false] at ha
    rcases ha with rfl | rfl | rfl
    · exact hfold
    · exact hcall
    · exact hraise
  · rcases List.mem_pair.mp ha with rfl | rfl
    · exact hfold
    · exact hcall

end InRound

theorem At.player_eq {p : Phase} {s : State} (h : At p s) : s.player = p.player := by
  cases h with
  | betting h => exact h.player_eq
  | reveal hended hflop hcommunity hraises hhistory =>
    simp [State.player, hended, hflop, hcommunity, Phase.player]
  | finished hended hlast hsettled => simp [State.player, hended, Phase.player]

theorem exists_rank_of_mem_flops {ranks : List Char} {s : State} {a : String}
    (h : a ∈ s.flops ranks) : ∃ r ∈ ranks, a = r.toString := by
  obtain ⟨r, hr, rfl⟩ := List.mem_map.mp h
  exact ⟨r, List.mem_of_mem_filter hr, rfl⟩

theorem actions_of_player_eq_chance {ranks : List Char} {s : State}
    (hp : s.player = some .chance) (hh : s.history ≠ []) : s.actions ranks = s.flops ranks := by
  simp [State.actions, hp, hh]

theorem At.step {p : Phase} {s : State} {ranks : List Char} {a : String} (h : At p s)
    (ha : a ∈ s.actions ranks) : At (p.next a) (s.step a) := by
  cases h with
  | betting h =>
    rw [h.actions_eq] at ha
    exact h.step ha
  | reveal hended hflop hcommunity hraises hhistory =>
    have hp : s.player = some .chance := (At.reveal hended hflop hcommunity hraises hhistory).player_eq
    rw [actions_of_player_eq_chance hp hhistory] at ha
    obtain ⟨r, -, rfl⟩ := exists_rank_of_mem_flops ha
    have hstep : s.step r.toString = { s with
        community := some r, history := s.history ++ [r.toString], last := some .chance } := by
      simp [State.step, State.reveal, hp, hhistory]
    -- a card is one character, so it is not taken for a word of the betting
    have hword : ∀ w : String, w.toList.length ≠ 1 → String.singleton r ≠ w := by
      rintro w hw rfl
      simp at hw
    have hraise := hword "Raise" (by decide)
    have hcheck := hword "Check" (by decide)
    rw [hstep]
    refine .betting ⟨hended, hflop, rfl, hraises, ?_, ?_, ?_, ?_⟩
    all_goals simp [hraise, hcheck]
  | finished hended hlast hsettled => simp [State.actions, State.player, hended] at ha

section At

variable {p : Phase} {s s' : State} {ranks : List Char} {seat : Seat} {w w' : String}

theorem At.nodup_actions (h : At p s) (hp : s.player = some (.seat seat)) :
    (s.actions ranks).Nodup := by
  rw [h.player_eq] at hp
  cases h with
  | betting h =>
    rw [h.actions_eq]
    exact Phase.nodup_replies _
  | reveal _ _ _ _ _ => cases hp
  | finished _ _ _ => cases hp

theorem At.actions_congr (h : At p s) (h' : At p s') (hp : s.player = some (.seat seat)) :
    s.actions ranks = s'.actions ranks := by
  rw [h.player_eq] at hp
  cases h with
  | betting h =>
    cases h' with
    | betting h' => rw [h.actions_eq, h'.actions_eq]
  | reveal _ _ _ _ _ => cases hp
  | finished _ _ _ => cases hp

theorem At.told (h : At p s) (h' : At p s') (hw : w ∈ s.actions ranks) (hw' : w' ∈ s'.actions ranks) :
    Told w w' := by
  have hplayer := h.player_eq
  have hplayer' := h'.player_eq
  cases h with
  | betting h =>
    cases h' with
    | betting h' =>
      rw [h.actions_eq] at hw
      rw [h'.actions_eq] at hw'
      exact told_of_not_mem (Phase.comma_not_mem_reply hw) (Phase.comma_not_mem_reply hw')
  | reveal _ _ _ _ hh =>
    cases h' with
    | reveal _ _ _ _ hh' =>
      rw [actions_of_player_eq_chance hplayer hh] at hw
      rw [actions_of_player_eq_chance hplayer' hh'] at hw'
      obtain ⟨r, -, rfl⟩ := exists_rank_of_mem_flops hw
      obtain ⟨r', -, rfl⟩ := exists_rank_of_mem_flops hw'
      exact told_of_length (by simp)
  | finished _ _ _ => simp [State.actions, hplayer, Phase.player] at hw

theorem At.left_next_lt (h : At p s) (hw : w ∈ s.actions ranks) : (p.next w).left < p.left := by
  have hplayer := h.player_eq
  cases h with
  | betting h =>
    rw [h.actions_eq] at hw
    exact Phase.left_next_lt hw
  | reveal _ _ _ _ _ => simp [Phase.next, Phase.left]
  | finished _ _ _ => simp [State.actions, hplayer, Phase.player] at hw

end At

structure After (ranks : List Char) (deal : String) (ws : List String) (s : State) : Prop where
  cards : ∃ a ∈ ranks, ∃ b ∈ ranks, deal = String.ofList [a, b]
  history_eq : s.history = deal :: ws
  phase : At (ws.foldl Phase.next .first) s
  length_le : ws.length + (ws.foldl Phase.next .first).left ≤ 9

namespace After

variable {ranks : List Char} {deal deal' a : String} {ws : List String} {s s' : State} {seat : Seat}

theorem hole?_eq (h : After ranks deal ws s) (seat : Seat) :
    ∃ c ∈ ranks, s.hole? seat = some c ∧ ownCard seat deal = some c.toString := by
  obtain ⟨a, ha, b, hb, rfl⟩ := h.cards
  cases seat with
  | first =>
    refine ⟨a, ha, ?_, ?_⟩
    all_goals simp [State.hole?, ownCard, cardAt?, h.history_eq, Seat.index]
  | second =>
    refine ⟨b, hb, ?_, ?_⟩
    all_goals simp [State.hole?, ownCard, cardAt?, h.history_eq, Seat.index]

theorem step (h : After ranks deal ws s) (ha : a ∈ s.actions ranks) :
    After ranks deal (ws ++ [a]) (s.step a) := by
  refine ⟨h.cards, ?_, ?_, ?_⟩
  · show s.history ++ [a] = _
    rw [h.history_eq, List.cons_append]
  · rw [List.foldl_concat]
    exact h.phase.step ha
  · have hlt := h.phase.left_next_lt ha
    have hle := h.length_le
    rw [List.foldl_concat, List.length_append, List.length_singleton]
    omega

theorem flops_ne_nil (h : After ranks deal ws s) (hlen : 2 ≤ ranks.length)
    (hnodup : ranks.Nodup) : s.flops ranks ≠ [] := by
  obtain ⟨a, -, ha, -⟩ := h.hole?_eq .first
  obtain ⟨r, hr, hne⟩ : ∃ r ∈ ranks, r ≠ a := by
    by_contra hall
    push Not at hall
    have hle := (hnodup.subperm fun r hr => List.mem_singleton.mpr (hall r hr)).length_le
    rw [List.length_singleton] at hle
    omega
  refine List.ne_nil_of_mem (List.mem_map_of_mem (List.mem_filter.mpr ⟨hr, ?_⟩))
  simp [ha, hne]

theorem actions_ne_nil (h : After ranks deal ws s) (hlen : 2 ≤ ranks.length)
    (hnodup : ranks.Nodup) (hp : s.player ≠ none) : s.actions ranks ≠ [] := by
  obtain ⟨p, hphase⟩ : ∃ p, At p s := ⟨_, h.phase⟩
  have hplayer := hphase.player_eq
  cases hphase with
  | betting h =>
    rw [h.actions_eq]
    exact Phase.replies_ne_nil _
  | reveal _ _ _ _ hhistory =>
    rw [actions_of_player_eq_chance hplayer hhistory]
    exact h.flops_ne_nil hlen hnodup
  | finished _ _ _ => exact absurd hplayer hp

theorem observation_eq (h : After ranks deal ws s) (hp : s.player = some (.seat seat)) :
    ∃ v, ownCard seat deal = some v ∧ s.observation = some (seen v ws) := by
  obtain ⟨c, -, hc, hown⟩ := h.hole?_eq seat
  exact ⟨_, hown, by simp [State.observation, hp, hc, h.history_eq]⟩

theorem isSome_showdown {R : Type} [Scalar R] (h : After ranks deal ws s)
    (hc : s.community.isSome) : (s.showdown (R := R) ranks).isSome := by
  obtain ⟨a, ha, hfirst, -⟩ := h.hole?_eq .first
  obtain ⟨b, hb, hsecond, -⟩ := h.hole?_eq .second
  obtain ⟨c, hc⟩ := Option.isSome_iff_exists.mp hc
  simp only [State.showdown, hfirst, hsecond, hc, rank?_of_mem ha, rank?_of_mem hb,
    Option.bind_eq_bind, Option.bind_some]
  split_ifs <;> rfl

theorem isSome_payoff {R : Type} [Scalar R] (h : After ranks deal ws s) (hp : s.player = none) :
    (s.payoff (R := R) ranks).isSome := by
  obtain ⟨p, hphase⟩ : ∃ p, At p s := ⟨_, h.phase⟩
  rw [hphase.player_eq] at hp
  cases hphase with
  | betting _ => cases hp
  | reveal _ _ _ _ _ => cases hp
  | finished hended hlast hsettled =>
    by_cases hfold : s.history.getLast? = some "Fold"
    · simp [State.payoff, hended, hfold, Option.isSome_iff_ne_none, hlast]
    · have hshow := h.isSome_showdown (R := R) (hsettled.resolve_left hfold)
      simpa [State.payoff, hended, hfold] using hshow

theorem isSome_chanceProb {R : Type} [Scalar R] (h : After ranks deal ws s)
    (hp : s.player = some .chance) (ha : a ∈ s.actions ranks) :
    (s.chanceProb (R := R) ranks a).isSome := by
  have hhistory : s.history ≠ [] := by simp [h.history_eq]
  rw [actions_of_player_eq_chance hp hhistory] at ha
  obtain ⟨r, -, rfl⟩ := exists_rank_of_mem_flops ha
  obtain ⟨_, -, hfirst, -⟩ := h.hole?_eq .first
  obtain ⟨_, -, hsecond, -⟩ := h.hole?_eq .second
  simp [State.chanceProb, State.flopProb?, hp, hhistory, hfirst, hsecond]

end After

section Game

variable {R : Type} [Scalar R] {ranks : List Char} {deal : String} {ws : List String}

theorem exists_cards_of_mem_deals (h : deal ∈ State.deals ranks) :
    ∃ a ∈ ranks, ∃ b ∈ ranks, deal = String.ofList [a, b] := by
  obtain ⟨a, ha, h⟩ := List.mem_flatMap.mp h
  obtain ⟨b, hb, rfl⟩ := List.mem_map.mp h
  exact ⟨a, ha, b, hb, rfl⟩

theorem after_deal (h : ∃ a ∈ ranks, ∃ b ∈ ranks, deal = String.ofList [a, b]) :
    After ranks deal [] { State.start with history := [deal], last := some .chance } := by
  have hword : ∀ w : String, w.toList.length ≠ 2 → deal ≠ w := by
    rintro w hw rfl
    obtain ⟨a, -, b, -, rfl⟩ := h
    simp at hw
  have hraise := hword "Raise" (by decide)
  have hcheck := hword "Check" (by decide)
  refine ⟨h, rfl, .betting ⟨rfl, rfl, rfl, rfl, ?_, ?_, ?_, ?_⟩, by decide⟩
  all_goals simp [hraise, hcheck]

theorem after_of_legal (h : (game (R := R) ranks).Legal .start (deal :: ws)) :
    After ranks deal ws ((game (R := R) ranks).play .start (deal :: ws)) :=
  h.2.2.invariant (after_deal (exists_cards_of_mem_deals h.2.1)) fun ht _ ha => ht.step ha

theorem dealt : Dealt (game (R := R) ranks) .start ownCard := by
  constructor
  · rfl
  · intro deal deal' ws hl hl'
    exact (after_of_legal hl).phase.player_eq.trans (after_of_legal hl').phase.player_eq.symm
  · intro seat deal deal' ws ht ht'
    exact (after_of_legal ht.legal).phase.actions_congr (after_of_legal ht'.legal).phase ht.player
  · intro seat deal ws ht
    exact (after_of_legal ht.legal).observation_eq ht.player
  · exact fun _ _ => told_ownCard
  · intro deal deal' ws w w' hl hl'
    rw [← List.cons_append] at hl hl'
    obtain ⟨hl, hp, hw⟩ := Game.legal_concat_iff.mp hl
    obtain ⟨hl', hp', hw'⟩ := Game.legal_concat_iff.mp hl'
    exact (after_of_legal hl).phase.told (after_of_legal hl').phase hw hw'

theorem answers_start (hlen : 2 ≤ ranks.length) : (game (R := R) ranks).Answers .start := by
  have hp : State.start.player = some .chance := rfl
  constructor
  · intro hp
    cases hp
  · intro _
    obtain ⟨a, ha⟩ := List.exists_mem_of_ne_nil ranks (List.ne_nil_of_length_pos (by omega))
    exact List.ne_nil_of_mem (List.mem_flatMap.mpr ⟨a, ha, List.mem_map_of_mem ha⟩)
  · intro _ deal hdeal
    obtain ⟨a, -, b, -, rfl⟩ :=
      exists_cards_of_mem_deals (show deal ∈ State.deals ranks from hdeal)
    show (State.chanceProb (R := R) ranks .start _).isSome
    simp only [State.chanceProb, hp, String.toList_ofList, State.dealProb?]
    rfl
  · intro seat hp
    cases hp

theorem answers_of_legal (hlen : 2 ≤ ranks.length) (hnodup : ranks.Nodup)
    (h : (game (R := R) ranks).Legal .start (deal :: ws)) :
    (game (R := R) ranks).Answers ((game (R := R) ranks).play .start (deal :: ws)) := by
  have ha := after_of_legal h
  constructor
  · exact ha.isSome_payoff
  · exact ha.actions_ne_nil hlen hnodup
  · exact fun hp a => ha.isSome_chanceProb hp
  · exact fun seat hp => dealt.shows.isSome_observation ⟨h, hp⟩

theorem playable (hlen : 2 ≤ ranks.length) (hnodup : ranks.Nodup) :
    (game (R := R) ranks).Playable .start := by
  refine dealt.playable 9 ?_ (answers_start hlen) (fun deal ws => answers_of_legal hlen hnodup) ?_
  · exact fun deal ws h => (Nat.le_add_right _ _).trans (after_of_legal h).length_le
  · exact fun seat deal ws ht => (after_of_legal ht.legal).phase.nodup_actions ht.player

end Game

end ExtensiveForm.Games.Leduc
