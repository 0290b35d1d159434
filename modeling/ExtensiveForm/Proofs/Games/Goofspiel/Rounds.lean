import Mathlib.Algebra.Ring.Int.Defs
import Mathlib.Data.List.Perm.Subperm
import ExtensiveForm.Proofs.Games.Goofspiel.Twins

set_option autoImplicit false

namespace ExtensiveForm.Games.Goofspiel

structure Round where
  prize : Char
  first : Char
  second : Char

namespace Round

def card (r : Round) : Player → Char := played r.prize r.first r.second

def text (r : Round) : String := String.ofList [r.prize, r.first, r.second]

def said (r : Round) : List String := [r.prize.toString, r.first.toString, r.second.toString]

/-- The place of the prize in the deck, counted from one, to whoever bid the later card. -/
def worth (deck : List Char) (r : Round) : Int :=
  ((deck.idxOf r.prize : Int) + 1) * ((deck.idxOf r.first : Int) - deck.idxOf r.second).sign

@[simp] theorem length_said (r : Round) : r.said.length = 3 := rfl

end Round

def mover (k : Nat) : Player :=
  match k % 3 with
  | 0 => .chance
  | 1 => .seat .first
  | _ => .seat .second

theorem readDeck_eq_ok {deck : List Char} (hd : deck.Nodup) (hne : deck ≠ []) :
    readDeck (String.ofList deck) = .ok deck := by
  have hrep : repeated? deck = none := repeated?_eq_none_iff.mpr hd
  simp [readDeck, hne, hrep]

section Worth

variable {deck : List Char} {prize bid card : Char} {gain : Int}

theorem worth_of_settle (h : State.settle? deck prize bid card = some gain) :
    gain = Round.worth deck ⟨prize, bid, card⟩ := by
  obtain ⟨value, first, second, hvalue, hfirst, hsecond, rfl⟩ := settle?_eq_some_iff.mp h
  simp only [Round.worth, idxOf_of_rank hvalue, idxOf_of_rank hfirst, idxOf_of_rank hsecond]
  rcases Nat.lt_trichotomy first second with hlt | rfl | hlt
  · have hsign : ((first : Int) - second).sign = -1 := Int.sign_eq_neg_one_iff_neg.mpr (by omega)
    simp [hsign, hlt, Nat.lt_asymm hlt]
  · simp
  · have hsign : ((first : Int) - second).sign = 1 := Int.sign_eq_one_iff_pos.mpr (by omega)
    simp [hsign, hlt]

end Worth

structure Settled (deck : List Char) (rs : List Round) (s : State) : Prop
    extends Fresh deck s where
  hand_eq : ∀ p, s.hand p = deck.filter fun c => c ∉ rs.map (·.card p)
  length_add : s.prizes.length + rs.length = deck.length
  history_eq : s.history = rs.map Round.text
  score_eq : s.score = (rs.map (Round.worth deck)).sum

namespace Settled

variable {deck : List Char} {rs : List Round} {s : State} {prize bid card : Char} {gain : Int}

theorem start (hd : deck.Nodup) : Settled deck [] (.start deck) := by
  refine ⟨fresh_start hd, ?_, by simp [State.start], rfl, rfl⟩
  intro p
  rcases p with seat | _
  · cases seat <;> simp [State.hand, State.start, PerSeat.get, PerSeat.both]
  · simp [State.hand, State.start]

theorem finish (h : Settled deck rs s) (hmem : ∀ p, played prize bid card p ∈ s.hand p)
    (hg : State.settle? deck prize bid card = some gain) :
    Settled deck (rs ++ [⟨prize, bid, card⟩])
      ((s.place prize bid).finish prize bid card gain) := by
  refine ⟨h.toFresh.finish hmem gain, ?_, ?_, ?_, ?_⟩
  · intro p
    rw [hand_finish, h.hand_eq, List.filter_filter]
    refine List.filter_congr fun c _ => ?_
    simp [Round.card, Bool.and_comm]
  · have hlen : ((s.place prize bid).finish prize bid card gain).prizes.length + 1 =
        s.prizes.length := length_filter_ne (h.nodup .chance) (hmem .chance)
    have hadd := h.length_add
    simp
    omega
  · simp [State.finish, State.place, h.history_eq, Round.text]
  · simp [State.finish, State.place, h.score_eq, worth_of_settle hg]

theorem length_hand (h : Settled deck rs s) (p : Player) :
    (s.hand p).length = deck.length - rs.length := by
  have hlen := h.length_eq p
  have hadd := h.length_add
  omega

/-- When all prizes are won, each player has given away the whole deck. -/
theorem perm_deck (h : Settled deck rs s) (hd : deck.Nodup) (hend : s.prizes = []) (p : Player) :
    (rs.map (·.card p)).Perm deck := by
  have hadd := h.length_add
  have hhand : s.hand p = [] := by
    have hlen := h.length_eq p
    simpa [hend] using hlen
  have hsub : deck ⊆ rs.map (·.card p) := by
    intro c hc
    rw [h.hand_eq] at hhand
    simpa using List.filter_eq_nil_iff.mp hhand c hc
  refine ((hd.subperm hsub).perm_of_length_le ?_).symm
  simp [hend] at hadd ⊢
  omega

end Settled

section Course

variable {R : Type} [Scalar R] {deck : List Char} {rs : List Round} {s t : State}
  {ws as : List String}

theorem Opens.player_eq (h : Opens t ws s) (ht : Fresh deck t) :
    s.player = if t.prizes = [] then none else some (mover ws.length) := by
  cases h with
  | fresh =>
    by_cases hs : s.prizes = []
    · simp [State.player, hs]
    · simp [ht.player_eq hs, hs, mover]
  | revealed hprize =>
    have hs := List.ne_nil_of_mem hprize
    simp [ht.player_reveal hs, hs, mover]
  | placed hprize _ =>
    have hs := List.ne_nil_of_mem hprize
    simp [player_place hs, hs, mover]

theorem Opens.length_lt (h : Opens t ws s) : ws.length < 3 ∧ (t.prizes = [] → ws = []) := by
  cases h with
  | fresh => simp
  | revealed hprize => simp [List.ne_nil_of_mem hprize]
  | placed hprize _ => simp [List.ne_nil_of_mem hprize]

theorem Opens.history_eq (h : Opens t ws s) : s.history = t.history := by
  cases h <;> rfl

theorem Opens.score_eq (h : Opens t ws s) : s.score = t.score := by
  cases h <;> rfl

/-- A play is made of finished rounds and an open one. -/
theorem exists_settled_of_legal (hd : deck.Nodup)
    (h : (game (R := R) deck).Legal (.start deck) as) :
    ∃ rs t ws, Settled deck rs t ∧ Opens t ws ((game (R := R) deck).play (.start deck) as) ∧
      as = rs.flatMap Round.said ++ ws := by
  refine h.invariant (P := fun as s => ∃ rs t ws, Settled deck rs t ∧ Opens t ws s ∧
    as = rs.flatMap Round.said ++ ws) ⟨[], _, [], .start hd, .fresh, rfl⟩ ?_
  rintro as s w ⟨rs, t, ws, hsettled, hopens, rfl⟩ hp hw
  have hfresh := hsettled.toFresh
  change ∃ rs' t' ws', Settled deck rs' t' ∧ Opens t' ws' (State.step deck s w) ∧ _
  cases hopens with
  | fresh =>
    obtain ⟨prize, hprize, rfl, hstep⟩ := hfresh.exists_reveal hp hw
    rw [hstep]
    exact ⟨rs, _, _, hsettled, .revealed hprize, by simp⟩
  | @revealed prize hprize =>
    obtain ⟨bid, hbid, rfl, hstep⟩ := hfresh.exists_place (List.ne_nil_of_mem hprize) hw
    rw [hstep]
    exact ⟨rs, _, _, hsettled, .placed hprize hbid, by simp⟩
  | @placed prize bid hprize hbid =>
    obtain ⟨card, gain, rfl, hmem, hg, hstep⟩ := hfresh.exists_finish hprize hbid hw
    rw [hstep]
    exact ⟨_, _, [], hsettled.finish hmem hg, .fresh, by simp [Round.said]⟩

theorem length_flatMap_said (rs : List Round) : (rs.flatMap Round.said).length = 3 * rs.length := by
  induction rs with
  | nil => rfl
  | cons r rs ih =>
    simp [ih]
    omega

theorem mover_add (k m : Nat) : mover (3 * k + m) = mover m := by
  simp [mover]

theorem Settled.player_eq (h : Settled deck rs t) (ho : Opens t ws s) :
    3 * rs.length + ws.length ≤ 3 * deck.length ∧
      s.player = if 3 * rs.length + ws.length < 3 * deck.length then
        some (mover (3 * rs.length + ws.length)) else none := by
  obtain ⟨hlt, hnil⟩ := ho.length_lt
  have hadd := h.length_add
  rw [ho.player_eq h.toFresh, mover_add]
  by_cases ht : t.prizes = []
  · simp [ht, hnil ht] at hadd ⊢
    omega
  · have hpos := List.length_pos_iff.mpr ht
    have hopen : 3 * rs.length + ws.length < 3 * deck.length := by omega
    simp [ht, hopen, Nat.le_of_lt hopen]

theorem prizes_eq_nil_of_player (hp : s.player = none) : s.prizes = [] := by
  by_contra hs
  cases hprize : s.prize <;> cases hbid : s.bid <;> simp [State.player, hs, hprize, hbid] at hp

theorem payoff_of_player (hp : s.player = none) :
    (game (R := R) deck).payoff s = some (Scalar.ofInt s.score) := by
  simp [game, hp]

/-- A state after some actions, with the rounds that they finish: chance and the two seats act in turn,
and the hands are what is left of the deck. In the end each player has given away all of the deck, and
the payoff is what the rounds were worth. -/
structure Course (R : Type) [Scalar R] (deck : List Char) (as : List String) (rs : List Round)
    (s : State) : Prop where
  player_eq : s.player = if as.length < 3 * deck.length then some (mover as.length) else none
  length_rounds : rs.length = as.length / 3
  said : rs.flatMap Round.said <+: as
  history_eq : s.history = rs.map Round.text
  hand_eq : ∀ p, s.hand p = deck.filter fun c => c ∉ rs.map (·.card p)
  length_hand : ∀ p, (s.hand p).length = deck.length - rs.length
  perm_deck : s.player = none → ∀ p, (rs.map (·.card p)).Perm deck
  payoff_eq : s.player = none →
    (game (R := R) deck).payoff s = some (Scalar.ofInt (rs.map (Round.worth deck)).sum)

theorem Settled.course (h : Settled deck rs t) (ho : Opens t ws s) (hd : deck.Nodup)
    (has : as = rs.flatMap Round.said ++ ws) : Course R deck as rs s := by
  have hlen : as.length = 3 * rs.length + ws.length := by
    rw [has, List.length_append, length_flatMap_said]
  have hplayer := (h.player_eq ho).2
  rw [← hlen] at hplayer
  constructor
  · exact hplayer
  · have hlt := ho.length_lt.1
    omega
  · exact ⟨ws, has.symm⟩
  · rw [ho.history_eq, h.history_eq]
  · intro p
    rw [ho.hand_eq, h.hand_eq]
  · intro p
    rw [ho.hand_eq, h.length_hand]
  · intro hend
    refine h.perm_deck hd ?_
    rw [← prizes_eq_nil_of_player hend]
    exact (ho.hand_eq .chance).symm
  · intro hend
    rw [payoff_of_player hend, ho.score_eq, h.score_eq]

/-- A play of Goofspiel has three actions for each card of the deck, and can always be played so far. -/
theorem exists_course_of_legal (hd : deck.Nodup) :
    (deck ≠ [] → readDeck (String.ofList deck) = .ok deck) ∧
    ∀ as, (game (R := R) deck).Legal (.start deck) as →
      (∃ bs, (game (R := R) deck).Complete (.start deck) (as ++ bs)) ∧
      ((game (R := R) deck).Complete (.start deck) as ↔ as.length = 3 * deck.length) ∧
      ∃ rs, Course R deck as rs ((game (R := R) deck).play (.start deck) as) := by
  refine ⟨readDeck_eq_ok hd, fun as h => ?_⟩
  obtain ⟨rs, t, ws, hsettled, hopens, has⟩ := exists_settled_of_legal hd h
  have hcourse : Course R deck as rs _ := hsettled.course hopens hd has
  refine ⟨(playable hd).exists_complete h, ?_, rs, hcourse⟩
  have hle := length_le hd h
  rw [(playable hd).complete_iff h]
  change State.player _ = none ↔ _
  rw [hcourse.player_eq]
  split_ifs with hopen <;> simp <;> omega

end Course

section Example

def threeRounds : List String := ["2", "3", ",", ",", "2", "2", "3", ",", "3"]

theorem course_threeRounds : [',', '2', '3'].Nodup ∧
    (game (R := Rat) [',', '2', '3']).Legal (.start [',', '2', '3']) threeRounds ∧
    (game (R := Rat) [',', '2', '3']).Complete (.start [',', '2', '3']) threeRounds ∧
    ∃ rs, Course Rat [',', '2', '3'] threeRounds rs
      ((game (R := Rat) [',', '2', '3']).play (.start [',', '2', '3']) threeRounds) := by
  have hd : [',', '2', '3'].Nodup := by decide
  have hl : (game (R := Rat) [',', '2', '3']).Legal (.start [',', '2', '3']) threeRounds := by
    simp only [Game.Legal, threeRounds]
    decide
  obtain ⟨-, hcomplete, hcourse⟩ := (exists_course_of_legal hd).2 _ hl
  exact ⟨hd, hl, hcomplete.mpr rfl, hcourse⟩

end Example

end ExtensiveForm.Games.Goofspiel
