import Mathlib.Data.List.Nodup
import ExtensiveForm.Games.Goofspiel
import ExtensiveForm.Proofs.Games.Labels
import ExtensiveForm.Proofs.Plays

set_option autoImplicit false

namespace ExtensiveForm.Games.Goofspiel

theorem nodup_of_readDeck {text : String} {deck : List Char} (h : readDeck text = .ok deck) :
    deck.Nodup := by
  simp only [readDeck] at h
  split at h
  · cases h
  · split at h
    · cases h
    · rename_i hrep
      cases h
      exact repeated?_eq_none_iff.mp hrep

def rounds : List String → List (String × String × String)
  | prize :: bid :: card :: rest => (prize, bid, card) :: rounds rest
  | _ => []

def pending : List String → List String
  | _ :: _ :: _ :: rest => pending rest
  | said => said

def words (rs : List (String × String × String)) : List String :=
  rs.flatMap fun (prize, bid, card) => [prize, bid, card]

theorem words_append_pending (as : List String) : words (rounds as) ++ pending as = as := by
  induction as using rounds.induct with
  | case1 prize bid card rest ih => simpa [rounds, pending, words] using ih
  | case2 as h =>
    simp [rounds, pending, words]

def publicView (_ : Seat) (as : List String) : List (String × String × String) × Option String :=
  (rounds as, (pending as).head?)

structure Fresh (deck : List Char) (s : State) : Prop where
  prize_eq : s.prize = none
  bid_eq : s.bid = none
  nodup : ∀ p, (s.hand p).Nodup
  subset : ∀ p, s.hand p ⊆ deck
  length_eq : ∀ p, (s.hand p).length = s.prizes.length

theorem fresh_start {deck : List Char} (h : deck.Nodup) : Fresh deck (.start deck) := by
  constructor
  · rfl
  · rfl
  all_goals
    intro p
    cases p with
    | chance => simp [State.hand, State.start, h]
    | seat seat => simp [State.hand, State.start, h]

def State.reveal (s : State) (prize : Char) : State := { s with prize := some prize }

def State.place (s : State) (prize bid : Char) : State :=
  { s with prize := some prize, bid := some bid }

section Round

variable {deck : List Char} {s : State} {prize bid card : Char} {w : String}

theorem mem_hand_of_mem_actions {p : Player} (hp : s.player = some p) (h : w ∈ s.actions) :
    ∃ c ∈ s.hand p, w = c.toString := by
  simp only [State.actions, hp] at h
  obtain ⟨c, hc, rfl⟩ := List.mem_map.mp h
  exact ⟨c, hc, rfl⟩

theorem Fresh.player_eq (h : Fresh deck s) (hs : s.prizes ≠ []) : s.player = some .chance := by
  simp [State.player, h.prize_eq, hs]

theorem Fresh.player_reveal (h : Fresh deck s) (hs : s.prizes ≠ []) :
    (s.reveal prize).player = some (.seat .first) := by
  simp [State.player, State.reveal, h.bid_eq, hs]

theorem player_place (hs : s.prizes ≠ []) :
    (s.place prize bid).player = some (.seat .second) := by
  simp [State.player, State.place, hs]

theorem Fresh.step_eq (h : Fresh deck s) (hs : s.prizes ≠ []) :
    s.step deck prize.toString = s.reveal prize := by
  simp [State.step, h.player_eq hs, State.reveal]

theorem Fresh.step_reveal (h : Fresh deck s) (hs : s.prizes ≠ []) :
    (s.reveal prize).step deck bid.toString = s.place prize bid := by
  simp [State.step, h.player_reveal hs]
  simp [State.reveal, State.place]

theorem exists_settle (hprize : prize ∈ deck) (hbid : bid ∈ deck) (hcard : card ∈ deck) :
    ∃ gain, State.settle? deck prize bid card = some gain := by
  simp [State.settle?, rank?_of_mem hprize, rank?_of_mem hbid, rank?_of_mem hcard]

theorem step_place (hs : s.prizes ≠ []) {gain : Int}
    (hg : State.settle? deck prize bid card = some gain) :
    (s.place prize bid).step deck card.toString =
      (s.place prize bid).finish prize bid card gain := by
  simp [State.step, player_place hs]
  simp [State.second, State.place, hg]

def played (prize bid card : Char) : Player → Char
  | .chance => prize
  | .seat .first => bid
  | .seat .second => card

theorem hand_finish (gain : Int) (p : Player) :
    ((s.place prize bid).finish prize bid card gain).hand p =
      (s.hand p).filter (· ≠ played prize bid card p) := by
  rcases p with seat | _
  · cases seat <;> rfl
  · rfl

theorem Fresh.finish (h : Fresh deck s) (hmem : ∀ p, played prize bid card p ∈ s.hand p)
    (gain : Int) : Fresh deck ((s.place prize bid).finish prize bid card gain) := by
  have hlen : ∀ p, (((s.place prize bid).finish prize bid card gain).hand p).length + 1 =
      s.prizes.length := by
    intro p
    rw [hand_finish, length_filter_ne (h.nodup p) (hmem p), h.length_eq]
  constructor
  · rfl
  · rfl
  · intro p
    rw [hand_finish]
    exact (h.nodup p).filter _
  · intro p
    rw [hand_finish]
    exact fun c hc => h.subset p (List.mem_of_mem_filter hc)
  · intro p
    have hchance := hlen .chance
    have hp := hlen p
    simp only [State.hand] at hchance
    omega

end Round

section Labels

def roundText : String × String × String → String
  | (prize, bid, card) => prize ++ bid ++ card

def label (rs : List (String × String × String)) (prize : String) : String :=
  String.intercalate "," (rs.map roundText ++ [prize])

theorem spelled_eq_label (rs : List (String × String × String)) (prize : String) :
    spelled (rs.map roundText ++ [prize]) = ',' :: (label rs prize).toList := by
  unfold label
  generalize hws : rs.map roundText ++ [prize] = ws
  cases ws with
  | nil => simp at hws
  | cons w ws => rw [spelled_cons, ← toList_seen, seen]

def Short : String × String × String → Prop
  | (prize, bid, card) =>
    prize.toList.length = 1 ∧ bid.toList.length = 1 ∧ card.toList.length = 1

theorem length_roundText {r : String × String × String} (h : Short r) :
    (roundText r).toList.length = 3 := by
  obtain ⟨prize, bid, card⟩ := r
  obtain ⟨hprize, hbid, hcard⟩ := h
  simp only [roundText, String.toList_append, List.length_append, hprize, hbid, hcard]

theorem roundText_inj {r r' : String × String × String} (h : Short r) (h' : Short r')
    (heq : roundText r = roundText r') : r = r' := by
  obtain ⟨prize, bid, card⟩ := r
  obtain ⟨prize', bid', card'⟩ := r'
  obtain ⟨hprize, hbid, -⟩ := h
  obtain ⟨hprize', hbid', -⟩ := h'
  have htext := congrArg String.toList heq
  simp only [roundText, String.toList_append] at htext
  obtain ⟨hpair, hc⟩ := List.append_inj htext (by simp only [List.length_append, hprize, hbid, hprize', hbid'])
  obtain ⟨hp, hb⟩ := List.append_inj hpair (by rw [hprize, hprize'])
  rw [String.toList_inj.mp hp, String.toList_inj.mp hb, String.toList_inj.mp hc]

/-- Labels are read by lengths, so any card may be a comma. -/
theorem spelled_inj {rs rs' : List (String × String × String)} {prize prize' : String}
    (hrs : ∀ r ∈ rs, Short r) (hrs' : ∀ r ∈ rs', Short r) (hp : prize.toList.length = 1)
    (hp' : prize'.toList.length = 1)
    (h : spelled (rs.map roundText ++ [prize]) = spelled (rs'.map roundText ++ [prize'])) :
    rs = rs' ∧ prize = prize' := by
  induction rs generalizing rs' with
  | nil =>
    cases rs' with
    | nil => simpa [String.toList_inj] using h
    | cons r' rs' =>
      -- a prize is one character and a round is three, so the last word is not the first of many
      have hlen := congrArg List.length h
      have hround := length_roundText (hrs' r' List.mem_cons_self)
      simp [hround, hp] at hlen
      omega
  | cons r rs ih =>
    obtain ⟨hr, hrs⟩ := List.forall_mem_cons.mp hrs
    cases rs' with
    | nil =>
      have hlen := congrArg List.length h
      simp [length_roundText hr, hp'] at hlen
      omega
    | cons r' rs' =>
      obtain ⟨hr', hrs'⟩ := List.forall_mem_cons.mp hrs'
      simp only [List.map_cons, List.cons_append, spelled_cons, List.cons.injEq, true_and] at h
      have htold : Told (roundText r) (roundText r') :=
        told_of_length (by rw [length_roundText hr, length_roundText hr'])
      obtain ⟨hround, hrest⟩ := htold _ _ h
      obtain ⟨rfl, rfl⟩ := ih hrs hrs' hrest
      exact ⟨by rw [roundText_inj hr hr' hround], rfl⟩

end Labels

section Steps

variable {deck : List Char} {s : State} {prize bid : Char} {w : String}

theorem Fresh.exists_reveal (h : Fresh deck s) (hp : s.player ≠ none) (hw : w ∈ s.actions) :
    ∃ prize ∈ s.prizes, w = prize.toString ∧ s.step deck w = s.reveal prize := by
  have hs : s.prizes ≠ [] := by
    intro he
    exact hp (by simp [State.player, he])
  obtain ⟨prize, hprize, rfl⟩ := mem_hand_of_mem_actions (h.player_eq hs) hw
  exact ⟨prize, hprize, rfl, h.step_eq hs⟩

theorem Fresh.exists_place (h : Fresh deck s) (hs : s.prizes ≠ [])
    (hw : w ∈ (s.reveal prize).actions) : ∃ bid ∈ s.hand (.seat .first), w = bid.toString ∧
      (s.reveal prize).step deck w = s.place prize bid := by
  obtain ⟨bid, hbid, rfl⟩ := mem_hand_of_mem_actions (h.player_reveal hs) hw
  exact ⟨bid, hbid, rfl, h.step_reveal hs⟩

theorem Fresh.exists_finish (h : Fresh deck s) (hprize : prize ∈ s.prizes)
    (hbid : bid ∈ s.hand (.seat .first)) (hw : w ∈ (s.place prize bid).actions) :
    ∃ card gain, w = card.toString ∧ (∀ p, played prize bid card p ∈ s.hand p) ∧
      State.settle? deck prize bid card = some gain ∧
        (s.place prize bid).step deck w = (s.place prize bid).finish prize bid card gain := by
  have hs := List.ne_nil_of_mem hprize
  obtain ⟨card, hcard, rfl⟩ := mem_hand_of_mem_actions (player_place hs) hw
  have hmem : ∀ p, played prize bid card p ∈ s.hand p := by
    intro p
    rcases p with seat | _
    · cases seat with
      | first => exact hbid
      | second => exact hcard
    · exact hprize
  obtain ⟨gain, hg⟩ := exists_settle (h.subset .chance hprize) (h.subset _ hbid)
    (h.subset (.seat .second) hcard)
  exact ⟨card, gain, rfl, hmem, hg, step_place hs hg⟩

end Steps

structure Done (deck : List Char) (s : State) (rs : List (String × String × String)) (t : State) :
    Prop where
  fresh : Fresh deck t
  short : ∀ r ∈ rs, Short r
  history_eq : t.history = s.history ++ rs.map roundText
  length_eq : t.prizes.length + rs.length = s.prizes.length

section Game

variable {R : Type} [Scalar R] {deck : List Char} {s : State}

theorem Fresh.play_one (h : Fresh deck s) {w : String}
    (hl : (game (R := R) deck).Legal s [w]) : ∃ prize ∈ s.prizes, w = prize.toString ∧
      (game (R := R) deck).play s [w] = s.reveal prize :=
  h.exists_reveal hl.1 hl.2.1

theorem Fresh.play_two (h : Fresh deck s) {w w' : String}
    (hl : (game (R := R) deck).Legal s [w, w']) :
    ∃ prize ∈ s.prizes, ∃ bid ∈ s.hand (.seat .first), w = prize.toString ∧ w' = bid.toString ∧
      (game (R := R) deck).play s [w, w'] = s.place prize bid := by
  have hsplit : (game (R := R) deck).Legal s ([w] ++ [w']) := hl
  obtain ⟨hl, -, hw'⟩ := Game.legal_concat_iff.mp hsplit
  obtain ⟨prize, hprize, rfl, hplay⟩ := h.play_one hl
  rw [hplay] at hw'
  obtain ⟨bid, hbid, rfl, hstep⟩ := h.exists_place (List.ne_nil_of_mem hprize) hw'
  refine ⟨prize, hprize, bid, hbid, rfl, rfl, ?_⟩
  rw [← hstep, ← hplay]
  rfl

theorem Fresh.done_round (h : Fresh deck s) {r : String × String × String}
    (hl : (game (R := R) deck).Legal s (words [r])) :
    Done deck s [r] ((game (R := R) deck).play s (words [r])) := by
  obtain ⟨prize, bid, card⟩ := r
  have hsplit : (game (R := R) deck).Legal s ([prize, bid] ++ [card]) := hl
  obtain ⟨hl, -, hcard⟩ := Game.legal_concat_iff.mp hsplit
  obtain ⟨prize, hprize, bid, hbid, rfl, rfl, hplay⟩ := h.play_two hl
  rw [hplay] at hcard
  obtain ⟨card, gain, rfl, hmem, -, hfinish⟩ := h.exists_finish hprize hbid hcard
  have hround : (game (R := R) deck).play s
      (words [(prize.toString, bid.toString, card.toString)]) =
        (s.place prize bid).finish prize bid card gain := by
    rw [← hfinish, ← hplay]
    rfl
  rw [hround]
  refine ⟨h.finish hmem gain, ?_, ?_, ?_⟩
  · simp [Short]
  · have htext : String.ofList [prize, bid, card] =
        roundText (prize.toString, bid.toString, card.toString) := by
      apply String.toList_inj.mp
      simp [roundText]
    rw [List.map_singleton, ← htext]
    rfl
  · exact length_filter_ne (h.nodup .chance) (hmem .chance)

theorem Fresh.done (h : Fresh deck s) {rs : List (String × String × String)}
    (hl : (game (R := R) deck).Legal s (words rs)) :
    Done deck s rs ((game (R := R) deck).play s (words rs)) := by
  induction rs generalizing s with
  | nil => exact ⟨h, by simp, by simp [words], by simp [words]⟩
  | cons r rs ih =>
    have happ : words (r :: rs) = words [r] ++ words rs := by simp [words]
    rw [happ] at hl ⊢
    rw [Game.play_append]
    obtain ⟨hl, hrest⟩ := Game.legal_append_iff.mp hl
    obtain ⟨hfresh, hshort, hhistory, hlen⟩ := h.done_round hl
    obtain ⟨hfresh', hshort', hhistory', hlen'⟩ := ih hfresh hrest
    refine ⟨hfresh', ?_, ?_, ?_⟩
    · exact List.forall_mem_cons.mpr ⟨hshort r List.mem_cons_self, hshort'⟩
    · rw [hhistory', hhistory, List.append_assoc, ← List.map_append, List.singleton_append]
    · rw [List.length_singleton] at hlen
      rw [List.length_cons]
      omega

inductive Opens (t : State) : List String → State → Prop where
  | fresh : Opens t [] t
  | revealed {prize : Char} (hprize : prize ∈ t.prizes) :
      Opens t [prize.toString] (t.reveal prize)
  | placed {prize bid : Char} (hprize : prize ∈ t.prizes) (hbid : bid ∈ t.hand (.seat .first)) :
      Opens t [prize.toString, bid.toString] (t.place prize bid)

theorem Opens.hand_eq {t s : State} {ws : List String} (h : Opens t ws s) (p : Player) :
    s.hand p = t.hand p := by
  cases h <;> cases p <;> rfl

theorem Opens.of_seat {t s : State} {ws : List String} {seat : Seat} (h : Opens t ws s)
    (ht : Fresh deck t) (hp : s.player = some (.seat seat)) :
    ∃ prize : Char, s.prize = some prize ∧ s.history = t.history ∧
      (seat = .first ∧ ws = [prize.toString] ∨
        seat = .second ∧ ∃ bid : Char, ws = [prize.toString, bid.toString]) := by
  cases h with
  | fresh =>
    simp only [State.player, ht.prize_eq] at hp
    split at hp <;> cases hp
  | @revealed prize hprize =>
    rw [ht.player_reveal (List.ne_nil_of_mem hprize)] at hp
    cases hp
    exact ⟨prize, rfl, rfl, Or.inl ⟨rfl, rfl⟩⟩
  | @placed prize bid hprize _ =>
    rw [player_place (List.ne_nil_of_mem hprize)] at hp
    cases hp
    exact ⟨prize, rfl, rfl, Or.inr ⟨rfl, bid, rfl⟩⟩

theorem Opens.prizes_ne_nil {t s : State} {ws : List String} (h : Opens t ws s)
    (hp : s.player ≠ none) : t.prizes ≠ [] := by
  cases h with
  | fresh =>
    intro hs
    exact hp (by simp [State.player, hs])
  | revealed hprize => exact List.ne_nil_of_mem hprize
  | placed hprize _ => exact List.ne_nil_of_mem hprize

theorem actions_eq_map {p : Player} (hp : s.player = some p) :
    s.actions = (s.hand p).map Char.toString := by
  rw [State.actions, hp]

theorem Fresh.opens (h : Fresh deck s) {ws : List String} (hws : ws.length < 3)
    (hl : (game (R := R) deck).Legal s ws) : Opens s ws ((game (R := R) deck).play s ws) := by
  match ws with
  | [] => exact .fresh
  | [w] =>
    obtain ⟨prize, hprize, rfl, hplay⟩ := h.play_one hl
    rw [hplay]
    exact .revealed hprize
  | [w, w'] =>
    obtain ⟨prize, hprize, bid, hbid, rfl, rfl, hplay⟩ := h.play_two hl
    rw [hplay]
    exact .placed hprize hbid
  | _ :: _ :: _ :: rest =>
    simp only [List.length_cons] at hws
    omega

theorem length_pending_lt (as : List String) : (pending as).length < 3 := by
  induction as using pending.induct with
  | case1 _ _ _ rest ih => simpa [pending] using ih
  | case2 as h =>
    rw [pending]
    · rcases as with _ | ⟨_, _ | ⟨_, _ | ⟨_, rest⟩⟩⟩
      · simp
      · simp
      · simp
      · exact absurd rfl (h _ _ _ rest)
    · exact h

def lastFresh (deck : List Char) (as : List String) : State :=
  (words (rounds as)).foldl (State.step deck) (.start deck)

theorem done_of_legal (hd : deck.Nodup) {as : List String}
    (hl : (game (R := R) deck).Legal (.start deck) as) :
    Done deck (.start deck) (rounds as) (lastFresh deck as) := by
  rw [← words_append_pending as] at hl
  exact (fresh_start hd).done (Game.legal_append_iff.mp hl).1

theorem opens_of_legal (hd : deck.Nodup) {as : List String}
    (hl : (game (R := R) deck).Legal (.start deck) as) :
    Opens (lastFresh deck as) (pending as) ((game (R := R) deck).play (.start deck) as) := by
  have hplay : (game (R := R) deck).play (.start deck) as =
      (game (R := R) deck).play (lastFresh deck as) (pending as) := by
    conv_lhs => rw [← words_append_pending as, Game.play_append]
    rfl
  have hfresh := (done_of_legal hd hl).fresh
  rw [← words_append_pending as] at hl
  rw [hplay]
  exact hfresh.opens (length_pending_lt as) (Game.legal_append_iff.mp hl).2

theorem exists_prize_of_turn (hd : deck.Nodup) {seat : Seat} {as : List String}
    (ht : (game (R := R) deck).Turn (.start deck) seat as) :
    ∃ prize : Char, (pending as).head? = some prize.toString ∧
      (game (R := R) deck).observation ((game (R := R) deck).play (.start deck) as) =
        some (label (rounds as) prize.toString) ∧
      (seat = .first ∧ pending as = [prize.toString] ∨
        seat = .second ∧ ∃ bid : Char, pending as = [prize.toString, bid.toString]) := by
  have hdone := done_of_legal hd ht.legal
  obtain ⟨prize, hprize, hhistory, hpending⟩ :=
    (opens_of_legal hd ht.legal).of_seat hdone.fresh ht.player
  refine ⟨prize, ?_, ?_, hpending⟩
  · rcases hpending with ⟨-, hp⟩ | ⟨-, bid, hp⟩ <;> simp [hp]
  · have hp : State.player ((game (R := R) deck).play (.start deck) as) = some (.seat seat) :=
      ht.player
    show State.observation _ = _
    simp only [State.observation, hp, hprize, hhistory, hdone.history_eq, label]
    rfl

theorem actions_of_turn (hd : deck.Nodup) {seat : Seat} {as : List String}
    (ht : (game (R := R) deck).Turn (.start deck) seat as) :
    (game (R := R) deck).actions ((game (R := R) deck).play (.start deck) as) =
      ((lastFresh deck as).hand (.seat seat)).map Char.toString :=
  (actions_eq_map ht.player).trans
    (congrArg _ ((opens_of_legal hd ht.legal).hand_eq (.seat seat)))

theorem shows (hd : deck.Nodup) : (game (R := R) deck).Shows (.start deck) publicView := by
  constructor
  · intro seat as ht
    obtain ⟨prize, -, hsee, -⟩ := exists_prize_of_turn hd ht
    exact Option.isSome_of_eq_some hsee
  · intro seat as bs ha hb
    obtain ⟨prize, hprize, hsee, -⟩ := exists_prize_of_turn hd ha
    obtain ⟨prize', hprize', hsee', -⟩ := exists_prize_of_turn hd hb
    simp only [publicView, hprize, hprize', hsee, hsee', Option.some.injEq, Prod.mk.injEq]
    constructor
    · intro heq
      refine spelled_inj (done_of_legal hd ha.legal).short (done_of_legal hd hb.legal).short
        (by simp) (by simp) ?_
      rw [spelled_eq_label, spelled_eq_label, heq]
    · rintro ⟨hrounds, hprizes⟩
      rw [hrounds, hprizes]
  · intro seat as bs ha hb hview
    have hrounds : rounds as = rounds bs := congrArg Prod.fst hview
    rw [actions_of_turn hd ha, actions_of_turn hd hb, lastFresh, lastFresh, hrounds]

theorem ownMoves_second (hd : deck.Nodup) {rs : List (String × String × String)} {w w' : String}
    (hl : (game (R := R) deck).Legal (.start deck) (words rs ++ [w, w'])) :
    (game (R := R) deck).ownMoves .second (.start deck) (words rs ++ [w, w']) =
      (game (R := R) deck).ownMoves .second (.start deck) (words rs ++ [w]) := by
  rw [← List.singleton_append, ← List.append_assoc] at hl ⊢
  obtain ⟨hl, -⟩ := Game.legal_concat_iff.mp hl
  obtain ⟨hwords, hw⟩ := Game.legal_append_iff.mp hl
  have hfresh := ((fresh_start hd).done hwords).fresh
  obtain ⟨prize, hprize, rfl, hplay⟩ := hfresh.play_one hw
  have hfirst : (State.reveal _ prize).player = some (.seat .first) :=
    hfresh.player_reveal (List.ne_nil_of_mem hprize)
  rw [← hplay] at hfirst
  rw [Game.ownMoves_concat, Game.ownMove_of_player_ne, List.append_nil]
  rw [Game.play_append]
  intro hsecond
  cases hfirst.symm.trans hsecond

theorem ownMoves_eq (hd : deck.Nodup) {seat : Seat} {as bs : List String}
    (ha : (game (R := R) deck).Turn (.start deck) seat as)
    (hb : (game (R := R) deck).Turn (.start deck) seat bs)
    (hview : publicView seat as = publicView seat bs) :
    (game (R := R) deck).ownMoves seat (.start deck) as =
      (game (R := R) deck).ownMoves seat (.start deck) bs := by
  obtain ⟨prize, hprize, -, hpa⟩ := exists_prize_of_turn hd ha
  obtain ⟨prize', hprize', -, hpb⟩ := exists_prize_of_turn hd hb
  have hla := ha.legal
  have hlb := hb.legal
  simp only [publicView, hprize, hprize', Option.some.injEq, Prod.mk.injEq] at hview
  rw [← words_append_pending as] at hla ⊢
  rw [← words_append_pending bs] at hlb ⊢
  rcases hpa with ⟨rfl, hpa⟩ | ⟨rfl, bid, hpa⟩
  · rcases hpb with ⟨-, hpb⟩ | ⟨h, -⟩
    · rw [hpa, hpb, hview.1, hview.2]
    · cases h
  · rcases hpb with ⟨h, -⟩ | ⟨-, bid', hpb⟩
    · cases h
    · -- the pending bids may differ, but the second seat made neither
      rw [hpa] at hla ⊢
      rw [hpb] at hlb ⊢
      rw [ownMoves_second hd hla, ownMoves_second hd hlb, hview.1, hview.2]

theorem isSome_payoff {s : State} (hp : s.player = none) :
    ((game (R := R) deck).payoff s).isSome := by
  simp [game, hp]

theorem isSome_chanceProb {s : State} {a : String} (hp : s.player = some .chance) :
    ((game (R := R) deck).chanceProb s a).isSome := by
  simp [game, hp]

theorem answers_of_legal (hd : deck.Nodup) {as : List String}
    (hl : (game (R := R) deck).Legal (.start deck) as) :
    (game (R := R) deck).Answers ((game (R := R) deck).play (.start deck) as) := by
  constructor
  · exact isSome_payoff
  · intro hp
    have hopens := opens_of_legal hd hl
    obtain ⟨player, hplayer⟩ := Option.ne_none_iff_exists'.mp hp
    have hlen := (done_of_legal hd hl).fresh.length_eq player
    have hpos := List.length_pos_iff.mpr (hopens.prizes_ne_nil hp)
    rw [← hopens.hand_eq] at hlen
    have hacts := actions_eq_map hplayer
    intro hnil
    rw [show State.actions _ = [] from hnil, eq_comm, List.map_eq_nil_iff] at hacts
    rw [hacts, List.length_nil] at hlen
    omega
  · exact fun hp _ _ => isSome_chanceProb hp
  · exact fun seat hp => (shows hd).isSome_observation ⟨hl, hp⟩

theorem length_words (rs : List (String × String × String)) : (words rs).length = 3 * rs.length := by
  induction rs with
  | nil => rfl
  | cons r rs ih =>
    simp only [words, List.flatMap_cons, List.length_append, List.length_cons] at ih ⊢
    simp
    omega

theorem length_le (hd : deck.Nodup) {as : List String}
    (hl : (game (R := R) deck).Legal (.start deck) as) : as.length ≤ 3 * deck.length := by
  have hopens := opens_of_legal hd hl
  have hlen : (lastFresh deck as).prizes.length + (rounds as).length = deck.length :=
    (done_of_legal hd hl).length_eq
  have hpending := length_pending_lt as
  rw [← words_append_pending as, List.length_append, length_words]
  generalize pending as = ws at hopens hpending ⊢
  generalize (game (R := R) deck).play (.start deck) as = s at hopens
  cases hopens with
  | fresh =>
    simp only [List.length_nil]
    omega
  | revealed hprize | placed hprize _ =>
    -- while a round is open, its prize is still among those to be won
    have hpos := List.length_pos_of_mem hprize
    omega

theorem playable (hd : deck.Nodup) : (game (R := R) deck).Playable (.start deck) := by
  refine ⟨⟨3 * deck.length, fun as => length_le hd⟩, fun as hl => answers_of_legal hd hl, ?_, ?_⟩
  · intro seat as ht
    rw [actions_of_turn hd ht]
    refine ((done_of_legal hd ht.legal).fresh.nodup _).map fun c c' h => ?_
    simpa using congrArg String.toList h
  · intro seat as bs ha hb hsee
    have hview := ((shows hd).observation_iff ha hb).mp hsee
    exact ⟨(shows hd).actions_eq ha hb hview, ownMoves_eq hd ha hb hview⟩

end Game

end ExtensiveForm.Games.Goofspiel
