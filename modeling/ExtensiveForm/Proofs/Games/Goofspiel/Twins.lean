import ExtensiveForm.Proofs.Games.Goofspiel

/-!
Goofspiel with the seats exchanged. Between two rounds each state that can be reached has a twin, with
the hands and all past bids exchanged and the opposite score. Main statements: the next round leads from
twins to twins, and all decisions lie in a round after a state that has one.
-/

set_option autoImplicit false

namespace ExtensiveForm.Games.Goofspiel

section Labels

/-- The two bids exchanged in each finished round. A label has four characters for every finished round,
the comma after it included, and then the open prize. -/
def exchangeChars : List Char → List Char
  | prize :: bid :: card :: comma :: rest => prize :: card :: bid :: comma :: exchangeChars rest
  | cs => cs

def exchangeBids (label : String) : String := String.ofList (exchangeChars label.toList)

theorem exchangeChars_exchangeChars (cs : List Char) : exchangeChars (exchangeChars cs) = cs := by
  induction cs using exchangeChars.induct with
  | case1 prize bid card comma rest ih => rw [exchangeChars, exchangeChars, ih]
  | case2 cs h =>
    rw [exchangeChars, exchangeChars]
    · exact h
    · rw [exchangeChars]
      · exact h
      · exact h

@[simp] theorem exchangeBids_exchangeBids (label : String) :
    exchangeBids (exchangeBids label) = label := by
  simp [exchangeBids, exchangeChars_exchangeChars]

def Exchanged (w w' : String) : Prop := ∃ prize bid card : Char,
  w = String.ofList [prize, bid, card] ∧ w' = String.ofList [prize, card, bid]

theorem Exchanged.symm {w w' : String} (h : Exchanged w w') : Exchanged w' w := by
  obtain ⟨prize, bid, card, rfl, rfl⟩ := h
  exact ⟨prize, card, bid, rfl, rfl⟩

def roundLabel (history : List String) (prize : Char) : String :=
  String.intercalate "," (history ++ [prize.toString])

theorem toList_roundLabel_cons (w : String) (history : List String) (prize : Char) :
    (roundLabel (w :: history) prize).toList =
      w.toList ++ ',' :: (roundLabel history prize).toList := by
  have hne : history ++ [prize.toString] ≠ [] := by simp
  unfold roundLabel
  rw [List.cons_append]
  obtain ⟨v, ws, hws⟩ := List.exists_cons_of_ne_nil hne
  rw [hws, String.intercalate_cons_cons, String.toList_append, String.toList_append]
  simp

theorem exchangeBids_roundLabel {ws ws' : List String} (h : List.Forall₂ Exchanged ws ws')
    (prize : Char) : exchangeBids (roundLabel ws prize) = roundLabel ws' prize := by
  apply String.toList_inj.mp
  rw [exchangeBids, String.toList_ofList]
  induction h with
  | nil => simp [roundLabel, exchangeChars]
  | cons hw _ ih =>
    obtain ⟨p, bid, card, rfl, rfl⟩ := hw
    rw [toList_roundLabel_cons, toList_roundLabel_cons, ← ih]
    simp [exchangeChars]

end Labels

section Rounds

variable {deck : List Char} {s t : State} {prize bid card : Char} {gain : Int} {seat : Seat}

theorem settle?_eq_some_iff : State.settle? deck prize bid card = some gain ↔
    ∃ value first second : Nat, rank? deck prize = some value ∧ rank? deck bid = some first ∧
      rank? deck card = some second ∧
        gain = if second < first then (value : Int) + 1
          else if first < second then -((value : Int) + 1) else 0 := by
  simp only [State.settle?, Option.bind_eq_bind, Option.bind_eq_some_iff, Option.pure_def,
    Option.some.injEq, exists_and_left, eq_comm (a := gain)]

theorem settle?_swap (h : State.settle? deck prize bid card = some gain) :
    State.settle? deck prize card bid = some (-gain) := by
  obtain ⟨value, first, second, hvalue, hfirst, hsecond, rfl⟩ := settle?_eq_some_iff.mp h
  refine settle?_eq_some_iff.mpr ⟨value, second, first, hvalue, hsecond, hfirst, ?_⟩
  rcases Nat.lt_trichotomy first second with hlt | rfl | hlt
  · rw [if_neg (Nat.lt_asymm hlt), if_pos hlt, if_pos hlt, Int.neg_neg]
  · rw [if_neg (Nat.lt_irrefl _), if_neg (Nat.lt_irrefl _), Int.neg_zero]
  · rw [if_pos hlt, if_neg (Nat.lt_asymm hlt), if_pos hlt]

theorem Fresh.observation_reveal (h : Fresh deck s) (hs : s.prizes ≠ []) :
    (s.reveal prize).observation = some (roundLabel s.history prize) := by
  simp only [State.observation, h.player_reveal hs]
  rfl

theorem observation_place (hs : s.prizes ≠ []) :
    (s.place prize bid).observation = some (roundLabel s.history prize) := by
  simp only [State.observation, player_place hs]
  rfl

theorem Fresh.length_actions (h : Fresh deck s) {p : Player} (hp : t.player = some p)
    (hhand : t.hand p = s.hand p) : t.actions.length = s.prizes.length := by
  rw [actions_eq_map hp, List.length_map, hhand, h.length_eq]

variable {R : Type} [Scalar R]

structure Between (R : Type) [Scalar R] (deck : List Char) (s : State) : Prop
    extends Fresh deck s where
  leads : (game (R := R) deck).Leads (.start deck) s

theorem between_start (hd : deck.Nodup) : Between R deck (.start deck) :=
  ⟨fresh_start hd, .refl⟩

theorem leads_step {w : String} (h : (game (R := R) deck).Leads (.start deck) s)
    (hp : s.player ≠ none) (hw : w ∈ s.actions) :
    (game (R := R) deck).Leads (.start deck) (s.step deck w) :=
  h.tail (Game.mem_successors_iff.mpr ⟨hp, w, hw, rfl⟩)

theorem mem_actions {p : Player} (hp : s.player = some p) {c : Char} (hc : c ∈ s.hand p) :
    c.toString ∈ s.actions :=
  actions_eq_map hp ▸ List.mem_map_of_mem hc

theorem Between.leads_reveal (h : Between R deck s) (hprize : prize ∈ s.prizes) :
    (game (R := R) deck).Leads (.start deck) (s.reveal prize) := by
  have hs := List.ne_nil_of_mem hprize
  have hp := h.player_eq hs
  rw [← h.step_eq hs]
  exact leads_step h.leads (by simp [hp]) (mem_actions hp hprize)

theorem Between.leads_place (h : Between R deck s) (hprize : prize ∈ s.prizes)
    (hbid : bid ∈ s.hand (.seat .first)) :
    (game (R := R) deck).Leads (.start deck) (s.place prize bid) := by
  have hs := List.ne_nil_of_mem hprize
  have hp : (s.reveal prize).player = some (.seat .first) := h.player_reveal hs
  rw [← h.step_reveal hs]
  exact leads_step (h.leads_reveal hprize) (by simp [hp]) (mem_actions hp hbid)

theorem Between.finish (h : Between R deck s) (hmem : ∀ p, played prize bid card p ∈ s.hand p)
    (hg : State.settle? deck prize bid card = some gain) :
    Between R deck ((s.place prize bid).finish prize bid card gain) := by
  have hs := List.ne_nil_of_mem (hmem .chance)
  have hp : (s.place prize bid).player = some (.seat .second) := player_place hs
  refine ⟨h.toFresh.finish hmem gain, ?_⟩
  rw [← step_place hs hg]
  exact leads_step (h.leads_place (hmem .chance) (hmem (.seat .first))) (by simp [hp])
    (mem_actions hp (hmem (.seat .second)))

theorem Between.exists_decision (h : Between R deck s) (hprize : prize ∈ s.prizes) (seat : Seat) :
    ∃ t, (game (R := R) deck).Leads (.start deck) t ∧ t.player = some (.seat seat) ∧
      t.observation = some (roundLabel s.history prize) ∧ t.actions.length = s.prizes.length := by
  have hs := List.ne_nil_of_mem hprize
  cases seat with
  | first =>
    have hp : (s.reveal prize).player = some (.seat .first) := h.player_reveal hs
    exact ⟨_, h.leads_reveal hprize, hp, h.observation_reveal hs, h.length_actions hp rfl⟩
  | second =>
    have hpos := List.length_pos_of_mem hprize
    rw [← h.length_eq (.seat .first)] at hpos
    obtain ⟨bid, hbid⟩ := List.exists_mem_of_length_pos hpos
    have hp : (s.place prize bid).player = some (.seat .second) := player_place hs
    exact ⟨_, h.leads_place hprize hbid, hp, observation_place hs, h.length_actions hp rfl⟩

theorem Opens.exists_prize {ws : List String} (h : Opens t ws s) (ht : Fresh deck t)
    (hp : s.player = some (.seat seat)) : ∃ prize ∈ t.prizes,
      s.observation = some (roundLabel t.history prize) ∧ s.actions.length = t.prizes.length := by
  have hlen := ht.length_actions hp (h.hand_eq _)
  cases h with
  | fresh =>
    simp only [State.player, ht.prize_eq] at hp
    split at hp <;> cases hp
  | @revealed prize hprize =>
    exact ⟨prize, hprize, ht.observation_reveal (List.ne_nil_of_mem hprize), hlen⟩
  | @placed prize bid hprize _ =>
    exact ⟨prize, hprize, observation_place (List.ne_nil_of_mem hprize), hlen⟩

/-- The other seat's point of view: hands and past bids exchanged, and the opposite score. -/
structure Twins (R : Type) [Scalar R] (deck : List Char) (s t : State) : Prop where
  left : Between R deck s
  right : Between R deck t
  hands_eq : t.hands = s.hands.swap
  prizes_eq : t.prizes = s.prizes
  score_eq : t.score = -s.score
  history : List.Forall₂ Exchanged s.history t.history

theorem twins_start (hd : deck.Nodup) : Twins R deck (.start deck) (.start deck) :=
  ⟨between_start hd, between_start hd, rfl, rfl, rfl, .nil⟩

theorem Twins.symm (h : Twins R deck s t) : Twins R deck t s := by
  refine ⟨h.right, h.left, ?_, h.prizes_eq.symm, ?_, ?_⟩
  · rw [h.hands_eq, PerSeat.swap_swap]
  · rw [h.score_eq, Int.neg_neg]
  · exact h.history.flip.imp fun _ _ hw => Exchanged.symm hw

theorem Twins.hand_eq (h : Twins R deck s t) (seat : Seat) :
    t.hand (.seat seat) = s.hand (.seat seat.opponent) := by
  simp only [State.hand, h.hands_eq, PerSeat.get_swap]

theorem Twins.played_mem (h : Twins R deck s t) (hmem : ∀ p, played prize bid card p ∈ s.hand p)
    (p : Player) : played prize card bid p ∈ t.hand p := by
  rcases p with seat | _
  · rw [h.hand_eq]
    cases seat with
    | first => exact hmem (.seat .second)
    | second => exact hmem (.seat .first)
  · show prize ∈ t.prizes
    rw [h.prizes_eq]
    exact hmem .chance

theorem Twins.finish (h : Twins R deck s t) (hmem : ∀ p, played prize bid card p ∈ s.hand p)
    (hg : State.settle? deck prize bid card = some gain) :
    Twins R deck ((s.place prize bid).finish prize bid card gain)
      ((t.place prize card).finish prize card bid (-gain)) := by
  have hright := h.right.finish (h.played_mem hmem) (settle?_swap hg)
  refine ⟨h.left.finish hmem hg, hright, ?_, ?_, ?_, ?_⟩
  · simp only [State.finish, State.place, h.hands_eq]
    rfl
  · simp only [State.finish, State.place, h.prizes_eq]
  · simp only [State.finish, State.place, h.score_eq, Int.neg_add]
  · exact List.rel_append h.history (.cons ⟨prize, bid, card, rfl, rfl⟩ .nil)

theorem Twins.exchangeBids_eq (h : Twins R deck s t) (prize : Char) :
    exchangeBids (roundLabel s.history prize) = roundLabel t.history prize :=
  exchangeBids_roundLabel h.history prize

/-- Every state that can be reached lies in a round after a state with a twin. -/
theorem exists_twins_of_leads (hd : deck.Nodup) (h : (game (R := R) deck).Leads (.start deck) s) :
    ∃ u t ws, Twins R deck u t ∧ Opens u ws s := by
  induction h with
  | refl => exact ⟨_, _, [], twins_start hd, .fresh⟩
  | @tail s s' _ hnext ih =>
    obtain ⟨u, t, ws, htwins, hopens⟩ := ih
    obtain ⟨hp, w, hw, rfl⟩ := Game.mem_successors_iff.mp hnext
    have hfresh := htwins.left.toFresh
    change ∃ u t ws, Twins R deck u t ∧ Opens u ws (State.step deck s w)
    cases hopens with
    | fresh =>
      obtain ⟨prize, hprize, -, hstep⟩ := hfresh.exists_reveal hp hw
      rw [hstep]
      exact ⟨_, t, _, htwins, .revealed hprize⟩
    | @revealed prize hprize =>
      obtain ⟨bid, hbid, -, hstep⟩ := hfresh.exists_place (List.ne_nil_of_mem hprize) hw
      rw [hstep]
      exact ⟨_, t, _, htwins, .placed hprize hbid⟩
    | @placed prize bid hprize hbid =>
      obtain ⟨card, gain, -, hmem, hg, hstep⟩ := hfresh.exists_finish hprize hbid hw
      rw [hstep]
      exact ⟨_, _, _, htwins.finish hmem hg, .fresh⟩

theorem Between.exists_twins (hd : deck.Nodup) (h : Between R deck s) : ∃ t, Twins R deck s t := by
  obtain ⟨u, t, ws, htwins, hopens⟩ := exists_twins_of_leads hd h.leads
  have hprize := h.prize_eq
  cases hopens with
  | fresh => exact ⟨t, htwins⟩
  | revealed | placed => cases hprize

end Rounds

end ExtensiveForm.Games.Goofspiel
