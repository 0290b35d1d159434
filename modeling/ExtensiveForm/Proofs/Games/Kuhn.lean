import ExtensiveForm.Games.Kuhn
import ExtensiveForm.Proofs.Games.Deals

set_option autoImplicit false

namespace ExtensiveForm.Games.Kuhn

def lines : List (List String) :=
  [[], ["Check"], ["Bet"], ["Check", "Check"], ["Check", "Bet"], ["Bet", "Fold"], ["Bet", "Call"],
    ["Check", "Bet", "Fold"], ["Check", "Bet", "Call"]]

def after (deal : String) (ws : List String) : State := (deal :: ws).foldl State.step .start

theorem history_after : ∀ deal ∈ deals, ∀ ws ∈ lines, (after deal ws).history = deal :: ws := by
  decide

theorem append_mem_lines : ∀ deal ∈ deals, ∀ ws ∈ lines, ∀ a ∈ (after deal ws).actions,
    ws ++ [a] ∈ lines := by decide

theorem length_line : ∀ ws ∈ lines, ws.length ≤ 3 := by decide

theorem comma_not_mem_line : ∀ ws ∈ lines, ∀ w ∈ ws, ',' ∉ w.toList := by decide

theorem after_eq : ∀ deal ∈ deals, ∀ ws ∈ lines,
    (after deal ws).player = (after "JQ" ws).player ∧
      (after deal ws).actions = (after "JQ" ws).actions := by decide

theorem player_after : ∀ deal ∈ deals, ∀ ws ∈ lines, (after deal ws).player ≠ some .chance ∧
    ((after deal ws).player = none → (after deal ws).ended = true) := by decide

theorem actions_after : ∀ deal ∈ deals, ∀ ws ∈ lines, (after deal ws).actions.Nodup ∧
    ((after deal ws).player ≠ none → (after deal ws).actions ≠ []) := by decide

theorem isSome_rank : ∀ deal ∈ deals, ∀ i ∈ [0, 1],
    ((cardAt? (some deal) i).bind (rank? deck)).isSome := by decide

variable {R : Type} [Scalar R] {deal : String} {ws : List String}

theorem line_of_legal (h : (game (R := R)).Legal .start (deal :: ws)) :
    deal ∈ deals ∧ ws ∈ lines := by
  have hd : deal ∈ deals := h.2.1
  have hline := h.2.2.invariant (P := fun ws t => t = after deal ws ∧ ws ∈ lines)
    ⟨rfl, by decide⟩ fun {ws t a} ht _ ha => by
      obtain ⟨rfl, hws⟩ := ht
      exact ⟨by simp [after, game], append_mem_lines deal hd ws hws a ha⟩
  exact ⟨hd, hline.2⟩

theorem exists_card?_after (hd : deal ∈ deals) (hws : ws ∈ lines) (seat : Seat) :
    ∃ c, (after deal ws).card? seat = some c ∧ ownCard seat deal = some c.toString ∧
      (rank? deck c).isSome := by
  have hrank := isSome_rank deal hd seat.index (by cases seat <;> simp [Seat.index])
  obtain ⟨r, hr⟩ := Option.isSome_iff_exists.mp hrank
  obtain ⟨c, hc, hr⟩ := Option.bind_eq_some_iff.mp hr
  refine ⟨c, ?_, by simp [ownCard, hc], Option.isSome_of_eq_some hr⟩
  rw [State.card?, history_after deal hd ws hws, List.head?_cons, hc]

theorem isSome_payoff_after (hd : deal ∈ deals) (hws : ws ∈ lines)
    (he : (after deal ws).ended = true) : ((after deal ws).payoff (R := R)).isSome := by
  obtain ⟨c, hc, -, hr⟩ := exists_card?_after hd hws .first
  obtain ⟨c', hc', -, hr'⟩ := exists_card?_after hd hws .second
  obtain ⟨r, hr⟩ := Option.isSome_iff_exists.mp hr
  obtain ⟨r', hr'⟩ := Option.isSome_iff_exists.mp hr'
  by_cases hf : (after deal ws).history.getLast? = some "Fold"
  · simp [State.payoff, he, hf]
  · simp [State.payoff, he, hf, hc, hc', hr, hr']

theorem dealt : Dealt (game (R := R)) .start ownCard := by
  constructor
  · rfl
  · intro deal deal' ws hl hl'
    obtain ⟨hd, hws⟩ := line_of_legal hl
    obtain ⟨hd', -⟩ := line_of_legal hl'
    exact (after_eq deal hd ws hws).1.trans (after_eq deal' hd' ws hws).1.symm
  · intro seat deal deal' ws ht ht'
    obtain ⟨hd, hws⟩ := line_of_legal ht.legal
    obtain ⟨hd', -⟩ := line_of_legal ht'.legal
    exact (after_eq deal hd ws hws).2.trans (after_eq deal' hd' ws hws).2.symm
  · intro seat deal ws ht
    obtain ⟨hd, hws⟩ := line_of_legal ht.legal
    obtain ⟨c, hc, hown, -⟩ := exists_card?_after hd hws seat
    have hp : (after deal ws).player = some (.seat seat) := ht.player
    refine ⟨c.toString, hown, ?_⟩
    show (after deal ws).observation = _
    simp [State.observation, hp, hc, history_after deal hd ws hws]
  · exact fun _ _ => told_ownCard
  · intro deal deal' ws w w' hl hl'
    have hw := comma_not_mem_line _ (line_of_legal hl).2 w (by simp)
    have hw' := comma_not_mem_line _ (line_of_legal hl').2 w' (by simp)
    exact told_of_not_mem hw hw'

theorem answers_start : (game (R := R)).Answers .start := by
  constructor <;> simp [game, State.player, State.actions, State.start, deals]

theorem answers_of_legal (h : (game (R := R)).Legal .start (deal :: ws)) :
    (game (R := R)).Answers ((game (R := R)).play .start (deal :: ws)) := by
  obtain ⟨hd, hws⟩ := line_of_legal h
  obtain ⟨hchance, hended⟩ := player_after deal hd ws hws
  constructor
  · exact fun hp => isSome_payoff_after hd hws (hended hp)
  · exact (actions_after deal hd ws hws).2
  · exact fun hp => absurd hp hchance
  · exact fun seat hp => dealt.shows.isSome_observation ⟨h, hp⟩

theorem playable : (game (R := R)).Playable .start := by
  refine dealt.playable 3 ?_ answers_start (fun deal ws => answers_of_legal) ?_
  · exact fun deal ws h => length_line ws (line_of_legal h).2
  · intro seat deal ws ht
    obtain ⟨hd, hws⟩ := line_of_legal ht.legal
    exact (actions_after deal hd ws hws).1

end ExtensiveForm.Games.Kuhn
