import ExtensiveForm.Proofs.Games.Labels
import ExtensiveForm.Proofs.Plays

/-!
Games that begin with a deal, of which each seat holds a part, and go on in public. Main statement: the
label of a seat shows its part of the deal and the public words after it, and nothing else, if each of
them can be told apart from what else may stand in its place.
-/

set_option autoImplicit false

namespace ExtensiveForm.Games

variable {σ R : Type} {g : Game σ String String R} {s : σ} {holding : Seat → String → Option String}

def dealtView (holding : Seat → String → Option String) (seat : Seat) (as : List String) :
    Option String × List String :=
  (as.head?.bind (holding seat), as.tail)

def ownCard (seat : Seat) (deal : String) : Option String :=
  (cardAt? (some deal) seat.index).map Char.toString

theorem told_ownCard {seat : Seat} {deal deal' v v' : String} (hv : ownCard seat deal = some v)
    (hv' : ownCard seat deal' = some v') : Told v v' := by
  obtain ⟨c, -, rfl⟩ := Option.map_eq_some_iff.mp hv
  obtain ⟨c', -, rfl⟩ := Option.map_eq_some_iff.mp hv'
  exact told_of_length (by simp)

theorem getLast?_deal {deal w : String} (h : deal ≠ w) (ws : List String) :
    (deal :: ws).getLast? = some w ↔ ws.getLast? = some w := by
  cases ws <;> simp [h]

/-- Who acts, and what a seat may do, is a matter of the words after the deal. -/
structure Dealt (g : Game σ String String R) (s : σ) (holding : Seat → String → Option String) :
    Prop where
  player_start : g.player s = some .chance
  player_eq : ∀ {deal deal' ws}, g.Legal s (deal :: ws) → g.Legal s (deal' :: ws) →
    g.player (g.play s (deal :: ws)) = g.player (g.play s (deal' :: ws))
  actions_eq : ∀ {seat deal deal' ws}, g.Turn s seat (deal :: ws) → g.Turn s seat (deal' :: ws) →
    g.actions (g.play s (deal :: ws)) = g.actions (g.play s (deal' :: ws))
  observation_eq : ∀ {seat deal ws}, g.Turn s seat (deal :: ws) →
    ∃ v, holding seat deal = some v ∧ g.observation (g.play s (deal :: ws)) = some (seen v ws)
  told_holding : ∀ {seat deal deal' v v'}, g.Legal s [deal] → g.Legal s [deal'] →
    holding seat deal = some v → holding seat deal' = some v' → Told v v'
  told_word : ∀ {deal deal' ws w w'}, g.Legal s (deal :: (ws ++ [w])) →
    g.Legal s (deal' :: (ws ++ [w'])) → Told w w'

namespace Dealt

theorem legal_deal {deal : String} {ws : List String} (h : g.Legal s (deal :: ws)) :
    g.Legal s [deal] :=
  ⟨h.1, h.2.1, trivial⟩

theorem exists_deal (h : Dealt g s holding) {seat : Seat} {as : List String}
    (ht : g.Turn s seat as) : ∃ deal ws, as = deal :: ws := by
  cases as with
  | nil =>
    have hp := ht.player
    rw [Game.play_nil, h.player_start] at hp
    cases hp
  | cons deal ws => exact ⟨deal, ws, rfl⟩

/-- Words are read one after the other: what was read tells how the next one ends. -/
theorem words_eq (h : Dealt g s holding) {deal deal' : String} (read : List String)
    {ws ws' : List String} (hl : g.Legal s (deal :: (read ++ ws))) (hl' : g.Legal s (deal' :: (read ++ ws')))
    (heq : spelled ws = spelled ws') : ws = ws' := by
  induction ws generalizing read ws' with
  | nil =>
    cases ws' with
    | nil => rfl
    | cons w' ws' => simp at heq
  | cons w ws ih =>
    cases ws' with
    | nil => simp at heq
    | cons w' ws' =>
      have hnext : g.Legal s (deal :: (read ++ [w]) ++ ws) := by simpa using hl
      have hnext' : g.Legal s (deal' :: (read ++ [w']) ++ ws') := by simpa using hl'
      have htold := h.told_word (Game.legal_append_iff.mp hnext).1 (Game.legal_append_iff.mp hnext').1
      rw [spelled_cons, spelled_cons, List.cons.injEq] at heq
      obtain ⟨rfl, hrest⟩ := htold ws ws' heq.2
      rw [ih (read ++ [w]) hnext hnext' hrest]

theorem shows (h : Dealt g s holding) : g.Shows s (dealtView holding) := by
  constructor
  · intro seat as ht
    obtain ⟨deal, ws, rfl⟩ := h.exists_deal ht
    obtain ⟨v, -, hsee⟩ := h.observation_eq ht
    exact Option.isSome_of_eq_some hsee
  · intro seat as bs ha hb
    obtain ⟨deal, ws, rfl⟩ := h.exists_deal ha
    obtain ⟨deal', ws', rfl⟩ := h.exists_deal hb
    obtain ⟨v, hv, hsee⟩ := h.observation_eq ha
    obtain ⟨v', hv', hsee'⟩ := h.observation_eq hb
    simp only [dealtView, List.head?_cons, Option.bind_some, List.tail_cons, hv, hv', hsee, hsee',
      Option.some.injEq, Prod.mk.injEq]
    constructor
    · intro heq
      have htold := h.told_holding (legal_deal ha.legal) (legal_deal hb.legal) hv hv'
      obtain ⟨rfl, hws⟩ := htold.seen_inj heq
      exact ⟨rfl, h.words_eq [] ha.legal hb.legal hws⟩
    · rintro ⟨rfl, rfl⟩
      rfl
  · intro seat as bs ha hb hview
    obtain ⟨deal, ws, rfl⟩ := h.exists_deal ha
    obtain ⟨deal', ws', rfl⟩ := h.exists_deal hb
    obtain rfl : ws = ws' := congrArg Prod.snd hview
    exact h.actions_eq ha hb

/-- A seat that holds the same and sees the same has done the same. -/
theorem ownMoves_eq (h : Dealt g s holding) {seat : Seat} {deal deal' : String} {ws : List String}
    (hl : g.Legal s (deal :: ws)) (hl' : g.Legal s (deal' :: ws))
    (hv : holding seat deal = holding seat deal') :
    g.ownMoves seat s (deal :: ws) = g.ownMoves seat s (deal' :: ws) := by
  induction ws using List.reverseRecOn with
  | nil => simp [Game.ownMoves, Game.ownMove, h.player_start]
  | append_singleton ws w ih =>
    rw [← List.cons_append, Game.legal_concat_iff] at hl hl'
    rw [← List.cons_append, ← List.cons_append, Game.ownMoves_concat, Game.ownMoves_concat,
      ih hl.1 hl'.1]
    congr 1
    -- who acts does not depend on the deal, so the last word is in both plays the seat's or in neither
    have hplayer := h.player_eq hl.1 hl'.1
    by_cases hp : g.player (g.play s (deal :: ws)) = some (.seat seat)
    · have ht : g.Turn s seat (deal :: ws) := ⟨hl.1, hp⟩
      have ht' : g.Turn s seat (deal' :: ws) := ⟨hl'.1, hplayer ▸ hp⟩
      have hsame : dealtView holding seat (deal :: ws) = dealtView holding seat (deal' :: ws) := by
        simp [dealtView, hv]
      rw [Game.ownMove, Game.ownMove, hplayer, h.actions_eq ht ht',
        (h.shows.observation_iff ht ht').mpr hsame]
    · rw [Game.ownMove_of_player_ne hp, Game.ownMove_of_player_ne (hplayer ▸ hp)]

theorem playable (h : Dealt g s holding) (d : Nat)
    (hlen : ∀ deal ws, g.Legal s (deal :: ws) → ws.length ≤ d) (hstart : g.Answers s)
    (hans : ∀ deal ws, g.Legal s (deal :: ws) → g.Answers (g.play s (deal :: ws)))
    (hnodup : ∀ seat deal ws, g.Turn s seat (deal :: ws) →
      (g.actions (g.play s (deal :: ws))).Nodup) : g.Playable s := by
  refine ⟨⟨d + 1, ?_⟩, ?_, ?_, ?_⟩
  · intro as ha
    cases as with
    | nil => exact Nat.zero_le _
    | cons deal ws => exact Nat.succ_le_succ (hlen deal ws ha)
  · intro as ha
    cases as with
    | nil => exact hstart
    | cons deal ws => exact hans deal ws ha
  · intro seat as ha
    obtain ⟨deal, ws, rfl⟩ := h.exists_deal ha
    exact hnodup seat deal ws ha
  · intro seat as bs ha hb hsee
    have hview := (h.shows.observation_iff ha hb).mp hsee
    refine ⟨h.shows.actions_eq ha hb hview, ?_⟩
    obtain ⟨deal, ws, rfl⟩ := h.exists_deal ha
    obtain ⟨deal', ws', rfl⟩ := h.exists_deal hb
    obtain rfl : ws = ws' := congrArg Prod.snd hview
    exact h.ownMoves_eq ha.legal hb.legal (congrArg Prod.fst hview)

end Dealt

end ExtensiveForm.Games
