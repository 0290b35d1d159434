import ExtensiveForm.Proofs.Positions
import ExtensiveForm.Proofs.Traversal

set_option autoImplicit false

namespace ExtensiveForm.Game

variable {σ A L R : Type} {g : Game σ A L R} {s : σ}

structure Answers (g : Game σ A L R) (s : σ) : Prop where
  payoff : g.player s = none → (g.payoff s).isSome
  actions : g.player s ≠ none → g.actions s ≠ []
  chanceProb : g.player s = some .chance → ∀ a ∈ g.actions s, (g.chanceProb s a).isSome
  observation : ∀ seat, g.player s = some (.seat seat) → (g.observation s).isSome

theorem branches?_eq_some_iff [Zero R] {actions : List A} {branches : List (R × σ)} :
    g.branches? s actions = some branches ↔ (∀ a ∈ actions, (g.chanceProb s a).isSome) ∧
      branches = actions.map fun a => ((g.chanceProb s a).getD 0, g.step s a) := by
  rw [branches?, mapM_eq_some_iff]
  simp only [Option.isSome_map]
  refine and_congr_right fun hs => ?_
  have hmap : (actions.filterMap fun a => (g.chanceProb s a).map (·, g.step s a)) =
      actions.map fun a => ((g.chanceProb s a).getD 0, g.step s a) := by
    rw [← List.filterMap_eq_map]
    refine List.filterMap_congr fun a ha => ?_
    obtain ⟨p, hp⟩ := Option.isSome_iff_exists.mp (hs a ha)
    simp [hp]
  rw [hmap]

theorem branches?_eq_none_iff [Zero R] {actions : List A} :
    g.branches? s actions = none ↔ ∃ a ∈ actions, g.chanceProb s a = none := by
  constructor
  · intro h
    by_contra hne
    have hall : ∀ a ∈ actions, (g.chanceProb s a).isSome := fun a ha =>
      Option.isSome_iff_ne_none.mpr fun hnone => hne ⟨a, ha, hnone⟩
    cases h.symm.trans (branches?_eq_some_iff.mpr ⟨hall, rfl⟩)
  · rintro ⟨a, ha, hnone⟩
    cases hb : g.branches? s actions with
    | none => rfl
    | some branches =>
      have hsome := (branches?_eq_some_iff.mp hb).1 a ha
      simp [hnone] at hsome

theorem node_eq_terminal_iff {v : R} :
    g.node s = .ok (.terminal v) ↔ g.player s = none ∧ g.payoff s = some v := by
  unfold node
  repeat' split
  all_goals simp_all

theorem node_eq_chance_iff [Zero R] {branches : List (R × σ)} :
    g.node s = .ok (.chance branches) ↔ g.player s = some .chance ∧ g.actions s ≠ [] ∧
      (∀ a ∈ g.actions s, (g.chanceProb s a).isSome) ∧
      branches = (g.actions s).map fun a => ((g.chanceProb s a).getD 0, g.step s a) := by
  rw [← branches?_eq_some_iff]
  unfold node
  repeat' split
  all_goals simp_all

theorem node_eq_decision_iff {seat : Seat} {label : L} {moves : List (A × σ)} :
    g.node s = .ok (.decision seat label moves) ↔ g.player s = some (.seat seat) ∧
      g.actions s ≠ [] ∧ g.observation s = some label ∧ moves = g.moves s (g.actions s) := by
  rw [eq_comm (a := moves)]
  unfold node
  repeat' split
  all_goals simp_all

theorem Answers.of_node [Zero R] {n : Node σ A L R} (h : g.node s = .ok n) : g.Answers s := by
  cases n with
  | terminal v =>
    obtain ⟨hp, hv⟩ := node_eq_terminal_iff.mp h
    constructor <;> simp [hp, hv]
  | chance branches =>
    obtain ⟨hp, ha, hc, -⟩ := node_eq_chance_iff.mp h
    constructor <;> simp_all
  | decision seat label moves =>
    obtain ⟨hp, ha, ho, -⟩ := node_eq_decision_iff.mp h
    constructor <;> simp_all

theorem Answers.exists_node [Zero R] (h : g.Answers s) : ∃ n, g.node s = .ok n := by
  cases hp : g.player s with
  | none =>
    obtain ⟨v, hv⟩ := Option.isSome_iff_exists.mp (h.payoff hp)
    exact ⟨_, node_eq_terminal_iff.mpr ⟨hp, hv⟩⟩
  | some player =>
    have ha := h.actions (by simp [hp])
    cases player with
    | chance => exact ⟨_, node_eq_chance_iff.mpr ⟨hp, ha, h.chanceProb hp, rfl⟩⟩
    | seat seat =>
      obtain ⟨label, hl⟩ := Option.isSome_iff_exists.mp (h.observation seat hp)
      exact ⟨_, node_eq_decision_iff.mpr ⟨hp, ha, hl, rfl⟩⟩

theorem exists_node_iff [Zero R] : (∃ n, g.node s = .ok n) ↔ g.Answers s :=
  ⟨fun ⟨_, h⟩ => .of_node h, Answers.exists_node⟩

end ExtensiveForm.Game
