import ExtensiveForm.Proofs.Descent
import ExtensiveForm.Proofs.SequenceForm.Check

set_option autoImplicit false

namespace ExtensiveForm

namespace Game

variable {σ L A R : Type} [BEq L] [Hashable L] [BEq A] [Scalar R] {g : Game σ A L R}

/-- Visits a state and all below it: `weight` is the probability of chance's moves on the way to it,
and `last` are the last own moves of both seats. A terminal adds to the payoff of its pair of moves; at
a chance node all probabilities are asked for before any branch is visited; a decision enters its set
into the registry of the seat. Gives nothing if a state lies deeper than `depth`. -/
def visit (g : Game σ A L R) : (depth : Nat) → σ → R → SequencePair → Exploration L A R →
    ExceptT (Violation L A) Option (Exploration L A R)
  | 0, _, _, _, _ => .mk none
  | depth + 1, s, weight, last, found =>
    match g.player s, g.actions s with
    | none, _ =>
      match g.payoff s with
      | none => throw (.breach .noPayoff)
      | some v => return found.addPayoff last (v * weight)
    | some player, [] => throw (.breach (.noLegalActions player))
    | some .chance, a :: as =>
      match (a :: as).mapM (g.chanceProb s) with
      | none => throw (.breach .noChanceProb)
      | some probs =>
        ((a :: as).zip probs).foldlM
          (fun found (a, p) => g.visit depth (g.step s a) (weight * p) last found) found
    | some (.seat seat), a :: as =>
      match g.observation s with
      | none => throw (.breach (.noObservation seat))
      | some label =>
        match found.enter seat ⟨label, a :: as, last.get seat⟩ with
        | .error c => throw (c.violation seat label (a :: as))
        | .ok (i, found) =>
          (a :: as).zipIdx.foldlM
            (fun found (a, k) => g.visit depth (g.step s a) weight (last.set seat (.move i k)) found)
            found

omit [BEq L] [Hashable L] [BEq A] [Scalar R] in
theorem branches?_eq (s : σ) (actions : List A) : g.branches? s actions =
    (actions.mapM (g.chanceProb s)).map fun probs =>
      (actions.zip probs).map fun (a, p) => (p, g.step s a) := by
  unfold branches?
  induction actions with
  | nil => rfl
  | cons a actions ih =>
    rw [List.mapM_cons, List.mapM_cons, ih]
    cases g.chanceProb s a with
    | none => rfl
    | some p => cases actions.mapM (g.chanceProb s) <;> rfl

theorem visit_eq_descend (depth : Nat) (frame : Frame σ R) (found : Exploration L A R) :
    g.visit depth frame.state frame.weight frame.last found = descend g.look depth frame found := by
  induction depth generalizing frame found with
  | zero => rfl
  | succ depth ih =>
    obtain ⟨s, weight, last⟩ := frame
    simp only [visit, descend, look, node]
    cases hp : g.player s with
    | none => cases g.payoff s <;> rfl
    | some player =>
      cases ha : g.actions s with
      | nil => rfl
      | cons a as =>
        cases player with
        | chance =>
          simp only [branches?_eq]
          cases (a :: as).mapM (g.chanceProb s) with
          | none => rfl
          | some probs =>
            simp only [Option.map_some, Frame.chanceChildren, List.map_map, List.foldlM_map, ← ih]
            rfl
        | seat seat =>
          cases g.observation s with
          | none => rfl
          | some label =>
            simp only [moves_map_fst]
            cases found.enter seat ⟨label, a :: as, last.get seat⟩ with
            | error c => rfl
            | ok result =>
              simp only [Frame.moveChildren, moves, List.mapIdx_eq_zipIdx_map, List.zipIdx_map,
                List.map_map, List.foldlM_map, ← ih]
              rfl

/-- The exploration of a game whose plays all end comes to a result, and it is that of the recursive
visit. No law of numbers is used, so every payoff is made of the same additions in the same order. -/
theorem explore_eq_visit {d fuel : Nat} {start : σ} (hd : g.EndsWithin d start)
    (hfuel : g.treeSize d start ≤ fuel) : ∃ result, g.explore fuel start = some result ∧
      (g.visit (d + 1) start 1 (.both .empty) .empty).run = some result := by
  obtain ⟨result, hresult⟩ := exists_explore (R := R) hd hfuel
  have hroot := visit_eq_descend (g := g) (d + 1) (.root start) .empty
  simp only [Frame.root] at hroot
  refine ⟨result, hresult, ?_⟩
  rw [← hresult, explore, walk_eq_worklist, hroot]
  exact (worklist_eq_descend (fun _ _ _ _ h => map_state_of_look h) hd hfuel _).symm

end Game

theorem explore_lottery : ∃ result, lottery.explore 12 0 = some result ∧
    (lottery.visit 4 0 1 (.both .empty) .empty).run = some result :=
  Game.explore_eq_visit endsWithin_lottery (by decide)

end ExtensiveForm
