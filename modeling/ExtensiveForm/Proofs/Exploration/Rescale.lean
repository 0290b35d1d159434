import Mathlib.Algebra.Ring.Rat
import ExtensiveForm.Proofs.Exploration.Course

set_option autoImplicit false

namespace ExtensiveForm

variable {σ L A : Type} {k c : Rat}

namespace Game

/-- The game in which `k * v + c` is paid where `v` was. -/
def rescale (g : Game σ A L Rat) (k c : Rat) : Game σ A L Rat :=
  { g with payoff := fun s => (g.payoff s).map fun v => k * v + c }

end Game

def Node.rescale (k c : Rat) : Node σ A L Rat → Node σ A L Rat
  | terminal v => terminal (k * v + c)
  | chance branches => chance branches
  | decision seat label moves => decision seat label moves

namespace Game

variable {g : Game σ A L Rat}

theorem node_rescale {s : σ} {n : Node σ A L Rat} (h : g.node s = .ok n) :
    (g.rescale k c).node s = .ok (n.rescale k c) := by
  cases n with
  | terminal v =>
    obtain ⟨hp, hv⟩ := node_eq_terminal_iff.mp h
    exact node_eq_terminal_iff.mpr ⟨hp, by simp [rescale, hv]⟩
  | chance branches =>
    obtain ⟨hp, ha, hc, hb⟩ := node_eq_chance_iff.mp h
    exact node_eq_chance_iff.mpr ⟨hp, ha, hc, hb⟩
  | decision seat label moves =>
    obtain ⟨hp, ha, ho, hm⟩ := node_eq_decision_iff.mp h
    exact node_eq_decision_iff.mpr ⟨hp, ha, ho, hm⟩

theorem successors_rescale (g : Game σ A L Rat) (k c : Rat) (s : σ) :
    (g.rescale k c).successors s = g.successors s := rfl

theorem endsWithin_rescale_iff {d : Nat} {s : σ} :
    (g.rescale k c).EndsWithin d s ↔ g.EndsWithin d s :=
  endsWithin_iff_of_perm fun s => .of_eq (successors_rescale g k c s)

theorem endings_rescale (d : Nat) (p : Position σ L Rat) :
    (g.rescale k c).endings d p = g.endings d p := by
  induction d generalizing p with
  | zero => rfl
  | succ d ih =>
    rw [endings, endings, funext ih]
    rfl

end Game

namespace Exploration

variable [BEq L] [Hashable L]

def SameSets (e e' : Exploration L A Rat) : Prop := ∀ seat, e'.registry seat = e.registry seat

theorem SameSets.addPayoff {e e' : Exploration L A Rat} (h : e.SameSets e') (key key' : SequencePair)
    (v v' : Rat) : (e.addPayoff key v).SameSets (e'.addPayoff key' v') := by
  intro seat
  rw [registry_addPayoff, registry_addPayoff, h seat]

theorem SameSets.enter [BEq A] {e e' next : Exploration L A Rat} (h : e.SameSets e') {seat : Seat}
    {seen : Infoset L A} {i : Nat} (he : e.enter seat seen = .ok (i, next)) :
    ∃ next', e'.enter seat seen = .ok (i, next') ∧ next.SameSets next' := by
  obtain ⟨-, ho, -⟩ := enter_eq_ok he
  obtain ⟨next', he', hr', ho', -⟩ := exists_enter_of_registry_eq (h seat) he
  refine ⟨next', he', fun t => ?_⟩
  by_cases ht : t = seat
  · rw [ht, hr']
  · rw [ho t ht, ho' t ht, h t]

end Exploration

namespace Game

variable [BEq L] [Hashable L] [BEq A] {g : Game σ A L Rat}

theorem look_rescale {found found' next : Exploration L A Rat} {frame : Frame σ Rat}
    {below : List (Frame σ Rat)} (hs : found.SameSets found')
    (h : g.look found frame = .ok (next, below)) :
    ∃ next', (g.rescale k c).look found' frame = .ok (next', below) ∧ next.SameSets next' := by
  unfold look at h ⊢
  split at h
  · cases h
  · rename_i v hn
    cases h
    rw [node_rescale hn]
    exact ⟨_, rfl, hs.addPayoff _ _ _ _⟩
  · rename_i branches hn
    cases h
    rw [node_rescale hn]
    exact ⟨_, rfl, hs⟩
  · rename_i seat label moves hn
    rw [node_rescale hn]
    simp only at h
    split at h
    · cases h
    · rename_i i entered he
      cases h
      obtain ⟨next', he', hnext⟩ := hs.enter he
      simp only [Node.rescale, he']
      exact ⟨_, rfl, hnext⟩

theorem explore_rescale {fuel : Nat} {start : σ} {found : Exploration L A Rat}
    (h : g.explore fuel start = some (.ok found)) :
    ∃ found', (g.rescale k c).explore fuel start = some (.ok found') ∧ found.SameSets found' := by
  rw [explore, walk_eq_worklist] at h
  have hlook : ∀ {found found' : Exploration L A Rat} {frame : Frame σ Rat} {next below},
      found.SameSets found' → g.look found frame = .ok (next, below) →
        ∃ next', (g.rescale k c).look found' (id frame) = .ok (next', below.map id) ∧
          next.SameSets next' := by
    intro found found' frame next below hs hl
    rw [List.map_id]
    exact look_rescale hs hl
  have hempty : (Exploration.empty : Exploration L A Rat).SameSets .empty := fun _ => rfl
  obtain ⟨found', hfound', hs⟩ := worklist_follows hlook hempty h
  rw [List.map_id] at hfound'
  exact ⟨found', by rw [explore, walk_eq_worklist, hfound'], hs⟩

end Game

end ExtensiveForm
