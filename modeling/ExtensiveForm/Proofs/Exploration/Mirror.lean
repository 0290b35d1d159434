import Mathlib.Algebra.Ring.Rat
import ExtensiveForm.Proofs.Exploration.Course

set_option autoImplicit false

namespace ExtensiveForm

def Player.opponent : Player → Player
  | seat s => .seat s.opponent
  | chance => .chance

@[simp] theorem Player.opponent_opponent (p : Player) : p.opponent.opponent = p := by
  cases p <;> simp [opponent]

namespace PerSeat

variable {α : Type}

theorem swap_set (p : PerSeat α) (s : Seat) (a : α) :
    (p.set s a).swap = p.swap.set s.opponent a := by cases s <;> rfl

theorem swap_inj {p q : PerSeat α} : p.swap = q.swap ↔ p = q :=
  ⟨fun h => congrArg swap h, fun h => congrArg swap h⟩

end PerSeat

variable {σ L A : Type}

def Node.mirror : Node σ A L Rat → Node σ A L Rat
  | terminal v => terminal (-v)
  | chance branches => chance branches
  | decision seat label moves => decision seat.opponent label moves

def Frame.mirror (f : Frame σ Rat) : Frame σ Rat := ⟨f.state, f.weight, f.last.swap⟩

theorem Frame.map_mirror_chanceChildren (f : Frame σ Rat) (branches : List (Rat × σ)) :
    (f.chanceChildren branches).map mirror = f.mirror.chanceChildren branches := by
  simp [chanceChildren, mirror]

theorem Frame.map_mirror_moveChildren (f : Frame σ Rat) (seat : Seat) (i : Nat)
    (moves : List (A × σ)) :
    (f.moveChildren seat i moves).map mirror = f.mirror.moveChildren seat.opponent i moves := by
  simp [moveChildren, mirror, PerSeat.swap_set, List.mapIdx_eq_zipIdx_map]

namespace Game

def mirror (g : Game σ A L Rat) : Game σ A L Rat :=
  { g with
    player := fun s => (g.player s).map Player.opponent
    payoff := fun s => (g.payoff s).map Neg.neg }

@[simp] theorem mirror_mirror (g : Game σ A L Rat) : g.mirror.mirror = g := by
  simp [mirror, Function.comp_def]

theorem successors_mirror (g : Game σ A L Rat) (s : σ) : g.mirror.successors s = g.successors s := by
  unfold successors
  simp only [mirror]
  cases g.player s <;> rfl

theorem endsWithin_mirror_iff {g : Game σ A L Rat} {d : Nat} {s : σ} :
    g.mirror.EndsWithin d s ↔ g.EndsWithin d s :=
  endsWithin_iff_of_perm fun s => .of_eq (successors_mirror g s)

theorem treeSize_mirror (g : Game σ A L Rat) (d : Nat) (s : σ) :
    g.mirror.treeSize d s = g.treeSize d s :=
  treeSize_eq_of_perm (fun s => .of_eq (successors_mirror g s)) d s

theorem node_mirror {g : Game σ A L Rat} {s : σ} {n : Node σ A L Rat} (h : g.node s = .ok n) :
    g.mirror.node s = .ok n.mirror := by
  cases n with
  | terminal v =>
    obtain ⟨hp, hv⟩ := node_eq_terminal_iff.mp h
    exact node_eq_terminal_iff.mpr ⟨by simp [mirror, hp], by simp [mirror, hv]⟩
  | chance branches =>
    obtain ⟨hp, ha, hc, hb⟩ := node_eq_chance_iff.mp h
    exact node_eq_chance_iff.mpr ⟨by simp [mirror, hp, Player.opponent], ha, hc, hb⟩
  | decision seat label moves =>
    obtain ⟨hp, ha, ho, hm⟩ := node_eq_decision_iff.mp h
    exact node_eq_decision_iff.mpr ⟨by simp [mirror, hp, Player.opponent], ha, ho, hm⟩

end Game

namespace Exploration

variable [BEq L] [Hashable L]

structure Mirrors (e e' : Exploration L A Rat) : Prop where
  registry : ∀ seat, e'.registry seat.opponent = e.registry seat
  payoffs : ∀ key : SequencePair, e'.payoffs[key.swap]? = e.payoffs[key]?.map Neg.neg

theorem mirrors_empty : (empty : Exploration L A Rat).Mirrors empty := by
  constructor
  · intro seat
    cases seat <;> rfl
  · simp [empty]

theorem Mirrors.addPayoff {e e' : Exploration L A Rat} (h : e.Mirrors e') (key : SequencePair)
    (v : Rat) : (e.addPayoff key v).Mirrors (e'.addPayoff key.swap (-v)) := by
  constructor
  · intro seat
    rw [registry_addPayoff, registry_addPayoff, h.registry]
  · intro k
    simp only [payoffs_addPayoff, Std.HashMap.getElem?_insert, beq_iff_eq, PerSeat.swap_inj]
    split
    · have htotal : e'.payoffs.getD key.swap 0 = -e.payoffs.getD key 0 := by
        rw [Std.HashMap.getD_eq_getD_getElem?, Std.HashMap.getD_eq_getD_getElem?, h.payoffs]
        cases e.payoffs[key]? <;> simp
      rw [htotal, Option.map_some, neg_add]
    · exact h.payoffs k

theorem Mirrors.enter [BEq A] {e e' next : Exploration L A Rat} (h : e.Mirrors e') {seat : Seat}
    {seen : Infoset L A} {i : Nat} (he : e.enter seat seen = .ok (i, next)) :
    ∃ next', e'.enter seat.opponent seen = .ok (i, next') ∧ next.Mirrors next' := by
  obtain ⟨-, ho, hp⟩ := enter_eq_ok he
  obtain ⟨next', he', hr', ho', hp'⟩ := exists_enter_of_registry_eq (h.registry seat) he
  refine ⟨next', he', fun t => ?_, fun key => by rw [hp, hp', h.payoffs]⟩
  by_cases ht : t = seat
  · rw [ht, hr']
  · have hto : t.opponent ≠ seat.opponent := fun heq => ht (by
      rw [← t.opponent_opponent, heq, Seat.opponent_opponent])
    rw [ho' _ hto, ho t ht, h.registry]

end Exploration

namespace Game

variable [BEq L] [Hashable L] [BEq A] {g : Game σ A L Rat}

theorem look_mirror {found found' next : Exploration L A Rat} {frame : Frame σ Rat}
    {below : List (Frame σ Rat)} (hm : found.Mirrors found')
    (h : g.look found frame = .ok (next, below)) :
    ∃ next', g.mirror.look found' frame.mirror = .ok (next', below.map Frame.mirror) ∧
      next.Mirrors next' := by
  unfold look at h ⊢
  split at h
  · cases h
  · rename_i v hn
    cases h
    have hn' : g.mirror.node frame.mirror.state = .ok (.terminal (-v)) := node_mirror hn
    rw [hn']
    refine ⟨_, rfl, ?_⟩
    rw [neg_mul]
    exact hm.addPayoff frame.last _
  · rename_i branches hn
    cases h
    have hn' : g.mirror.node frame.mirror.state = .ok (.chance branches) := node_mirror hn
    rw [hn', Frame.map_mirror_chanceChildren]
    exact ⟨_, rfl, hm⟩
  · rename_i seat label moves hn
    have hn' : g.mirror.node frame.mirror.state = .ok (.decision seat.opponent label moves) :=
      node_mirror hn
    simp only at h
    split at h
    · cases h
    · rename_i i entered he
      cases h
      obtain ⟨next', he', hnext⟩ := hm.enter he
      have hlast : frame.mirror.last.get seat.opponent = frame.last.get seat := by
        simp [Frame.mirror]
      rw [hn', Frame.map_mirror_moveChildren]
      simp only [hlast, he']
      exact ⟨_, rfl, hnext⟩

/-- Both walks hold the same frames in the same order, so each look has its mirror image. -/
theorem walk_mirror {fuel : Nat} {pending : List (Frame σ Rat)}
    {found found' result : Exploration L A Rat} (hm : found.Mirrors found')
    (h : g.walk fuel pending found = some (.ok result)) :
    ∃ result', g.mirror.walk fuel (pending.map Frame.mirror) found' = some (.ok result') ∧
      result.Mirrors result' := by
  rw [walk_eq_worklist] at h ⊢
  exact worklist_follows look_mirror hm h

theorem explore_mirror {fuel : Nat} {start : σ} {found : Exploration L A Rat}
    (h : g.explore fuel start = some (.ok found)) :
    ∃ found', g.mirror.explore fuel start = some (.ok found') ∧ found.Mirrors found' :=
  walk_mirror Exploration.mirrors_empty h

end Game

end ExtensiveForm
