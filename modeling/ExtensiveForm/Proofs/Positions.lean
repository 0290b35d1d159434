import Mathlib.Algebra.GroupWithZero.Nat
import Mathlib.Algebra.Order.BigOperators.Group.List
import Mathlib.Algebra.Order.Group.Nat
import Mathlib.Data.List.Infix
import Mathlib.Logic.Relation
import ExtensiveForm.Game

/-!
The tree of a game. A position is a state together with the way to it: the probability of chance's
moves, and the own moves of both seats. Games whose plays all end are described by a bound on the
number of moves, below which positions can be counted and the ends of all plays listed.
-/

set_option autoImplicit false

namespace ExtensiveForm

/-- The own moves of a seat, the oldest first: labels, and positions of actions. -/
abbrev History (L : Type) := List (L × Nat)

structure Position (σ L R : Type) where
  state : σ
  chance : R
  past : PerSeat (History L)

namespace Position

variable {σ L R : Type}

def start [One R] (s : σ) : Position σ L R := ⟨s, 1, .both []⟩

end Position

/-- A move without a label leaves no trace. -/
def recordMove {L : Type} (past : PerSeat (History L)) (seat : Seat) (i : Nat) :
    Option L → PerSeat (History L)
  | none => past
  | some label => past.set seat (past.get seat ++ [(label, i)])

namespace Game

variable {σ A L R : Type}

def successors (g : Game σ A L R) (s : σ) : List σ :=
  match g.player s with
  | none => []
  | some _ => (g.actions s).map (g.step s)

def nexts [Zero R] [Mul R] (g : Game σ A L R) (p : Position σ L R) : List (Position σ L R) :=
  match g.player p.state with
  | none => []
  | some .chance => (g.actions p.state).map fun a =>
      ⟨g.step p.state a, p.chance * (g.chanceProb p.state a).getD 0, p.past⟩
  | some (.seat seat) => (g.actions p.state).mapIdx fun i a =>
      ⟨g.step p.state a, p.chance, recordMove p.past seat i (g.observation p.state)⟩

theorem map_state_nexts [Zero R] [Mul R] (g : Game σ A L R) (p : Position σ L R) :
    (g.nexts p).map Position.state = g.successors p.state := by
  unfold nexts successors
  cases h : g.player p.state with
  | none => rfl
  | some player =>
    cases player with
    | chance => simp [Function.comp_def]
    | seat seat =>
      refine List.ext_getElem? fun i => ?_
      simp [Function.comp_def]

theorem state_mem_successors [Zero R] [Mul R] {g : Game σ A L R} {p q : Position σ L R}
    (h : q ∈ g.nexts p) : q.state ∈ g.successors p.state := by
  rw [← map_state_nexts]
  exact List.mem_map_of_mem h

/-- A move changes nothing a seat did, or adds one of its own moves. -/
theorem past_of_mem_nexts [Zero R] [Mul R] {g : Game σ A L R} {p q : Position σ L R}
    (h : q ∈ g.nexts p) (seat : Seat) : q.past.get seat = p.past.get seat ∨
      ∃ label a, g.player p.state = some (.seat seat) ∧ g.observation p.state = some label ∧
        a < (g.actions p.state).length ∧ q.past.get seat = p.past.get seat ++ [(label, a)] := by
  unfold nexts at h
  split at h
  · exact absurd h List.not_mem_nil
  · obtain ⟨a, -, rfl⟩ := List.mem_map.mp h
    exact Or.inl rfl
  · rename_i t hp
    obtain ⟨a, ha, rfl⟩ := List.mem_mapIdx.mp h
    cases ho : g.observation p.state with
    | none => exact Or.inl rfl
    | some label =>
      simp only [recordMove, PerSeat.get_set]
      by_cases ht : seat = t
      · subst ht
        exact Or.inr ⟨label, a, hp, rfl, ha, if_pos rfl⟩
      · exact Or.inl (if_neg ht)

theorem exists_mem_nexts [Zero R] [Mul R] {g : Game σ A L R} {p : Position σ L R} {seat : Seat}
    {label : L} {a : Nat} (hp : g.player p.state = some (.seat seat))
    (ho : g.observation p.state = some label) (ha : a < (g.actions p.state).length) :
    ∃ q ∈ g.nexts p, q.past.get seat = p.past.get seat ++ [(label, a)] := by
  unfold nexts
  simp only [hp, ho]
  exact ⟨_, List.mem_mapIdx.mpr ⟨a, ha, rfl⟩, by simp [recordMove]⟩

def Reaches [Zero R] [Mul R] (g : Game σ A L R) : Position σ L R → Position σ L R → Prop :=
  Relation.ReflTransGen fun p q => q ∈ g.nexts p

section Reaches

variable [Zero R] [Mul R] {g : Game σ A L R} {p q r : Position σ L R}

theorem Reaches.refl : g.Reaches p p := Relation.ReflTransGen.refl

theorem Reaches.next (h : g.Reaches p q) (hr : r ∈ g.nexts q) : g.Reaches p r :=
  Relation.ReflTransGen.tail h hr

theorem reaches_iff : g.Reaches p q ↔ p = q ∨ ∃ r ∈ g.nexts p, g.Reaches r q :=
  Relation.ReflTransGen.cases_head_iff

end Reaches

def Leads (g : Game σ A L R) : σ → σ → Prop :=
  Relation.ReflTransGen fun s t => t ∈ g.successors s

theorem Reaches.leads [Zero R] [Mul R] {g : Game σ A L R} {p q : Position σ L R}
    (h : g.Reaches p q) : g.Leads p.state q.state := by
  induction h with
  | refl => exact .refl
  | tail _ hq ih => exact ih.tail (state_mem_successors hq)

theorem Leads.exists_reaches [Zero R] [Mul R] {g : Game σ A L R} {p : Position σ L R} {t : σ}
    (h : g.Leads p.state t) : ∃ q, g.Reaches p q ∧ q.state = t := by
  induction h with
  | refl => exact ⟨p, .refl, rfl⟩
  | tail _ ht ih =>
    obtain ⟨q, hq, rfl⟩ := ih
    rw [← map_state_nexts] at ht
    obtain ⟨r, hr, rfl⟩ := List.mem_map.mp ht
    exact ⟨r, hq.next hr, rfl⟩

def EndsWithin (g : Game σ A L R) : Nat → σ → Prop
  | 0, s => g.successors s = []
  | d + 1, s => ∀ t ∈ g.successors s, g.EndsWithin d t

instance decidableEndsWithin (g : Game σ A L R) : (d : Nat) → (s : σ) → Decidable (g.EndsWithin d s)
  | 0, s => decidable_of_iff _ (List.isEmpty_iff (l := g.successors s))
  | d + 1, s =>
    have := g.decidableEndsWithin d
    inferInstanceAs (Decidable (∀ t ∈ g.successors s, g.EndsWithin d t))

def treeSize (g : Game σ A L R) : Nat → σ → Nat
  | 0, _ => 1
  | d + 1, s => 1 + ((g.successors s).map (g.treeSize d)).sum

def endings [Zero R] [Mul R] (g : Game σ A L R) : Nat → Position σ L R → List (Position σ L R)
  | 0, p => if (g.player p.state).isNone then [p] else []
  | d + 1, p => if (g.player p.state).isNone then [p] else (g.nexts p).flatMap (g.endings d)

theorem EndsWithin.mono {g : Game σ A L R} {d e : Nat} {s : σ} (h : g.EndsWithin d s)
    (hde : d ≤ e) : g.EndsWithin e s := by
  induction d generalizing e s with
  | zero =>
    cases e with
    | zero => exact h
    | succ e =>
      intro t ht
      rw [show g.successors s = [] from h] at ht
      exact absurd ht List.not_mem_nil
  | succ d ih =>
    cases e with
    | zero => omega
    | succ e =>
      intro t ht
      exact ih (h t ht) (by omega)

theorem EndsWithin.successor {g : Game σ A L R} {d : Nat} {s t : σ} (h : g.EndsWithin d s)
    (ht : t ∈ g.successors s) : g.EndsWithin d t := by
  cases d with
  | zero =>
    rw [show g.successors s = [] from h] at ht
    exact absurd ht List.not_mem_nil
  | succ d => exact (h t ht).mono (by omega)

theorem EndsWithin.leads {g : Game σ A L R} {d : Nat} {s t : σ} (hd : g.EndsWithin d s)
    (h : g.Leads s t) : g.EndsWithin d t := by
  induction h with
  | refl => exact hd
  | tail _ ht ih => exact ih.successor ht

theorem treeSize_pos (g : Game σ A L R) (d : Nat) (s : σ) : 0 < g.treeSize d s := by
  cases d with
  | zero => simp [treeSize]
  | succ d => simp only [treeSize]; omega

theorem treeSize_mono (g : Game σ A L R) {d e : Nat} (hde : d ≤ e) (s : σ) :
    g.treeSize d s ≤ g.treeSize e s := by
  induction d generalizing e s with
  | zero => exact g.treeSize_pos e s
  | succ d ih =>
    obtain ⟨e, rfl⟩ := Nat.exists_eq_add_of_le' (Nat.lt_of_succ_le hde)
    exact Nat.add_le_add_left (List.sum_le_sum fun t _ => ih (Nat.le_of_succ_le_succ hde) t) 1

theorem treeSize_of_le {g : Game σ A L R} {d e : Nat} {s : σ} (h : g.EndsWithin d s)
    (hde : d ≤ e) : g.treeSize e s = g.treeSize d s := by
  induction d generalizing e s with
  | zero =>
    cases e with
    | zero => rfl
    | succ e => simp [treeSize, show g.successors s = [] from h]
  | succ d ih =>
    cases e with
    | zero => omega
    | succ e =>
      simp only [treeSize]
      rw [List.map_congr_left fun t ht => ih (h t ht) (by omega)]

theorem treeSize_eq {g : Game σ A L R} {d : Nat} {s : σ} (h : g.EndsWithin d s) :
    g.treeSize d s = 1 + ((g.successors s).map (g.treeSize d)).sum :=
  (treeSize_of_le h (Nat.le_succ d)).symm

section Perm

variable {A' L' R' : Type} {g : Game σ A L R} {g' : Game σ A' L' R'}

theorem endsWithin_iff_of_perm (h : ∀ s, (g.successors s).Perm (g'.successors s)) {d : Nat} {s : σ} :
    g.EndsWithin d s ↔ g'.EndsWithin d s := by
  induction d generalizing s with
  | zero => exact ⟨fun he => (he ▸ h s).symm.eq_nil, fun he => (he ▸ h s).eq_nil⟩
  | succ d ih => simp only [EndsWithin, (h s).mem_iff, ih]

theorem treeSize_eq_of_perm (h : ∀ s, (g.successors s).Perm (g'.successors s)) (d : Nat) (s : σ) :
    g.treeSize d s = g'.treeSize d s := by
  induction d generalizing s with
  | zero => rfl
  | succ d ih => rw [treeSize, treeSize, funext ih, ((h s).map _).sum_nat]

end Perm

def positions [Zero R] [Mul R] (g : Game σ A L R) : Nat → Position σ L R → List (Position σ L R)
  | 0, p => [p]
  | d + 1, p => p :: (g.nexts p).flatMap (g.positions d)

theorem nexts_of_endsWithin_zero [Zero R] [Mul R] {g : Game σ A L R} {p : Position σ L R}
    (h : g.EndsWithin 0 p.state) : g.nexts p = [] :=
  List.map_eq_nil_iff.mp ((map_state_nexts g p).trans h)

theorem mem_positions_iff [Zero R] [Mul R] {g : Game σ A L R} {d : Nat} {p q : Position σ L R}
    (hd : g.EndsWithin d p.state) : q ∈ g.positions d p ↔ g.Reaches p q := by
  induction d generalizing p with
  | zero =>
    rw [reaches_iff, nexts_of_endsWithin_zero hd]
    simp [positions, eq_comm]
  | succ d ih =>
    have hmem : q ∈ (g.nexts p).flatMap (g.positions d) ↔ ∃ r ∈ g.nexts p, g.Reaches r q := by
      rw [List.mem_flatMap]
      refine exists_congr fun r => and_congr_right fun hr => ih (hd _ (state_mem_successors hr))
    rw [reaches_iff, positions, List.mem_cons, hmem, eq_comm]

section Endings

variable [Zero R] [Mul R] {g : Game σ A L R} {d : Nat} {p : Position σ L R}

theorem endings_of_le {e : Nat} (h : g.EndsWithin d p.state) (hde : d ≤ e) :
    g.endings e p = g.endings d p := by
  induction d generalizing e p with
  | zero =>
    cases e with
    | zero => rfl
    | succ e =>
      simp [endings, nexts_of_endsWithin_zero h]
  | succ d ih =>
    cases e with
    | zero => omega
    | succ e =>
      simp only [endings]
      have hc : (g.nexts p).flatMap (g.endings e) = (g.nexts p).flatMap (g.endings d) :=
        List.flatMap_congr fun q hq => ih (h _ (state_mem_successors hq)) (by omega)
      rw [hc]

theorem endings_of_player_eq_none (h : g.player p.state = none) : g.endings d p = [p] := by
  cases d <;> simp [endings, h]

theorem endings_of_player_ne_none (hd : g.EndsWithin d p.state) (h : g.player p.state ≠ none) :
    g.endings d p = (g.nexts p).flatMap (g.endings d) := by
  rw [← endings_of_le hd (Nat.le_succ d)]
  simp [endings, h]

theorem mem_endings {q : Position σ L R} (h : q ∈ g.endings d p) :
    g.Reaches p q ∧ g.player q.state = none := by
  induction d generalizing p with
  | zero =>
    rw [endings] at h
    split at h
    · rename_i hp
      rw [List.mem_singleton.mp h]
      exact ⟨.refl, Option.isNone_iff_eq_none.mp hp⟩
    · exact absurd h List.not_mem_nil
  | succ d ih =>
    rw [endings] at h
    split at h
    · rename_i hp
      rw [List.mem_singleton.mp h]
      exact ⟨.refl, Option.isNone_iff_eq_none.mp hp⟩
    · obtain ⟨r, hr, hq⟩ := List.mem_flatMap.mp h
      obtain ⟨hreach, hnone⟩ := ih hq
      exact ⟨reaches_iff.mpr (Or.inr ⟨r, hr, hreach⟩), hnone⟩

end Endings

end Game

end ExtensiveForm
