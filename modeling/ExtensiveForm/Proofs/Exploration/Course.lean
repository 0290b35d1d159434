import Mathlib.Data.List.Forall2
import ExtensiveForm.Proofs.Registry.OwnHistory
import ExtensiveForm.Proofs.Worklist

/-!
The course of a walk, told by the positions it passes. A frame carries the last own sequences only;
its position carries whole own histories, and the registries connect the two. Main statement: a walk
that comes to an end takes in one position after the other.
-/

set_option autoImplicit false

namespace ExtensiveForm

namespace Exploration

variable {σ L A R : Type} [BEq L] [Hashable L]

/-- A pair of sequences stands for what both seats did. -/
def Stands (e : Exploration L A R) (key : SequencePair) (past : PerSeat (History L)) : Prop :=
  ∀ seat, (e.registry seat).OwnHistory (key.get seat) (past.get seat)

structure Sound (e : Exploration L A R) : Prop where
  registry : ∀ seat, (e.registry seat).Sound
  keys : ∀ {key : SequencePair} {v : R}, e.payoffs[key]? = some v → ∃ past, e.Stands key past

def Extends (e e' : Exploration L A R) : Prop :=
  ∀ seat, (e.registry seat).Extends (e'.registry seat)

theorem Extends.refl (e : Exploration L A R) : e.Extends e := fun seat => .refl (e.registry seat)

theorem Extends.trans {e e' e'' : Exploration L A R} (h : e.Extends e') (h' : e'.Extends e'') :
    e.Extends e'' := fun seat => (h seat).trans (h' seat)

theorem Stands.mono {e e' : Exploration L A R} {key : SequencePair} {past : PerSeat (History L)}
    (h : e.Stands key past) (he : e.Extends e') : e'.Stands key past :=
  fun seat => (h seat).mono (he seat)

theorem stands_both_empty (e : Exploration L A R) : e.Stands (.both .empty) (.both []) := by
  intro seat
  simpa using Registry.OwnHistory.empty

theorem Stands.set {e : Exploration L A R} {key : SequencePair} {past : PerSeat (History L)}
    (h : e.Stands key past) {seat : Seat} {s : Sequence} {new : History L}
    (hs : (e.registry seat).OwnHistory s new) : e.Stands (key.set seat s) (past.set seat new) := by
  intro t
  simp only [PerSeat.get_set]
  split
  · rename_i ht
    exact ht ▸ hs
  · exact h t

theorem sound_empty : (empty : Exploration L A R).Sound := by
  constructor
  · intro seat
    cases seat <;> exact Registry.sound_empty
  · intro key v h
    simp [empty] at h

@[simp] theorem registry_addPayoff [Scalar R] (e : Exploration L A R) (key : SequencePair) (v : R)
    (seat : Seat) : (e.addPayoff key v).registry seat = e.registry seat := by
  cases seat <;> rfl

theorem payoffs_addPayoff [Scalar R] (e : Exploration L A R) (key : SequencePair) (v : R) :
    (e.addPayoff key v).payoffs = e.payoffs.insert key (e.payoffs.getD key 0 + v) := rfl

theorem Sound.addPayoff [Scalar R] {e : Exploration L A R} (he : e.Sound) {key : SequencePair}
    {past : PerSeat (History L)} (hk : e.Stands key past) (v : R) : (e.addPayoff key v).Sound := by
  constructor
  · simpa using he.registry
  · intro k w hw
    rw [payoffs_addPayoff, Std.HashMap.getElem?_insert] at hw
    split at hw
    · rename_i hkk
      rw [beq_iff_eq] at hkk
      exact ⟨past, hkk ▸ fun seat => by simpa using hk seat⟩
    · obtain ⟨past, hp⟩ := he.keys hw
      exact ⟨past, fun seat => by simpa using hp seat⟩

section Enter

variable [BEq A] {e e' : Exploration L A R} {seat : Seat} {seen : Infoset L A} {i : Nat}

theorem enter_eq_ok (h : e.enter seat seen = .ok (i, e')) :
    (e.registry seat).enter seen = .ok (i, e'.registry seat) ∧
      (∀ t, t ≠ seat → e'.registry t = e.registry t) ∧ e'.payoffs = e.payoffs := by
  unfold enter at h
  cases seat with
  | first =>
    simp only at h
    split at h
    · cases h
    · rename_i hr
      cases h
      exact ⟨hr, fun t ht => by cases t <;> first | rfl | exact absurd rfl ht, rfl⟩
  | second =>
    simp only at h
    split at h
    · cases h
    · rename_i hr
      cases h
      exact ⟨hr, fun t ht => by cases t <;> first | rfl | exact absurd rfl ht, rfl⟩

/-- What a visit does to a registry and what leaves it as it is, said of both seats at once. -/
theorem forall_registry_of_enter {p : Registry L A → Registry L A → Prop}
    (h : e.enter seat seen = .ok (i, e')) (hkept : ∀ t, p (e.registry t) (e.registry t))
    (hentered : (e.registry seat).enter seen = .ok (i, e'.registry seat) →
      p (e.registry seat) (e'.registry seat)) :
    ∀ t, p (e.registry t) (e'.registry t) := by
  obtain ⟨hr, ho, -⟩ := enter_eq_ok h
  intro t
  by_cases ht : t = seat
  · rw [ht]
    exact hentered hr
  · rw [ho t ht]
    exact hkept t

theorem extends_of_enter (h : e.enter seat seen = .ok (i, e')) : e.Extends e' :=
  forall_registry_of_enter (p := Registry.Extends) h (fun _ => .refl _) Registry.extends_of_enter

theorem exists_enter {r : Registry L A} (h : (e.registry seat).enter seen = .ok (i, r)) :
    ∃ e', e.enter seat seen = .ok (i, e') := by
  unfold enter
  cases seat with
  | first =>
    simp only [registry] at h
    exact ⟨⟨r, e.second, e.payoffs⟩, by simp only [h]⟩
  | second =>
    simp only [registry] at h
    exact ⟨⟨e.first, r, e.payoffs⟩, by simp only [h]⟩

theorem exists_enter_of_registry_eq {f : Exploration L A R} {seat' : Seat}
    (hreg : f.registry seat' = e.registry seat) (h : e.enter seat seen = .ok (i, e')) :
    ∃ f', f.enter seat' seen = .ok (i, f') ∧ f'.registry seat' = e'.registry seat ∧
      (∀ t, t ≠ seat' → f'.registry t = f.registry t) ∧ f'.payoffs = f.payoffs := by
  obtain ⟨hr, -, -⟩ := enter_eq_ok h
  rw [← hreg] at hr
  obtain ⟨f', hf⟩ := exists_enter hr
  obtain ⟨hr', ho', hp'⟩ := enter_eq_ok hf
  exact ⟨f', hf, (Prod.mk.inj (Except.ok.inj (hr'.symm.trans hr))).2, ho', hp'⟩

variable [LawfulBEq A] [LawfulBEq L]

theorem Sound.enter (he : e.Sound) (h : e.enter seat seen = .ok (i, e')) (ha : seen.actions ≠ [])
    (hp : ∃ past, (e.registry seat).OwnHistory seen.parent past) :
    e'.Sound ∧ e.Extends e' ∧ (e'.registry seat).infosets[i]? = some seen := by
  obtain ⟨hr, -, hk⟩ := enter_eq_ok h
  obtain ⟨hs, -, hi⟩ := (he.registry seat).enter hr ha hp
  have hext := extends_of_enter h
  refine ⟨⟨?_, ?_⟩, hext, hi⟩
  · exact forall_registry_of_enter (p := fun _ r => r.Sound) h he.registry fun _ => hs
  · intro key v hv
    rw [hk] at hv
    obtain ⟨past, hpast⟩ := he.keys hv
    exact ⟨past, hpast.mono hext⟩

end Enter

end Exploration

structure Frame.At {σ L A R : Type} [BEq L] [Hashable L] (e : Exploration L A R) (f : Frame σ R)
    (p : Position σ L R) : Prop where
  state : f.state = p.state
  weight : f.weight = p.chance
  last : e.Stands f.last p.past

theorem Frame.At.mono {σ L A R : Type} [BEq L] [Hashable L] {e e' : Exploration L A R}
    {f : Frame σ R} {p : Position σ L R} (h : f.At e p) (he : e.Extends e') : f.At e' p :=
  ⟨h.state, h.weight, h.last.mono he⟩

namespace Game

variable {σ L A R : Type} [BEq L] [Hashable L] [BEq A] [Scalar R] {g : Game σ A L R}

inductive Absorbs (g : Game σ A L R) (found : Exploration L A R) (p : Position σ L R) :
    Exploration L A R → Prop where
  | terminal {v : R} {key : SequencePair} (hp : g.player p.state = none)
      (hv : g.payoff p.state = some v) (hk : found.Stands key p.past) :
      Absorbs g found p (found.addPayoff key (v * p.chance))
  | chance (hp : g.player p.state = some .chance) (ha : g.actions p.state ≠ [])
      (hc : ∀ a ∈ g.actions p.state, (g.chanceProb p.state a).isSome) : Absorbs g found p found
  | decision {seat : Seat} {label : L} {parent : Sequence} {i : Nat} {found' : Exploration L A R}
      (hp : g.player p.state = some (.seat seat)) (ha : g.actions p.state ≠ [])
      (ho : g.observation p.state = some label)
      (hs : (found.registry seat).OwnHistory parent (p.past.get seat))
      (he : found.enter seat ⟨label, g.actions p.state, parent⟩ = .ok (i, found')) :
      Absorbs g found p found'

inductive Explores (g : Game σ A L R) : List (Position σ L R) → Exploration L A R →
    Exploration L A R → Prop where
  | done (found : Exploration L A R) : Explores g [] found found
  | look {p : Position σ L R} {rest : List (Position σ L R)} {found next found' : Exploration L A R}
      (h : g.Absorbs found p next) (hrest : g.Explores (g.nexts p ++ rest) next found') :
      Explores g (p :: rest) found found'

theorem Absorbs.payoffs_of_player_ne_none {found found' : Exploration L A R} {p : Position σ L R}
    (h : g.Absorbs found p found') (hp : g.player p.state ≠ none) :
    found'.payoffs = found.payoffs := by
  cases h with
  | terminal hnone => exact absurd hnone hp
  | chance => rfl
  | decision _ _ _ _ he => exact (Exploration.enter_eq_ok he).2.2

variable [LawfulBEq A] [LawfulBEq L]

theorem Absorbs.sound {found found' : Exploration L A R} {p : Position σ L R}
    (h : g.Absorbs found p found') (hs : found.Sound) : found'.Sound ∧ found.Extends found' := by
  cases h with
  | terminal hp hv hk => exact ⟨hs.addPayoff hk _, fun seat => by simpa using .refl _⟩
  | chance hp ha hc => exact ⟨hs, .refl _⟩
  | decision hp ha ho hh he =>
    obtain ⟨hs', hx, -⟩ := hs.enter he ha ⟨_, hh⟩
    exact ⟨hs', hx⟩

theorem Explores.sound {found found' : Exploration L A R} {ps : List (Position σ L R)}
    (h : g.Explores ps found found') (hs : found.Sound) : found'.Sound ∧ found.Extends found' := by
  induction h with
  | done found => exact ⟨hs, .refl _⟩
  | look h hrest ih =>
    obtain ⟨hs₁, hx₁⟩ := h.sound hs
    obtain ⟨hs₂, hx₂⟩ := ih hs₁
    exact ⟨hs₂, hx₁.trans hx₂⟩

theorem absorbs_of_look {found found' : Exploration L A R} {frame : Frame σ R}
    {below : List (Frame σ R)} {p : Position σ L R} (hs : found.Sound) (hf : frame.At found p)
    (h : g.look found frame = .ok (found', below)) :
    g.Absorbs found p found' ∧ List.Forall₂ (Frame.At found') below (g.nexts p) := by
  obtain ⟨state, weight, last⟩ := frame
  obtain ⟨hstate, hweight, hlast⟩ := hf
  simp only at hstate hweight hlast
  subst hstate hweight
  cases looks_of_look h with
  | terminal hn =>
    obtain ⟨hp, hv⟩ := node_eq_terminal_iff.mp hn
    refine ⟨.terminal hp hv hlast, ?_⟩
    simp [nexts, hp]
  | chance hn =>
    obtain ⟨hp, ha, hc, rfl⟩ := node_eq_chance_iff.mp hn
    refine ⟨.chance hp ha hc, ?_⟩
    simp only [nexts, hp, Frame.chanceChildren, List.map_map, List.forall₂_map_left_iff,
      List.forall₂_map_right_iff, List.forall₂_same]
    intro a _
    exact ⟨rfl, rfl, hlast⟩
  | @decision seat label moves i found' hn he =>
    obtain ⟨hp, ha, ho, rfl⟩ := node_eq_decision_iff.mp hn
    simp only [moves_map_fst] at he
    obtain ⟨-, hx, hi⟩ := hs.enter he ha ⟨_, hlast seat⟩
    refine ⟨.decision hp ha ho (hlast seat) he, ?_⟩
    simp only [nexts, hp, ho, Frame.moveChildren, moves, List.forall₂_iff_get]
    refine ⟨by simp, fun j hj hj' => ?_⟩
    have hlt : j < (g.actions p.state).length := by simpa using hj'
    refine ⟨by simp, by simp, ?_⟩
    simp only [List.get_eq_getElem, List.getElem_mapIdx, recordMove]
    exact (hlast.mono hx).set (.move hi hlt ((hlast seat).mono (hx seat)))

theorem explores_of_walk {fuel : Nat} {pending : List (Frame σ R)} {found found' : Exploration L A R}
    {ps : List (Position σ L R)} (hs : found.Sound) (hf : List.Forall₂ (Frame.At found) pending ps)
    (h : g.walk fuel pending found = some (.ok found')) : g.Explores ps found found' := by
  rw [walk_eq_worklist] at h
  have hruns := runs_of_worklist h
  clear h
  induction hruns generalizing ps with
  | done found =>
    cases hf
    exact .done found
  | @look frame pending below found next found' hl _ ih =>
    cases hf with
    | @cons _ p _ ps hfr hrest =>
      obtain ⟨ha, hb⟩ := absorbs_of_look hs hfr hl
      obtain ⟨hs', hx⟩ := ha.sound hs
      -- the pending frames keep their positions, as no sequence loses its history
      exact .look ha (ih hs' (List.rel_append hb (hrest.imp fun _ _ hq => hq.mono hx)))

theorem explores_of_explore {fuel : Nat} {start : σ} {found : Exploration L A R}
    (h : g.explore fuel start = some (.ok found)) : g.Explores [.start start] .empty found :=
  explores_of_walk Exploration.sound_empty
    (.cons ⟨rfl, rfl, Exploration.stands_both_empty _⟩ .nil) h

end Game

end ExtensiveForm
