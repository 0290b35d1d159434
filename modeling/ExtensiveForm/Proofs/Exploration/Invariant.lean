import ExtensiveForm.Proofs.Exploration.Cycles
import ExtensiveForm.Proofs.Registry.Visits

/-!
What holds between the looks of an exploration, of any game and however it goes on. Main statement: at
every stage both registries are intact, and all sequences of pending frames and of payoffs are
registered.
-/

set_option autoImplicit false

namespace ExtensiveForm

namespace Exploration

variable {σ L A R : Type} [BEq L] [Hashable L] {e e' : Exploration L A R} {key : SequencePair}
  {seat : Seat}

def Knows (e : Exploration L A R) (key : SequencePair) : Prop :=
  ∀ seat, (e.registry seat).Holds (key.get seat)

theorem Knows.mono (h : e.Knows key) (he : e.Extends e') : e'.Knows key :=
  fun seat => (h seat).mono (he seat)

theorem Knows.set (h : e.Knows key) {s : Sequence} (hs : (e.registry seat).Holds s) :
    e.Knows (key.set seat s) := by
  intro t
  rw [PerSeat.get_set]
  split
  · rename_i ht
    exact ht ▸ hs
  · exact h t

theorem knows_both_empty (e : Exploration L A R) : e.Knows (.both .empty) := by
  intro seat
  rw [PerSeat.get_both]
  trivial

structure Invariant (e : Exploration L A R) (pending : List (Frame σ R)) : Prop where
  registry : ∀ seat, (e.registry seat).Intact
  active : ∀ frame ∈ pending, e.Knows frame.last
  keys : ∀ {key : SequencePair} {v : R}, e.payoffs[key]? = some v → e.Knows key

theorem invariant_root [One R] (start : σ) :
    (empty : Exploration L A R).Invariant [.root start] := by
  constructor
  · intro seat
    cases seat <;> exact Registry.intact_empty
  · intro frame hf
    rw [List.mem_singleton.mp hf]
    exact knows_both_empty _
  · intro key v h
    simp [empty] at h

section Enter

variable [BEq A] {seen : Infoset L A} {i : Nat}

theorem intact_of_enter [EquivBEq L] [LawfulHashable L] (he : ∀ seat, (e.registry seat).Intact)
    (h : e.enter seat seen = .ok (i, e')) (ha : seen.actions ≠ [])
    (hp : (e.registry seat).Holds seen.parent) : ∀ seat, (e'.registry seat).Intact :=
  forall_registry_of_enter (p := fun _ r => r.Intact) h he fun hr => (he seat).enter hr ha hp

end Enter

namespace Invariant

variable {frame : Frame σ R} {pending : List (Frame σ R)}

theorem addPayoff [Scalar R] (h : e.Invariant (frame :: pending)) (v : R) :
    (e.addPayoff frame.last v).Invariant pending := by
  obtain ⟨hframe, hpending⟩ := List.forall_mem_cons.mp h.active
  have hext : e.Extends (e.addPayoff frame.last v) := fun seat => by simpa using .refl _
  constructor
  · simpa using h.registry
  · exact fun f hf => (hpending f hf).mono hext
  · intro key w hw
    rw [payoffs_addPayoff, Std.HashMap.getElem?_insert] at hw
    split at hw
    · rename_i hkey
      rw [← beq_iff_eq.mp hkey]
      exact hframe.mono hext
    · exact (h.keys hw).mono hext

theorem chanceChildren [Mul R] (h : e.Invariant (frame :: pending)) (branches : List (R × σ)) :
    e.Invariant (frame.chanceChildren branches ++ pending) := by
  obtain ⟨hframe, hpending⟩ := List.forall_mem_cons.mp h.active
  refine ⟨h.registry, List.forall_mem_append.mpr ⟨fun f hf => ?_, hpending⟩, h.keys⟩
  obtain ⟨branch, -, rfl⟩ := List.mem_map.mp hf
  exact hframe

theorem enter [BEq A] [EquivBEq L] [LawfulHashable L] (h : e.Invariant (frame :: pending))
    {label : L} {moves : List (A × σ)} {i : Nat} (hm : moves ≠ [])
    (he : e.enter seat ⟨label, moves.map Prod.fst, frame.last.get seat⟩ = .ok (i, e')) :
    e'.Invariant (frame.moveChildren seat i moves ++ pending) := by
  obtain ⟨hframe, hpending⟩ := List.forall_mem_cons.mp h.active
  obtain ⟨hr, -, hk⟩ := enter_eq_ok he
  have hext := extends_of_enter he
  constructor
  · exact intact_of_enter h.registry he (by simpa using hm) (hframe seat)
  · refine List.forall_mem_append.mpr ⟨fun f hf => ?_, fun f hf => (hpending f hf).mono hext⟩
    obtain ⟨a, ha, rfl⟩ := List.mem_mapIdx.mp hf
    exact (hframe.mono hext).set (Registry.holds_of_enter hr (by simpa using ha))
  · intro key v hv
    rw [hk] at hv
    exact (h.keys hv).mono hext

end Invariant

end Exploration

namespace Game

variable {σ L A R : Type} [BEq L] [Hashable L] [BEq A] [Scalar R] {g : Game σ A L R}
  {found next : Exploration L A R} {frame : Frame σ R} {below pending : List (Frame σ R)}

/-- A look changes a registry by a visit, if at all. -/
theorem registry_of_look (h : g.look found frame = .ok (next, below)) (seat : Seat) :
    next.registry seat = found.registry seat ∨ ∃ seen i,
      (Registry.visit seen).run (found.registry seat) = (.ok i, next.registry seat) := by
  cases looks_of_look h with
  | terminal hn => exact .inl (Exploration.registry_addPayoff _ _ _ _)
  | chance hn => exact .inl rfl
  | @decision acting label moves i next hn he =>
    refine Exploration.forall_registry_of_enter (p := fun r r' => r' = r ∨ ∃ seen i,
      (Registry.visit seen).run r = (.ok i, r')) he (fun _ => .inl rfl) (fun hr => ?_) seat
    exact .inr ⟨_, i, Registry.run_visit_of_ok hr⟩

variable [EquivBEq L] [LawfulHashable L]

theorem invariant_look (h : found.Invariant (frame :: pending))
    (hl : g.look found frame = .ok (next, below)) : next.Invariant (below ++ pending) := by
  cases looks_of_look hl with
  | terminal hn => exact h.addPayoff _
  | chance hn => exact h.chanceChildren _
  | decision hn he =>
    obtain ⟨-, ha, -, rfl⟩ := node_eq_decision_iff.mp hn
    exact h.enter (fun hm => ha (List.map_eq_nil_iff.mp hm)) he

theorem Paths.invariant {start : σ} {n : Nat} {pending : List (List (Frame σ R) × Frame σ R)}
    (h : g.Paths start n found pending) : found.Invariant (pending.map Prod.snd) := by
  induction h with
  | start => exact Exploration.invariant_root start
  | look _ hl ih =>
    rw [List.map_append, List.map_map]
    simpa [Function.comp_def] using invariant_look ih hl

/-- Each look takes an exploration from one stage to the next, until nothing is pending or a look fails.
At every stage the registries of both seats are intact and hold all pending sequences and all keys;
visits append, and one that is refused changes nothing. -/
theorem invariant_of_explore (g : Game σ A L R) (start : σ) :
    (∀ n, ∃ m found pending, m ≤ n ∧ g.Paths start m found pending ∧
      (m = n ∧ pending ≠ [] ∧ g.explore n start = none ∨
        pending = [] ∧ g.explore n start = some (.ok found) ∨
        ∃ front rest v, pending = front :: rest ∧ g.look found front.2 = .error v ∧
          g.explore n start = some (.error v))) ∧
    ∀ {n found pending}, g.Paths start n found pending →
      found.Invariant (pending.map Prod.snd) ∧
      (∀ seat seen answer after,
        (Registry.visit seen).run (found.registry seat) = (answer, after) →
          (found.registry seat).Visited seen answer after) ∧
      ∀ front rest next below, pending = front :: rest → g.look found front.2 = .ok (next, below) →
        ∀ seat, next.registry seat = found.registry seat ∨ ∃ seen i,
          (Registry.visit seen).run (found.registry seat) = (.ok i, next.registry seat) := by
  refine ⟨fun n => ?_, fun h => ⟨h.invariant, ?_, ?_⟩⟩
  · simp only [explore, walk_eq_worklist]
    exact exists_trails _ _ _ n
  · exact fun seat seen answer after hv => (h.invariant.registry seat).visited hv
  · exact fun front rest next below _ hl => registry_of_look hl

end Game

def redrawKnown : Registry Nat Nat := Registry.empty.push ⟨0, [0, 1], .empty⟩

theorem invariant_redraw : ∃ found pending, redraw.Paths 0 2 found pending ∧ pending.length = 3 ∧
    found.registry .first = redrawKnown ∧ found.Invariant (pending.map Prod.snd) ∧
      redrawKnown.Visited ⟨0, [0], .empty⟩ (.error (.actions [0, 1])) redrawKnown := by
  have h₀ : redraw.node 0 = .ok (.chance [(1 / 2, 1), (1 / 2, 2)]) := rfl
  have h₁ : redraw.node 1 = .ok (.decision .first 0 [(0, 0), (1, 2)]) := rfl
  have hdraw : redraw.look .empty (.root 0) =
      .ok (.empty, (Frame.root 0).chanceChildren [(1 / 2, 1), (1 / 2, 2)]) := by
    rw [Game.look, Frame.root, h₀]
  have hfound : redraw.look .empty ⟨1, 1 * (1 / 2), .both .empty⟩ = .ok
      (⟨redrawKnown, .empty, ∅⟩,
        (⟨1, 1 * (1 / 2), .both .empty⟩ : Frame Nat Rat).moveChildren .first 0 [(0, 0), (1, 2)]) := by
    have henter : (Registry.empty : Registry Nat Nat).enter ⟨0, [0, 1], .empty⟩ =
        .ok (0, redrawKnown) := Registry.enter_of_find?_eq_none (by simp [Registry.find?])
    rw [Game.look, h₁]
    simp only [List.map_cons, List.map_nil, PerSeat.get_both, Exploration.empty, Exploration.enter,
      henter]
  have hrefused : (Registry.visit ⟨0, [0], .empty⟩).run redrawKnown =
      (.error (.actions [0, 1]), redrawKnown) := by
    refine Registry.run_visit_of_error ?_
    have hempty : (Registry.empty : Registry Nat Nat).infosets = #[] := rfl
    have hfind : redrawKnown.find? 0 = some (0, ⟨0, [0, 1], .empty⟩) := by
      simp [Registry.find?, redrawKnown, Registry.position?_push, hempty]
    rw [Registry.enter, hfind]
    rfl
  have hpaths := (Trails.start.look hdraw).look hfound
  obtain ⟨hinv, hvisit, -⟩ := (Game.invariant_of_explore redraw 0).2 hpaths
  exact ⟨_, _, hpaths, rfl, rfl, hinv, hvisit .first _ _ _ hrefused⟩

end ExtensiveForm
