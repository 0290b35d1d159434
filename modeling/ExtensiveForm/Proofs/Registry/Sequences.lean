import Mathlib.Data.Set.Function
import ExtensiveForm.Proofs.Exploration.Coverage
import ExtensiveForm.Proofs.Registry.Layout
import ExtensiveForm.Proofs.SequenceForm.Check

set_option autoImplicit false

namespace ExtensiveForm

namespace Registry

variable {L A : Type} [BEq L] [Hashable L] {r : Registry L A} {s : Sequence}

theorem Sound.exists_flat_lt (hr : r.Sound) (hs : r.Holds s) :
    ∃ n < r.layout.tree.sequences, s.flat? r.offsets = some n := by
  obtain ⟨past, hpast⟩ := hr.holds_iff.mp hs
  obtain ⟨n, hn, hh⟩ := hr.exists_flat hpast
  exact ⟨n, hr.layout.valid.ownHistory_lt hh, hn⟩

theorem Sound.eq_of_flat?_eq (hr : r.Sound) {s' : Sequence} (hs : r.Holds s) (hs' : r.Holds s')
    (h : s.flat? r.offsets = s'.flat? r.offsets) : s = s' := by
  obtain ⟨past, hpast⟩ := hr.holds_iff.mp hs
  obtain ⟨past', hpast'⟩ := hr.holds_iff.mp hs'
  obtain ⟨n, -, hn⟩ := hr.exists_flat_lt hs
  exact hr.flat_injective hpast hpast' hn (h ▸ hn)

theorem Sound.exists_holds (hr : r.Sound) {n : Nat} (hn : n < r.layout.tree.sequences) :
    ∃ s, r.Holds s ∧ s.flat? r.offsets = some n := by
  obtain ⟨past, hpast⟩ := hr.layout.valid.exists_ownHistory hn
  obtain ⟨s, hs, hflat⟩ := hr.exists_sequence hpast
  exact ⟨s, hr.holds_iff.mpr ⟨past, hs⟩, hflat⟩

/-- A layout that loses nothing of what is registered, and has nothing twice. -/
structure Faithful (r : Registry L A) : Prop where
  bijOn : Set.BijOn (·.flat? r.layout.offsets) {s | r.Holds s}
    (some '' Set.Iio r.layout.tree.sequences)
  /-- A set's block stands at one position, with all that was frozen for the set. -/
  position : ∀ {i : Nat} {info : Infoset L A}, r.infosets[i]? = some info →
    ∃ k parent start, r.layout.offsets[i]? = some start ∧
      info.parent.flat? r.layout.offsets = some parent ∧
        r.layout.tree.IsSet k parent start info.label info.actions ∧
          ∀ k' : Nat, r.layout.tree.offset[k']? = some start →
            r.layout.tree.offset[k' + 1]? = some (start + info.actions.length) → k' = k

theorem Sound.faithful (hr : r.Sound) : r.Faithful := by
  constructor
  · refine ⟨fun s hs => ?_, fun s hs s' hs' h => hr.eq_of_flat?_eq hs hs' h, ?_⟩
    · obtain ⟨n, hlt, hn⟩ := hr.exists_flat_lt hs
      exact ⟨n, hlt, hn.symm⟩
    · rintro _ ⟨n, hlt, rfl⟩
      exact hr.exists_holds hlt
  · intro i info hi
    obtain ⟨k, parent, start, hstart, hparent, hset⟩ := hr.exists_isSet hi
    exact ⟨k, parent, start, hstart, hparent, hset,
      fun k' hs he => hr.layout.valid.position_unique hset hs he⟩

end Registry

namespace Game

variable {σ L A R : Type} [BEq L] [LawfulBEq L] [Hashable L] [BEq A] [LawfulBEq A] [Scalar R]
  {g : Game σ A L R} {fuel : Nat} {start : σ} {found : Exploration L A R}

/-- Whatever an exploration finds, the layouts of both seats' registries lose nothing of it. -/
theorem faithful_of_explore (h : g.explore fuel start = some (.ok found)) (seat : Seat) :
    (found.registry seat).Faithful :=
  ((explored_of_explore h).sound.registry seat).faithful

end Game

theorem faithful_lottery : ∃ found, lottery.explore 12 0 = some (.ok found) ∧
    (found.registry .first).Faithful ∧
      ∃ (i : Nat) (info : Infoset Nat Nat), (found.registry .first).infosets[i]? = some info ∧
        info.label = 2 := by
  have hsize : lottery.treeSize 3 0 ≤ 12 := by decide
  obtain ⟨found, hfound⟩ := wellFormed_lottery.exists_explore endsWithin_lottery hsize
  have hreached : ∃ q ∈ lottery.positions 3 (.start 0),
      lottery.player q.state = some (.seat .first) ∧ lottery.observation q.state = some 2 := by
    decide
  obtain ⟨q, hq, hp, ho⟩ := hreached
  have hq := (Game.mem_positions_iff endsWithin_lottery).mp hq
  obtain ⟨i, info, hi, hsee⟩ := ((Game.explored_of_explore hfound).recorded hq).infoset .first hp
  exact ⟨found, hfound, Game.faithful_of_explore hfound .first, i, info, hi,
    Option.some.inj (hsee.observation.symm.trans ho)⟩

end ExtensiveForm
