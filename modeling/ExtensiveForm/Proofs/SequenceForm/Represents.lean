import ExtensiveForm.Proofs.PerfectRecall
import ExtensiveForm.Proofs.SequenceForm.Entries
import ExtensiveForm.Proofs.SequenceForm.Value

set_option autoImplicit false

namespace ExtensiveForm

variable {σ L A : Type} [BEq L]

/-- A form that stands for a whole game and for nothing else. -/
structure SequenceForm.Represents (form : SequenceForm L A Rat) (g : Game σ A L Rat) (d : Nat)
    (start : σ) : Prop where
  nodup_label : ∀ seat, (form.tree seat).label.toList.Nodup
  /-- A seat has a set exactly for what it sees at a reachable position. -/
  set_iff : ∀ seat label actions,
    (∃ k : Nat, (form.tree seat).label[k]? = some label ∧
      (form.tree seat).actions[k]? = some actions) ↔
    ∃ q, g.Reaches (.start start) q ∧ g.player q.state = some (.seat seat) ∧
      g.observation q.state = some label ∧ g.actions q.state = actions
  existsUnique_history : ∀ seat s, s < (form.tree seat).sequences →
    ∃! h, (form.tree seat).OwnHistory s h
  sequence_unique : ∀ seat s s' h, (form.tree seat).OwnHistory s h →
    (form.tree seat).OwnHistory s' h → s = s'
  history_iff : ∀ seat h, (∃ s, (form.tree seat).OwnHistory s h) ↔
    ∃ q, g.Reaches (.start start) q ∧ q.past.get seat = h
  /-- An entry is what the plays with the histories of its row and column earn, if anything. -/
  entry_iff : ∀ r c past, form.first.OwnHistory r past.first →
    form.second.OwnHistory c past.second → ∀ v,
      (r, c, v) ∈ form.payoff.entries ↔ v = g.earningsAt d past (.start start) ∧ v ≠ 0
  entry_lt : ∀ e ∈ form.payoff.entries,
    e.1 < form.first.sequences ∧ e.2.1 < form.second.sequences
  nodup_places : (form.payoff.entries.map fun e => (e.1, e.2.1)).Nodup

namespace Game

variable [Hashable L] [BEq A] [LawfulBEq L] [LawfulBEq A] {g : Game σ A L Rat} {start : σ}
  {found : Exploration L A Rat} {form : SequenceForm L A Rat} {d fuel : Nat}

omit [Hashable L] [BEq A] [LawfulBEq L] [LawfulBEq A] in
theorem totalAt_eq_earningsAt (past : PerSeat (History L)) (p : Position σ L Rat) :
    g.totalAt d past p = g.earningsAt d past p :=
  List.sum_eq_foldl.symm

theorem Explores.mem_entries_iff (h : g.Explores [.start start] .empty found)
    (hd : g.EndsWithin d start) (hf : found.Forms form) {r c : Nat} {past : PerSeat (History L)}
    (hr : form.first.OwnHistory r past.first) (hc : form.second.OwnHistory c past.second)
    (v : Rat) :
    (r, c, v) ∈ form.payoff.entries ↔ v = g.earningsAt d past (.start start) ∧ v ≠ 0 := by
  rw [h.mem_entries_iff_totalAt hd hf rfl hr hc, totalAt_eq_earningsAt]
  simp [Scalar.isZero]

/-- The form of a game has all that the game has, once. -/
theorem represents_of_build (hd : g.EndsWithin d start)
    (hbuild : g.build fuel start = some (.ok form)) : form.Represents g d start := by
  obtain ⟨found, hf, hx, hw⟩ := exists_explored hbuild
  have hs := hx.sound
  constructor
  · exact hf.nodup_label hs
  · intro seat label actions
    rw [← hx.exists_isSet_iff hf]
    exact exists_congr fun k => (hf.valid hs seat).exists_isSet_iff.symm
  · intro seat s hlt
    obtain ⟨h, hh⟩ := (hf.valid hs seat).exists_ownHistory hlt
    exact ⟨h, hh, fun h' hh' => (hf.valid hs seat).ownHistory_unique hh' hh⟩
  · intro seat s s' h hh hh'
    rw [hf.tree_eq] at hh hh'
    exact (hs.registry seat).place_unique hh hh'
  · intro seat h
    exact hx.exists_ownHistory_iff hf
  · intro r c past hr hc v
    exact hw.mem_entries_iff hd hf hr hc v
  · intro e he
    exact hf.entry_lt hs he
  · rw [List.Nodup, List.pairwise_map]
    refine (hf.pairwise_entries hs).imp fun {e e'} hlt heq => ?_
    simp only [Prod.mk.injEq] at heq
    rcases hlt with hlt | ⟨-, hlt⟩ <;> omega

end Game

theorem represents_pennies : ∃ form, pennies.build 7 0 = some (.ok form) ∧
    form.Represents pennies 2 0 ∧ ∃ r c, form.first.OwnHistory r [(0, 0)] ∧
      form.second.OwnHistory c [(1, 0)] ∧ (r, c, 1) ∈ form.payoff.entries := by
  obtain ⟨form, hform⟩ := wellFormed_pennies.exists_build endsWithin_pennies treeSize_pennies.le
  have hrep := Game.represents_of_build endsWithin_pennies hform
  have hreached : ∃ q ∈ pennies.positions 2 (.start 0),
      q.past.get .first = [(0, 0)] ∧ q.past.get .second = [(1, 0)] := by decide
  obtain ⟨q, hq, hfirst, hsecond⟩ := hreached
  have hq := (Game.mem_positions_iff endsWithin_pennies).mp hq
  obtain ⟨r, hr⟩ := (hrep.history_iff .first _).mpr ⟨q, hq, hfirst⟩
  obtain ⟨c, hc⟩ := (hrep.history_iff .second _).mpr ⟨q, hq, hsecond⟩
  have hearn : 1 = pennies.earningsAt 2 ⟨[(0, 0)], [(1, 0)]⟩ (.start 0) := by decide +kernel
  have hentry := (hrep.entry_iff r c ⟨[(0, 0)], [(1, 0)]⟩ hr hc 1).mpr ⟨hearn, one_ne_zero⟩
  exact ⟨form, hform, hrep, r, c, hr, hc, hentry⟩

end ExtensiveForm
