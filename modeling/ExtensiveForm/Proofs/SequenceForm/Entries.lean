import ExtensiveForm.Proofs.Exploration.Sums
import ExtensiveForm.Proofs.SequenceForm.Check

set_option autoImplicit false

namespace ExtensiveForm.Game

variable {σ L A R : Type} [BEq L] [LawfulBEq L] [Hashable L] [BEq A] [LawfulBEq A] [Scalar R]
  {g : Game σ A L R} {start : σ} {d : Nat} {form : SequenceForm L A R}

theorem Explores.mem_entries_iff_totalAt {found : Exploration L A R}
    (h : g.Explores [.start start] .empty found) (hd : g.EndsWithin d start)
    (hf : found.Forms form) (hzero : Scalar.isZero (0 : R)) {r c : Nat} {past : PerSeat (History L)}
    (hr : form.first.OwnHistory r past.first) (hc : form.second.OwnHistory c past.second) (v : R) :
    (r, c, v) ∈ form.payoff.entries ↔
      v = g.totalAt d past (.start start) ∧ Scalar.isZero v = false := by
  have hs := (h.sound Exploration.sound_empty).1
  rw [hf.mem_entries_iff]
  constructor
  · intro hmem
    obtain ⟨key, hk, hz, hat⟩ := hmem
    obtain ⟨past', hkey, hr', hc'⟩ := hf.exists_stands_of_places hs hk hat
    have hsame : past' = past := by
      refine PerSeat.ext_get fun seat => ?_
      cases seat with
      | first => exact (hf.valid hs .first).ownHistory_unique hr' hr
      | second => exact (hf.valid hs .second).ownHistory_unique hc' hc
    rw [← h.getD_payoffs hd (hsame ▸ hkey), Std.HashMap.getD_eq_getD_getElem?, hk]
    exact ⟨rfl, hz⟩
  · intro hv
    obtain ⟨hv, hz⟩ := hv
    have htree₁ : form.first = (found.registry .first).layout.tree := hf.tree_eq .first
    have htree₂ : form.second = (found.registry .second).layout.tree := hf.tree_eq .second
    obtain ⟨s, hs₁, hflat₁⟩ := (hs.registry .first).exists_sequence (htree₁ ▸ hr)
    obtain ⟨s', hs₂, hflat₂⟩ := (hs.registry .second).exists_sequence (htree₂ ▸ hc)
    have hkey : found.Stands ⟨s, s'⟩ past := by
      intro seat
      cases seat with
      | first => exact hs₁
      | second => exact hs₂
    have hget := h.getD_payoffs hd hkey
    rw [← hv, Std.HashMap.getD_eq_getD_getElem?] at hget
    refine ⟨⟨s, s'⟩, ?_, hz, hflat₁, hflat₂⟩
    cases hk : found.payoffs[(⟨s, s'⟩ : SequencePair)]? with
    -- a pair that no play ended with earns nothing
    | none =>
      rw [hk, Option.getD_none] at hget
      rw [← hget, hzero] at hz
      cases hz
    | some w =>
      rw [hk] at hget
      exact congrArg some hget

theorem exists_mem_endings_of_build {fuel : Nat} (hd : g.EndsWithin d start)
    (hzero : Scalar.isZero (0 : R)) (hbuild : g.build fuel start = some (.ok form)) {v : R}
    (hv : v ∈ form.payoff.value) : ∃ q ∈ g.endings d (.start start),
      v = g.totalAt d q.past (.start start) ∧ Scalar.isZero v = false := by
  obtain ⟨found, hf, hx, hw⟩ := exists_explored hbuild
  obtain ⟨r, c, he⟩ :=
    (SequenceForm.check_eq_ok_iff.mp (hf.check_eq_ok hx.sound)).2.exists_mem_entries hv
  obtain ⟨hr, hc⟩ := hf.entry_lt hx.sound he
  obtain ⟨past, hr, hc⟩ := hf.exists_past hx.sound hr hc
  obtain ⟨hsum, hz⟩ := (hw.mem_entries_iff_totalAt hd hf hzero hr hc v).mp he
  have hne : g.earned d past (.start start) ≠ [] := by
    intro hnil
    rw [hsum, totalAt, hnil, List.foldl_nil, hzero] at hz
    cases hz
  obtain ⟨t, ht⟩ := List.exists_mem_of_ne_nil _ hne
  obtain ⟨q, hq, rfl, -⟩ := mem_earned_iff.mp ht
  exact ⟨q, hq, hsum, hz⟩

end ExtensiveForm.Game
