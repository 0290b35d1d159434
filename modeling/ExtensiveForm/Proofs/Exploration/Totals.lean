import Mathlib.Tactic.Ring
import ExtensiveForm.Proofs.Earnings
import ExtensiveForm.Proofs.Exploration.Coverage

set_option autoImplicit false

namespace ExtensiveForm

def weighted (f : SequencePair → Rat) (payoffs : Std.HashMap SequencePair Rat) : Rat :=
  (payoffs.toList.map fun p => f p.1 * p.2).sum

def weightedExcept (key : SequencePair) (f : SequencePair → Rat)
    (payoffs : Std.HashMap SequencePair Rat) : Rat :=
  ((payoffs.toList.filter fun p => ¬key == p.1).map fun p => f p.1 * p.2).sum

section Weighted

variable {payoffs : Std.HashMap SequencePair Rat} {f : SequencePair → Rat} {key : SequencePair}

theorem weighted_insert (v : Rat) :
    weighted f (payoffs.insert key v) = f key * v + weightedExcept key f payoffs := by
  unfold weighted weightedExcept
  rw [(Std.HashMap.toList_insert_perm.map _).sum_eq, List.map_cons, List.sum_cons]

theorem weighted_eq (key : SequencePair) :
    weighted f payoffs = f key * payoffs.getD key 0 + weightedExcept key f payoffs := by
  rw [Std.HashMap.getD_eq_getD_getElem?]
  cases h : payoffs[key]? with
  | none =>
    have hfilter : payoffs.toList.filter (fun p => ¬key == p.1) = payoffs.toList := by
      refine List.filter_eq_self.mpr fun p hp => ?_
      obtain ⟨k, v⟩ := p
      have hk := Std.HashMap.mem_toList_iff_getElem?_eq_some.mp hp
      simp only [beq_iff_eq, decide_not, Bool.not_eq_true', decide_eq_false_iff_not]
      intro hkey
      simp [hkey, hk] at h
    simp only [weighted, weightedExcept, hfilter, Option.getD_none, mul_zero, zero_add]
  | some v =>
    have heq : (payoffs.insert key v).Equiv payoffs := by
      refine Std.HashMap.Equiv.of_forall_getElem?_eq fun k => ?_
      rw [Std.HashMap.getElem?_insert]
      split
      · rename_i hk
        rw [beq_iff_eq] at hk
        rw [← hk, h]
      · rfl
    rw [Option.getD_some, ← weighted_insert]
    exact ((heq.toList_perm.map _).sum_eq).symm

theorem weighted_add (v : Rat) :
    weighted f (payoffs.insert key (payoffs.getD key 0 + v)) = weighted f payoffs + f key * v := by
  rw [weighted_insert, weighted_eq key]
  ring

end Weighted

namespace Game

variable {σ L A : Type} {g : Game σ A L Rat} {factor : PerSeat (History L) → Rat} {d : Nat}
  {p : Position σ L Rat} [BEq L] [Hashable L] [BEq A]

variable [LawfulBEq A] [LawfulBEq L]

theorem Explores.weighted_eq {f : SequencePair → Rat} {found found' : Exploration L A Rat}
    {ps : List (Position σ L Rat)} (h : g.Explores ps found found') (hs : found.Sound)
    (hd : ∀ p ∈ ps, g.EndsWithin d p.state)
    (hf : ∀ {key past}, found'.Stands key past → f key = factor past) :
    weighted f found'.payoffs = weighted f found.payoffs + (ps.map (g.earnings d factor)).sum := by
  induction h with
  | done found => simp
  | @look p rest found next found' h hrest ih =>
    obtain ⟨hdp, hdr⟩ := List.forall_mem_cons.mp hd
    obtain ⟨hs', hx⟩ := h.sound hs
    have hbelow : ∀ q ∈ g.nexts p, g.EndsWithin d q.state :=
      fun q hq => hdp.successor (state_mem_successors hq)
    rw [ih hs' (List.forall_mem_append.mpr ⟨hbelow, hdr⟩) hf, List.map_append, List.sum_append,
      List.map_cons, List.sum_cons]
    by_cases hp : g.player p.state = none
    · cases h with
      | @terminal v key _ hv hk =>
        -- the factor is known in the end only, but the pair still stands for the same histories then
        have hkey : f key = factor p.past :=
          hf fun seat => (hk seat).mono (by simpa using (hrest.sound hs').2 seat)
        rw [Exploration.payoffs_addPayoff, weighted_add, hkey, earnings_of_player_eq_none hp]
        simp [nexts, hp, earning, hv]
        ring
      | chance hc => simp [hp] at hc
      | decision hc => simp [hp] at hc
    · rw [h.payoffs_of_player_ne_none hp, earnings_of_player_ne_none hdp hp]

end Game

end ExtensiveForm
