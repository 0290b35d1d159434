import ExtensiveForm.Proofs.Exploration.Totals
import ExtensiveForm.Proofs.PayoffMatrix.Products
import ExtensiveForm.Proofs.SequenceForm.Check
import ExtensiveForm.Proofs.Valuation

set_option autoImplicit false

namespace ExtensiveForm

namespace PayoffMatrix

/-- Payoffs that are zero are left out of the matrix, and count for nothing. -/
theorem sum_placed {row col : Sequence → Option Nat} {payoffs : List (SequencePair × Rat)}
    (h : ∀ p ∈ payoffs, Scalar.isZero p.2 = false → (place? row col p).isSome) (x y : Array Rat) :
    ((placed row col payoffs).map fun e => x.getD e.1 0 * e.2.2 * y.getD e.2.1 0).sum =
      (payoffs.map fun p =>
        x.getD ((row p.1.first).getD 0) 0 * y.getD ((col p.1.second).getD 0) 0 * p.2).sum := by
  induction payoffs with
  | nil => rfl
  | cons p payoffs ih =>
    obtain ⟨hp, hrest⟩ := List.forall_mem_cons.mp h
    rw [List.map_cons, List.sum_cons, ← ih hrest]
    cases hz : Scalar.isZero p.2 with
    | true =>
      have hzero : p.2 = 0 := beq_iff_eq.mp hz
      rw [placed_cons_of_isZero hz, hzero, mul_zero, zero_add]
    | false =>
      obtain ⟨e, he⟩ := Option.isSome_iff_exists.mp (hp hz)
      obtain ⟨hr, hc, hv⟩ := place?_eq_some_iff.mp he
      rw [placed_cons hz he, List.map_cons, List.sum_cons, hr, hc, hv, Option.getD_some,
        Option.getD_some]
      ring

end PayoffMatrix

theorem SequenceForm.value_eq_between {L A : Type} {f : SequenceForm L A Rat} {x y : Array Rat}
    (hc : f.checkPlans x y = .ok ()) : f.value x y = .ok (f.payoff.between x y) := by
  obtain ⟨hform, hx, hy⟩ := checkPlans_eq_ok_iff.mp hc
  have hin := (check_eq_ok_iff.mp hform).2.inside
  rw [← hx, ← hy] at hin
  simp only [value, hc, PayoffMatrix.bilinear?_eq_some hin]

namespace Exploration.Forms

variable {L A : Type} [BEq L] [Hashable L] {found : Exploration L A Rat} {form : SequenceForm L A Rat}

theorem between_eq_weighted (h : found.Forms form) (x y : Array Rat) :
    form.payoff.between x y = weighted (fun key =>
      x.getD ((key.first.flat? (found.registry .first).offsets).getD 0) 0 *
        y.getD ((key.second.flat? (found.registry .second).offsets).getD 0) 0) found.payoffs := by
  have hplaced := (PayoffMatrix.assembleBy?_eq_some_iff.mp h.payoff_eq).1
  rw [PayoffMatrix.between, ((PayoffMatrix.entries_perm h.payoff_eq).map _).sum_eq]
  exact PayoffMatrix.sum_placed hplaced x y

theorem value_eq_between (h : found.Forms form) (hs : found.Sound) {x y : Array Rat}
    (hx : x.size = form.first.sequences) (hy : y.size = form.second.sequences) :
    form.value x y = .ok (form.payoff.between x y) :=
  SequenceForm.value_eq_between (h.checkPlans_eq_ok hs hx hy)

end Exploration.Forms

namespace Game

variable {σ L A : Type} [BEq L] [Hashable L] [BEq A] [LawfulBEq L] [LawfulBEq A]
  {g : Game σ A L Rat} {start : σ} {found : Exploration L A Rat} {form : SequenceForm L A Rat}
  {d : Nat}

theorem Explores.weighted_start (h : g.Explores [.start start] .empty found)
    (hd : g.EndsWithin d start) {f : SequencePair → Rat} {factor : PerSeat (History L) → Rat}
    (hf : ∀ {key past}, found.Stands key past → f key = factor past) :
    weighted f found.payoffs = g.earnings d factor (.start start) := by
  have hall : ∀ p ∈ [(.start start : Position σ L Rat)], g.EndsWithin d p.state :=
    List.forall_mem_singleton.mpr hd
  rw [h.weighted_eq Exploration.sound_empty hall hf]
  simp [weighted, Exploration.empty]

theorem Explores.between_eq (h : g.Explores [.start start] .empty found) (hd : g.EndsWithin d start)
    (hf : found.Forms form) {x y : Array Rat} {u v : History L → Rat}
    (hx : ∀ {n past}, form.first.OwnHistory n past → x.getD n 0 = u past)
    (hy : ∀ {n past}, form.second.OwnHistory n past → y.getD n 0 = v past) :
    form.payoff.between x y =
      g.earnings d (fun past => u past.first * v past.second) (.start start) := by
  have hs := (h.sound Exploration.sound_empty).1
  rw [hf.between_eq_weighted]
  refine h.weighted_start hd fun {key past} hkey => ?_
  obtain ⟨r, hr, -⟩ := hkey.exists_flat hs .first
  obtain ⟨c, hc, -⟩ := hkey.exists_flat hs .second
  obtain ⟨hfirst, hsecond⟩ := (hf.places_iff hs hkey).mp ⟨hr, hc⟩
  have hr' : key.first.flat? (found.registry .first).offsets = some r := hr
  have hc' : key.second.flat? (found.registry .second).offsets = some c := hc
  rw [hr', hc', Option.getD_some, Option.getD_some, hx hfirst, hy hsecond]

end Game

end ExtensiveForm
