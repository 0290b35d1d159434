import Mathlib.Data.List.Nodup
import ExtensiveForm.PayoffMatrix.Assembly
import ExtensiveForm.SequenceForm.Basic
import ExtensiveForm.Proofs.Traversal

set_option autoImplicit false

namespace ExtensiveForm

namespace PayoffMatrix

variable {R : Type} [Scalar R] {row col : Sequence → Option Nat}
  {payoffs : List (SequencePair × R)} {m : PayoffMatrix R}

omit [Scalar R] in
theorem place?_eq_some_iff {p : SequencePair × R} {e : Nat × Nat × R} :
    place? row col p = some e ↔
      row p.1.first = some e.1 ∧ col p.1.second = some e.2.1 ∧ p.2 = e.2.2 := by
  obtain ⟨r, c, v⟩ := e
  unfold place?
  cases row p.1.first <;> cases col p.1.second <;> simp

def placed (row col : Sequence → Option Nat) (payoffs : List (SequencePair × R)) :
    List (Nat × Nat × R) :=
  (payoffs.filter fun p => !Scalar.isZero p.2).filterMap (place? row col)

theorem placed_cons_of_isZero {p : SequencePair × R} (hz : Scalar.isZero p.2 = true) :
    placed row col (p :: payoffs) = placed row col payoffs := by
  simp [placed, hz]

theorem placed_cons {p : SequencePair × R} {e : Nat × Nat × R} (hz : Scalar.isZero p.2 = false)
    (he : place? row col p = some e) :
    placed row col (p :: payoffs) = e :: placed row col payoffs := by
  simp [placed, hz, he]

theorem mem_placed {e : Nat × Nat × R} : e ∈ placed row col payoffs ↔
    ∃ p ∈ payoffs, Scalar.isZero p.2 = false ∧ place? row col p = some e := by
  simp [placed, and_assoc]

theorem assembleBy?_eq_some_iff : assembleBy? row col payoffs = some m ↔
    (∀ p ∈ payoffs, Scalar.isZero p.2 = false → (place? row col p).isSome) ∧
      m = ofEntries ((placed row col payoffs).mergeSort placeLe) := by
  simp only [assembleBy?, Option.map_eq_some_iff, mapM_eq_some_iff, List.mem_filter,
    Bool.not_eq_true', and_imp]
  constructor
  · rintro ⟨es, ⟨hs, rfl⟩, rfl⟩
    exact ⟨hs, rfl⟩
  · rintro ⟨hs, rfl⟩
    exact ⟨_, ⟨hs, rfl⟩, rfl⟩

theorem entries_perm (h : assembleBy? row col payoffs = some m) :
    m.entries.Perm (placed row col payoffs) := by
  rw [(assembleBy?_eq_some_iff.mp h).2, entries_ofEntries]
  exact List.mergeSort_perm _ _

theorem mem_entries_iff (h : assembleBy? row col payoffs = some m) {r c : Nat} {v : R} :
    (r, c, v) ∈ m.entries ↔ ∃ key, (key, v) ∈ payoffs ∧ Scalar.isZero v = false ∧
      row key.first = some r ∧ col key.second = some c := by
  rw [(entries_perm h).mem_iff, mem_placed]
  simp only [place?_eq_some_iff, Prod.exists]
  constructor
  · rintro ⟨key, w, hp, hz, hr, hc, rfl⟩
    exact ⟨key, hp, hz, hr, hc⟩
  · rintro ⟨key, hp, hz, hr, hc⟩
    exact ⟨key, v, hp, hz, hr, hc, rfl⟩

def PlaceLt (e f : Nat × Nat × R) : Prop := e.1 < f.1 ∨ e.1 = f.1 ∧ e.2.1 < f.2.1

omit [Scalar R] in
theorem ne_of_placeLt {e f : Nat × Nat × R} (h : PlaceLt e f) : e ≠ f := by
  rintro rfl
  unfold PlaceLt at h
  omega

omit [Scalar R] in
theorem placeLe_iff {e f : Nat × Nat × R} :
    placeLe e f = true ↔ e.1 < f.1 ∨ e.1 = f.1 ∧ e.2.1 ≤ f.2.1 := by
  simp [placeLe]

omit [Scalar R] in
theorem pairwise_mergeSort_placeLe (es : List (Nat × Nat × R)) :
    (es.mergeSort placeLe).Pairwise fun e f => placeLe e f = true := by
  refine List.pairwise_mergeSort ?_ ?_ _
  · exact fun _ _ _ => placeLe_trans
  · exact placeLe_total

theorem pairwise_placeLt (h : assembleBy? row col payoffs = some m)
    (hkeys : payoffs.Pairwise fun p q => p.1 ≠ q.1)
    (hinj : ∀ p ∈ payoffs, ∀ q ∈ payoffs, Scalar.isZero p.2 = false → Scalar.isZero q.2 = false →
      ∀ e f : Nat × Nat × R, place? row col p = some e → place? row col q = some f →
        e.1 = f.1 → e.2.1 = f.2.1 → p.1 = q.1) :
    m.entries.Pairwise PlaceLt := by
  have hdistinct : (placed row col payoffs).Pairwise fun e f => ¬(e.1 = f.1 ∧ e.2.1 = f.2.1) := by
    unfold placed
    rw [List.pairwise_filterMap]
    refine (hkeys.filter _).imp_of_mem ?_
    intro p q hp hq hpq e he f hf hplace
    rw [List.mem_filter, Bool.not_eq_true'] at hp hq
    exact hpq (hinj p hp.1 q hq.1 hp.2 hq.2 e f he hf hplace.1 hplace.2)
  have hperm := entries_perm h
  have hne : m.entries.Pairwise fun e f => ¬(e.1 = f.1 ∧ e.2.1 = f.2.1) :=
    (hperm.pairwise_iff fun hef hfe => hef ⟨hfe.1.symm, hfe.2.symm⟩).mpr hdistinct
  have hle : m.entries.Pairwise fun e f => placeLe e f = true := by
    rw [(assembleBy?_eq_some_iff.mp h).2, entries_ofEntries]
    exact pairwise_mergeSort_placeLe _
  refine (hne.and hle).imp fun {e f} hef => ?_
  have hef' := placeLe_iff.mp hef.2
  unfold PlaceLt
  omega

omit [Scalar R] in
theorem eq_of_place_eq {es : List (Nat × Nat × R)} (hs : es.Pairwise PlaceLt)
    {e f : Nat × Nat × R} (he : e ∈ es) (hf : f ∈ es) (hr : e.1 = f.1) (hc : e.2.1 = f.2.1) :
    e = f := by
  have hn : (es.map fun e => (e.1, e.2.1)).Nodup := by
    rw [List.Nodup, List.pairwise_map]
    refine hs.imp fun {a b} hab heq => ?_
    rw [Prod.mk.injEq] at heq
    unfold PlaceLt at hab
    omega
  exact List.inj_on_of_nodup_map hn he hf (by rw [hr, hc])

omit [Scalar R] in
/-- Strictly increasing entries are what sorting makes of them in any order. -/
theorem mergeSort_eq_of_perm {es es' : List (Nat × Nat × R)} (hs : es.Pairwise PlaceLt)
    (h : es.Perm es') : es'.mergeSort placeLe = es := by
  have hperm : es.Perm (es'.mergeSort placeLe) := h.trans (List.mergeSort_perm es' placeLe).symm
  have hle : es.Pairwise fun e f => placeLe e f = true := by
    refine hs.imp fun {e f} hef => placeLe_iff.mpr ?_
    unfold PlaceLt at hef
    omega
  refine (hperm.eq_of_pairwise (fun e f he hf hef hfe => ?_) hle (pairwise_mergeSort_placeLe _)).symm
  rw [placeLe_iff] at hef hfe
  exact eq_of_place_eq hs he (hperm.mem_iff.mpr hf) (by omega) (by omega)

end PayoffMatrix

namespace SequenceForm

variable {R : Type} [Scalar R]

open PayoffMatrix

theorem checkEntries_eq_ok {rows cols k : Nat} {before : Option (Nat × Nat)}
    {es : List (Nat × Nat × R)} (hz : ∀ e ∈ es, Scalar.isZero e.2.2 = false)
    (hin : ∀ e ∈ es, e.1 < rows ∧ e.2.1 < cols) (hs : es.Pairwise PlaceLt)
    (hb : ∀ p ∈ before, ∀ e ∈ es, p.1 < e.1 ∨ p.1 = e.1 ∧ p.2 < e.2.1) :
    checkEntries rows cols k before es = .ok () := by
  induction es generalizing k before with
  | nil => rfl
  | cons e es ih =>
    obtain ⟨he, hes⟩ := List.forall_mem_cons.mp hz
    obtain ⟨hei, hesi⟩ := List.forall_mem_cons.mp hin
    obtain ⟨hlt, hrest⟩ := List.pairwise_cons.mp hs
    have hout : ¬(rows ≤ e.1 ∨ cols ≤ e.2.1) := by omega
    have hcheck : checkEntry rows cols k before e = .ok () := by
      unfold checkEntry
      cases before with
      | none => simp [he, hout]
      | some p =>
        have hp := hb p rfl e List.mem_cons_self
        simp [he, hout, hp]
    simp only [checkEntries, hcheck]
    refine ih hes hesi hrest fun p hp f hf => ?_
    cases hp
    exact hlt f hf

theorem checkMatrix_eq_ok {rows cols : Nat} {row col : Sequence → Option Nat}
    {payoffs : List (SequencePair × R)} {m : PayoffMatrix R}
    (h : assembleBy? row col payoffs = some m) (hs : m.entries.Pairwise PlaceLt)
    (hin : ∀ e ∈ m.entries, e.1 < rows ∧ e.2.1 < cols) : checkMatrix rows cols m = .ok () := by
  have hz : ∀ e ∈ m.entries, Scalar.isZero e.2.2 = false := by
    rintro ⟨r, c, v⟩ he
    obtain ⟨key, -, hz, -⟩ := (mem_entries_iff h).mp he
    exact hz
  have hsize : m.row.size = m.value.size ∧ m.col.size = m.value.size := by
    rw [(assembleBy?_eq_some_iff.mp h).2]
    simp [ofEntries]
  simp only [checkMatrix, hsize, ne_eq, not_true_eq_false, or_self, if_false]
  exact checkEntries_eq_ok hz hin hs fun p hp => by cases hp

end SequenceForm

end ExtensiveForm
