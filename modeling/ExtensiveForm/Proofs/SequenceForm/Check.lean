import ExtensiveForm.Game.Table
import ExtensiveForm.Proofs.PerfectRecall
import ExtensiveForm.Proofs.SequenceTree.Check

set_option autoImplicit false

namespace ExtensiveForm

namespace PayoffMatrix

variable {R : Type} [Scalar R]

/-- The rules of a matrix: arrays of one length, no entry that is an exact zero or lies outside, and
each entry at a later place than all before it. -/
structure Ordered (m : PayoffMatrix R) (rows cols : Nat) : Prop where
  row_size : m.row.size = m.value.size
  col_size : m.col.size = m.value.size
  isZero_eq : ∀ e ∈ m.entries, Scalar.isZero e.2.2 = false
  inside : ∀ e ∈ m.entries, e.1 < rows ∧ e.2.1 < cols
  increasing : m.entries.Pairwise PlaceLt

theorem Ordered.ofEntries_entries {m : PayoffMatrix R} {rows cols : Nat} (hm : m.Ordered rows cols) :
    ofEntries m.entries = m := by
  obtain ⟨row, col, value⟩ := m
  have hrow : row.size = value.size := hm.row_size
  have hcol : col.size = value.size := hm.col_size
  have hpairs : row.toList.length = (col.toList.zip value.toList).length := by
    simp [hrow, hcol]
  have hlengths : col.toList.length = value.toList.length := by simpa using hcol
  have hsnd : ((⟨row, col, value⟩ : PayoffMatrix R).entries.map Prod.snd) =
      col.toList.zip value.toList := List.map_snd_zip hpairs.ge
  have hr : ((⟨row, col, value⟩ : PayoffMatrix R).entries.map fun e => e.1) = row.toList :=
    List.map_fst_zip hpairs.le
  have hc : ((⟨row, col, value⟩ : PayoffMatrix R).entries.map fun e => e.2.1) = col.toList := by
    rw [← List.map_fst_zip hlengths.le, ← hsnd, List.map_map]
    rfl
  have hv : ((⟨row, col, value⟩ : PayoffMatrix R).entries.map fun e => e.2.2) = value.toList := by
    rw [← List.map_snd_zip hlengths.ge, ← hsnd, List.map_map]
    rfl
  rw [ofEntries, hr, hc, hv]

theorem Ordered.exists_mem_entries {m : PayoffMatrix R} {rows cols : Nat} (hm : m.Ordered rows cols)
    {v : R} (hv : v ∈ m.value) : ∃ r c, (r, c, v) ∈ m.entries := by
  rw [← hm.ofEntries_entries] at hv
  obtain ⟨⟨r, c, v⟩, he, rfl⟩ := List.mem_map.mp (List.mem_toArray.mp hv)
  exact ⟨r, c, he⟩

end PayoffMatrix

namespace SequenceForm

open PayoffMatrix

section Matrix

variable {R : Type} [Scalar R] {rows cols : Nat}

theorem checkEntry_eq_ok_iff {k : Nat} {before : Option (Nat × Nat)} {e : Nat × Nat × R} :
    checkEntry rows cols k before e = .ok () ↔ Scalar.isZero e.2.2 = false ∧
      (e.1 < rows ∧ e.2.1 < cols) ∧ ∀ p ∈ before, p.1 < e.1 ∨ p.1 = e.1 ∧ p.2 < e.2.1 := by
  obtain ⟨r, c, v⟩ := e
  unfold checkEntry
  cases hz : Scalar.isZero v with
  | true => simp [hz]
  | false =>
    by_cases hout : rows ≤ r ∨ cols ≤ c
    · have hin : ¬(r < rows ∧ c < cols) := by omega
      simp [hz, hout, hin]
    · have hin : r < rows ∧ c < cols := by omega
      cases before with
      | none => simp [hz, hout, hin]
      | some p =>
        by_cases hp : p.1 < r ∨ p.1 = r ∧ p.2 < c
        · simp [hz, hout, hin, hp]
        · simp [hz, hout, hin, hp]

/-- Each entry is compared with the one before only, which comes after all the others. -/
theorem checkEntries_eq_ok_iff {k : Nat} {before : Option (Nat × Nat)} {es : List (Nat × Nat × R)} :
    checkEntries rows cols k before es = .ok () ↔ (∀ e ∈ es, Scalar.isZero e.2.2 = false) ∧
      (∀ e ∈ es, e.1 < rows ∧ e.2.1 < cols) ∧ es.Pairwise PlaceLt ∧
        ∀ p ∈ before, ∀ e ∈ es, p.1 < e.1 ∨ p.1 = e.1 ∧ p.2 < e.2.1 := by
  refine ⟨fun h => ?_, fun ⟨hz, hin, hs, hb⟩ => checkEntries_eq_ok hz hin hs hb⟩
  induction es generalizing k before with
  | nil => simp
  | cons e es ih =>
    rw [checkEntries] at h
    split at h
    · cases h
    · rename_i he
      obtain ⟨hz, hin, hb⟩ := checkEntry_eq_ok_iff.mp he
      obtain ⟨hzs, hins, hs, hlt⟩ := ih h
      have hle : ∀ f ∈ es, PlaceLt e f := hlt (e.1, e.2.1) rfl
      refine ⟨List.forall_mem_cons.mpr ⟨hz, hzs⟩, List.forall_mem_cons.mpr ⟨hin, hins⟩,
        List.pairwise_cons.mpr ⟨hle, hs⟩, fun p hp => List.forall_mem_cons.mpr ⟨hb p hp, ?_⟩⟩
      intro f hf
      have hpe := hb p hp
      have hef := hle f hf
      unfold PlaceLt at hef
      omega

theorem checkMatrix_eq_ok_iff {m : PayoffMatrix R} :
    checkMatrix rows cols m = .ok () ↔ m.Ordered rows cols := by
  unfold checkMatrix
  constructor
  · intro h
    split at h
    · cases h
    · rename_i hsize
      simp only [ne_eq, not_or, Decidable.not_not] at hsize
      obtain ⟨hz, hin, hs, -⟩ := checkEntries_eq_ok_iff.mp h
      exact ⟨hsize.1, hsize.2, hz, hin, hs⟩
  · intro h
    obtain ⟨hr, hc, hz, hin, hs⟩ := h
    rw [if_neg (by simp [hr, hc])]
    exact checkEntries_eq_ok hz hin hs fun p hp => by cases hp

end Matrix

variable {L A R : Type} [Scalar R]

theorem check_eq_ok_iff {f : SequenceForm L A R} : f.check = .ok () ↔
    (∀ seat, (f.tree seat).Valid) ∧ f.payoff.Ordered f.first.sequences f.second.sequences := by
  have hseat : (∀ seat, (f.tree seat).Valid) ↔ f.first.Valid ∧ f.second.Valid := by
    constructor
    · exact fun h => ⟨h .first, h .second⟩
    · rintro ⟨hf, hs⟩ seat
      cases seat with
      | first => exact hf
      | second => exact hs
  rw [hseat, ← SequenceTree.check_eq_ok_iff, ← SequenceTree.check_eq_ok_iff, ← checkMatrix_eq_ok_iff]
  simp only [check, checkTree, tree]
  cases f.first.check with
  | error e => simp [Except.mapError, bind, Except.bind]
  | ok =>
    cases f.second.check with
    | error e => simp [Except.mapError, bind, Except.bind]
    | ok => simp [Except.mapError, bind, Except.bind]

theorem checkPlans_eq_ok_iff {f : SequenceForm L A R} {x y : Array R} :
    f.checkPlans x y = .ok () ↔
      f.check = .ok () ∧ x.size = f.first.sequences ∧ y.size = f.second.sequences := by
  unfold checkPlans
  cases f.check with
  | error fault => simp
  | ok =>
    simp only
    split
    · simp only [reduceCtorEq, false_iff]
      omega
    · simp only [true_iff, true_and]
      omega

section Gap

variable {f : SequenceForm L A R} {x y c : Array R} {best worst : R}

theorem bestAgainst?_eq_some (hdot : f.payoff.dot? y f.first.sequences = some c)
    (hbest : f.first.maximize? c = some best) : f.bestAgainst? y = some best := by
  simp only [bestAgainst?, hdot, Option.bind_eq_bind, Option.bind_some, hbest]

theorem worstAgainst?_eq_some (hdot : f.payoff.transposeDot? x f.second.sequences = some c)
    (hworst : f.second.minimize? c = some worst) : f.worstAgainst? x = some worst := by
  simp only [worstAgainst?, hdot, Option.bind_eq_bind, Option.bind_some, hworst]

theorem gap_eq_ok (hc : f.checkPlans x y = .ok ()) (hbest : f.bestAgainst? y = some best)
    (hworst : f.worstAgainst? x = some worst) : f.gap x y = .ok (best - worst) := by
  simp only [gap, hc, hbest, hworst]

end Gap

end SequenceForm

namespace Game

variable {σ L A R : Type} [BEq L] [LawfulBEq L] [Hashable L] [BEq A] [LawfulBEq A] [Scalar R]
  {g : Game σ A L R} {fuel : Nat} {start : σ} {form : SequenceForm L A R}

/-- Every form that is built keeps all rules, whatever numbers the game supplies. -/
theorem check_of_build (h : g.build fuel start = some (.ok form)) : form.check = .ok () ∧
    (∀ seat, (form.tree seat).Ordered) ∧
      form.payoff.Ordered form.first.sequences form.second.sequences := by
  obtain ⟨found, hf, hx, -⟩ := exists_explored h
  have hcheck := hf.check_eq_ok hx.sound
  obtain ⟨hvalid, hordered⟩ := SequenceForm.check_eq_ok_iff.mp hcheck
  exact ⟨hcheck, fun seat => (hvalid seat).ordered, hordered⟩

end Game

/-- A lottery with three draws. The set below the first label is found after the second label, so the
sets are not found in preorder; numbers are infinite, not numbers at all, or a negative zero. -/
def lottery : Game Nat Nat Nat Float :=
  Table.game #[
    ⟨some .chance, none, none, [⟨0, 1, some 0.5⟩, ⟨1, 2, some (0.0 / 0.0)⟩, ⟨2, 3, some (1.0 / 0.0)⟩]⟩,
    ⟨some (.seat .first), some 0, none, [⟨0, 5, none⟩, ⟨1, 6, none⟩]⟩,
    ⟨some (.seat .first), some 1, none, [⟨0, 6, none⟩, ⟨1, 7, none⟩]⟩,
    ⟨some (.seat .first), some 0, none, [⟨0, 4, none⟩, ⟨1, 8, none⟩]⟩,
    ⟨some (.seat .first), some 2, none, [⟨0, 7, none⟩, ⟨1, 5, none⟩]⟩,
    ⟨none, none, some (0.0 / 0.0), []⟩,
    ⟨none, none, some (1.0 / 0.0), []⟩,
    ⟨none, none, some (-1.0 / 0.0), []⟩,
    ⟨none, none, some (-0.0), []⟩]

theorem endsWithin_lottery : lottery.EndsWithin 3 0 := by decide

theorem wellFormed_lottery : lottery.WellFormed 0 :=
  (Game.wellFormed_iff endsWithin_lottery).mpr (by decide)

theorem check_lottery : ∃ form, lottery.build 12 0 = some (.ok form) ∧ form.check = .ok () ∧
    (∀ seat, (form.tree seat).Ordered) ∧
      form.payoff.Ordered form.first.sequences form.second.sequences := by
  have hsize : lottery.treeSize 3 0 ≤ 12 := by decide
  obtain ⟨form, hform⟩ := wellFormed_lottery.exists_build endsWithin_lottery hsize
  exact ⟨form, hform, Game.check_of_build hform⟩

end ExtensiveForm
