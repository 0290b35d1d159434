import Mathlib
import ExtensiveForm.Proofs.PayoffMatrix.Assembly

/-!
Matrices of payoffs that a table holds, whatever order the table gives them in. Main statement: pairs of
sequences that go to distinct places make one matrix, which holds every payoff but the zeros, once and as
it was.
-/

set_option autoImplicit false

namespace ExtensiveForm

/-- Both zeros count as zero and nothing else does, what is not a number included. -/
theorem isZero_float_iff {v : Float} : Scalar.isZero v = true ↔ v = 0.0 ∨ v = -0.0 := by
  have hzero : (0.0 : Float) = 0 := by decide +kernel
  have hneg : (-0.0 : Float) = -0 := by decide +kernel
  constructor
  · intro h
    obtain ⟨-, -, hv⟩ := Float.beq_iff_ne_nan_and_eq.mp h
    rcases hv with hv | ⟨hv, -⟩ | ⟨hv, -⟩
    · exact .inl hv
    · exact .inl (hv.trans hzero.symm)
    · exact .inr (hv.trans hneg.symm)
  · intro h
    rcases h with rfl | rfl <;> decide +kernel

def Sequence.InTable (offsets : Array Nat) (s : Sequence) : Prop :=
  ∀ i, s.infoset? = some i → i < offsets.size

theorem Sequence.InTable.exists_flat {offsets : Array Nat} {s : Sequence} (h : s.InTable offsets) :
    ∃ n, s.flat? offsets = some n := by
  cases s with
  | empty => exact ⟨0, rfl⟩
  | move i a => exact ⟨_, by rw [flat?_move, Array.getElem?_eq_getElem (h i rfl), Option.map_some]⟩

namespace PayoffMatrix

variable {R : Type} [Scalar R] {row col : Sequence → Option Nat}
  {payoffs : Std.HashMap SequencePair R} {m : PayoffMatrix R}

/-- All payoffs of a table that are not zero, each at the place of its pair, from place to place. -/
structure IsAssembly (row col : Sequence → Option Nat) (payoffs : Std.HashMap SequencePair R)
    (m : PayoffMatrix R) : Prop where
  row_size : m.row.size = m.size
  col_size : m.col.size = m.size
  sorted : m.entries.Pairwise PlaceLt
  mem_iff : ∀ {r c : Nat} {v : R}, (r, c, v) ∈ m.entries ↔ ∃ key : SequencePair,
    payoffs[key]? = some v ∧ Scalar.isZero v = false ∧ row key.first = some r ∧
      col key.second = some c

def Separates (row col : Sequence → Option Nat) (payoffs : Std.HashMap SequencePair R) : Prop :=
  ∀ {key key' : SequencePair} {v v' : R}, payoffs[key]? = some v → payoffs[key']? = some v' →
    Scalar.isZero v = false → Scalar.isZero v' = false → row key.first = row key'.first →
      col key.second = col key'.second → key = key'

theorem assembleBy?_eq_of_perm {ps order : List (SequencePair × R)}
    (h : assembleBy? row col ps = some m) (hs : m.entries.Pairwise PlaceLt) (hperm : order.Perm ps) :
    assembleBy? row col order = some m := by
  obtain ⟨hplace, hm⟩ := assembleBy?_eq_some_iff.mp h
  refine assembleBy?_eq_some_iff.mpr ⟨fun p hp => hplace p (hperm.mem_iff.mp hp), ?_⟩
  have hplaced : m.entries.Perm (placed row col order) :=
    (entries_perm h).trans ((hperm.symm.filter _).filterMap _)
  rw [mergeSort_eq_of_perm hs hplaced, hm, entries_ofEntries]

theorem Separates.pairwise_entries (hsep : Separates row col payoffs)
    (h : assembleBy? row col payoffs.toList = some m) : m.entries.Pairwise PlaceLt := by
  refine pairwise_placeLt h (Std.HashMap.distinct_keys_toList.imp fun hpq => by simpa using hpq) ?_
  intro p hp q hq hz hz' e f he hf hr hc
  obtain ⟨hpr, hpc, -⟩ := place?_eq_some_iff.mp he
  obtain ⟨hqr, hqc, -⟩ := place?_eq_some_iff.mp hf
  exact hsep (Std.HashMap.mem_toList_iff_getElem?_eq_some.mp hp)
    (Std.HashMap.mem_toList_iff_getElem?_eq_some.mp hq) hz hz' (by rw [hpr, hqr, hr])
    (by rw [hpc, hqc, hc])

theorem Separates.exists_isAssembly (hsep : Separates row col payoffs)
    (hplace : ∀ key ∈ payoffs, (∃ r, row key.first = some r) ∧ ∃ c, col key.second = some c) :
    ∃ m, IsAssembly row col payoffs m ∧
      ∀ order, order.Perm payoffs.toList → assembleBy? row col order = some m := by
  have hall : ∀ p ∈ payoffs.toList, Scalar.isZero p.2 = false → (place? row col p).isSome := by
    intro p hp _
    have hkey : p.1 ∈ payoffs := by
      rw [Std.HashMap.mem_iff_isSome_getElem?, Std.HashMap.mem_toList_iff_getElem?_eq_some.mp hp]
      rfl
    obtain ⟨⟨r, hr⟩, c, hc⟩ := hplace p.1 hkey
    rw [Option.isSome_iff_exists]
    exact ⟨(r, c, p.2), place?_eq_some_iff.mpr ⟨hr, hc, rfl⟩⟩
  have h := assembleBy?_eq_some_iff.mpr ⟨hall, rfl⟩
  have hs := hsep.pairwise_entries h
  refine ⟨_, ⟨by simp [ofEntries, size], by simp [ofEntries, size], hs, ?_⟩,
    fun order hperm => assembleBy?_eq_of_perm h hs hperm⟩
  intro r c v
  rw [mem_entries_iff h]
  simp only [Std.HashMap.mem_toList_iff_getElem?_eq_some]

/-- Offsets in which no set of the table is missing: as words and as plain numbers they make the same
matrix in every order of the table, once they separate its pairs. -/
theorem isAssembly_of_inTable {first second : Array Nat}
    (hcover : ∀ key ∈ payoffs, key.first.InTable first ∧ key.second.InTable second) :
    (∀ v : Float, Scalar.isZero v = true ↔ v = 0.0 ∨ v = -0.0) ∧
      (Separates (·.flatWord? first) (·.flatWord? second) payoffs →
        ∃ m, IsAssembly (·.flatWord? first) (·.flatWord? second) payoffs m ∧
          ∀ order, order.Perm payoffs.toList → assembleWords? order first second = some m) ∧
      (Separates (·.flat? first) (·.flat? second) payoffs →
        ∃ m, IsAssembly (·.flat? first) (·.flat? second) payoffs m ∧
          ∀ order, order.Perm payoffs.toList → assemble? order first second = some m) := by
  refine ⟨fun v => isZero_float_iff, fun hsep => hsep.exists_isAssembly fun key hkey => ?_,
    fun hsep => hsep.exists_isAssembly fun key hkey => ?_⟩
  · obtain ⟨r, hr⟩ := (hcover key hkey).1.exists_flat
    obtain ⟨c, hc⟩ := (hcover key hkey).2.exists_flat
    exact ⟨⟨_, by rw [Sequence.flatWord?, hr, Option.map_some]⟩,
      _, by rw [Sequence.flatWord?, hc, Option.map_some]⟩
  · exact ⟨(hcover key hkey).1.exists_flat, (hcover key hkey).2.exists_flat⟩

def mixedPayoffs : Std.HashMap SequencePair Float :=
  ((((∅ : Std.HashMap SequencePair Float).insert ⟨.move 0 1, .empty⟩ (0.0 / 0.0)).insert
    ⟨.move 1 0, .move 0 1⟩ (-1.5)).insert ⟨.move 1 0, .move 0 0⟩ (-0.0)).insert
      ⟨.move 1 1, .empty⟩ 0.0

theorem eq_of_mixedPayoffs {key : SequencePair} {v : Float} (h : mixedPayoffs[key]? = some v) :
    (key = ⟨.move 0 1, .empty⟩ ∧ v = 0.0 / 0.0) ∨ (key = ⟨.move 1 0, .move 0 1⟩ ∧ v = -1.5) ∨
      (key = ⟨.move 1 0, .move 0 0⟩ ∧ v = -0.0) ∨ (key = ⟨.move 1 1, .empty⟩ ∧ v = 0.0) := by
  grind [mixedPayoffs]

theorem isAssembly_mixedPayoffs : ∃ m,
    IsAssembly (·.flatWord? #[3, 1]) (·.flatWord? #[1]) mixedPayoffs m ∧
      (∀ order, order.Perm mixedPayoffs.toList → assembleWords? order #[3, 1] #[1] = some m) ∧
        (4, 0, 0.0 / 0.0) ∈ m.entries := by
  have hcover : ∀ key ∈ mixedPayoffs,
      key.first.InTable #[3, 1] ∧ key.second.InTable #[1] := by
    intro key hkey
    obtain ⟨v, hv⟩ := Option.isSome_iff_exists.mp (Std.HashMap.mem_iff_isSome_getElem?.mp hkey)
    rcases eq_of_mixedPayoffs hv with ⟨rfl, -⟩ | ⟨rfl, -⟩ | ⟨rfl, -⟩ | ⟨rfl, -⟩ <;>
      simp [Sequence.InTable, Sequence.infoset?]
  have hkept : ∀ {key : SequencePair} {v : Float}, mixedPayoffs[key]? = some v →
      Scalar.isZero v = false → key = ⟨.move 0 1, .empty⟩ ∨ key = ⟨.move 1 0, .move 0 1⟩ := by
    intro key v hv hz
    rcases eq_of_mixedPayoffs hv with ⟨rfl, -⟩ | ⟨rfl, -⟩ | ⟨-, rfl⟩ | ⟨-, rfl⟩
    · exact .inl rfl
    · exact .inr rfl
    · exact absurd (isZero_float_iff.mpr (.inr rfl)) (by simp [hz])
    · exact absurd (isZero_float_iff.mpr (.inl rfl)) (by simp [hz])
  have hsep : Separates (·.flatWord? #[3, 1]) (·.flatWord? #[1]) mixedPayoffs := by
    intro key key' v v' hv hv' hz hz' hrow _
    -- the two pairs that count have different rows
    rcases hkept hv hz with rfl | rfl <;> rcases hkept hv' hz' with rfl | rfl
    · rfl
    · exact absurd hrow (by decide)
    · exact absurd hrow (by decide)
    · rfl
  obtain ⟨-, hwords, -⟩ := isAssembly_of_inTable hcover
  obtain ⟨m, hm, horder⟩ := hwords hsep
  refine ⟨m, hm, horder, hm.mem_iff.mpr ⟨⟨.move 0 1, .empty⟩, ?_, ?_, rfl, rfl⟩⟩
  · grind [mixedPayoffs]
  · decide +kernel

end PayoffMatrix

end ExtensiveForm
