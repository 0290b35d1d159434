import ExtensiveForm.PayoffMatrix
import ExtensiveForm.Proofs.Means
import ExtensiveForm.Proofs.Traversal

set_option autoImplicit false

namespace ExtensiveForm

namespace PayoffMatrix

def between (m : PayoffMatrix Rat) (x y : Array Rat) : Rat :=
  (m.entries.map fun e => x.getD e.1 0 * e.2.2 * y.getD e.2.1 0).sum

theorem collect_addTerm {x y out : Array Rat} {e : Nat × Nat × Rat} (he : e.1 < out.size) :
    collect x (addTerm y out e) = collect x out + x.getD e.1 0 * e.2.2 * y.getD e.2.1 0 := by
  have hset : addTerm y out e =
      out.setIfInBounds e.1 (out.getD e.1 0 + e.2.2 * y.getD e.2.1 0) := by
    refine Array.ext_getElem? fun i => ?_
    by_cases hie : e.1 = i
    · subst hie
      simp [addTerm, Array.getElem_modify, Array.getD_eq_getD_getElem?, he]
    · simp [addTerm, Array.getElem?_modify, Array.getElem?_setIfInBounds_ne, hie]
  rw [hset, collect_setIfInBounds he, mul_assoc]

theorem collect_foldl_addTerm {x y out : Array Rat} {es : List (Nat × Nat × Rat)}
    (he : ∀ e ∈ es, e.1 < out.size) : collect x (es.foldl (addTerm y) out) =
      collect x out + (es.map fun e => x.getD e.1 0 * e.2.2 * y.getD e.2.1 0).sum := by
  induction es generalizing out with
  | nil => simp
  | cons e es ih =>
    obtain ⟨he, hes⟩ := List.forall_mem_cons.mp he
    rw [List.foldl_cons, ih (by simpa using hes), collect_addTerm he, List.map_cons, List.sum_cons,
      add_assoc]

theorem entries_transpose {R : Type} (m : PayoffMatrix R) :
    m.transpose.entries = m.entries.map fun e => (e.2.1, e.1, e.2.2) := by
  refine List.ext_getElem ?_ fun i hi hi' => ?_
  · simp [entries, transpose, Nat.min_left_comm]
  · simp [entries, transpose]

theorem inside_transpose {R : Type} {m : PayoffMatrix R} {rows cols : Nat}
    (hin : ∀ e ∈ m.entries, e.1 < rows ∧ e.2.1 < cols) :
    ∀ e ∈ m.transpose.entries, e.1 < cols ∧ e.2.1 < rows := by
  intro e he
  rw [entries_transpose, List.mem_map] at he
  obtain ⟨f, hf, rfl⟩ := he
  exact (hin f hf).symm

section Dot

variable {R : Type} [Zero R] [Add R] [Mul R] {m : PayoffMatrix R} {rows cols : Nat} {x y : Array R}

theorem size_foldl_addTerm (y out : Array R) (es : List (Nat × Nat × R)) :
    (es.foldl (addTerm y) out).size = out.size := by
  induction es generalizing out with
  | nil => rfl
  | cons e es ih => rw [List.foldl_cons, ih, size_addTerm]

theorem dot?_eq_some (hin : ∀ e ∈ m.entries, e.1 < rows ∧ e.2.1 < y.size) :
    m.dot? y rows = some (m.entries.foldl (addTerm y) (Array.replicate rows 0)) := by
  have hfits : m.entries.all (fits rows y.size) = true := by
    rw [List.all_eq_true]
    intro e he
    simpa [fits] using hin e he
  rw [dot?, if_pos hfits]

theorem exists_dot_size (hin : ∀ e ∈ m.entries, e.1 < rows ∧ e.2.1 < y.size) :
    ∃ c, m.dot? y rows = some c ∧ c.size = rows :=
  ⟨_, dot?_eq_some hin, by simp [size_foldl_addTerm]⟩

theorem exists_transposeDot_size (hin : ∀ e ∈ m.entries, e.1 < x.size ∧ e.2.1 < cols) :
    ∃ c, m.transposeDot? x cols = some c ∧ c.size = cols :=
  exists_dot_size (inside_transpose hin)

end Dot

theorem bilinear?_eq_some_sum {R : Type} [Scalar R] {m : PayoffMatrix R} {x y : Array R}
    (hin : ∀ e ∈ m.entries, e.1 < x.size ∧ e.2.1 < y.size) : m.bilinear? x y =
      some (Scalar.sum (m.entries.map fun e => x.getD e.1 0 * e.2.2 * y.getD e.2.1 0)) := by
  have hterm : ∀ e ∈ m.entries,
      term? x y e = some (x.getD e.1 0 * e.2.2 * y.getD e.2.1 0) := by
    intro e he
    obtain ⟨hr, hc⟩ := hin e he
    simp [term?, Array.getD_eq_getD_getElem?, hr, hc]
  have hmap : m.entries.mapM (term? x y) =
      some (m.entries.map fun e => x.getD e.1 0 * e.2.2 * y.getD e.2.1 0) := by
    rw [mapM_eq_some_iff]
    refine ⟨fun e he => by simp [hterm e he], ?_⟩
    rw [List.filterMap_congr hterm, List.filterMap_eq_map']
  rw [bilinear?, hmap, Option.map_some]

variable {m : PayoffMatrix Rat} {rows cols : Nat} {x y : Array Rat}

theorem between_transpose : m.transpose.between y x = m.between x y := by
  unfold between
  rw [entries_transpose, List.map_map]
  congr 1
  refine List.map_congr_left fun e _ => ?_
  simp only [Function.comp_apply]
  ring

theorem exists_dot (hin : ∀ e ∈ m.entries, e.1 < rows ∧ e.2.1 < cols) (hy : y.size = cols) :
    ∃ c, m.dot? y rows = some c ∧ c.size = rows ∧ ∀ x, collect x c = m.between x y := by
  refine ⟨_, dot?_eq_some (by rwa [hy]), by simp [size_foldl_addTerm], fun x => ?_⟩
  have hzero : collect x (Array.replicate rows 0) = 0 := by
    refine Finset.sum_eq_zero fun i hi => ?_
    have hlt : i < rows := by simpa using hi
    simp [Array.getD_eq_getD_getElem?, hlt]
  rw [collect_foldl_addTerm (by simpa using fun r c v he => (hin (r, c, v) he).1), hzero, zero_add]
  rfl

theorem exists_transposeDot (hin : ∀ e ∈ m.entries, e.1 < rows ∧ e.2.1 < cols)
    (hx : x.size = rows) :
    ∃ c, m.transposeDot? x cols = some c ∧ c.size = cols ∧ ∀ y, collect y c = m.between x y := by
  obtain ⟨c, hc, hs, hcollect⟩ := exists_dot (inside_transpose hin) hx
  exact ⟨c, hc, hs, fun y => (hcollect y).trans between_transpose⟩

theorem bilinear?_eq_some (hin : ∀ e ∈ m.entries, e.1 < x.size ∧ e.2.1 < y.size) :
    m.bilinear? x y = some (m.between x y) := by
  rw [bilinear?_eq_some_sum hin, sum_rat]
  rfl

end PayoffMatrix

end ExtensiveForm
