import ExtensiveForm.Proofs.SequenceForm.Check
import ExtensiveForm.Proofs.SequenceForm.Saved

set_option autoImplicit false

namespace ExtensiveForm

namespace Registry

variable {L A : Type} [BEq L] [Hashable L]

def actionCount (r : Registry L A) : Nat := (r.infosets.toList.map (·.actions.length)).sum

@[simp] theorem actionCount_push (r : Registry L A) (info : Infoset L A) :
    (r.push info).actionCount = r.actionCount + info.actions.length := by
  simp [actionCount]

theorem actionCount_enter_le [BEq A] {r r' : Registry L A} {seen : Infoset L A} {i : Nat}
    (h : r.enter seen = .ok (i, r')) : r'.actionCount ≤ r.actionCount + seen.actions.length := by
  rcases enter_eq_ok h with ⟨known, -, -, rfl⟩ | ⟨-, -, rfl⟩
  · exact Nat.le_add_right _ _
  · exact (actionCount_push r seen).le

/-- A preorder visits every set once, so the blocks take as many places as there are actions. -/
theorem Sound.sequences_layout {r : Registry L A} (hr : r.Sound) :
    r.layout.tree.sequences = 1 + r.actionCount := by
  have hwidths : (List.range r.size).map r.width = r.infosets.toList.map (·.actions.length) := by
    refine List.ext_getElem (by simp [size]) fun i hi hi' => ?_
    simp only [List.length_map, List.length_range] at hi
    rw [List.getElem_map, List.getElem_map, List.getElem_range, Array.getElem_toList]
    exact width_eq (Array.getElem?_eq_getElem hi)
  rw [hr.layout.sequences_eq, (hr.preorder_perm_range.map r.width).sum_nat, hwidths]
  rfl

end Registry

namespace Game

variable {σ L A R : Type} [BEq L] [Hashable L] [BEq A] [Scalar R] {g : Game σ A L R}

/-- A new set has as many actions as there are states below the one at which it is found. -/
theorem actionCount_look_le {found next : Exploration L A R} {frame : Frame σ R}
    {below : List (Frame σ R)} (h : g.look found frame = .ok (next, below)) (seat : Seat) :
    (next.registry seat).actionCount ≤ (found.registry seat).actionCount + below.length := by
  cases looks_of_look h with
  | terminal hn =>
    rw [Exploration.registry_addPayoff]
    exact Nat.le_add_right _ _
  | chance hn => exact Nat.le_add_right _ _
  | @decision acting label moves i next hn he =>
    simp only [Frame.moveChildren, List.length_mapIdx]
    refine Exploration.forall_registry_of_enter (p := fun r r' => r'.actionCount ≤ r.actionCount +
      moves.length) he (fun _ => Nat.le_add_right _ _) (fun hr => ?_) seat
    simpa using Registry.actionCount_enter_le hr

theorem actionCount_walk_le {fuel : Nat} {pending : List (Frame σ R)}
    {found result : Exploration L A R} (h : g.walk fuel pending found = some (.ok result))
    (seat : Seat) : (result.registry seat).actionCount + pending.length ≤
      (found.registry seat).actionCount + fuel := by
  induction fuel generalizing pending found with
  | zero =>
    cases pending with
    | nil =>
      cases h
      rfl
    | cons frame pending => cases h
  | succ fuel ih =>
    cases pending with
    | nil =>
      cases h
      exact Nat.le_add_right _ _
    | cons frame pending =>
      rw [walk] at h
      split at h
      · cases h
      · rename_i next below hl
        have hlook := actionCount_look_le hl seat
        have hrest := ih h
        simp only [List.length_append, List.length_cons] at hrest ⊢
        omega

variable [LawfulBEq L] [LawfulBEq A] {fuel : Nat} {start : σ} {form : SequenceForm L A R}

theorem sequences_le_of_build (h : g.build fuel start = some (.ok form)) (seat : Seat) :
    (form.tree seat).sequences ≤ fuel := by
  obtain ⟨found, hfound, hf⟩ := build_eq_ok_iff.mp h
  have hr := (explored_of_explore hfound).sound.registry seat
  have hcount := actionCount_walk_le hfound seat
  have hempty : ((.empty : Exploration L A R).registry seat).actionCount = 0 := by
    cases seat <;> rfl
  rw [hf.tree_eq, hr.sequences_layout]
  rw [hempty, List.length_singleton] at hcount
  omega

end Game

section InWords

variable {L A R : Type}

theorem SequenceTree.Valid.inWords {t : SequenceTree L A} (ht : t.Valid)
    (h : t.sequences < Nat.pow 2 64) : t.InWords := by
  have hle : (∀ n ∈ t.parent, n ≤ t.sequences) ∧ ∀ n ∈ t.offset, n ≤ t.sequences := by
    clear h
    induction ht with
    | empty => simp [SequenceTree.empty, sequences]
    | append ht hp ha ih =>
      obtain ⟨hparent, hoffset⟩ := ih
      simp only [parent_append, offset_append, sequences_append, Array.mem_push]
      constructor
      · rintro n (hn | rfl)
        · exact (hparent n hn).trans (Nat.le_add_right _ _)
        · exact hp.le.trans (Nat.le_add_right _ _)
      · rintro n (hn | rfl)
        · exact (hoffset n hn).trans (Nat.le_add_right _ _)
        · exact le_rfl
  exact ⟨fun n hn => (hle.1 n hn).trans_lt h, fun n hn => (hle.2 n hn).trans_lt h⟩

variable [Scalar R]

theorem PayoffMatrix.Ordered.inWords {m : PayoffMatrix R} {rows cols : Nat}
    (hm : m.Ordered rows cols) (hrows : rows < Nat.pow 2 64) (hcols : cols < Nat.pow 2 64) :
    m.InWords := by
  rw [← hm.ofEntries_entries]
  constructor
  · intro n hn
    obtain ⟨e, he, rfl⟩ := List.mem_map.mp (List.mem_toArray.mp hn)
    exact (hm.inside e he).1.trans hrows
  · intro n hn
    obtain ⟨e, he, rfl⟩ := List.mem_map.mp (List.mem_toArray.mp hn)
    exact (hm.inside e he).2.trans hcols

theorem SequenceForm.inWords_of_check {f : SequenceForm L A R} (hc : f.check = .ok ())
    (h : ∀ seat, (f.tree seat).sequences < Nat.pow 2 64) : f.InWords := by
  obtain ⟨hvalid, hordered⟩ := check_eq_ok_iff.mp hc
  exact ⟨(hvalid .first).inWords (h .first), (hvalid .second).inWords (h .second),
    hordered.inWords (h .first) (h .second)⟩

end InWords

theorem Game.inWords_of_build {σ L A R : Type} [BEq L] [Hashable L] [BEq A] [LawfulBEq L]
    [LawfulBEq A] [Scalar R] {g : Game σ A L R} {fuel : Nat} {start : σ} {form : SequenceForm L A R}
    (h : g.build fuel start = some (.ok form)) (hfuel : fuel < Nat.pow 2 64) : form.InWords :=
  SequenceForm.inWords_of_check (check_eq_ok_of_build h) fun seat =>
    (sequences_le_of_build h seat).trans_lt hfuel

end ExtensiveForm
