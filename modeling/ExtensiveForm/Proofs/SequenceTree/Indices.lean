import ExtensiveForm.Proofs.SequenceTree.Check

set_option autoImplicit false

namespace ExtensiveForm

section Lookup

variable {α ε : Type}

def readAt (xs : Array α) (i : Nat) : ExceptT ε Option α := ExceptT.lift xs[i]?

def wordSum (i j : Nat) : ExceptT ε Option Nat :=
  ExceptT.lift (if i + j < Nat.pow 2 64 then some (i + j) else none)

theorem readAt_eq_pure {xs : Array α} {i : Nat} {a : α} (h : xs[i]? = some a) :
    (readAt xs i : ExceptT ε Option α) = pure a := by
  rw [readAt, h]
  rfl

theorem wordSum_eq_pure {i j : Nat} (h : i + j < Nat.pow 2 64) :
    (wordSum i j : ExceptT ε Option Nat) = pure (i + j) := by
  rw [wordSum, if_pos h]
  rfl

theorem run_forM_cons (check : α → ExceptT ε Option Unit) (a : α) (as : List α) :
    ((a :: as).forM check).run =
      match (check a).run with
      | none => none
      | some (.error e) => some (.error e)
      | some (.ok ()) => (as.forM check).run := by
  change (check a >>= fun _ => as.forM check).run = _
  rw [ExceptT.run_bind]
  cases (check a).run with
  | none => rfl
  | some result => cases result <;> rfl

theorem toList_drop_eq_cons {xs : Array α} {i : Nat} {a : α} (h : xs[i]? = some a) :
    xs.toList.drop i = a :: xs.toList.drop (i + 1) := by
  obtain ⟨hi, rfl⟩ := Array.getElem?_eq_some_iff.mp h
  exact List.drop_eq_getElem_cons hi

end Lookup

namespace SequenceTree

variable {L A : Type} {t : SequenceTree L A}

def checkSetAt (t : SequenceTree L A) (i : Nat) : ExceptT LayoutFault Option Unit := do
  let width := (← readAt t.actions i).length
  let start ← readAt t.offset i
  let stop ← readAt t.offset (← wordSum i 1)
  if width = 0 ∨ stop ≠ (← wordSum start width) then throw (.width i start stop width)
  let parent ← readAt t.parent i
  if start ≤ parent then throw (.parent i start parent)

def checkAt (t : SequenceTree L A) : ExceptT LayoutFault Option Unit := do
  let n := t.size
  if t.offset.size ≠ (← wordSum n 1) ∨ t.label.size ≠ n ∨ t.actions.size ≠ n then
    throw (.sizes n t.offset.size t.label.size t.actions.size)
  let start ← readAt t.offset 0
  if start ≠ 1 then throw (.start start)
  (List.range n).forM t.checkSetAt

def extent (t : SequenceTree L A) : Nat := t.size + t.actionCount

/-- The sets and actions are no more than fit into a memory of 64-bit addresses, if each takes one byte
at least. Nothing is said about what the arrays hold. -/
def InMemory (t : SequenceTree L A) : Prop := t.extent + 1 < Nat.pow 2 64

instance (t : SequenceTree L A) : Decidable t.InMemory :=
  inferInstanceAs (Decidable (t.extent + 1 < Nat.pow 2 64))

theorem run_checkSetAt {i parent start stop : Nat} {actions : List A}
    (hp : t.parent[i]? = some parent) (ha : t.actions[i]? = some actions)
    (hs : t.offset[i]? = some start) (he : t.offset[i + 1]? = some stop)
    (hi : i + 1 < Nat.pow 2 64) (hsum : start + actions.length < Nat.pow 2 64) :
    (t.checkSetAt i).run = some (checkSet i parent start stop actions.length) := by
  simp only [checkSetAt, readAt_eq_pure hp, readAt_eq_pure ha, readAt_eq_pure hs,
    readAt_eq_pure he, wordSum_eq_pure hi, wordSum_eq_pure hsum, pure_bind, checkSet]
  split
  · rfl
  · split <;> rfl

theorem actionCount_eq (t : SequenceTree L A) :
    t.actionCount = (t.actions.toList.map List.length).sum := by
  rw [actionCount, ← Array.foldl_toList, List.sum_eq_foldl, List.foldl_map]

/-- The induction is on the sets that are left. Their actions count towards the offsets to come, and
the check goes on only while the offsets are these counts. -/
theorem run_forM_checkSetAt {k i start : Nat} (ho : t.offset.size = t.size + 1)
    (ha : t.actions.size = t.size) (hk : i + k = t.size) (hs : t.offset[i]? = some start)
    (hsize : t.size < Nat.pow 2 64)
    (hsum : start + ((t.actions.toList.drop i).map List.length).sum < Nat.pow 2 64) :
    ((List.range' i k).forM t.checkSetAt).run =
      some (checkSets i start (t.parent.toList.drop i) (t.offset.toList.drop (i + 1))
        (t.actions.toList.drop i)) := by
  induction k generalizing i start with
  | zero =>
    have hnil : t.parent.toList.drop i = [] := List.drop_of_length_le hk.ge
    rw [hnil]
    rfl
  | succ k ih =>
    have hi : i < t.size := by omega
    obtain ⟨parent, hp⟩ : ∃ parent, t.parent[i]? = some parent := ⟨_, getElem?_pos t.parent i hi⟩
    obtain ⟨actions, has⟩ : ∃ actions, t.actions[i]? = some actions :=
      ⟨_, getElem?_pos t.actions i (by omega)⟩
    obtain ⟨stop, he⟩ : ∃ stop, t.offset[i + 1]? = some stop :=
      ⟨_, getElem?_pos t.offset (i + 1) (by omega)⟩
    rw [toList_drop_eq_cons has, List.map_cons, List.sum_cons] at hsum
    rw [List.range'_succ, run_forM_cons,
      run_checkSetAt hp has hs he (by omega) (by omega),
      toList_drop_eq_cons hp, toList_drop_eq_cons he, toList_drop_eq_cons has, checkSets]
    cases hc : checkSet i parent start stop actions.length with
    | error fault => rfl
    | ok _ =>
      have hstop := (checkSet_eq_ok_iff.mp hc).2.1
      exact ih (by omega) he (by omega)

theorem InMemory.run_checkAt (h : t.InMemory) : t.checkAt.run = some t.check := by
  have hsize : t.size + 1 < Nat.pow 2 64 := by
    unfold InMemory extent at h
    omega
  simp only [checkAt, wordSum_eq_pure hsize, pure_bind, check]
  split
  · rfl
  · rename_i hsizes
    simp only [ne_eq, not_or, Decidable.not_not] at hsizes
    obtain ⟨ho, -, ha⟩ := hsizes
    obtain ⟨start, hs⟩ : ∃ start, t.offset[0]? = some start :=
      ⟨_, getElem?_pos t.offset 0 (by omega)⟩
    have hcons : t.offset.toList = start :: t.offset.toList.drop 1 := toList_drop_eq_cons hs
    rw [hcons, readAt_eq_pure hs]
    simp only [pure_bind]
    by_cases hstart : start = 1
    · subst hstart
      have hsum : 1 + ((t.actions.toList.drop 0).map List.length).sum < Nat.pow 2 64 := by
        rw [List.drop_zero, ← actionCount_eq]
        unfold InMemory extent at h
        omega
      have hrun := run_forM_checkSetAt ho ha (Nat.zero_add t.size) hs (by omega) hsum
      rw [List.drop_zero, List.drop_zero] at hrun
      simp only [ne_eq, not_true_eq_false, if_false, List.range_eq_range']
      exact hrun
    · simp only [ne_eq, hstart, not_false_eq_true, if_true]
      rfl

end SequenceTree

end ExtensiveForm
