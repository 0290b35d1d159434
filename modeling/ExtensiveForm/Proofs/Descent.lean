import ExtensiveForm.Proofs.Worklist

/-!
Walks by recursion: an item, and then one after the other all that lies below it. Main statement: over a
game whose plays all end, a walk that keeps pending items on a list makes the same looks in the same
order, and fails at the same one.
-/

set_option autoImplicit false

namespace ExtensiveForm

variable {α φ ε : Type} {look : α → φ → Except ε (α × List φ)}

def descend (look : α → φ → Except ε (α × List φ)) : (depth : Nat) → φ → α → ExceptT ε Option α
  | 0, _, _ => .mk none
  | depth + 1, item, found =>
    match look found item with
    | .error e => throw e
    | .ok (found, below) => below.foldlM (fun found item => descend look depth item found) found

theorem worklist_cons (fuel : Nat) (item : φ) (pending : List φ) (found : α) :
    ExceptT.mk (worklist look (fuel + 1) (item :: pending) found) =
      match look found item with
      | .error e => throw e
      | .ok (found, below) => ExceptT.mk (worklist look fuel (below ++ pending) found) := by
  rw [worklist]
  cases look found item <;> rfl

variable {σ A L R : Type} {g : Game σ A L R} {state : φ → σ}

theorem worklist_append_of_below {d : Nat}
    (hbelow : ∀ ⦃found item found' below⦄, look found item = .ok (found', below) →
      g.EndsWithin d (state item) → ∀ n pending,
        ExceptT.mk (worklist look (((g.successors (state item)).map (g.treeSize d)).sum + n)
          (below ++ pending) found') =
            (below.foldlM (fun found item => descend look d item found) found') >>=
              fun found => ExceptT.mk (worklist look n pending found))
    {items : List φ} (hd : ∀ item ∈ items, g.EndsWithin d (state item)) (n : Nat)
    (pending : List φ) (found : α) :
    ExceptT.mk (worklist look ((items.map fun i => g.treeSize d (state i)).sum + n)
      (items ++ pending) found) =
        (items.foldlM (fun found item => descend look (d + 1) item found) found) >>=
          fun found => ExceptT.mk (worklist look n pending found) := by
  induction items generalizing found with
  | nil => simp
  | cons item items ih =>
    obtain ⟨hi, hrest⟩ := List.forall_mem_cons.mp hd
    have hfuel : (((item :: items).map fun i => g.treeSize d (state i)).sum + n) =
        ((g.successors (state item)).map (g.treeSize d)).sum +
          ((items.map fun i => g.treeSize d (state i)).sum + n) + 1 := by
      rw [List.map_cons, List.sum_cons, Game.treeSize_eq hi]
      omega
    rw [hfuel, List.cons_append, worklist_cons, List.foldlM_cons, bind_assoc, descend]
    cases h : look found item with
    | error e => rfl
    | ok result =>
      obtain ⟨next, below⟩ := result
      simp only [hbelow h hi, ih hrest]

/-- The items in front are done with, in as many looks as there are positions below them, before the
pending ones are taken up. -/
theorem worklist_append
    (hlook : ∀ ⦃found item found' below⦄, look found item = .ok (found', below) →
      below.map state = g.successors (state item))
    {d : Nat} {items : List φ} (hd : ∀ item ∈ items, g.EndsWithin d (state item)) (n : Nat)
    (pending : List φ) (found : α) :
    ExceptT.mk (worklist look ((items.map fun i => g.treeSize d (state i)).sum + n)
      (items ++ pending) found) =
        (items.foldlM (fun found item => descend look (d + 1) item found) found) >>=
          fun found => ExceptT.mk (worklist look n pending found) := by
  induction d generalizing items n pending found with
  | zero =>
    refine worklist_append_of_below (fun _ item _ below h hi n pending => ?_) hd n pending found
    have hnone : g.successors (state item) = [] := hi
    have hbelow : below = [] := List.map_eq_nil_iff.mp ((hlook h).trans hnone)
    simp [hnone, hbelow]
  | succ d ih =>
    refine worklist_append_of_below (fun _ item _ below h hi n pending => ?_) hd n pending found
    have hmap := hlook h
    have hsize : (g.successors (state item)).map (g.treeSize (d + 1)) =
        below.map fun i => g.treeSize d (state i) := by
      rw [List.map_congr_left fun t ht => Game.treeSize_of_le (hi t ht) (Nat.le_succ d), ← hmap,
        List.map_map]
      rfl
    rw [hsize]
    exact ih (fun b hb => hi _ (hmap ▸ List.mem_map_of_mem hb)) n pending _

/-- A walk from one item is the descent from it. -/
theorem worklist_eq_descend
    (hlook : ∀ ⦃found item found' below⦄, look found item = .ok (found', below) →
      below.map state = g.successors (state item))
    {d fuel : Nat} {item : φ} (hd : g.EndsWithin d (state item))
    (hfuel : g.treeSize d (state item) ≤ fuel) (found : α) :
    worklist look fuel [item] found = (descend look (d + 1) item found).run := by
  obtain ⟨n, rfl⟩ := Nat.exists_eq_add_of_le hfuel
  have hdone : (fun found => ExceptT.mk (worklist look n [] found)) = pure := by
    funext found
    cases n <;> rfl
  have h := worklist_append hlook (List.forall_mem_singleton.mpr hd) n [] found
  simp only [hdone, List.append_nil, List.map_cons, List.map_nil, List.sum_cons, List.sum_nil,
    Nat.add_zero, List.foldlM_cons, List.foldlM_nil, bind_pure] at h
  exact h

end ExtensiveForm
