import Mathlib.Data.List.Basic

set_option autoImplicit false

namespace ExtensiveForm

theorem mapM_eq_some_iff {α β : Type} {f : α → Option β} {l : List α} {ys : List β} :
    l.mapM f = some ys ↔ (∀ x ∈ l, (f x).isSome) ∧ ys = l.filterMap f := by
  induction l generalizing ys with
  | nil => simp [eq_comm (b := ys)]
  | cons x l ih =>
    cases hx : f x with
    | none => simp [List.mapM_cons, hx]
    | some y =>
      simp only [List.mapM_cons, hx, Option.bind_eq_bind, Option.bind_some, Option.pure_def,
        Option.bind_eq_some_iff, ih, Option.some.injEq, List.forall_mem_cons, Option.isSome_some,
        true_and, List.filterMap_cons]
      constructor
      · rintro ⟨rest, ⟨hs, rfl⟩, rfl⟩
        exact ⟨hs, rfl⟩
      · rintro ⟨hs, rfl⟩
        exact ⟨_, ⟨hs, rfl⟩, rfl⟩

theorem mapM_map_eq_some {α β γ : Type} {f : β → Option γ} {g : α → β} {h : α → γ} {l : List α}
    (hf : ∀ x ∈ l, f (g x) = some (h x)) : (l.map g).mapM f = some (l.map h) := by
  induction l with
  | nil => rfl
  | cons x l ih =>
    obtain ⟨hx, hl⟩ := List.forall_mem_cons.mp hf
    simp [List.mapM_cons, hx, ih hl]

section Fold

variable {α β : Type} {m : Type → Type} [Monad m] {l : List α}

theorem foldlM_congr_of_mem {f f' : β → α → m β} (h : ∀ x ∈ l, ∀ b, f b x = f' b x) (b : β) :
    l.foldlM f b = l.foldlM f' b := by
  induction l generalizing b with
  | nil => rfl
  | cons x l ih =>
    obtain ⟨hx, hl⟩ := List.forall_mem_cons.mp h
    simp only [List.foldlM_cons, hx, ih hl]

theorem foldrM_congr_of_mem [LawfulMonad m] {f f' : α → β → m β}
    (h : ∀ x ∈ l, ∀ b, f x b = f' x b) (b : β) : l.foldrM f b = l.foldrM f' b := by
  induction l generalizing b with
  | nil => rfl
  | cons x l ih =>
    obtain ⟨hx, hl⟩ := List.forall_mem_cons.mp h
    simp only [List.foldrM_cons, ih hl]
    exact bind_congr hx

end Fold

end ExtensiveForm
