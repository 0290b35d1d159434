import Mathlib.Data.Nat.Find
import ExtensiveForm.Exploration
import ExtensiveForm.ExpectedValue
import ExtensiveForm.Proofs.Nodes

/-!
Walks that look at pending items one after the other, the items below each before its successors.
Main statement: a walk over a game whose plays all end comes to a result within as many looks as
there are positions.
-/

set_option autoImplicit false

namespace ExtensiveForm

section Worklist

variable {α φ ε : Type}

def worklist (look : α → φ → Except ε (α × List φ)) : Nat → List φ → α → Option (Except ε α)
  | _, [], found => some (.ok found)
  | 0, _ :: _, _ => none
  | fuel + 1, item :: pending, found =>
    match look found item with
    | .error e => some (.error e)
    | .ok (found, below) => worklist look fuel (below ++ pending) found

variable {look : α → φ → Except ε (α × List φ)}

inductive Runs (look : α → φ → Except ε (α × List φ)) : List φ → α → α → Prop where
  | done (found : α) : Runs look [] found found
  | look {item : φ} {pending below : List φ} {found next found' : α}
      (h : look found item = .ok (next, below)) (hrest : Runs look (below ++ pending) next found') :
      Runs look (item :: pending) found found'

theorem runs_of_worklist {fuel : Nat} {pending : List φ} {found found' : α}
    (h : worklist look fuel pending found = some (.ok found')) : Runs look pending found found' := by
  induction fuel generalizing pending found with
  | zero =>
    cases pending with
    | nil =>
      cases h
      exact .done _
    | cons item pending => cases h
  | succ fuel ih =>
    cases pending with
    | nil =>
      cases h
      exact .done _
    | cons item pending =>
      unfold worklist at h
      cases hl : look found item with
      | error e =>
        rw [hl] at h
        cases h
      | ok result =>
        rw [hl] at h
        exact .look hl (ih h)

theorem worklist_ne_error (good : α → List φ → Prop)
    (hlook : ∀ {found item pending}, good found (item :: pending) →
      ∃ found' below, look found item = .ok (found', below) ∧ good found' (below ++ pending))
    {fuel : Nat} {pending : List φ} {found : α} {result : Except ε α} (hgood : good found pending)
    (h : worklist look fuel pending found = some result) : ∃ found', result = .ok found' := by
  induction fuel generalizing pending found with
  | zero =>
    cases pending with
    | nil =>
      cases h
      exact ⟨_, rfl⟩
    | cons item pending => cases h
  | succ fuel ih =>
    cases pending with
    | nil =>
      cases h
      exact ⟨_, rfl⟩
    | cons item pending =>
      obtain ⟨found', below, hl, hgood'⟩ := hlook hgood
      unfold worklist at h
      rw [hl] at h
      exact ih hgood' h

/-- A walk on the images of the items follows another one, if each look that succeeds has an image that
does. -/
theorem worklist_follows {α' φ' ε' : Type} {look' : α' → φ' → Except ε' (α' × List φ')}
    {rel : α → α' → Prop} {image : φ → φ'}
    (hlook : ∀ {found found' item next below}, rel found found' →
      look found item = .ok (next, below) →
        ∃ next', look' found' (image item) = .ok (next', below.map image) ∧ rel next next')
    {fuel : Nat} {pending : List φ} {found result : α} {found' : α'} (hrel : rel found found')
    (h : worklist look fuel pending found = some (.ok result)) :
    ∃ result', worklist look' fuel (pending.map image) found' = some (.ok result') ∧
      rel result result' := by
  induction fuel generalizing pending found found' with
  | zero =>
    cases pending with
    | nil =>
      cases h
      exact ⟨found', rfl, hrel⟩
    | cons item pending => cases h
  | succ fuel ih =>
    cases pending with
    | nil =>
      cases h
      exact ⟨found', rfl, hrel⟩
    | cons item pending =>
      rw [worklist] at h
      split at h
      · cases h
      · rename_i next below hl
        obtain ⟨next', hl', hnext⟩ := hlook hrel hl
        obtain ⟨result', hresult, hrel'⟩ := ih hnext h
        refine ⟨result', ?_, hrel'⟩
        rw [List.map_append] at hresult
        rw [List.map_cons, worklist, hl']
        exact hresult

theorem worklist_add {n k : Nat} {pending : List φ} {found : α} {result : Except ε α}
    (h : worklist look n pending found = some result) :
    worklist look (n + k) pending found = some result := by
  induction n generalizing pending found with
  | zero =>
    cases pending with
    | nil => rw [← h, worklist, worklist]
    | cons item pending => cases h
  | succ n ih =>
    cases pending with
    | nil => rw [← h, worklist, worklist]
    | cons item pending =>
      rw [Nat.add_right_comm]
      unfold worklist at h ⊢
      split at h
      · exact h
      · exact ih h

theorem exists_worklist_eq_ite {pending : List φ} {found : α} {fuel : Nat} {result : Except ε α}
    (h : worklist look fuel pending found = some result) :
    ∃ n, ∀ fuel, worklist look fuel pending found = if n ≤ fuel then some result else none := by
  have hex : ∃ n, (worklist look n pending found).isSome := ⟨fuel, by rw [h]; rfl⟩
  classical
  obtain ⟨first, hfirst⟩ := Option.isSome_iff_exists.mp (Nat.find_spec hex)
  have hsame : first = result := by
    obtain ⟨k, hk⟩ := Nat.exists_eq_add_of_le (Nat.find_min' hex (by rw [h]; rfl))
    rw [hk, worklist_add hfirst] at h
    exact Option.some.inj h
  refine ⟨Nat.find hex, fun n => ?_⟩
  split
  · rename_i hn
    obtain ⟨k, rfl⟩ := Nat.exists_eq_add_of_le hn
    rw [worklist_add hfirst, hsame]
  · rename_i hn
    exact Option.not_isSome_iff_eq_none.mp (Nat.find_min hex (Nat.lt_of_not_le hn))

/-- A walk needs no more looks than a number that every look that succeeds makes smaller. -/
theorem exists_worklist (good : Nat → α → List φ → Prop)
    (hpos : ∀ {found item pending}, ¬good 0 found (item :: pending))
    (hlook : ∀ {n found item pending next below}, good (n + 1) found (item :: pending) →
      look found item = .ok (next, below) → good n next (below ++ pending))
    {fuel : Nat} {pending : List φ} {found : α} (hgood : good fuel found pending) :
    ∃ result, worklist look fuel pending found = some result := by
  induction fuel generalizing pending found with
  | zero =>
    cases pending with
    | nil => exact ⟨_, rfl⟩
    | cons item pending => exact absurd hgood hpos
  | succ fuel ih =>
    cases pending with
    | nil => exact ⟨_, rfl⟩
    | cons item pending =>
      unfold worklist
      cases h : look found item with
      | error e => exact ⟨_, rfl⟩
      | ok result => exact ih (hlook hgood h)

theorem exists_worklist_of_endsWithin {σ A L R : Type} {g : Game σ A L R} {state : φ → σ}
    (hlook : ∀ {found item found' below}, look found item = .ok (found', below) →
      below.map state = g.successors (state item))
    {d fuel : Nat} {item : φ} (found : α) (hd : g.EndsWithin d (state item))
    (hfuel : g.treeSize d (state item) ≤ fuel) :
    ∃ result, worklist look fuel [item] found = some result := by
  refine exists_worklist (fun n _ pending => (∀ i ∈ pending, g.EndsWithin d (state i)) ∧
    (pending.map fun i => g.treeSize d (state i)).sum ≤ n) ?_ ?_ (by simpa using ⟨hd, hfuel⟩)
  · rintro found item pending ⟨-, hsum⟩
    have hpos := g.treeSize_pos d (state item)
    simp only [List.map_cons, List.sum_cons] at hsum
    omega
  · rintro n found item pending next below ⟨hall, hsum⟩ hl
    obtain ⟨hi, hall⟩ := List.forall_mem_cons.mp hall
    have hs := hlook hl
    refine ⟨List.forall_mem_append.mpr ⟨fun b hb => ?_, hall⟩, ?_⟩
    · exact hi.successor (hs ▸ List.mem_map_of_mem hb)
    · -- what lies below is smaller than the item it replaces, so one look less is enough for it
      have hbelow : (below.map fun i => g.treeSize d (state i)).sum + 1 = g.treeSize d (state item) := by
        rw [Game.treeSize_eq hi, ← hs, List.map_map, Nat.add_comm]
        rfl
      simp only [List.map_cons, List.sum_cons, List.map_append, List.sum_append] at hsum ⊢
      omega

theorem exists_endsWithin_of_runs {σ A L R : Type} {g : Game σ A L R} {state : φ → σ}
    (hlook : ∀ {found item found' below}, look found item = .ok (found', below) →
      below.map state = g.successors (state item))
    {pending : List φ} {found found' : α} (h : Runs look pending found found') :
    ∃ d, ∀ item ∈ pending, g.EndsWithin d (state item) := by
  induction h with
  | done found => exact ⟨0, fun item hi => absurd hi List.not_mem_nil⟩
  | @look item pending below found next found' hl _ ih =>
    obtain ⟨d, hd⟩ := ih
    obtain ⟨hbelow, hpending⟩ := List.forall_mem_append.mp hd
    refine ⟨d + 1, List.forall_mem_cons.mpr ⟨fun t ht => ?_, fun i hi => ?_⟩⟩
    · rw [← hlook hl] at ht
      obtain ⟨b, hb, rfl⟩ := List.mem_map.mp ht
      exact hbelow b hb
    · exact (hpending i hi).mono (Nat.le_succ d)

/-- The stages of a walk that starts at one item, by the number of looks made: what has been found, and
the pending items, each with the items that were looked at on the way to it. -/
inductive Trails (look : α → φ → Except ε (α × List φ)) (root : φ) (found : α) :
    Nat → α → List (List φ × φ) → Prop where
  | start : Trails look root found 0 found [([], root)]
  | look {n : Nat} {now next : α} {way below : List φ} {item : φ} {pending : List (List φ × φ)}
      (h : Trails look root found n now ((way, item) :: pending))
      (hl : look now item = .ok (next, below)) :
      Trails look root found (n + 1) next (below.map (way ++ [item], ·) ++ pending)

/-- From each stage on, the walk goes on with what is pending. -/
theorem Trails.worklist_eq {root : φ} {found now : α} {n : Nat} {pending : List (List φ × φ)}
    (h : Trails look root found n now pending) (fuel : Nat) :
    worklist look (n + fuel) [root] found = worklist look fuel (pending.map Prod.snd) now := by
  induction h generalizing fuel with
  | start => rw [Nat.zero_add]; rfl
  | look _ hl ih =>
    rw [Nat.add_right_comm, Nat.add_assoc, ih, List.map_cons, worklist, hl, List.map_append,
      List.map_map]
    simp [Function.comp_def]

/-- After so many looks a walk is at a stage, or it has ended at an earlier one: nothing was pending
there, or the next look failed. -/
theorem exists_trails (look : α → φ → Except ε (α × List φ)) (root : φ) (found : α) (n : Nat) :
    ∃ m now pending, m ≤ n ∧ Trails look root found m now pending ∧
      (m = n ∧ pending ≠ [] ∧ worklist look n [root] found = none ∨
        pending = [] ∧ worklist look n [root] found = some (.ok now) ∨
        ∃ item rest e, pending = item :: rest ∧ look now item.2 = .error e ∧
          worklist look n [root] found = some (.error e)) := by
  induction n with
  | zero => exact ⟨0, found, _, le_rfl, .start, .inl ⟨rfl, List.cons_ne_nil _ _, rfl⟩⟩
  | succ n ih =>
    obtain ⟨m, now, pending, hle, ht, ⟨rfl, hne, -⟩ | ⟨rfl, hw⟩ | ⟨item, rest, e, rfl, hl, hw⟩⟩ := ih
    · obtain ⟨⟨way, item⟩, rest, rfl⟩ := List.exists_cons_of_ne_nil hne
      cases hl : look now item with
      | error e =>
        have hw : worklist look 1 (item :: rest.map Prod.snd) now = some (.error e) := by
          rw [worklist, hl]
        exact ⟨m, now, _, Nat.le_succ m, ht,
          .inr (.inr ⟨_, rest, e, rfl, hl, (ht.worklist_eq 1).trans hw⟩)⟩
      | ok result =>
        obtain ⟨next, below⟩ := result
        have hnext := ht.look hl
        refine ⟨m + 1, next, _, le_rfl, hnext, ?_⟩
        have hw := hnext.worklist_eq 0
        rw [Nat.add_zero] at hw
        by_cases hnil : below.map (way ++ [item], ·) ++ rest = []
        · rw [hnil] at hw ⊢
          exact .inr (.inl ⟨rfl, hw⟩)
        · obtain ⟨item', rest', hcons⟩ := List.exists_cons_of_ne_nil hnil
          rw [hcons] at hw ⊢
          exact .inl ⟨rfl, List.cons_ne_nil _ _, hw⟩
    · exact ⟨m, now, [], hle.trans (Nat.le_succ n), ht, .inr (.inl ⟨rfl, worklist_add hw⟩)⟩
    · exact ⟨m, now, _, hle.trans (Nat.le_succ n), ht,
        .inr (.inr ⟨item, rest, e, rfl, hl, worklist_add hw⟩)⟩

end Worklist

namespace Game

variable {σ A L R : Type} [BEq L] [Hashable L] [Scalar R] {g : Game σ A L R}

theorem walk_eq_worklist [BEq A] (fuel : Nat) (pending : List (Frame σ R))
    (found : Exploration L A R) :
    g.walk fuel pending found = worklist g.look fuel pending found := by
  induction fuel generalizing pending found with
  | zero => cases pending <;> rfl
  | succ fuel ih =>
    cases pending with
    | nil => rfl
    | cons frame pending =>
      simp only [walk, worklist, ih]
      cases g.look found frame <;> rfl

theorem valueWalk_eq_worklist (profile : Profile L R) (fuel : Nat) (pending : List (Visit σ R))
    (total : R) :
    g.valueWalk profile fuel pending total = worklist (g.weigh profile) fuel pending total := by
  induction fuel generalizing pending total with
  | zero => cases pending <;> rfl
  | succ fuel ih =>
    cases pending with
    | nil => rfl
    | cons visit pending =>
      simp only [valueWalk, worklist, ih]
      cases g.weigh profile total visit <;> rfl

inductive Looks [BEq A] (g : Game σ A L R) (found : Exploration L A R) (frame : Frame σ R) :
    Exploration L A R → List (Frame σ R) → Prop where
  | terminal {v : R} (hn : g.node frame.state = .ok (.terminal v)) :
      Looks g found frame (found.addPayoff frame.last (v * frame.weight)) []
  | chance {branches : List (R × σ)} (hn : g.node frame.state = .ok (.chance branches)) :
      Looks g found frame found (frame.chanceChildren branches)
  | decision {seat : Seat} {label : L} {moves : List (A × σ)} {i : Nat} {found' : Exploration L A R}
      (hn : g.node frame.state = .ok (.decision seat label moves))
      (he : found.enter seat ⟨label, moves.map Prod.fst, frame.last.get seat⟩ = .ok (i, found')) :
      Looks g found frame found' (frame.moveChildren seat i moves)

theorem looks_of_look [BEq A] {found found' : Exploration L A R} {frame : Frame σ R}
    {below : List (Frame σ R)} (h : g.look found frame = .ok (found', below)) :
    g.Looks found frame found' below := by
  unfold look at h
  split at h
  · cases h
  · rename_i v hn
    cases h
    exact .terminal hn
  · rename_i branches hn
    cases h
    exact .chance hn
  · rename_i seat label moves hn
    simp only at h
    split at h
    · cases h
    · rename_i he
      cases h
      exact .decision hn he

theorem map_state_of_look [BEq A] {found found' : Exploration L A R} {frame : Frame σ R}
    {below : List (Frame σ R)} (h : g.look found frame = .ok (found', below)) :
    below.map Frame.state = g.successors frame.state := by
  cases looks_of_look h with
  | terminal hn => simp [successors, node_eq_terminal_iff.mp hn]
  | chance hn =>
    obtain ⟨hp, -, -, rfl⟩ := node_eq_chance_iff.mp hn
    simp [successors, hp, Frame.chanceChildren, Function.comp_def]
  | decision hn he =>
    obtain ⟨hp, -, -, rfl⟩ := node_eq_decision_iff.mp hn
    refine List.ext_getElem? fun i => ?_
    simp [successors, hp, Frame.moveChildren, moves, Function.comp_def]

theorem map_state_of_weigh {profile : Profile L R} {total total' : R} {visit : Visit σ R}
    {below : List (Visit σ R)} (h : g.weigh profile total visit = .ok (total', below)) :
    below.map Visit.state = g.successors visit.state := by
  unfold weigh at h
  split at h
  · cases h
  · rename_i v hn
    cases h
    simp [successors, node_eq_terminal_iff.mp hn]
  · rename_i branches hn
    obtain ⟨hp, -, -, rfl⟩ := node_eq_chance_iff.mp hn
    cases h
    simp [successors, hp, Function.comp_def]
  · rename_i seat label moves hn
    obtain ⟨hp, -, -, rfl⟩ := node_eq_decision_iff.mp hn
    split at h
    · cases h
    · rename_i numbers hnum
      cases h
      have hl := (Behavior.at?_eq_ok_iff.mp hnum).2
      rw [length_moves] at hl
      refine List.ext_getElem (by simp [successors, hp, moves, hl]) fun i hi hi' => ?_
      simp [successors, hp, moves]

theorem exists_explore [BEq A] {d fuel : Nat} {start : σ} (hd : g.EndsWithin d start)
    (hfuel : g.treeSize d start ≤ fuel) : ∃ result, g.explore fuel start = some result := by
  unfold explore
  rw [walk_eq_worklist]
  exact exists_worklist_of_endsWithin map_state_of_look _ hd hfuel

theorem exists_forall_explore_eq_ite [BEq A] {fuel : Nat} {start : σ}
    {result : Except (Violation L A) (Exploration L A R)} (h : g.explore fuel start = some result) :
    ∃ n, ∀ fuel, g.explore fuel start = if n ≤ fuel then some result else none := by
  rw [explore, walk_eq_worklist] at h
  obtain ⟨n, hn⟩ := exists_worklist_eq_ite h
  refine ⟨n, fun fuel => ?_⟩
  rw [explore, walk_eq_worklist, hn]

theorem exists_expectedValue {d fuel : Nat} {start : σ} (hd : g.EndsWithin d start)
    (hfuel : g.treeSize d start ≤ fuel) (profile : Profile L R) :
    ∃ result, g.expectedValue fuel start profile = some result := by
  unfold expectedValue
  rw [valueWalk_eq_worklist]
  exact exists_worklist_of_endsWithin map_state_of_weigh _ hd hfuel

end Game

end ExtensiveForm
