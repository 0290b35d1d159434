import ExtensiveForm.Message
import ExtensiveForm.Proofs.SequenceTree.Check
import ExtensiveForm.Proofs.SequenceTree.Realization

/-!
What comes of a behavior on a tree that passes its check, in any arithmetic. Main statement: the first
set that the behavior fails at is told, and if there is none, each sequence gets the product of the
numbers along its own history.
-/

set_option autoImplicit false

namespace ExtensiveForm

section Fails

variable {L R : Type} [BEq L] [Hashable L] {b : Behavior L R} {label : L} {actions : Nat}
  {fault : StrategyFault}

/-- A behavior fails at a label with so many actions: it says nothing there, or it does not have one
number for each. -/
inductive Behavior.Fails (b : Behavior L R) (label : L) (actions : Nat) : StrategyFault → Prop where
  | missing (h : b[label]? = none) : Fails b label actions .missing
  | length {numbers : List R} (h : b[label]? = some numbers) (hne : numbers.length ≠ actions) :
    Fails b label actions (.length numbers.length actions)

theorem Behavior.at?_eq_error_iff : b.at? label actions = .error fault ↔ b.Fails label actions fault := by
  constructor
  · intro h
    unfold at? at h
    split at h
    · rename_i hnone
      cases h
      exact .missing hnone
    · rename_i numbers hsome
      split at h
      · cases h
      · rename_i hne
        cases h
        exact .length hsome hne
  · intro h
    cases h with
    | missing h => simp [at?, h]
    | length h hne => simp [at?, h, hne]

theorem Behavior.Fails.unique {fault' : StrategyFault} (h : b.Fails label actions fault)
    (h' : b.Fails label actions fault') : fault = fault' :=
  Except.error.inj ((at?_eq_error_iff.mpr h).symm.trans (at?_eq_error_iff.mpr h'))

theorem Behavior.not_fails_of_at? {numbers : List R} (h : b.at? label actions = .ok numbers) :
    ¬b.Fails label actions fault := by
  intro hf
  cases h.symm.trans (at?_eq_error_iff.mpr hf)

end Fails

namespace SequenceTree

variable {L A R : Type} [BEq L] [Hashable L] {t : SequenceTree L A} {b : Behavior L R}

def FailsAt (t : SequenceTree L A) (b : Behavior L R) (k : Nat) (label : L)
    (fault : StrategyFault) : Prop :=
  ∃ actions, t.label[k]? = some label ∧ t.actions[k]? = some actions ∧
    b.Fails label actions.length fault

structure FailsFirst (t : SequenceTree L A) (b : Behavior L R) (k : Nat) (label : L)
    (fault : StrategyFault) : Prop where
  failsAt : t.FailsAt b k label fault
  before : ∀ j < k, ∀ label fault, ¬t.FailsAt b j label fault

theorem FailsFirst.unique {k k' : Nat} {label label' : L} {fault fault' : StrategyFault}
    (h : t.FailsFirst b k label fault) (h' : t.FailsFirst b k' label' fault') :
    label = label' ∧ fault = fault' := by
  have hk : k = k' := by
    rcases Nat.lt_trichotomy k k' with hlt | heq | hlt
    · exact absurd h.failsAt (h'.before k hlt label fault)
    · exact heq
    · exact absurd h'.failsAt (h.before k' hlt label' fault')
  subst hk
  obtain ⟨actions, hlabel, hactions, hfail⟩ := h.failsAt
  obtain ⟨actions', hlabel', hactions', hfail'⟩ := h'.failsAt
  cases hlabel.symm.trans hlabel'
  cases hactions.symm.trans hactions'
  exact ⟨rfl, hfail.unique hfail'⟩

section Append

variable {parent k : Nat} {label l : L} {actions : List A} {fault : StrategyFault}

theorem failsAt_append_iff (ht : t.Fits) : (t.append parent label actions).FailsAt b k l fault ↔
    t.FailsAt b k l fault ∨ k = t.size ∧ l = label ∧ b.Fails label actions.length fault := by
  simp only [FailsAt, label_append, actions_append, Array.getElem?_push, ht.label_size,
    ht.actions_size]
  by_cases hk : k = t.size
  · have hnone : t.label[t.size]? = none := by simp [ht.label_size]
    simp only [hk, if_true, hnone, Option.some.injEq, reduceCtorEq, false_and, exists_false,
      false_or, true_and]
    constructor
    · rintro ⟨as, rfl, rfl, h⟩
      exact ⟨rfl, h⟩
    · rintro ⟨rfl, h⟩
      exact ⟨actions, rfl, rfl, h⟩
  · simp [hk]

theorem FailsAt.lt_size (ht : t.Fits) (h : t.FailsAt b k label fault) : k < t.size := by
  obtain ⟨actions, hlabel, -, -⟩ := h
  exact ht.label_size ▸ (Array.getElem?_eq_some_iff.mp hlabel).1

theorem FailsFirst.append (ht : t.Fits) (h : t.FailsFirst b k l fault) :
    (t.append parent label actions).FailsFirst b k l fault := by
  refine ⟨(failsAt_append_iff ht).mpr (Or.inl h.failsAt), fun j hj l' fault' hfail => ?_⟩
  rcases (failsAt_append_iff ht).mp hfail with hfail | ⟨rfl, -⟩
  · exact h.before j hj l' fault' hfail
  · exact absurd (h.failsAt.lt_size ht) (Nat.not_lt_of_gt hj)

end Append

theorem serves_iff (ht : t.Valid) : t.Serves b ↔ ∀ k label fault, ¬t.FailsAt b k label fault := by
  constructor
  · rintro h k label fault ⟨actions, hlabel, hactions, hfail⟩
    obtain ⟨parent, start, hset⟩ := ht.exists_isSet_iff.mpr ⟨hlabel, hactions⟩
    obtain ⟨numbers, hnumbers⟩ := h hset
    exact Behavior.not_fails_of_at? hnumbers hfail
  · intro h k parent start label actions hset
    cases hat : b.at? label actions.length with
    | ok numbers => exact ⟨numbers, rfl⟩
    | error fault =>
      exact absurd ⟨actions, hset.label_eq, hset.actions_eq, Behavior.at?_eq_error_iff.mp hat⟩
        (h k label fault)

omit [BEq L] [Hashable L] in
theorem Valid.exists_ownHistory_iff (ht : t.Valid) {s : Nat} (hs : s < t.sequences) :
    ∃ h, ∀ h', t.OwnHistory s h' ↔ h' = h := by
  obtain ⟨h, hh⟩ := ht.exists_ownHistory hs
  refine ⟨h, fun h' => ⟨fun hh' => ht.ownHistory_unique hh' hh, ?_⟩⟩
  rintro rfl
  exact hh

section Outcome

variable [Scalar R]

/-- The induction adds the last set: a fault before it is the first fault already. -/
theorem Valid.failsFirst_of_realization (ht : t.Valid) {e : PlanFault L}
    (h : t.realization b = .error e) :
    ∃ k label fault, t.FailsFirst b k label fault ∧ e = .strategy label fault := by
  induction ht with
  | empty =>
    have hserves : (SequenceTree.empty : SequenceTree L A).Serves b :=
      fun _ _ _ _ _ hk => absurd hk not_isSet_empty
    obtain ⟨x, hx⟩ := Valid.empty.exists_realization_iff.mpr hserves
    cases hx.symm.trans h
  | @append t parent label actions ht hp ha ih =>
    rw [ht.realization_append hp ha] at h
    cases hr : t.realization b with
    | error e' =>
      rw [hr] at h
      cases h
      obtain ⟨k, l, fault, hfirst, rfl⟩ := ih hr
      exact ⟨k, l, fault, hfirst.append ht.fits, rfl⟩
    | ok x =>
      rw [hr] at h
      cases hat : b.at? label actions.length with
      | ok numbers =>
        rw [hat] at h
        cases h
      | error fault =>
        rw [hat] at h
        cases h
        have hserves := (serves_iff ht).mp (ht.exists_realization_iff.mp ⟨x, hr⟩)
        have hlast : b.Fails label actions.length fault := Behavior.at?_eq_error_iff.mp hat
        refine ⟨t.size, label, fault, ⟨?_, fun j hj l fault' hfail => ?_⟩, rfl⟩
        · exact (failsAt_append_iff ht.fits).mpr (Or.inr ⟨rfl, rfl, hlast⟩)
        · rcases (failsAt_append_iff ht.fits).mp hfail with hfail | ⟨rfl, -⟩
          · exact hserves j l fault' hfail
          · exact Nat.lt_irrefl _ hj

theorem IsPlanOf.getElem?_eq_along (ht : t.Valid) {x : Array R} (hx : t.IsPlanOf (t.numbersOf b) x)
    {s : Nat} {h : History L} (hs : t.OwnHistory s h) : x[s]? = some (b.along h) := by
  have hlt : s < x.size := hx.size_eq ▸ ht.ownHistory_lt hs
  have hget : x.getD s 0 = x[s] := by simp [Array.getD_eq_getD_getElem?, hlt]
  rw [Array.getElem?_eq_getElem hlt, ← hget, hx.getD_eq_along hs]

/-- A behavior is refused exactly if it fails at some set, and the first such set is named. A plan holds
for each sequence the product along its one own history, from the first move on. -/
theorem realization_outcome [Text.Named L] (hc : t.check = .ok ()) (b : Behavior L R) :
    ((∃ e, t.realization b = .error e) ↔ ∃ k label fault, t.FailsAt b k label fault) ∧
      (∀ e, t.realization b = .error e → ∃ k label fault, t.FailsFirst b k label fault ∧
        e = .strategy label fault ∧
          e.message = invalidValue (fault.message "" (Text.Named.name label))) ∧
      ∀ x, t.realization b = .ok x → x.size = t.sequences ∧
        ∀ s < t.sequences, ∃ h, (∀ h', t.OwnHistory s h' ↔ h' = h) ∧ x[s]? = some (b.along h) := by
  have ht := check_eq_ok_iff.mp hc
  refine ⟨⟨?_, ?_⟩, ?_, ?_⟩
  · rintro ⟨e, he⟩
    obtain ⟨k, label, fault, hfirst, -⟩ := ht.failsFirst_of_realization he
    exact ⟨k, label, fault, hfirst.failsAt⟩
  · rintro ⟨k, label, fault, hfail⟩
    cases hr : t.realization b with
    | error e => exact ⟨e, rfl⟩
    | ok x =>
      exact absurd hfail ((serves_iff ht).mp (ht.exists_realization_iff.mp ⟨x, hr⟩) k label fault)
  · intro e he
    obtain ⟨k, label, fault, hfirst, rfl⟩ := ht.failsFirst_of_realization he
    exact ⟨k, label, fault, hfirst, rfl, rfl⟩
  · intro x hx
    obtain ⟨-, hplan⟩ := ht.realization_eq_ok_iff.mp hx
    refine ⟨hplan.size_eq, fun s hs => ?_⟩
    obtain ⟨h, hh⟩ := ht.exists_ownHistory_iff hs
    exact ⟨h, hh, hplan.getElem?_eq_along ht ((hh h).mpr rfl)⟩

end Outcome

end SequenceTree

def lateTree : SequenceTree String Nat :=
  ⟨#[0, 0, 1], #[1, 3, 5, 7], #["a", "b", "c"], #[[0, 1], [0, 1], [0, 1]]⟩

def shortBehavior : Behavior String Float := Std.HashMap.ofList [("a", [0.5, 0.5]), ("b", [1.0])]

def wideBehavior : Behavior String Float :=
  Std.HashMap.ofList [("a", [0.1, 7]), ("b", [1, 0]), ("c", [-3, 0.7]), ("d", [])]

theorem ownHistory_lateTree : lateTree.OwnHistory 6 [("a", 0), ("c", 1)] := by
  have ha : lateTree.IsSet 0 0 1 "a" [0, 1] := ⟨rfl, rfl, rfl, rfl, rfl⟩
  have hc : lateTree.IsSet 2 1 5 "c" [0, 1] := ⟨rfl, rfl, rfl, rfl, rfl⟩
  exact .move (a := 1) hc (by decide) (.move (a := 0) ha (by decide) .empty)

theorem failsFirst_shortBehavior : lateTree.FailsFirst shortBehavior 1 "b" (.length 1 2) := by
  have ha : shortBehavior["a"]? = some [0.5, 0.5] := by grind [shortBehavior]
  have hb : shortBehavior["b"]? = some [1.0] := by grind [shortBehavior]
  refine ⟨⟨[0, 1], rfl, rfl, .length hb (by decide)⟩, fun j hj label fault hfail => ?_⟩
  obtain rfl : j = 0 := by omega
  obtain ⟨actions, hlabel, hactions, hfail⟩ := hfail
  cases hlabel
  cases hactions
  exact Behavior.not_fails_of_at? (Behavior.at?_eq_ok_iff.mpr ⟨ha, rfl⟩) hfail

theorem getElem?_wideBehavior : wideBehavior["a"]? = some [0.1, 7] ∧
    wideBehavior["b"]? = some [1, 0] ∧ wideBehavior["c"]? = some [-3, 0.7] := by
  grind [wideBehavior]

theorem not_failsAt_wideBehavior {k : Nat} {label : String} {fault : StrategyFault} :
    ¬lateTree.FailsAt wideBehavior k label fault := by
  rintro ⟨actions, hlabel, hactions, hfail⟩
  have hmem : label = "a" ∨ label = "b" ∨ label = "c" := by
    simpa [lateTree] using (Array.mem_of_getElem? hlabel).val
  have hlength : actions.length = 2 := by
    have htwo : ∀ as ∈ lateTree.actions.toList, as.length = 2 := by decide
    exact htwo actions (Array.mem_of_getElem? hactions).val
  obtain ⟨ha, hb, hc⟩ := getElem?_wideBehavior
  have hat : ∃ numbers, wideBehavior[label]? = some numbers ∧ numbers.length = 2 := by
    rcases hmem with rfl | rfl | rfl
    · exact ⟨_, ha, rfl⟩
    · exact ⟨_, hb, rfl⟩
    · exact ⟨_, hc, rfl⟩
  obtain ⟨numbers, hnumbers⟩ := hat
  exact Behavior.not_fails_of_at? (Behavior.at?_eq_ok_iff.mpr hnumbers) (hlength ▸ hfail)

theorem realization_lateTree :
    lateTree.check = .ok () ∧
      lateTree.realization shortBehavior = .error (.strategy "b" (.length 1 2)) ∧
        ∃ x, lateTree.realization wideBehavior = .ok x ∧ x.size = 7 ∧ x[6]? = some (1 * 0.1 * 0.7) := by
  have hcheck : lateTree.check = .ok () := by decide
  refine ⟨hcheck, ?_, ?_⟩
  · obtain ⟨hiff, herror, -⟩ := SequenceTree.realization_outcome hcheck shortBehavior
    obtain ⟨e, he⟩ := hiff.mpr ⟨1, "b", _, failsFirst_shortBehavior.failsAt⟩
    obtain ⟨k, label, fault, hfirst, rfl, -⟩ := herror e he
    obtain ⟨rfl, rfl⟩ := failsFirst_shortBehavior.unique hfirst
    exact he
  · obtain ⟨hiff, -, hplan⟩ := SequenceTree.realization_outcome hcheck wideBehavior
    cases hr : lateTree.realization wideBehavior with
    | error e =>
      obtain ⟨k, label, fault, hfail⟩ := hiff.mp ⟨e, hr⟩
      exact absurd hfail not_failsAt_wideBehavior
    | ok x =>
      obtain ⟨hsize, hprod⟩ := hplan x hr
      obtain ⟨h, hh, hx⟩ := hprod 6 (by decide)
      cases (hh _).mp ownHistory_lateTree
      obtain ⟨ha, -, hc⟩ := getElem?_wideBehavior
      refine ⟨x, rfl, hsize, ?_⟩
      rw [hx, Behavior.along]
      simp only [List.foldl_cons, List.foldl_nil, ha, hc]
      rfl

end ExtensiveForm
