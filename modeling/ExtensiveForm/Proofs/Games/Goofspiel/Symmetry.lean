import Mathlib.Tactic.Linarith
import ExtensiveForm.Proofs.Expectation
import ExtensiveForm.Proofs.Games.Goofspiel.Twins
import ExtensiveForm.Proofs.Means
import ExtensiveForm.Proofs.SequenceForm.Strategies

set_option autoImplicit false

namespace ExtensiveForm.Games.Goofspiel

section Profiles

variable {R : Type} [Scalar R] {deck : List Char} {profile other : Profile String R}

theorem serves_iff (hd : deck.Nodup) :
    (∀ s, (game (R := R) deck).Leads (.start deck) s → (game deck).Serves s profile) ↔
      ∀ ⦃s : State⦄ ⦃prize : Char⦄, Between R deck s → prize ∈ s.prizes → ∀ seat, ∃ numbers,
        (profile.get seat).at? (roundLabel s.history prize) s.prizes.length = .ok numbers := by
  constructor
  · intro h s prize hs hprize seat
    obtain ⟨t, ht, hp, ho, ha⟩ := hs.exists_decision hprize seat
    have hlen : ((game (R := R) deck).actions t).length = s.prizes.length := ha
    exact hlen ▸ h t ht seat _ hp ho
  · intro h s hs seat label hp ho
    obtain ⟨u, t, ws, htwins, hopens⟩ := exists_twins_of_leads hd hs
    obtain ⟨prize, hprize, hsee, ha⟩ := hopens.exists_prize htwins.left.toFresh hp
    have hlen : ((game (R := R) deck).actions s).length = u.prizes.length := ha
    cases hsee.symm.trans ho
    exact hlen ▸ h htwins.left hprize seat

/-- At twins each seat of one profile lists what its opponent lists in the other. -/
def Corresponds (deck : List Char) (profile other : Profile String R) : Prop :=
  ∀ ⦃s t prize⦄, Twins R deck s t → prize ∈ s.prizes → ∀ seat : Seat,
    (other.get seat)[roundLabel t.history prize]? =
      (profile.get seat.opponent)[roundLabel s.history prize]?

theorem Corresponds.serves (hc : Corresponds deck profile other) (hd : deck.Nodup)
    (hs : ∀ s, (game (R := R) deck).Leads (.start deck) s → (game deck).Serves s profile) (s : State)
    (hl : (game (R := R) deck).Leads (.start deck) s) : (game deck).Serves s other := by
  refine (serves_iff hd).mpr (fun s prize h hprize seat => ?_) s hl
  obtain ⟨t, htwins⟩ := h.exists_twins hd
  have hprize' : prize ∈ t.prizes := htwins.prizes_eq ▸ hprize
  obtain ⟨numbers, hnum⟩ := (serves_iff hd).mp hs htwins.right hprize' seat.opponent
  rw [Behavior.at?_eq_ok_iff, htwins.prizes_eq] at hnum
  refine ⟨numbers, Behavior.at?_eq_ok_iff.mpr ⟨?_, hnum.2⟩⟩
  rw [hc htwins.symm hprize' seat, hnum.1]

def exchange (b : Behavior String R) : Behavior String R :=
  Std.HashMap.ofList (b.toList.map fun entry => (exchangeBids entry.1, entry.2))

omit [Scalar R] in
theorem getElem?_exchange (b : Behavior String R) (label : String) :
    (exchange b)[label]? = b[exchangeBids label]? := by
  cases hb : b[exchangeBids label]? with
  | none =>
    refine Std.HashMap.getElem?_ofList_of_contains_eq_false ?_
    rw [List.contains_eq_mem, decide_eq_false_iff_not, List.map_map, List.mem_map]
    rintro ⟨⟨l, ns⟩, hmem, rfl⟩
    have hl := Std.HashMap.mem_toList_iff_getElem?_eq_some.mp hmem
    rw [Function.comp_apply, exchangeBids_exchangeBids, hl] at hb
    cases hb
  | some ns =>
    refine Std.HashMap.getElem?_ofList_of_mem (beq_self_eq_true label) ?_ ?_
    · refine List.pairwise_map.mpr (Std.HashMap.distinct_keys_toList.imp fun {x y} hne => ?_)
      -- entries of different labels stay so, since exchanging twice changes nothing
      rw [beq_eq_false_iff_ne] at hne ⊢
      intro heq
      have heq : exchangeBids x.1 = exchangeBids y.1 := heq
      exact hne (by rw [← exchangeBids_exchangeBids x.1, heq, exchangeBids_exchangeBids])
    · refine List.mem_map.mpr ⟨(exchangeBids label, ns), ?_, by rw [exchangeBids_exchangeBids]⟩
      exact Std.HashMap.mem_toList_iff_getElem?_eq_some.mpr hb

def exchanged (profile : Profile String R) : Profile String R := profile.swap.map exchange

omit [Scalar R] in
theorem getElem?_exchanged (profile : Profile String R) (seat : Seat) (label : String) :
    ((exchanged profile).get seat)[label]? = (profile.get seat.opponent)[exchangeBids label]? := by
  rw [exchanged, PerSeat.get_map, PerSeat.get_swap, getElem?_exchange]

theorem corresponds_exchanged (deck : List Char) (profile : Profile String R) :
    Corresponds deck profile (exchanged profile) := by
  intro s t prize h _ seat
  rw [getElem?_exchanged, h.symm.exchangeBids_eq]

theorem Between.getElem?_uniformProfile {found : Exploration String String R}
    {form : SequenceForm String String R} (hx : (game (R := R) deck).Explored (.start deck) found)
    (hf : found.Forms form) {s : State} (h : Between R deck s) {prize : Char}
    (hprize : prize ∈ s.prizes) (seat : Seat) :
    (form.uniformProfile.get seat)[roundLabel s.history prize]? =
      some (SequenceTree.evenNumbers s.prizes.length) := by
  obtain ⟨t, ht, hp, ho, ha⟩ := h.exists_decision hprize seat
  have hlen : ((game (R := R) deck).actions t).length = s.prizes.length := ha
  rw [hx.getElem?_uniformBehavior hf ht hp ho, hlen]

end Profiles

section Expectation

variable {deck : List Char} {profile other : Profile String Rat} {s t u : State} {d : Nat}

def numbersAt (profile : Profile String Rat) (seat : Seat) (label : String) : List Rat :=
  ((profile.get seat)[label]?).getD []

theorem expectation_end (hs : (game (R := Rat) deck).EndsWithin d u) (hp : u.player = none) :
    (game deck).expectation profile (d + 1) u = u.score := by
  have hp' : (game (R := Rat) deck).player u = none := hp
  rw [Game.expectation_eq_worth hs]
  simp only [Game.worth, hp']
  simp [game, hp, ofInt_rat]

theorem expectation_chance (hs : (game (R := Rat) deck).EndsWithin d u)
    (hp : u.player = some .chance) : (game deck).expectation profile (d + 1) u =
      (u.prizes.map fun prize => 1 / (u.prizes.length : Rat) *
        (game deck).expectation profile (d + 1) (u.step deck prize.toString)).sum := by
  have hp' : (game (R := Rat) deck).player u = some .chance := hp
  have ha : (game (R := Rat) deck).actions u = u.prizes.map Char.toString := actions_eq_map hp
  have hc : ∀ a, ((game (R := Rat) deck).chanceProb u a).getD 0 = 1 / (u.prizes.length : Rat) := by
    intro a
    simp only [game, hp, if_true, Option.getD_some]
    rfl
  rw [Game.expectation_eq_worth hs]
  simp only [Game.worth, hp', ha, List.map_map, Function.comp_def, hc]
  rfl

theorem expectation_decision (hs : (game (R := Rat) deck).EndsWithin d u) {seat : Seat}
    {label : String} (hp : u.player = some (.seat seat)) (ho : u.observation = some label) :
    (game deck).expectation profile (d + 1) u =
      (((u.hand (.seat seat)).zip (numbersAt profile seat label)).map fun x =>
        x.2 * (game deck).expectation profile (d + 1) (u.step deck x.1.toString)).sum := by
  have hp' : (game (R := Rat) deck).player u = some (.seat seat) := hp
  have ho' : (game (R := Rat) deck).observation u = some label := ho
  have ha : (game (R := Rat) deck).actions u = (u.hand (.seat seat)).map Char.toString :=
    actions_eq_map hp
  rw [Game.expectation_eq_worth hs]
  simp only [Game.worth, hp', ha, Game.listed, ho', Option.bind_some, List.zip_map_left,
    List.map_map]
  rfl

theorem Between.expectation_reveal (hd : (game (R := Rat) deck).EndsWithin d (.start deck))
    (h : Between Rat deck s) {prize : Char} (hprize : prize ∈ s.prizes) :
    (game deck).expectation profile (d + 1) (s.reveal prize) =
      (((s.hand (.seat .first)).zip
        (numbersAt profile .first (roundLabel s.history prize))).map fun x => x.2 *
          (((s.hand (.seat .second)).zip
            (numbersAt profile .second (roundLabel s.history prize))).map fun y => y.2 *
              (game deck).expectation profile (d + 1)
                ((s.place prize x.1).step deck y.1.toString)).sum).sum := by
  have hs := List.ne_nil_of_mem hprize
  rw [expectation_decision (hd.leads (h.leads_reveal hprize)) (h.player_reveal hs)
    (h.observation_reveal hs)]
  refine congrArg List.sum (List.map_congr_left fun x hx => congrArg (x.2 * ·) ?_)
  have hbid : x.1 ∈ s.hand (.seat .first) := (List.of_mem_zip hx).1
  rw [h.step_reveal hs, expectation_decision (hd.leads (h.leads_place hprize hbid))
    (player_place hs) (observation_place hs)]
  rfl

theorem Corresponds.numbersAt_eq (hc : Corresponds deck profile other) (h : Twins Rat deck s t)
    {prize : Char} (hprize : prize ∈ s.prizes) (seat : Seat) :
    numbersAt other seat (roundLabel t.history prize) =
      numbersAt profile seat.opponent (roundLabel s.history prize) := by
  unfold numbersAt
  rw [hc h hprize seat]

/-- A round is worth the opposite at the twin if all that may follow it is. -/
theorem Twins.expectation_reveal_eq_neg (hd : (game (R := Rat) deck).EndsWithin d (.start deck))
    (hc : Corresponds deck profile other) (h : Twins Rat deck s t) {prize : Char}
    (hprize : prize ∈ s.prizes)
    (hnext : ∀ {s' t'}, Twins Rat deck s' t' → s'.prizes.length < s.prizes.length →
      (game deck).expectation other (d + 1) t' = -(game deck).expectation profile (d + 1) s') :
    (game deck).expectation other (d + 1) (t.reveal prize) =
      -(game deck).expectation profile (d + 1) (s.reveal prize) := by
  have hprize' : prize ∈ t.prizes := h.prizes_eq ▸ hprize
  have hs := List.ne_nil_of_mem hprize
  -- at the twin the second seat's choice is the outer one, so the sums are exchanged first
  rw [h.left.expectation_reveal hd hprize, h.right.expectation_reveal hd hprize', h.hand_eq,
    h.hand_eq, hc.numbersAt_eq h hprize, hc.numbersAt_eq h hprize, weighted_sum_comm]
  refine sum_eq_neg fun x hx => ?_
  rw [← mul_neg]
  refine congrArg (x.2 * ·) (sum_eq_neg fun y hy => ?_)
  rw [← mul_neg]
  refine congrArg (y.2 * ·) ?_
  have hmem : ∀ p, played prize x.1 y.1 p ∈ s.hand p := by
    intro p
    rcases p with seat | _
    · cases seat with
      | first => exact (List.of_mem_zip hx).1
      | second => exact (List.of_mem_zip hy).1
    · exact hprize
  obtain ⟨gain, hg⟩ : ∃ gain, State.settle? deck prize x.1 y.1 = some gain :=
    exists_settle (h.left.subset .chance hprize) (h.left.subset _ (hmem (.seat .first)))
      (h.left.subset _ (hmem (.seat .second)))
  rw [step_place hs hg, step_place (List.ne_nil_of_mem hprize') (settle?_swap hg)]
  refine hnext (h.finish hmem hg) ?_
  have hlen : ((s.place prize x.1).finish prize x.1 y.1 gain).prizes.length + 1 =
      s.prizes.length := length_filter_ne (h.left.nodup .chance) hprize
  omega

theorem Twins.expectation_eq_neg (hd : (game (R := Rat) deck).EndsWithin d (.start deck))
    (hc : Corresponds deck profile other) (h : Twins Rat deck s t) :
    (game deck).expectation other (d + 1) t = -(game deck).expectation profile (d + 1) s := by
  induction hn : s.prizes.length using Nat.strongRecOn generalizing s t with
  | ind n ih =>
    by_cases hs : s.prizes = []
    · have hp : s.player = none := by simp [State.player, hs]
      have hp' : t.player = none := by simp [State.player, h.prizes_eq, hs]
      rw [expectation_end (hd.leads h.left.leads) hp, expectation_end (hd.leads h.right.leads) hp',
        h.score_eq, Int.cast_neg]
    · have hs' : t.prizes ≠ [] := h.prizes_eq ▸ hs
      rw [expectation_chance (hd.leads h.left.leads) (h.left.player_eq hs),
        expectation_chance (hd.leads h.right.leads) (h.right.player_eq hs'), h.prizes_eq]
      refine sum_eq_neg fun prize hprize => ?_
      rw [h.left.step_eq hs, h.right.step_eq hs', ← mul_neg,
        h.expectation_reveal_eq_neg hd hc hprize fun htwins hlt => ih _ (hn ▸ hlt) htwins rfl]

end Expectation

section Value

variable {deck : List Char} {profile other : Profile String Rat} {fuel : Nat}

theorem Corresponds.exists_expectedValue (hc : Corresponds deck profile other) (hd : deck.Nodup)
    (hfuel : (game (R := Rat) deck).treeSize (3 * deck.length) (.start deck) ≤ fuel)
    (hs : ∀ s, (game (R := Rat) deck).Leads (.start deck) s → (game deck).Serves s profile) :
    ∃ v, (game deck).expectedValue fuel (.start deck) profile = some (.ok v) ∧
      (game deck).expectedValue fuel (.start deck) other = some (.ok (-v)) := by
  have hends : (game (R := Rat) deck).EndsWithin (3 * deck.length) (.start deck) :=
    Game.endsWithin_of_length_le fun as => length_le hd
  have ha := (playable (R := Rat) hd).wellFormed_start.answers
  have htwins := (twins_start hd).expectation_eq_neg hends hc
  refine ⟨_, Game.expectedValue_eq_some_expectation hends hfuel ha hs, ?_⟩
  rw [← htwins]
  exact Game.expectedValue_eq_some_expectation hends hfuel ha (hc.serves hd hs)

/-- Even play is its own exchange, so its value is its own opposite. -/
theorem exists_form_even (hd : deck.Nodup)
    (hfuel : (game (R := Rat) deck).treeSize (3 * deck.length) (.start deck) ≤ fuel) :
    ∃ form, (game (R := Rat) deck).build fuel (.start deck) = some (.ok form) ∧
      (game deck).expectedValue fuel (.start deck) form.uniformProfile = some (.ok 0) := by
  have hends : (game (R := Rat) deck).EndsWithin (3 * deck.length) (.start deck) :=
    Game.endsWithin_of_length_le fun as => length_le hd
  obtain ⟨form, hbuild⟩ := (playable hd).wellFormed_start.exists_build hends hfuel
  obtain ⟨found, hf, hx, -⟩ := Game.exists_explored hbuild
  have hserves : ∀ s, (game (R := Rat) deck).Leads (.start deck) s →
      (game deck).Serves s form.uniformProfile := by
    refine (serves_iff hd).mpr fun s prize hs hprize seat => ?_
    have hnum := hs.getElem?_uniformProfile hx hf hprize seat
    exact ⟨_, Behavior.at?_eq_ok_iff.mpr ⟨hnum, SequenceTree.length_evenNumbers _⟩⟩
  have hself : Corresponds deck form.uniformProfile form.uniformProfile := by
    intro s t prize htwins hprize seat
    have hprize' : prize ∈ t.prizes := htwins.prizes_eq ▸ hprize
    rw [htwins.left.getElem?_uniformProfile hx hf hprize,
      htwins.right.getElem?_uniformProfile hx hf hprize', htwins.prizes_eq]
  obtain ⟨v, hv, hneg⟩ := hself.exists_expectedValue hd hfuel hserves
  rw [hv, Option.some.injEq, Except.ok.injEq] at hneg
  have hzero : v = 0 := by linarith
  exact ⟨form, hbuild, hzero ▸ hv⟩

/-- The value of a profile is the opposite of that of the exchanged one, and even play is worth nothing. -/
theorem expectedValue_exchanged {text : String} (h : readDeck text = .ok deck)
    (hfuel : (game (R := Rat) deck).treeSize (3 * deck.length) (.start deck) ≤ fuel) :
    (∀ profile : Profile String Rat,
      (∀ s, (game (R := Rat) deck).Leads (.start deck) s → (game deck).Serves s profile) →
        (∀ seat label, ((exchanged profile).get seat)[label]? =
          (profile.get seat.opponent)[exchangeBids label]?) ∧
        ∃ v, (game deck).expectedValue fuel (.start deck) profile = some (.ok v) ∧
          (game deck).expectedValue fuel (.start deck) (exchanged profile) = some (.ok (-v))) ∧
      ∃ form, (game (R := Rat) deck).build fuel (.start deck) = some (.ok form) ∧
        (game deck).expectedValue fuel (.start deck) form.uniformProfile = some (.ok 0) := by
  have hd := nodup_of_readDeck h
  refine ⟨fun profile hs => ⟨getElem?_exchanged profile, ?_⟩, exists_form_even hd hfuel⟩
  exact (corresponds_exchanged deck profile).exists_expectedValue hd hfuel hs

end Value

section Example

def lateLabels : List String :=
  ["222,3", "223,3", "232,3", "233,3", "322,2", "323,2", "332,2", "333,2"]

def twoRounds (low high : List Rat) : List (String × List Rat) :=
  ("2", low) :: ("3", high) :: lateLabels.map (·, [1])

def matchingProfile : Profile String Rat :=
  ⟨.ofList (twoRounds [1, 0] [0, 1]), .ofList (twoRounds [1 / 2, 1 / 2] [1 / 2, 1 / 2])⟩

theorem getElem?_twoRounds {low high ns : List Rat} {label : String}
    (h : (label, ns) ∈ twoRounds low high) :
    (Std.HashMap.ofList (twoRounds low high))[label]? = some ns := by
  have hlabels : ("2" :: "3" :: lateLabels).Nodup := by decide
  refine Std.HashMap.getElem?_ofList_of_mem (beq_self_eq_true label) ?_ h
  have hfst : (twoRounds low high).map Prod.fst = "2" :: "3" :: lateLabels := by
    simp [twoRounds, Function.comp_def]
  rw [← hfst, List.Nodup, List.pairwise_map] at hlabels
  exact hlabels.imp fun hne => beq_eq_false_iff_ne.mpr hne

theorem expectedValue_exchanged_matchingProfile : readDeck "23" = .ok ['2', '3'] ∧
    (game (R := Rat) ['2', '3']).treeSize 6 (.start ['2', '3']) ≤ 39 ∧
      (∀ s, (game (R := Rat) ['2', '3']).Leads (.start ['2', '3']) s →
        (game ['2', '3']).Serves s matchingProfile) ∧
        ∃ v, (game ['2', '3']).expectedValue 39 (.start ['2', '3']) matchingProfile =
            some (.ok v) ∧
          (game ['2', '3']).expectedValue 39 (.start ['2', '3']) (exchanged matchingProfile) =
            some (.ok (-v)) := by
  have hdeck : readDeck "23" = .ok ['2', '3'] := by decide
  have hsize : (game (R := Rat) ['2', '3']).treeSize 6 (.start ['2', '3']) ≤ 39 := by
    decide +kernel
  have hends : (game (R := Rat) ['2', '3']).EndsWithin 6 (.start ['2', '3']) :=
    Game.endsWithin_of_length_le fun as => length_le (nodup_of_readDeck hdeck)
  have hlisted : ∀ low ∈ [[1, 0], [1 / 2, 1 / 2]], ∀ high ∈ [[0, 1], [1 / 2, 1 / 2]],
      ∀ s ∈ (game (R := Rat) ['2', '3']).states 6 (.start ['2', '3']), ∀ label ∈ s.observation,
        ∃ entry ∈ twoRounds low high, entry.1 = label ∧ entry.2.length = s.actions.length := by
    decide +kernel
  have hserves : ∀ s, (game (R := Rat) ['2', '3']).Leads (.start ['2', '3']) s →
      (game ['2', '3']).Serves s matchingProfile := by
    intro s hs seat label hp ho
    have hmem := (Game.mem_states_iff hends).mpr hs
    have hnumbers : ∀ low ∈ [[1, 0], [1 / 2, 1 / 2]], ∀ high ∈ [[0, 1], [1 / 2, 1 / 2]],
        ∃ ns, Behavior.at? (Std.HashMap.ofList (twoRounds low high)) label s.actions.length =
          .ok ns := by
      intro low hlow high hhigh
      obtain ⟨⟨l, ns⟩, hentry, rfl, hlen⟩ := hlisted low hlow high hhigh s hmem label ho
      exact ⟨ns, Behavior.at?_eq_ok_iff.mpr ⟨getElem?_twoRounds hentry, hlen⟩⟩
    cases seat with
    | first => exact hnumbers _ (by simp) _ (by simp)
    | second => exact hnumbers _ (by simp) _ (by simp)
  obtain ⟨hexchange, -⟩ := expectedValue_exchanged hdeck hsize
  exact ⟨hdeck, hsize, hserves, (hexchange matchingProfile hserves).2⟩

end Example

end ExtensiveForm.Games.Goofspiel
