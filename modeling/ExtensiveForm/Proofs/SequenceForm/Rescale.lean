import ExtensiveForm.Proofs.Exploration.Rescale
import ExtensiveForm.Proofs.SequenceForm.Gap
import ExtensiveForm.Proofs.SequenceForm.Value

/-!
Forms of games whose payoffs are counted in another unit, in exact arithmetic. A shift changes which
payoffs are zero, so the two matrices have different entries; but what flows into the tree of a game
flows out at its ends, so every pair of plans takes the shift in full. Main statement: values are
rescaled as payoffs are, and gaps are multiplied.
-/

set_option autoImplicit false

namespace ExtensiveForm

namespace Game

variable {σ L A : Type} {g : Game σ A L Rat} {k c : Rat}
  {factor : PerSeat (History L) → Rat} {d : Nat} {p : Position σ L Rat} {start : σ}

def Fair (g : Game σ A L Rat) (start : σ) : Prop :=
  ∀ q, g.Reaches (.start start) q → g.player q.state = some .chance →
    ((g.actions q.state).map fun a => (g.chanceProb q.state a).getD 0).sum = 1

/-- What the plays from a position on weigh: the probability of chance's moves with a factor for what
both seats did. -/
def mass (g : Game σ A L Rat) (d : Nat) (factor : PerSeat (History L) → Rat)
    (p : Position σ L Rat) : Rat :=
  ((g.endings d p).map fun q => factor q.past * q.chance).sum

theorem earnings_rescale (hpay : ∀ q ∈ g.endings d p, (g.payoff q.state).isSome) :
    (g.rescale k c).earnings d factor p = k * g.earnings d factor p + c * g.mass d factor p := by
  unfold earnings mass
  rw [endings_rescale]
  generalize g.endings d p = ends at hpay
  induction ends with
  | nil => simp
  | cons q ends ih =>
    obtain ⟨hq, hends⟩ := List.forall_mem_cons.mp hpay
    obtain ⟨v, hv⟩ := Option.isSome_iff_exists.mp hq
    have hq' : (g.rescale k c).earning q = k * g.earning q + c * q.chance := by
      simp only [earning, rescale, hv, Option.map_some, Option.getD_some]
      ring
    rw [List.map_cons, List.sum_cons, List.map_cons, List.sum_cons, List.map_cons, List.sum_cons,
      ih hends, hq']
    ring

def Conserves (g : Game σ A L Rat) (factor : PerSeat (History L) → Rat) (p : Position σ L Rat) :
    Prop :=
  g.player p.state ≠ none →
    ((g.nexts p).map fun q => factor q.past * q.chance).sum = factor p.past * p.chance

/-- Where nothing is lost on the way, all arrives at the ends. -/
theorem mass_eq (hd : g.EndsWithin d p.state)
    (hflow : ∀ q, g.Reaches p q → g.Conserves factor q) :
    g.mass d factor p = factor p.past * p.chance := by
  unfold mass
  induction d generalizing p with
  | zero =>
    by_cases hp : g.player p.state = none
    · simp [endings, hp]
    · have hzero := hflow p .refl hp
      rw [nexts_of_endsWithin_zero hd] at hzero
      simpa [endings, hp] using hzero
  | succ d ih =>
    by_cases hp : g.player p.state = none
    · simp [endings, hp]
    · have hbelow : ∀ q ∈ g.nexts p, ((g.endings d q).map fun q => factor q.past * q.chance).sum =
          factor q.past * q.chance := by
        intro q hq
        refine ih (hd _ (state_mem_successors hq)) fun r hr => hflow r ?_
        exact reaches_iff.mpr (Or.inr ⟨q, hq, hr⟩)
      rw [← hflow p .refl hp, ← List.map_congr_left hbelow]
      simp [endings, hp, List.flatMap_def, List.sum_flatten, Function.comp_def]

theorem conserves_of_chance {q : Position σ L Rat} (hp : g.player q.state = some .chance)
    (hsum : ((g.actions q.state).map fun a => (g.chanceProb q.state a).getD 0).sum = 1) :
    g.Conserves factor q := by
  intro _
  calc
    _ = ((g.actions q.state).map fun a =>
          factor q.past * q.chance * (g.chanceProb q.state a).getD 0).sum := by
      rw [nexts, hp, List.map_map]
      refine congrArg List.sum (List.map_congr_left fun a _ => ?_)
      simp only [Function.comp_apply]
      ring
    _ = factor q.past * q.chance := by rw [List.sum_map_mul_left, hsum, mul_one]

def product (numbers : PerSeat (History L → Rat)) (past : PerSeat (History L)) : Rat :=
  numbers.first past.first * numbers.second past.second

theorem conserves_of_seat {numbers : PerSeat (History L → Rat)} {q : Position σ L Rat} {seat : Seat}
    {label : L} (hp : g.player q.state = some (.seat seat))
    (ho : g.observation q.state = some label)
    (hflow : ∑ i ∈ Finset.range (g.actions q.state).length,
      numbers.get seat (q.past.get seat ++ [(label, i)]) = numbers.get seat (q.past.get seat)) :
    g.Conserves (product numbers) q := by
  intro _
  have hother : ∃ r, product numbers q.past = numbers.get seat (q.past.get seat) * r ∧
      ∀ i, product numbers (recordMove q.past seat i (some label)) =
        numbers.get seat (q.past.get seat ++ [(label, i)]) * r := by
    cases seat with
    | first => exact ⟨_, rfl, fun i => rfl⟩
    | second => exact ⟨_, mul_comm _ _, fun i => mul_comm _ _⟩
  obtain ⟨r, hpast, hmove⟩ := hother
  have hnexts : (g.nexts q).map (fun q => product numbers q.past * q.chance) =
      (List.range (g.actions q.state).length).map fun i =>
        numbers.get seat (q.past.get seat ++ [(label, i)]) * (r * q.chance) := by
    simp only [nexts, hp, ho]
    refine List.ext_getElem (by simp) fun i hi hi' => ?_
    simp only [List.getElem_map, List.getElem_mapIdx, List.getElem_range, hmove]
    ring
  rw [hnexts, List.sum_map_mul_right, hpast, ← hflow, mul_assoc]
  rfl

end Game

section Flow

variable {σ L A : Type} [BEq L] [Hashable L] {g : Game σ A L Rat} {start : σ}
  {found : Exploration L A Rat} {form : SequenceForm L A Rat} {seat : Seat} {x : Array Rat}
  {numbers : History L → Rat}

theorem Exploration.Forms.exists_numbers (h : found.Forms form) (hs : found.Sound) (seat : Seat)
    (x : Array Rat) : ∃ numbers : History L → Rat, ∀ {n : Nat} {past : History L},
      (form.tree seat).OwnHistory n past → x.getD n 0 = numbers past := by
  have hvalue : ∀ past, ∃ v, ∀ n, (form.tree seat).OwnHistory n past → x.getD n 0 = v := by
    intro past
    by_cases hex : ∃ n, (form.tree seat).OwnHistory n past
    · obtain ⟨n, hn⟩ := hex
      refine ⟨x.getD n 0, fun m hm => ?_⟩
      rw [h.tree_eq] at hn hm
      rw [(hs.registry seat).place_unique hm hn]
    · exact ⟨0, fun n hn => absurd ⟨n, hn⟩ hex⟩
  choose numbers hn using hvalue
  exact ⟨numbers, fun {n past} hpast => hn past n hpast⟩

namespace Game

theorem Explored.flow (hx : g.Explored start found) (hf : found.Forms form)
    (hplan : (form.tree seat).IsPlan x)
    (hn : ∀ {n : Nat} {past : History L}, (form.tree seat).OwnHistory n past →
      x.getD n 0 = numbers past)
    {q : Position σ L Rat} (hq : g.Reaches (.start start) q)
    (hp : g.player q.state = some (.seat seat)) {label : L}
    (ho : g.observation q.state = some label) :
    ∑ i ∈ Finset.range (g.actions q.state).length, numbers (q.past.get seat ++ [(label, i)]) =
      numbers (q.past.get seat) := by
  have hr := hx.sound.registry seat
  obtain ⟨j, info, hj, hsee⟩ := (hx.recorded hq).infoset seat hp
  obtain ⟨k, parent, first, -, hparent, hset⟩ := hr.exists_isSet hj
  obtain ⟨n, hflat, hpast⟩ := hr.exists_flat hsee.parent
  cases hparent.symm.trans hflat
  cases ho.symm.trans hsee.observation
  rw [← hf.tree_eq] at hset hpast
  have hflow := (hset.flow_iff x).mp (hplan.flow k hset.lt_size)
  rw [hsee.actions, hn hpast] at hflow
  rw [← hflow]
  refine Finset.sum_congr rfl fun i hi => ?_
  rw [hn (.move hset (hsee.actions ▸ Finset.mem_range.mp hi) hpast)]

theorem Explored.conserves (hx : g.Explored start found) (hf : found.Forms form)
    (hfair : g.Fair start) {plans : PerSeat (Array Rat)} {numbers : PerSeat (History L → Rat)}
    (hplan : ∀ seat, (form.tree seat).IsPlan (plans.get seat))
    (hn : ∀ (seat : Seat) {n : Nat} {past : History L}, (form.tree seat).OwnHistory n past →
      (plans.get seat).getD n 0 = numbers.get seat past)
    {q : Position σ L Rat} (hq : g.Reaches (.start start) q) : g.Conserves (product numbers) q := by
  cases hp : g.player q.state with
  | none => exact fun hne => absurd hp hne
  | some player =>
    cases player with
    | chance => exact conserves_of_chance hp (hfair q hq hp)
    | seat seat =>
      obtain ⟨label, ho⟩ := Option.isSome_iff_exists.mp ((hx.recorded hq).answers.observation seat hp)
      exact conserves_of_seat hp ho (hx.flow hf (hplan seat) (hn seat) hq hp ho)

end Game

end Flow

namespace SequenceForm

variable {L A : Type} {f f' : SequenceForm L A Rat} {k c : Rat} {x y : Array Rat}

structure Rescales (f f' : SequenceForm L A Rat) (k c : Rat) (x y : Array Rat) : Prop where
  value : ∃ v, f.value x y = .ok v ∧ f'.value x y = .ok (k * v + c)
  gap : ∃ m, f.gap x y = .ok m ∧ f'.gap x y = .ok (k * m)

def BetweenRescaled (f f' : SequenceForm L A Rat) (k c : Rat) : Prop :=
  ∀ {x y}, f.first.IsPlan x → f.second.IsPlan y →
    f'.payoff.between x y = k * f.payoff.between x y + c

theorem image_rescale {α : Type} {P : α → Prop} {b b' : α → Rat}
    (h : ∀ a, P a → b' a = k * b a + c) :
    {v | ∃ a, P a ∧ b' a = v} = (fun v => k * v + c) '' {v | ∃ a, P a ∧ b a = v} := by
  ext v
  simp only [Set.mem_ofPred_eq, Set.mem_image]
  constructor
  · rintro ⟨a, ha, rfl⟩
    exact ⟨_, ⟨a, ha, rfl⟩, (h a ha).symm⟩
  · rintro ⟨_, ⟨a, ha, rfl⟩, rfl⟩
    exact ⟨a, ha, h a ha⟩

theorem rescales_of_between (htree : ∀ seat, f'.tree seat = f.tree seat)
    (hb : f.BetweenRescaled f' k c) (hc : f.check = .ok ()) (hc' : f'.check = .ok ()) (hk : 0 < k)
    (hx : f.first.IsPlan x) (hy : f.second.IsPlan y) : f.Rescales f' k c x y := by
  have hfirst : f'.first = f.first := htree .first
  have hsecond : f'.second = f.second := htree .second
  have hx' : f'.first.IsPlan x := hfirst ▸ hx
  have hy' : f'.second.IsPlan y := hsecond ▸ hy
  have hmono : Monotone fun v : Rat => k * v + c := by
    intro v w hvw
    have hle := mul_le_mul_of_nonneg_left hvw hk.le
    dsimp only
    linarith
  constructor
  · refine ⟨_, value_eq_between (checkPlans_eq_ok_iff.mpr ⟨hc, hx.size_eq, hy.size_eq⟩), ?_⟩
    rw [value_eq_between (checkPlans_eq_ok_iff.mpr ⟨hc', hx'.size_eq, hy'.size_eq⟩), hb hx hy]
  · obtain ⟨best, worst, hgap, hbest, hworst, -⟩ := exists_gap_eq_sub hc hx hy
    obtain ⟨best', worst', hgap', hbest', hworst', -⟩ := exists_gap_eq_sub hc' hx' hy'
    have hagainst : f'.valuesAgainst y = (fun v => k * v + c) '' f.valuesAgainst y := by
      rw [valuesAgainst, hfirst]
      exact image_rescale fun x' hx' => hb hx' hy
    have hof : f'.valuesOf x = (fun v => k * v + c) '' f.valuesOf x := by
      rw [valuesOf, hsecond]
      exact image_rescale fun y' hy' => hb hx hy'
    have hb' : best' = k * best + c := hbest'.unique (hagainst ▸ hmono.map_isGreatest hbest)
    have hw' : worst' = k * worst + c := hworst'.unique (hof ▸ hmono.map_isLeast hworst)
    refine ⟨_, hgap, ?_⟩
    rw [hgap', hb', hw']
    ring_nf

end SequenceForm

namespace Game

variable {σ L A : Type} [BEq L] [Hashable L] [BEq A] [LawfulBEq L] [LawfulBEq A]
  {g : Game σ A L Rat} {start : σ} {form : SequenceForm L A Rat} {d fuel : Nat} {k : Rat}

/-- Two plans have the rescaled value, as all of the shift arrives at the ends of the plays. -/
theorem Explores.betweenRescaled {found found' : Exploration L A Rat} {form' : SequenceForm L A Rat}
    {c : Rat} (hw : g.Explores [.start start] .empty found) (hx : g.Explored start found)
    (hw' : (g.rescale k c).Explores [.start start] .empty found') (hd : g.EndsWithin d start)
    (hf : found.Forms form) (hf' : found'.Forms form')
    (htree : ∀ seat, form'.tree seat = form.tree seat) (hfair : g.Fair start) :
    form.BetweenRescaled form' k c := by
  intro x y hplan hplan'
  have hplans : ∀ seat, (form.tree seat).IsPlan ((⟨x, y⟩ : PerSeat (Array Rat)).get seat) := by
    intro seat
    cases seat with
    | first => exact hplan
    | second => exact hplan'
  obtain ⟨u, hu⟩ := hf.exists_numbers hx.sound .first x
  obtain ⟨v, hv⟩ := hf.exists_numbers hx.sound .second y
  have hnumbers : ∀ (seat : Seat) {n : Nat} {past : History L}, (form.tree seat).OwnHistory n past →
      ((⟨x, y⟩ : PerSeat (Array Rat)).get seat).getD n 0 = (⟨u, v⟩ : PerSeat _).get seat past := by
    intro seat n past h
    cases seat with
    | first => exact hu h
    | second => exact hv h
  have hfirst : form'.first = form.first := htree .first
  have hsecond : form'.second = form.second := htree .second
  have hmass : g.mass d (product ⟨u, v⟩) (.start start) = 1 := by
    have hroot : u [] = 1 := by
      rw [← hu .empty, Array.getD_eq_getD_getElem?, hplan.root, Option.getD_some]
    have hroot' : v [] = 1 := by
      rw [← hv .empty, Array.getD_eq_getD_getElem?, hplan'.root, Option.getD_some]
    rw [mass_eq hd fun q hq => hx.conserves hf hfair hplans hnumbers hq]
    simp [Position.start, product, PerSeat.both, hroot, hroot']
  have hpay : ∀ q ∈ g.endings d (.start start), (g.payoff q.state).isSome := by
    intro q hq
    obtain ⟨hreach, hend⟩ := mem_endings hq
    exact (hx.recorded hreach).answers.payoff hend
  calc
    form'.payoff.between x y = (g.rescale k c).earnings d (product ⟨u, v⟩) (.start start) :=
      hw'.between_eq (endsWithin_rescale_iff.mpr hd) hf' (hfirst ▸ hu) (hsecond ▸ hv)
    _ = k * g.earnings d (product ⟨u, v⟩) (.start start) + c := by
      rw [earnings_rescale hpay, hmass, mul_one]
    _ = k * form.payoff.between x y + c := by
      rw [hw.between_eq hd hf hu hv]
      rfl

/-- Counting payoffs in another unit keeps the trees of a finite game that has a form, and if the
probabilities of chance sum up to one, all plans have the rescaled value and the multiplied gap. -/
theorem exists_build_rescale (hd : g.EndsWithin d start)
    (hbuild : g.build fuel start = some (.ok form)) (hfair : g.Fair start) (hk : 0 < k) (c : Rat) :
    ∃ form', (g.rescale k c).build fuel start = some (.ok form') ∧ form'.first = form.first ∧
      form'.second = form.second ∧
        ∀ x y, form.first.IsPlan x → form.second.IsPlan y → form.Rescales form' k c x y := by
  obtain ⟨found, hfound, hf⟩ := build_eq_ok_iff.mp hbuild
  obtain ⟨found', hfound', hsets⟩ := explore_rescale (k := k) (c := c) hfound
  obtain ⟨form', hf'⟩ := (explored_of_explore hfound').sound.exists_form
  have hbuild' := build_eq_ok_iff.mpr ⟨found', hfound', hf'⟩
  have htree : ∀ seat, form'.tree seat = form.tree seat := by
    intro seat
    rw [hf.tree_eq, hf'.tree_eq, hsets]
  have hbetween : form.BetweenRescaled form' k c :=
    (explores_of_explore hfound).betweenRescaled (explored_of_explore hfound)
      (explores_of_explore hfound') hd hf hf' htree hfair
  refine ⟨form', hbuild', htree .first, htree .second, fun x y hx hy => ?_⟩
  exact SequenceForm.rescales_of_between htree hbetween (check_eq_ok_of_build hbuild)
    (check_eq_ok_of_build hbuild') hk hx hy

end Game

theorem fair_raffle : raffle.Fair 0 := by
  have hall : ∀ q ∈ raffle.positions 3 (.start 0), raffle.player q.state = some .chance →
      ((raffle.actions q.state).map fun a => (raffle.chanceProb q.state a).getD 0).sum = 1 := by
    decide +kernel
  exact fun q hq => hall q ((Game.mem_positions_iff endsWithin_raffle).mpr hq)

theorem exists_build_rescale_raffle : ∃ form form', raffle.build 11 0 = some (.ok form) ∧
    (raffle.rescale (1 / 3) 2).build 11 0 = some (.ok form') ∧ form'.first = form.first ∧
      form'.second = form.second ∧
        ∀ x y, form.first.IsPlan x → form.second.IsPlan y → form.Rescales form' (1 / 3) 2 x y := by
  obtain ⟨form, hform⟩ := wellFormed_raffle.exists_build endsWithin_raffle treeSize_raffle.le
  obtain ⟨form', hform', hrest⟩ :=
    Game.exists_build_rescale endsWithin_raffle hform fair_raffle
      (show (0 : Rat) < 1 / 3 by norm_num) 2
  exact ⟨form, form', hform, hform', hrest⟩

end ExtensiveForm
