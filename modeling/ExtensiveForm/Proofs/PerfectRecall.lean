import ExtensiveForm.Game.Table
import ExtensiveForm.Proofs.SequenceForm.Build

/-!
Which games have a sequence form. Main statement: a game whose plays all end is built exactly if all
questions about its reachable states have answers and both seats recall all they did and saw.
-/

set_option autoImplicit false

namespace ExtensiveForm

namespace Game

variable {σ L A R : Type} [Scalar R] {g : Game σ A L R} {start : σ} {d fuel : Nat}

/-- Two positions do not contradict each other, if a seat cannot tell them apart. -/
def Agree (g : Game σ A L R) (p q : Position σ L R) : Prop :=
  ∀ seat ∈ [Seat.first, Seat.second], g.player p.state = some (.seat seat) →
    g.player q.state = some (.seat seat) → (g.observation p.state).isSome →
      g.observation p.state = g.observation q.state →
        g.actions p.state = g.actions q.state ∧ p.past.get seat = q.past.get seat

instance [DecidableEq L] [DecidableEq A] (g : Game σ A L R) (p q : Position σ L R) :
    Decidable (g.Agree p q) :=
  inferInstanceAs (Decidable (∀ seat ∈ [Seat.first, Seat.second], _))

/-- Well-formedness can be checked position by position. -/
theorem wellFormed_iff (hd : g.EndsWithin d start) : g.WellFormed start ↔
    (∀ p ∈ g.positions d (.start start), (g.node p.state).isOk) ∧
      ∀ p ∈ g.positions d (.start start), ∀ q ∈ g.positions d (.start start), g.Agree p q := by
  have hmem : ∀ p, p ∈ g.positions d (.start start) ↔ g.Reaches (.start start) p :=
    fun p => mem_positions_iff hd
  simp only [hmem]
  have hnode : ∀ s, (g.node s).isOk ↔ g.Answers s := by
    intro s
    rw [← exists_node_iff]
    cases g.node s <;> simp [Except.isOk, Except.toBool]
  simp only [hnode]
  constructor
  · intro h
    refine ⟨h.answers, fun p hp q hq seat _ hps hqs hseen hsame => ?_⟩
    obtain ⟨label, hl⟩ := Option.isSome_iff_exists.mp hseen
    exact h.perfectRecall p q seat label hp hq hps hqs hl (hsame ▸ hl)
  · intro h
    refine ⟨h.1, fun p q seat label hp hq hps hqs hpl hql => ?_⟩
    have hseat : seat ∈ [Seat.first, Seat.second] := by cases seat <;> simp
    exact h.2 p hp q hq seat hseat hps hqs (by simp [hpl]) (hpl.trans hql.symm)

/-- Building a finite game ends, and gives a form exactly if the game is well-formed. -/
theorem exists_build_ok_iff_wellFormed [BEq L] [LawfulBEq L] [Hashable L] [BEq A] [LawfulBEq A]
    (hd : g.EndsWithin d start) (hfuel : g.treeSize d start ≤ fuel) :
    ∃ result, g.build fuel start = some result ∧
      ((∃ form, result = .ok form) ↔ g.WellFormed start) := by
  obtain ⟨result, hresult⟩ := exists_build hd hfuel
  refine ⟨result, hresult, ?_, fun hg => ?_⟩
  · intro h
    obtain ⟨form, rfl⟩ := h
    obtain ⟨found, -, hx, -⟩ := exists_explored hresult
    exact hx.wellFormed
  · obtain ⟨form, hform⟩ := hg.exists_build hd hfuel
    exact ⟨form, Option.some.inj (hresult.symm.trans hform)⟩

end Game

def pennies : Game Nat Nat Nat Rat :=
  Table.game #[
    ⟨some (.seat .first), some 0, none, [⟨0, 1, none⟩, ⟨1, 2, none⟩]⟩,
    ⟨some (.seat .second), some 1, none, [⟨0, 3, none⟩, ⟨1, 4, none⟩]⟩,
    ⟨some (.seat .second), some 1, none, [⟨0, 4, none⟩, ⟨1, 3, none⟩]⟩,
    ⟨none, none, some 1, []⟩,
    ⟨none, none, some (-1), []⟩]

theorem endsWithin_pennies : pennies.EndsWithin 2 0 := by decide

theorem treeSize_pennies : pennies.treeSize 2 0 = 7 := by decide

theorem wellFormed_pennies : pennies.WellFormed 0 :=
  (Game.wellFormed_iff endsWithin_pennies).mpr (by decide)

theorem exists_build_pennies : ∃ result, pennies.build 7 0 = some result ∧
    ((∃ form, result = .ok form) ↔ pennies.WellFormed 0) :=
  Game.exists_build_ok_iff_wellFormed endsWithin_pennies treeSize_pennies.le

/-- A draw that the first seat sees. After its first action the second seat, which has not seen the
draw, chooses how much is paid. -/
def raffle : Game Nat Nat Nat Rat :=
  Table.game #[
    ⟨some .chance, none, none, [⟨0, 1, some (1 / 3)⟩, ⟨1, 2, some (2 / 3)⟩]⟩,
    ⟨some (.seat .first), some 0, none, [⟨0, 3, none⟩, ⟨1, 5, none⟩]⟩,
    ⟨some (.seat .first), some 1, none, [⟨0, 4, none⟩, ⟨1, 6, none⟩]⟩,
    ⟨some (.seat .second), some 2, none, [⟨0, 7, none⟩, ⟨1, 5, none⟩]⟩,
    ⟨some (.seat .second), some 2, none, [⟨0, 8, none⟩, ⟨1, 5, none⟩]⟩,
    ⟨none, none, some 1, []⟩,
    ⟨none, none, some (-1), []⟩,
    ⟨none, none, some 2, []⟩,
    ⟨none, none, some (-3), []⟩]

theorem endsWithin_raffle : raffle.EndsWithin 3 0 := by decide

theorem treeSize_raffle : raffle.treeSize 3 0 = 11 := by decide

theorem wellFormed_raffle : raffle.WellFormed 0 :=
  (Game.wellFormed_iff endsWithin_raffle).mpr (by decide)

end ExtensiveForm
