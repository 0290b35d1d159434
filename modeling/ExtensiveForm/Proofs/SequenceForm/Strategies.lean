import ExtensiveForm.Proofs.SequenceForm.Build
import ExtensiveForm.Proofs.Valuation

set_option autoImplicit false

namespace ExtensiveForm

variable {σ L A R : Type} [BEq L] [Hashable L]

def SequenceForm.uniformProfile [Scalar R] (form : SequenceForm L A R) : Profile L R :=
  ⟨form.first.uniformBehavior, form.second.uniformBehavior⟩

theorem SequenceForm.get_uniformProfile [Scalar R] (form : SequenceForm L A R) (seat : Seat) :
    form.uniformProfile.get seat = (form.tree seat).uniformBehavior := by
  cases seat <;> rfl

namespace Game

variable [Scalar R] {g : Game σ A L R} {start : σ} {found : Exploration L A R}
  {form : SequenceForm L A R} {seat : Seat}

def Plays (g : Game σ A L R) (P : List R → Prop) (start : σ) (seat : Seat) (b : Behavior L R) :
    Prop :=
  ∀ q label, g.Reaches (.start start) q → g.player q.state = some (.seat seat) →
    g.observation q.state = some label →
      ∃ numbers, b.at? label (g.actions q.state).length = .ok numbers ∧ P numbers

theorem Explored.plays_iff (hx : g.Explored start found) (hf : found.Forms form)
    {P : List R → Prop} {b : Behavior L R} :
    (form.tree seat).Plays P b ↔ g.Plays P start seat b := by
  constructor
  · intro h q label hq hp ho
    obtain ⟨k, parent, first, hk⟩ := (hx.exists_isSet_iff hf).mpr ⟨q, hq, hp, ho, rfl⟩
    exact h hk
  · intro h k parent first label actions hk
    obtain ⟨q, hq, hp, ho, rfl⟩ := (hx.exists_isSet_iff hf).mp ⟨k, parent, first, hk⟩
    exact h q label hq hp ho

theorem Explored.serves_iff (hx : g.Explored start found) (hf : found.Forms form)
    {profile : Profile L R} :
    (∀ q, g.Reaches (.start start) q → g.Serves q.state profile) ↔
      ∀ seat, (form.tree seat).Serves (profile.get seat) := by
  constructor
  · intro h seat k parent first label actions hk
    obtain ⟨q, hq, hp, ho, rfl⟩ := (hx.exists_isSet_iff hf).mp ⟨k, parent, first, hk⟩
    exact h q hq seat label hp ho
  · intro h q hq seat label hp ho
    obtain ⟨k, parent, first, hk⟩ := (hx.exists_isSet_iff hf).mpr ⟨q, hq, hp, ho, rfl⟩
    exact h seat hk

theorem Explored.getElem?_uniformBehavior [LawfulBEq L] (hx : g.Explored start found)
    (hf : found.Forms form) {s : σ} {label : L} (hs : g.Leads start s)
    (hp : g.player s = some (.seat seat)) (ho : g.observation s = some label) :
    (form.uniformProfile.get seat)[label]? =
      some (SequenceTree.evenNumbers (g.actions s).length) := by
  rw [form.get_uniformProfile]
  obtain ⟨q, hq, rfl⟩ := Leads.exists_reaches (p := .start start) hs
  obtain ⟨k, parent, first, hk⟩ := (hx.exists_isSet_iff hf).mpr ⟨q, hq, hp, ho, rfl⟩
  exact (hk.last (hf.nodup_label hx.sound seat)).getElem?_uniformBehavior hk.actions_eq

end Game

end ExtensiveForm
