set_option autoImplicit false

namespace ExtensiveForm

/-- One of the two opponents. Payoffs are the first one's gain. -/
inductive Seat where
  | first
  | second
  deriving DecidableEq, Repr, Hashable

namespace Seat

def opponent : Seat → Seat
  | first => second
  | second => first

@[simp] theorem opponent_opponent (s : Seat) : s.opponent.opponent = s := by cases s <;> rfl

theorem opponent_ne (s : Seat) : s.opponent ≠ s := by cases s <;> decide

def index : Seat → Nat
  | first => 0
  | second => 1

theorem index_injective {s t : Seat} (h : s.index = t.index) : s = t := by
  cases s <;> cases t <;> simp_all [index]

protected def text : Seat → String
  | first => "first player"
  | second => "second player"

end Seat

inductive Player where
  | seat (s : Seat)
  | chance
  deriving DecidableEq, Repr

namespace Player

def seat? : Player → Option Seat
  | seat s => some s
  | chance => none

@[simp] theorem seat?_seat (s : Seat) : (seat s).seat? = some s := rfl

@[simp] theorem seat?_chance : chance.seat? = none := rfl

theorem seat?_eq_some_iff {p : Player} {s : Seat} : p.seat? = some s ↔ p = seat s := by
  cases p <;> simp [seat?]

protected def text : Player → String
  | seat s => s.text
  | chance => "chance"

end Player

structure PerSeat (α : Type) where
  first : α
  second : α
  deriving DecidableEq, Repr, Hashable

namespace PerSeat

variable {α β : Type}

def get (p : PerSeat α) : Seat → α
  | .first => p.first
  | .second => p.second

def set (p : PerSeat α) : Seat → α → PerSeat α
  | .first, a => { p with first := a }
  | .second, a => { p with second := a }

@[simp] theorem get_set_self (p : PerSeat α) (s : Seat) (a : α) : (p.set s a).get s = a := by
  cases s <;> rfl

@[simp] theorem get_set_opponent (p : PerSeat α) (s : Seat) (a : α) :
    (p.set s a).get s.opponent = p.get s.opponent := by cases s <;> rfl

theorem get_set (p : PerSeat α) (s t : Seat) (a : α) :
    (p.set s a).get t = if t = s then a else p.get t := by cases s <;> cases t <;> rfl

theorem ext_get {p q : PerSeat α} (h : ∀ s, p.get s = q.get s) : p = q := by
  obtain ⟨a, b⟩ := p
  obtain ⟨c, d⟩ := q
  rw [show a = c from h .first, show b = d from h .second]

def both (a : α) : PerSeat α := ⟨a, a⟩

@[simp] theorem get_both (a : α) (s : Seat) : (both a).get s = a := by cases s <;> rfl

def map (f : α → β) (p : PerSeat α) : PerSeat β := ⟨f p.first, f p.second⟩

@[simp] theorem get_map (f : α → β) (p : PerSeat α) (s : Seat) : (p.map f).get s = f (p.get s) := by
  cases s <;> rfl

def swap (p : PerSeat α) : PerSeat α := ⟨p.second, p.first⟩

@[simp] theorem swap_swap (p : PerSeat α) : p.swap.swap = p := rfl

@[simp] theorem get_swap (p : PerSeat α) (s : Seat) : p.swap.get s = p.get s.opponent := by
  cases s <;> rfl

end PerSeat

end ExtensiveForm
