set_option autoImplicit false

namespace ExtensiveForm.Games

def seen (holding : String) (history : List String) : String :=
  String.intercalate "," (holding :: history)

def repeatedAfter : List Char → List Char → Option Char
  | _, [] => none
  | before, c :: rest => if c ∈ before then some c else repeatedAfter (c :: before) rest

def repeated? (cs : List Char) : Option Char := repeatedAfter [] cs

theorem repeatedAfter_eq_none_iff {before cs : List Char} :
    repeatedAfter before cs = none ↔ cs.Nodup ∧ ∀ c ∈ cs, c ∉ before := by
  induction cs generalizing before with
  | nil => simp [repeatedAfter]
  | cons c rest ih =>
    by_cases h : c ∈ before
    · simp [repeatedAfter, h]
    · simp only [repeatedAfter, h, if_false, ih, List.nodup_cons, List.mem_cons, not_or]
      constructor
      · rintro ⟨hn, hd⟩
        refine ⟨⟨fun hc => (hd c hc).1 rfl, hn⟩, ?_⟩
        rintro d (rfl | hd')
        · exact h
        · exact (hd d hd').2
      · rintro ⟨⟨hc, hn⟩, hd⟩
        exact ⟨hn, fun d hd' => ⟨fun e => hc (e ▸ hd'), hd d (Or.inr hd')⟩⟩

theorem repeated?_eq_none_iff {cs : List Char} : repeated? cs = none ↔ cs.Nodup := by
  simp [repeated?, repeatedAfter_eq_none_iff]

theorem length_filter_ne {cs : List Char} {c : Char} (hn : cs.Nodup) (hc : c ∈ cs) :
    (cs.filter (· ≠ c)).length + 1 = cs.length := by
  have herase : cs.filter (· ≠ c) = cs.erase c := by
    rw [hn.erase_eq_filter]
    exact List.filter_congr fun d _ => by by_cases hd : d = c <;> simp [hd]
  have hpos := List.length_pos_of_mem hc
  rw [herase, List.length_erase_of_mem hc]
  omega

def rank? (deck : List Char) (card : Char) : Option Nat := deck.idxOf? card

theorem rank?_of_mem {deck : List Char} {card : Char} (h : card ∈ deck) :
    rank? deck card = some (deck.idxOf card) :=
  List.findIdx?_eq_some_of_exists ⟨card, h, beq_self_eq_true card⟩

theorem idxOf_of_rank {deck : List Char} {card : Char} {r : Nat} (h : rank? deck card = some r) :
    deck.idxOf card = r := by
  have hmem : card ∈ deck := List.isSome_idxOf?.mp (Option.isSome_of_eq_some h)
  rw [rank?_of_mem hmem] at h
  exact Option.some.inj h

/-- The card of a seat in a deal, which names the first seat's card first. -/
def cardAt? (deal : Option String) (i : Nat) : Option Char := deal.bind (·.toList[i]?)

end ExtensiveForm.Games
