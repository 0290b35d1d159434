import ExtensiveForm.Json.Reader
import ExtensiveForm.Proofs.Positions

set_option autoImplicit false

namespace ExtensiveForm.Json.Reader

variable {α β σ : Type}

/-- What is read weighs no more than the text that is taken and a credit. -/
def Pays (rd : Reader α) (weight : α → Nat) (credit : Nat) : Prop :=
  ∀ ⦃s r : List Char⦄ ⦃a : α⦄, rd.run s = .ok (a, r) → weight a + r.length ≤ credit + s.length

theorem pays_one (rd : Reader α) : rd.Pays (fun _ => 1) 0 := by
  intro s r a h
  rw [Nat.zero_add, Nat.add_comm]
  exact rd.shorter h

section Basic

variable {weight : α → Nat} {credit : Nat}

theorem Pays.filterMap {rd : Reader α} {f : α → Option β} {weight' : β → Nat}
    (h : rd.Pays weight 0) (hf : ∀ a b, f a = some b → weight' b ≤ credit + weight a) :
    (rd.filterMap f).Pays weight' credit := by
  intro s r b hb
  simp only [Reader.filterMap] at hb
  split at hb
  · cases hb
  · rename_i a r' hr
    split at hb
    · cases hb
    · rename_i b' hfa
      cases hb
      have hle := h hr
      have hle' := hf _ _ hfa
      omega

theorem Pays.map {rd : Reader α} {f : α → β} {weight' : β → Nat} (h : rd.Pays weight 0)
    (hf : ∀ a, weight' (f a) ≤ credit + weight a) : (rd.map f).Pays weight' credit := by
  refine h.filterMap fun a b hb => ?_
  cases hb
  exact hf a

theorem pays_of_run_eq {rd : Reader α} {f : Char → List Char → Reading α}
    (hrun : ∀ s, rd.run s = match skipBlank s with
      | [] => .error .ended
      | c :: r => f c r)
    (h : ∀ {c s r a}, f c s = .ok (a, r) → weight a + r.length ≤ credit + s.length) :
    rd.Pays weight credit := by
  intro s r a ha
  rw [hrun] at ha
  split at ha
  · cases ha
  · rename_i c t hs
    have hskip := length_skipBlank_le s
    have hle := h ha
    rw [hs, List.length_cons] at hskip
    omega

/-- The items before count as well as those to come. -/
theorem sum_of_itemsFrom {item : Reader α} (hi : item.Pays weight 0) {acc as : List α} {fresh : Bool}
    {s r : List Char} (h : itemsFrom item acc fresh s = .ok (as, r)) :
    (as.map weight).sum + r.length ≤ (acc.map weight).sum + s.length := by
  fun_induction itemsFrom item acc fresh s with
  | case1 => cases h
  | case2 acc fresh s t hs =>
    have hskip := length_skipBlank_le s
    cases h
    rw [hs, List.length_cons] at hskip
    rw [List.map_reverse, List.sum_reverse]
    omega
  | case3 => cases h
  | case4 acc s c t hs _ a rest hr ih =>
    have hskip := length_skipBlank_le s
    have hitem := hi hr
    have hrest := ih h
    rw [hs] at hskip
    rw [List.map_cons, List.sum_cons] at hrest
    omega
  | case5 => cases h
  | case6 => cases h
  | case7 => cases h
  | case8 acc fresh s t _ d u ht _ a rest hr hs _ ih =>
    have hskip := length_skipBlank_le s
    have hskip' := length_skipBlank_le t
    have hitem := hi hr
    have hrest := ih h
    rw [hs, List.length_cons] at hskip
    rw [ht] at hskip'
    rw [List.map_cons, List.sum_cons] at hrest
    omega
  | case9 => cases h

theorem Pays.list {item : Reader α} (hi : item.Pays weight 0) :
    (list item).Pays (fun as => (as.map weight).sum) 0 := by
  refine pays_of_run_eq (fun _ => rfl) fun {c s r as} h => ?_
  split at h
  · simpa using sum_of_itemsFrom hi h
  · cases h

theorem pays_length (item : Reader α) : (list item).Pays List.length 0 := by
  have h := (pays_one item).list
  simpa [Pays] using h

end Basic

section Record

variable {weight : σ → Nat}

theorem weight_of_readMember {member : String → σ → Member σ} {state next : σ} {s r : List Char}
    (hm : ∀ key value, member key state = .wanted value → value.Pays weight (weight state))
    (h : readMember member state s = .ok (next, r)) :
    weight next + r.length ≤ weight state + s.length := by
  unfold readMember at h
  split at h
  · cases h
  · rename_i key t hk
    have hkey := length_of_readKey hk
    split at h
    · cases h
    · split at h
      · cases h
      · rename_i u hu
        have hcolon := length_of_readColon hu
        cases hv : skipValue u with
        | error e =>
          rw [hv] at h
          cases h
        | ok rest =>
          have hskip := length_of_skipValue hv
          rw [hv] at h
          cases h
          omega
    · rename_i value hvalue
      split at h
      · cases h
      · rename_i u hu
        have hcolon := length_of_readColon hu
        have hle := hm _ _ hvalue h
        omega

theorem weight_of_membersFrom {member : String → σ → Member σ} {state next : σ} {fresh : Bool}
    {s r : List Char}
    (hm : ∀ key state value, member key state = .wanted value → value.Pays weight (weight state))
    (h : membersFrom member state fresh s = .ok (next, r)) :
    weight next + r.length ≤ weight state + s.length := by
  fun_induction membersFrom member state fresh s with
  | case1 => cases h
  | case2 state fresh s t hs =>
    have hskip := length_skipBlank_le s
    cases h
    rw [hs, List.length_cons] at hskip
    omega
  | case3 => cases h
  | case4 state s c t hs _ next' rest hr ih =>
    have hskip := length_skipBlank_le s
    have hmember := weight_of_readMember (fun key value => hm key state value) hr
    have hrest := ih h
    rw [hs] at hskip
    omega
  | case5 => cases h
  | case6 state fresh s t _ next' rest hr hs _ ih =>
    have hskip := length_skipBlank_le s
    have hskip' := length_skipBlank_le t
    have hmember := weight_of_readMember (fun key value => hm key state value) hr
    have hrest := ih h
    rw [hs, List.length_cons] at hskip
    omega
  | case7 => cases h

theorem weight_of_readItem {item : Reader α} {weight : α → Nat} {credit : Nat}
    (hi : item.Pays weight credit) {fresh : Bool} {s r : List Char} {a : α}
    (h : readItem item fresh s = .ok (a, r)) : weight a + r.length ≤ credit + s.length := by
  unfold readItem at h
  split at h
  · cases h
  · rename_i c t hs
    have hskip := length_skipBlank_le s
    rw [hs] at hskip
    split at h
    · cases h
    · split at h
      · have hle := hi h
        omega
      · split at h
        · have hskip' := length_skipBlank_le t
          rw [List.length_cons] at hskip
          split at h
          · cases h
          · rename_i ht
            rw [ht] at hskip'
            split at h
            · cases h
            · have hle := hi h
              omega
        · cases h

theorem weight_of_partsFrom {parts : List (σ → Reader σ)} {state next : σ} {fresh : Bool}
    {s r : List Char} (hp : ∀ part ∈ parts, ∀ state, (part state).Pays weight (weight state))
    (h : partsFrom parts state fresh s = .ok (next, r)) :
    weight next + r.length ≤ weight state + s.length := by
  induction parts generalizing state fresh s with
  | nil =>
    unfold partsFrom at h
    cases he : readEnd s with
    | error e =>
      rw [he] at h
      cases h
    | ok rest =>
      have hend := length_of_readEnd he
      rw [he] at h
      cases h
      omega
  | cons part parts ih =>
    obtain ⟨hpart, hparts⟩ := List.forall_mem_cons.mp hp
    unfold partsFrom at h
    split at h
    · cases h
    · rename_i hitem
      have hle := weight_of_readItem (hpart state) hitem
      have hrest := ih hparts h
      omega

/-- A part that is written anew takes the place of what stood there before. -/
theorem pays_record {parts : List (RecordPart σ)} {blank : σ}
    (hp : ∀ part ∈ parts, ∀ state, (part.read state).Pays weight (weight state)) :
    (record parts blank).Pays weight (weight blank) := by
  have hmember : ∀ key state value, memberOf parts key state = .wanted value →
      value.Pays weight (weight state) := by
    intro key state value h
    unfold memberOf at h
    split at h
    · cases h
    · rename_i part hfind
      split at h
      · cases h
      · cases h
        exact hp part (List.mem_of_find?_eq_some hfind) state
  have hparts : ∀ part ∈ parts.map RecordPart.read, ∀ state,
      (part state).Pays weight (weight state) := by
    simpa using hp
  refine pays_of_run_eq (fun _ => rfl) fun {c s r next} h => ?_
  split at h
  · exact weight_of_membersFrom hmember h
  · split at h
    · exact weight_of_partsFrom hparts h
    · cases h

end Record

end ExtensiveForm.Json.Reader
