import ExtensiveForm.Json.Skip

/-!
Typed readers of JSON. A text is read from left to right and its first fault decides, so a reader
that meets a word, a number or a string it does not want still reads it to its end before it
complains.
-/

set_option autoImplicit false

namespace ExtensiveForm.Json

/-- A way to read a value off the front of a text. It takes one character at least. -/
structure Reader (α : Type) where
  run : List Char → Reading α
  shorter : ∀ {s r a}, run s = .ok (a, r) → r.length < s.length

def unwanted (c : Char) (r : List Char) : Fault :=
  let word (w : String) : Fault :=
    match readWord w.toList r with
    | .error e => e
    | .ok _ => .mismatched
  if c = 'n' then word "ull"
  else if c = 't' then word "rue"
  else if c = 'f' then word "alse"
  else if c = '-' ∨ c.isDigit then
    match readNumber (c :: r) with
    | .error e => e
    | .ok _ => .mismatched
  else if c = '"' then
    match readString r with
    | .error e => e
    | .ok _ => .mismatched
  else if c = '[' ∨ c = '\x7b' then .mismatched
  else .malformed

namespace Reader

variable {α β : Type}

def ofHead (f : Char → List Char → Reading α)
    (hf : ∀ {c s r a}, f c s = .ok (a, r) → r.length ≤ s.length) : Reader α where
  run s :=
    match skipBlank s with
    | [] => .error .ended
    | c :: r => f c r
  shorter {s r a} h := by
    split at h
    · simp at h
    · rename_i c t hs
      have h₀ := length_skipBlank_le s
      rw [hs, List.length_cons] at h₀
      exact Nat.lt_of_le_of_lt (hf h) h₀

def filterMap (rd : Reader α) (f : α → Option β) : Reader β where
  run s :=
    match rd.run s with
    | .error e => .error e
    | .ok (a, r) =>
      match f a with
      | none => .error .mismatched
      | some b => .ok (b, r)
  shorter {s r a} h := by
    split at h
    · simp at h
    · rename_i hr
      split at h
      · simp at h
      · simp only [Except.ok.injEq, Prod.mk.injEq] at h
        rw [← h.2]
        exact rd.shorter hr

def map (rd : Reader α) (f : α → β) : Reader β := rd.filterMap (some ∘ f)

def number : Reader Number :=
  ofHead (fun c r => if c = '-' ∨ c.isDigit then readNumber (c :: r) else .error (unwanted c r)) <| by
    intro c s r a h
    split at h
    · exact Nat.le_of_lt_succ (length_of_readNumber h)
    · simp at h

def integer (low high : Int) : Reader Int :=
  number.filterMap fun
    | .int n => if low ≤ n ∧ n < high then some n else none
    | .float _ => none

def index : Reader Nat := (integer 0 (Int.pow 2 64)).map Int.toNat

def Number.toFloat : Number → Float
  | .int (.ofNat n) => n.toUInt64.toFloat
  | .int (.negSucc n) => -(n + 1).toUInt64.toFloat
  | .float x => x

def float : Reader Float := number.map Number.toFloat

def string : Reader String :=
  ofHead (fun c r => if c = '"' then readString r else .error (unwanted c r)) <| by
    intro c s r a h
    split at h
    · exact Nat.le_of_lt (length_of_readString h)
    · simp at h

/-- Reads the items up to the closing bracket; `acc` holds those before, last first. -/
def itemsFrom (item : Reader α) (acc : List α) (fresh : Bool) (s : List Char) : Reading (List α) :=
  match _hs : skipBlank s with
  | [] => .error .ended
  | c :: r =>
    if c = ']' then .ok (acc.reverse, r)
    else if fresh then
      match _hr : item.run (c :: r) with
      | .error e => .error e
      | .ok (a, rest) => itemsFrom item (a :: acc) false rest
    else if c = ',' then
      match _ht : skipBlank r with
      | [] => .error .ended
      | d :: t =>
        if d = ']' then .error .malformed
        else
          match _hr : item.run (d :: t) with
          | .error e => .error e
          | .ok (a, rest) => itemsFrom item (a :: acc) false rest
    else .error .malformed
termination_by s.length
decreasing_by
  all_goals
    have h₀ := length_skipBlank_le s
    have h₁ := item.shorter _hr
    rw [_hs] at h₀
    simp only [List.length_cons] at h₀ h₁
  · omega
  · have h₂ := length_skipBlank_le r
    rw [_ht] at h₂
    simp only [List.length_cons] at h₂
    omega

theorem length_of_itemsFrom {item : Reader α} {acc as : List α} {fresh : Bool} {s r : List Char}
    (h : itemsFrom item acc fresh s = .ok (as, r)) : r.length < s.length := by
  fun_induction itemsFrom item acc fresh s with
  | case1 => simp at h
  | case2 acc fresh s t hs =>
    have h₀ := length_skipBlank_le s
    simp only [Except.ok.injEq, Prod.mk.injEq] at h
    simp [hs, h.2] at h₀; omega
  | case3 => simp at h
  | case4 acc s c t hs _ a rest hr ih =>
    have h₀ := length_skipBlank_le s
    have := item.shorter hr
    have := ih h
    simp [hs] at *; omega
  | case5 => simp at h
  | case6 => simp at h
  | case7 => simp at h
  | case8 acc fresh s t _ d u ht _ a rest hr hs _ ih =>
    have h₀ := length_skipBlank_le s
    have h₂ := length_skipBlank_le t
    have := item.shorter hr
    have := ih h
    simp [hs, ht] at *; omega
  | case9 => simp at h

def list (item : Reader α) : Reader (List α) :=
  ofHead (fun c r => if c = '[' then itemsFrom item [] true r else .error (unwanted c r)) <| by
    intro c s r a h
    split at h
    · exact Nat.le_of_lt (length_of_itemsFrom h)
    · simp at h

inductive Member (σ : Type) where
  | unknown
  | repeated
  | wanted (value : Reader σ)

def readKey (s : List Char) : Except Fault (String × (List Char)) :=
  match s with
  | [] => .error .ended
  | c :: r => if c = '"' then readString r else .error .malformed

def readColon (s : List Char) : Except Fault (List Char) :=
  match skipBlank s with
  | [] => .error .ended
  | c :: r => if c = ':' then .ok r else .error .malformed

def readMember {σ : Type} (member : String → σ → Member σ) (state : σ) (s : List Char) :
    Reading σ :=
  match readKey s with
  | .error e => .error e
  | .ok (key, r) =>
    match member key state with
    | .repeated => .error .mismatched
    | .unknown =>
      match readColon r with
      | .error e => .error e
      | .ok t => (skipValue t).map (state, ·)
    | .wanted value =>
      match readColon r with
      | .error e => .error e
      | .ok t => value.run t

theorem length_of_readKey {s r : List Char} {k : String} (h : readKey s = .ok (k, r)) :
    r.length < s.length := by
  unfold readKey at h
  split at h
  · simp at h
  · split at h
    · have := length_of_readString h; simp; omega
    · simp at h

theorem length_of_readColon {s r : List Char} (h : readColon s = .ok r) : r.length < s.length := by
  unfold readColon at h
  split at h
  · simp at h
  · rename_i hs
    have h₀ := length_skipBlank_le s
    split at h
    · simp only [Except.ok.injEq] at h
      simp [hs, ← h] at *; omega
    · simp at h

theorem length_of_readMember {σ : Type} {member : String → σ → Member σ} {state next : σ}
    {s r : List Char} (h : readMember member state s = .ok (next, r)) : r.length < s.length := by
  unfold readMember at h
  split at h
  · simp at h
  · rename_i hk
    have h₁ := length_of_readKey hk
    split at h
    · simp at h
    · split at h
      · simp at h
      · rename_i t ht
        have h₂ := length_of_readColon ht
        cases hv : skipValue t with
        | error e => simp [hv, Except.map] at h
        | ok u =>
          have h₃ := length_of_skipValue hv
          simp only [hv, Except.map, Except.ok.injEq, Prod.mk.injEq] at h
          rw [← h.2]; omega
    · rename_i value _
      split at h
      · simp at h
      · rename_i ht
        have h₂ := length_of_readColon ht
        have h₃ := value.shorter h
        omega

def membersFrom {σ : Type} (member : String → σ → Member σ) (state : σ) (fresh : Bool)
    (s : List Char) : Reading σ :=
  match _hs : skipBlank s with
  | [] => .error .ended
  | c :: r =>
    if c = '}' then .ok (state, r)
    else if fresh then
      match _hr : readMember member state (c :: r) with
      | .error e => .error e
      | .ok (next, rest) => membersFrom member next false rest
    else if c = ',' then
      match _hr : readMember member state (skipBlank r) with
      | .error e => .error e
      | .ok (next, rest) => membersFrom member next false rest
    else .error .malformed
termination_by s.length
decreasing_by
  all_goals
    have h₀ := length_skipBlank_le s
    have h₁ := length_of_readMember _hr
    rw [_hs] at h₀
    simp only [List.length_cons] at h₀ h₁
  · omega
  · have h₂ := length_skipBlank_le r
    omega

theorem length_of_membersFrom {σ : Type} {member : String → σ → Member σ} {state next : σ}
    {fresh : Bool} {s r : List Char} (h : membersFrom member state fresh s = .ok (next, r)) :
    r.length < s.length := by
  fun_induction membersFrom member state fresh s with
  | case1 => simp at h
  | case2 state fresh s t hs =>
    have h₀ := length_skipBlank_le s
    simp only [Except.ok.injEq, Prod.mk.injEq] at h
    simp [hs, h.2] at h₀; omega
  | case3 => simp at h
  | case4 state s c t hs _ next rest hr ih =>
    have h₀ := length_skipBlank_le s
    have := length_of_readMember hr
    have := ih h
    simp [hs] at *; omega
  | case5 => simp at h
  | case6 state fresh s t _ next rest hr hs _ ih =>
    have h₀ := length_skipBlank_le s
    have h₂ := length_skipBlank_le t
    have := length_of_readMember hr
    have := ih h
    simp [hs] at *; omega
  | case7 => simp at h

def readItem (item : Reader α) (fresh : Bool) (s : List Char) : Reading α :=
  match skipBlank s with
  | [] => .error .ended
  | c :: r =>
    if c = ']' then .error .mismatched
    else if fresh then item.run (c :: r)
    else if c = ',' then
      match skipBlank r with
      | [] => .error .ended
      | d :: t => if d = ']' then .error .malformed else item.run (d :: t)
    else .error .malformed

theorem length_of_readItem {item : Reader α} {fresh : Bool} {s r : List Char} {a : α}
    (h : readItem item fresh s = .ok (a, r)) : r.length < s.length := by
  unfold readItem at h
  split at h
  · simp at h
  · rename_i c t hs
    have h₀ := length_skipBlank_le s
    rw [hs] at h₀
    split at h
    · simp at h
    · split at h
      · have := item.shorter h; omega
      · split at h
        · have h₂ := length_skipBlank_le t
          split at h
          · simp at h
          · rename_i ht
            rw [ht] at h₂
            split at h
            · simp at h
            · have := item.shorter h
              simp at *; omega
        · simp at h

def readEnd (s : List Char) : Except Fault (List Char) :=
  match skipBlank s with
  | [] => .error .ended
  | c :: r => if c = ']' then .ok r else .error .malformed

theorem length_of_readEnd {s r : List Char} (h : readEnd s = .ok r) : r.length < s.length := by
  unfold readEnd at h
  split at h
  · simp at h
  · rename_i hs
    have h₀ := length_skipBlank_le s
    split at h
    · simp only [Except.ok.injEq] at h
      simp [hs, ← h] at *; omega
    · simp at h

def partsFrom {σ : Type} (parts : List (σ → Reader σ)) (state : σ) (fresh : Bool)
    (s : List Char) : Reading σ :=
  match parts with
  | [] => (readEnd s).map (state, ·)
  | part :: rest =>
    match readItem (part state) fresh s with
    | .error e => .error e
    | .ok (next, r) => partsFrom rest next false r

theorem length_of_partsFrom {σ : Type} {parts : List (σ → Reader σ)} {state next : σ}
    {fresh : Bool} {s r : List Char} (h : partsFrom parts state fresh s = .ok (next, r)) :
    r.length < s.length := by
  induction parts generalizing state fresh s with
  | nil =>
    unfold partsFrom at h
    cases he : readEnd s with
    | error e => simp [he, Except.map] at h
    | ok u =>
      simp only [he, Except.map, Except.ok.injEq, Prod.mk.injEq] at h
      rw [← h.2]; exact length_of_readEnd he
  | cons part rest ih =>
    unfold partsFrom at h
    split at h
    · simp at h
    · rename_i he
      have := length_of_readItem he
      have := ih h
      omega

structure RecordPart (σ : Type) where
  key : String
  present : σ → Bool
  read : σ → Reader σ

def memberOf {σ : Type} (parts : List (RecordPart σ)) (key : String) (state : σ) : Member σ :=
  match parts.find? (·.key == key) with
  | none => .unknown
  | some part => if part.present state then .repeated else .wanted (part.read state)

/-- A record, written as an object, where other keys are passed over, or as a list of its parts. -/
def record {σ : Type} (parts : List (RecordPart σ)) (blank : σ) : Reader σ :=
  ofHead
    (fun c r =>
      if c = '{' then membersFrom (memberOf parts) blank true r
      else if c = '[' then partsFrom (parts.map RecordPart.read) blank true r
      else .error (unwanted c r)) <| by
    intro c s r a h
    split at h
    · exact Nat.le_of_lt (length_of_membersFrom h)
    · split at h
      · exact Nat.le_of_lt (length_of_partsFrom h)
      · simp at h

def word (w : String) (a : α) (s : List Char) : Reading α := (readWord w.toList s).map (a, ·)

theorem length_of_word {w : String} {a b : α} {s r : List Char} (h : word w a s = .ok (b, r)) :
    r.length ≤ s.length := by
  unfold word at h
  cases he : readWord w.toList s with
  | error e => simp [he, Except.map] at h
  | ok u =>
    simp only [he, Except.map, Except.ok.injEq, Prod.mk.injEq] at h
    rw [← h.2]; exact length_of_readWord he

/-- Inserts a member by its key; a later value takes the place of an earlier one. -/
def insertMember (key : String) (value : Json) : List (String × Json) → List (String × Json)
  | [] => [(key, value)]
  | (k, v) :: rest =>
    if key < k then (key, value) :: (k, v) :: rest
    else if key = k then (key, value) :: rest
    else (k, v) :: insertMember key value rest

def readScalar (c : Char) (r : List Char) : Reading Json :=
  if c = 'n' then word "ull" .null r
  else if c = 't' then word "rue" (.bool true) r
  else if c = 'f' then word "alse" (.bool false) r
  else if c = '-' ∨ c.isDigit then
    match readNumber (c :: r) with
    | .error e => .error e
    | .ok (n, rest) => .ok (.number n, rest)
  else if c = '"' then
    match readString r with
    | .error e => .error e
    | .ok (t, rest) => .ok (.string t, rest)
  else .error .malformed

theorem length_of_readScalar {c : Char} {s r : List Char} {a : Json}
    (h : readScalar c s = .ok (a, r)) : r.length ≤ s.length := by
  unfold readScalar at h
  split at h
  · exact length_of_word h
  · split at h
    · exact length_of_word h
    · split at h
      · exact length_of_word h
      · split at h
        · split at h
          · simp at h
          · rename_i hn
            have := length_of_readNumber hn
            simp only [Except.ok.injEq, Prod.mk.injEq] at h
            rw [← h.2]; simp at this; omega
        · split at h
          · split at h
            · simp at h
            · rename_i hn
              have := length_of_readString hn
              simp only [Except.ok.injEq, Prod.mk.injEq] at h
              rw [← h.2]; omega
          · simp at h

def readNested (inner : Reader Json) (c : Char) (r : List Char) : Reading Json :=
  if c = '[' then
    match itemsFrom inner [] true r with
    | .error e => .error e
    | .ok (items, rest) => .ok (.array items, rest)
  else if c = '\x7b' then
    match membersFrom (fun key ms => .wanted (inner.map (insertMember key · ms))) [] true r with
    | .error e => .error e
    | .ok (members, rest) => .ok (.object members, rest)
  else readScalar c r

theorem length_of_readNested {inner : Reader Json} {c : Char} {s r : List Char} {a : Json}
    (h : readNested inner c s = .ok (a, r)) : r.length ≤ s.length := by
  unfold readNested at h
  split at h
  · split at h
    · simp at h
    · rename_i hi
      simp only [Except.ok.injEq, Prod.mk.injEq] at h
      rw [← h.2]; exact Nat.le_of_lt (length_of_itemsFrom hi)
  · split at h
    · split at h
      · simp at h
      · rename_i hi
        simp only [Except.ok.injEq, Prod.mk.injEq] at h
        rw [← h.2]; exact Nat.le_of_lt (length_of_membersFrom hi)
    · exact length_of_readScalar h

/-- Any value whose brackets are nested no deeper than `depth`. -/
def value : (depth : Nat) → Reader Json
  | 0 => ofHead readScalar length_of_readScalar
  | depth + 1 => ofHead (readNested (value depth)) length_of_readNested

def ofText (rd : Reader α) (text : String) : Except Fault α :=
  match rd.run text.toList with
  | .error e => .error e
  | .ok (a, rest) => if (skipBlank rest).isEmpty then .ok a else .error .malformed

end Reader

def deepest : Nat := 127

def ofText (text : String) : Except Fault Json := (Reader.value deepest).ofText text

end ExtensiveForm.Json
