import ExtensiveForm.Proofs.Json.Number
import ExtensiveForm.Proofs.Json.Strings
import ExtensiveForm.Proofs.Json.Style

/-!
What comes of reading a value from its own text, in either style and at any place in a longer text.
Main statements: a list comes back as its items do, up to the first that does not, and a record as its
members do.
-/

set_option autoImplicit false

namespace ExtensiveForm.Json

open Reader (itemsFrom membersFrom readMember memberOf record RecordPart Member)

variable {α β σ : Type}

/-- Reading the text of a value, after blanks and before a text that does not go on with a number, takes
just this text and gives the result. -/
def Decodes (rd : Reader α) (j : Json) (result : Except Fault α) : Prop :=
  ∀ (w : Style) (depth : Nat) (blanks rest : List Char), blanks.all isBlank → Stops rest →
    rd.run (blanks ++ (w.write depth j ++ rest)) = result.map (·, rest)

theorem skipBlank_append {blanks : List Char} (hb : blanks.all isBlank) (s : List Char) :
    skipBlank (blanks ++ s) = skipBlank s := by
  induction blanks with
  | nil => rfl
  | cons c blanks ih =>
    obtain ⟨hc, hbs⟩ := Bool.and_eq_true_iff.mp (List.all_cons ▸ hb)
    rw [List.cons_append, skipBlank, List.dropWhile_cons_of_pos hc]
    exact ih hbs

theorem skipBlank_cons {c : Char} (hc : isBlank c = false) (s : List Char) :
    skipBlank (c :: s) = c :: s :=
  List.dropWhile_cons_of_neg (by simp [hc])

theorem skipBlank_of_starts {blanks t : List Char} (hb : blanks.all isBlank) (ht : Starts t)
    (rest : List Char) : ∃ c r, t = c :: r ∧ c ≠ ']' ∧
      skipBlank (blanks ++ (t ++ rest)) = c :: (r ++ rest) := by
  obtain ⟨c, r, rfl, hc, hne⟩ := ht
  refine ⟨c, r, rfl, hne, ?_⟩
  rw [skipBlank_append hb, List.cons_append, skipBlank_cons hc]

theorem all_isBlank_newLine (depth : Nat) : (newLine depth).all isBlank := by
  rw [newLine, List.all_cons, List.all_replicate]
  split <;> decide

namespace Style

variable (w : Style) (depth : Nat)

theorem all_isBlank_gap : (w.gap depth).all isBlank := by
  cases w with
  | line => rfl
  | indented => exact all_isBlank_newLine depth

theorem all_isBlank_lastGap (empty : Bool) : (w.lastGap depth empty).all isBlank := by
  cases empty with
  | false => exact w.all_isBlank_gap depth
  | true => rfl

theorem all_isBlank_colonGap : w.colonGap.all isBlank := by cases w <;> decide

end Style

theorem Stops.blanks_append {blanks s : List Char} (hb : blanks.all isBlank) (hs : Stops s) :
    Stops (blanks ++ s) := by
  cases blanks with
  | nil => exact hs
  | cons c blanks =>
    obtain ⟨hc, -⟩ := Bool.and_eq_true_iff.mp (List.all_cons ▸ hb)
    have hblank : c = ' ' ∨ c = '\n' ∨ c = '\t' ∨ c = '\r' := by simpa [isBlank, or_assoc] using hc
    refine cons_iff.mpr ?_
    rcases hblank with rfl | rfl | rfl | rfl <;> decide

section Basic

variable {j : Json} {result : Except Fault α}

theorem decodes_of_run_eq {rd : Reader α} {f : Char → List Char → Reading α}
    (hrun : ∀ s, rd.run s = match skipBlank s with
      | [] => .error .ended
      | c :: r => f c r)
    (h : ∀ (w : Style) (depth : Nat) (c : Char) (r rest : List Char), Stops rest →
      w.write depth j = c :: r → f c (r ++ rest) = result.map (·, rest)) : Decodes rd j result := by
  intro w depth blanks rest hb hs
  obtain ⟨c, r, ht, -, hskip⟩ := skipBlank_of_starts hb (w.starts_write depth j) rest
  simp only [hrun, hskip]
  exact h w depth c r rest hs ht

theorem Decodes.filterMap {rd : Reader α} (h : Decodes rd j result) (f : α → Option β) :
    Decodes (rd.filterMap f) j
      (result.bind fun a => match f a with
        | none => .error .mismatched
        | some b => .ok b) := by
  intro w depth blanks rest hb hs
  simp only [Reader.filterMap, h w depth blanks rest hb hs]
  cases result with
  | error e => rfl
  | ok a =>
    simp only [Except.map, Except.bind]
    cases f a <;> rfl

theorem Decodes.map {rd : Reader α} (h : Decodes rd j result) (f : α → β) :
    Decodes (rd.map f) j (result.map f) := by
  have hmap := h.filterMap (some ∘ f)
  cases result <;> exact hmap

end Basic

section Scalars

theorem head_of_readNumber {c : Char} {s r : List Char} {v : Number}
    (h : readNumber (c :: s) = .ok (v, r)) : c = '-' ∨ c.isDigit := by
  rw [readNumber_cons] at h
  by_cases hc : c = '-'
  · exact Or.inl hc
  · rw [if_neg hc, readMagnitude_cons] at h
    split at h
    · cases h
    · split at h
      · rename_i hdigit
        exact Or.inr hdigit
      · cases h

theorem decodes_number {n v : Number} (h : readNumber n.text = .ok (v, [])) :
    Decodes Reader.number (.number n) (.ok v) := by
  refine decodes_of_run_eq (fun _ => rfl) fun w depth c r rest hs ht => ?_
  rw [w.write_number] at ht
  have happend := readNumber_append hs h
  rw [ht] at h happend
  rw [if_pos (head_of_readNumber h)]
  exact happend

theorem decodes_int {n : Int} (hlow : -Int.pow 2 63 ≤ n) (hhigh : n < Int.pow 2 64) :
    Decodes Reader.number (.number (.int n)) (.ok (.int n)) :=
  decodes_number (readNumber_integerText hlow hhigh)

theorem decodes_integer {low high n : Int} (hlow : low ≤ n) (hhigh : n < high)
    (hlow' : -Int.pow 2 63 ≤ n) (hhigh' : n < Int.pow 2 64) :
    Decodes (Reader.integer low high) (.number (.int n)) (.ok n) := by
  have h : Decodes (Reader.integer low high) (.number (.int n)) _ :=
    (decodes_int hlow' hhigh').filterMap _
  simp only [Except.bind, if_pos (And.intro hlow hhigh)] at h
  exact h

theorem decodes_index {n : Nat} (h : n < Nat.pow 2 64) : Decodes Reader.index (ofNat n) (.ok n) := by
  have hhigh : (n : Int) < Int.pow 2 64 := Int.ofNat_lt.mpr h
  have hlow : -Int.pow 2 63 ≤ (n : Int) := Int.le_trans (by decide) (Int.natCast_nonneg n)
  exact (decodes_integer (Int.natCast_nonneg n) hhigh hlow hhigh).map Int.toNat

theorem decodes_string (s : String) : Decodes Reader.string (.string s) (.ok s) := by
  refine decodes_of_run_eq (fun _ => rfl) fun w depth c r rest hs ht => ?_
  rw [w.write_string] at ht
  have hread := readString_stringText s rest
  rw [ht, List.tail_cons] at hread
  rw [if_pos (List.cons.inj ht).1.symm]
  exact hread

theorem decodes_value_string (depth : Nat) (s : String) :
    Decodes (Reader.value depth) (.string s) (.ok (.string s)) := by
  have hscalar : ∀ (w : Style) (d : Nat) (c : Char) (r rest : List Char),
      w.write d (.string s) = c :: r → c = '"' ∧
        Reader.readScalar c (r ++ rest) = .ok (.string s, rest) := by
    intro w d c r rest ht
    rw [w.write_string] at ht
    have hread := readString_stringText s rest
    rw [ht, List.tail_cons] at hread
    obtain rfl : '"' = c := (List.cons.inj ht).1
    exact ⟨rfl, by simp only [Reader.readScalar, hread]; rfl⟩
  cases depth with
  | zero => exact decodes_of_run_eq (fun _ => rfl) fun w d c r rest _ ht => (hscalar w d c r rest ht).2
  | succ depth =>
    refine decodes_of_run_eq (fun _ => rfl) fun w d c r rest _ ht => ?_
    obtain ⟨rfl, hread⟩ := hscalar w d c r rest ht
    exact hread

/-- A double that is not finite is written as a word, which is no number. -/
theorem decodes_float_of_isNaN_or_isInf {x : Float} (h : x.isNaN || x.isInf) :
    Decodes Reader.float (ofFloat x) (.error .mismatched) := by
  have hnumber : Decodes Reader.number (ofFloat x) (.error .mismatched) := by
    refine decodes_of_run_eq (fun _ => rfl) fun w depth c r rest hs ht => ?_
    rw [ofFloat, w.write_number, Number.text, floatText, if_pos h] at ht
    cases ht
    rfl
  exact hnumber.map Reader.Number.toFloat

theorem decodes_float {x y : Float} (h : Reader.float.run (floatText x) = .ok (y, [])) :
    Decodes Reader.float (ofFloat x) (.ok y) := by
  obtain ⟨c, r, ht, hc, -⟩ := starts_floatText x
  have hread : ∃ v, readNumber (floatText x) = .ok (v, []) ∧ Reader.Number.toFloat v = y := by
    simp only [Reader.float, Reader.map, Reader.filterMap, Reader.number, Reader.ofHead, ht,
      skipBlank_cons hc, Function.comp_apply] at h ⊢
    split at h
    · cases h
    · rename_i v rest hv
      cases h
      split at hv
      · exact ⟨v, hv, rfl⟩
      · cases hv
  obtain ⟨v, hv, rfl⟩ := hread
  exact (decodes_number (n := .float x) hv).map Reader.Number.toFloat

end Scalars

theorem commaSeparated_cons (t : List Char) (ts : List (List Char)) :
    commaSeparated (t :: ts) = t ++ ts.flatMap (',' :: ·) := by
  induction ts generalizing t with
  | nil => simp [commaSeparated]
  | cons t' ts ih =>
    rw [commaSeparated, ih, List.flatMap_cons, List.cons_append]
    exact List.cons_ne_nil t' ts

section List

variable {item : Reader α} {acc : List α} {fresh : Bool} {s r t : List Char} {c d : Char}

theorem itemsFrom_of_close (h : skipBlank s = ']' :: r) :
    itemsFrom item acc fresh s = .ok (acc.reverse, r) := by
  rw [itemsFrom]
  split
  · rename_i hs
    cases h.symm.trans hs
  · rename_i hs
    cases h.symm.trans hs
    rw [if_pos rfl]

theorem itemsFrom_of_comma (h : skipBlank s = ',' :: r) (hr : skipBlank r = d :: t) (hd : d ≠ ']') :
    itemsFrom item acc false s =
      match item.run (d :: t) with
      | .error e => .error e
      | .ok (a, rest) => itemsFrom item (a :: acc) false rest := by
  rw [itemsFrom]
  split
  · rename_i hs
    cases h.symm.trans hs
  · rename_i hs
    cases h.symm.trans hs
    rw [if_neg (by decide), if_neg (by decide), if_pos rfl]
    split
    · rename_i ht
      cases hr.symm.trans ht
    · rename_i ht
      cases hr.symm.trans ht
      rw [if_neg hd]
      split <;> rename_i hrun <;> simp only [hrun]

/-- The first item is read as if a comma stood before it. -/
theorem itemsFrom_fresh (h : skipBlank s = c :: r) (hc : c ≠ ']') :
    itemsFrom item acc true s = itemsFrom item acc false (',' :: s) := by
  rw [itemsFrom_of_comma (skipBlank_cons (by decide) s) h hc, itemsFrom]
  split
  · rename_i hs
    cases h.symm.trans hs
  · rename_i hs
    cases h.symm.trans hs
    rw [if_neg hc, if_pos rfl]
    split <;> rename_i hrun <;> simp only [hrun]

variable {γ : Type} {code : γ → Json} {result : γ → Except Fault α}

theorem itemsFrom_texts (w : Style) (depth : Nat) {as : List γ}
    (h : ∀ a ∈ as, Decodes item (code a) (result a)) {last : List Char} (hlast : last.all isBlank)
    (acc : List α) (rest : List Char) :
    itemsFrom item acc false
      (as.flatMap (fun a => ',' :: (w.gap depth ++ w.write depth (code a))) ++ (last ++ ']' :: rest)) =
        (as.mapM result).map fun bs => (acc.reverse ++ bs, rest) := by
  induction as generalizing acc with
  | nil =>
    have hclose : skipBlank (last ++ ']' :: rest) = ']' :: rest := by
      rw [skipBlank_append hlast, skipBlank_cons (by decide)]
    rw [List.flatMap_nil, List.nil_append, itemsFrom_of_close hclose, List.mapM_nil]
    simp [Except.map, pure, Except.pure]
  | cons a as ih =>
    obtain ⟨ha, has⟩ := List.forall_mem_cons.mp h
    generalize htail : as.flatMap (fun a => ',' :: (w.gap depth ++ w.write depth (code a))) ++
      (last ++ ']' :: rest) = tail
    have hstops : Stops tail := by
      subst htail
      cases as with
      | nil =>
        rw [List.flatMap_nil, List.nil_append]
        exact .blanks_append hlast (Stops.cons_iff.mpr (by decide))
      | cons a as => exact Stops.cons_iff.mpr (by decide)
    obtain ⟨c, r, ht, hc, hskip⟩ :=
      skipBlank_of_starts (w.all_isBlank_gap depth) (w.starts_write depth (code a)) tail
    have hrun := ha w depth [] tail rfl hstops
    rw [List.nil_append, ht, List.cons_append] at hrun
    rw [List.flatMap_cons, List.append_assoc, htail, List.cons_append, List.append_assoc,
      itemsFrom_of_comma (skipBlank_cons (by decide) _) hskip hc, hrun, List.mapM_cons]
    cases result a with
    | error e => rfl
    | ok b =>
      simp only [Except.map]
      rw [← htail, ih has]
      cases as.mapM result with
      | error e => rfl
      | ok bs => simp [Except.map, bind, Except.bind, pure, Except.pure]

theorem decodes_list {as : List γ} (h : ∀ a ∈ as, Decodes item (code a) (result a)) :
    Decodes (Reader.list item) (.array (as.map code)) (as.mapM result) := by
  refine decodes_of_run_eq (fun _ => rfl) fun w depth c r rest _ ht => ?_
  rw [w.write_array] at ht
  obtain ⟨rfl, rfl⟩ := List.cons.inj ht
  have hlast := w.all_isBlank_lastGap depth (as.map code).isEmpty
  have htexts := itemsFrom_texts w (depth + 1) h hlast [] rest
  rw [if_pos rfl, List.append_assoc, List.append_assoc, List.singleton_append, List.map_map]
  cases as with
  | nil => exact itemsFrom_of_close (skipBlank_cons (by decide) rest)
  | cons a as =>
    obtain ⟨c, r, -, hc, hskip⟩ :=
      skipBlank_of_starts (w.all_isBlank_gap (depth + 1)) (w.starts_write (depth + 1) (code a))
        (as.flatMap (fun a => ',' :: (w.gap (depth + 1) ++ w.write (depth + 1) (code a))) ++
          (w.lastGap depth ((a :: as).map code).isEmpty ++ ']' :: rest))
    rw [List.flatMap_cons, List.append_assoc, List.cons_append, List.append_assoc,
      ← itemsFrom_fresh hskip hc] at htexts
    rw [List.map_cons, commaSeparated_cons, List.append_assoc, List.flatMap_map]
    simp only [Function.comp_apply, List.append_assoc]
    exact htexts

end List

section Record

variable {member : String → σ → Member σ} {state next : σ} {key : String} {rd : Reader σ} {j : Json}
  {result : Except Fault σ} {fresh : Bool} {s r : List Char} {c : Char}

theorem readMember_text (w : Style) (depth : Nat) (hm : member key state = .wanted rd)
    (hd : Decodes rd j result) {rest : List Char} (hs : Stops rest) :
    readMember member state
      (stringText key ++ ':' :: (w.colonGap ++ (w.write depth j ++ rest))) =
        result.map (·, rest) := by
  have hkey : ∀ t, Reader.readKey (stringText key ++ t) = .ok (key, t) := by
    intro t
    have hread := readString_stringText key t
    rwa [stringText, List.tail_cons] at hread
  have hcolon : ∀ t, Reader.readColon (':' :: t) = .ok t := by
    intro t
    simp only [Reader.readColon, skipBlank_cons (c := ':') (by decide), if_true]
  simp only [readMember, hkey, hm, hcolon]
  exact hd w depth w.colonGap rest w.all_isBlank_colonGap hs

theorem membersFrom_of_close (h : skipBlank s = '\x7d' :: r) :
    membersFrom member state fresh s = .ok (state, r) := by
  rw [membersFrom]
  split
  · rename_i hs
    cases h.symm.trans hs
  · rename_i hs
    cases h.symm.trans hs
    rw [if_pos rfl]

theorem membersFrom_of_comma (h : skipBlank s = ',' :: r) :
    membersFrom member state false s =
      match readMember member state (skipBlank r) with
      | .error e => .error e
      | .ok (next, rest) => membersFrom member next false rest := by
  rw [membersFrom]
  split
  · rename_i hs
    cases h.symm.trans hs
  · rename_i hs
    cases h.symm.trans hs
    rw [if_neg (by decide), if_neg (by decide), if_pos rfl]
    split <;> rename_i hread <;> simp only [hread]

theorem membersFrom_fresh (h : skipBlank s = c :: r) (hc : c ≠ '\x7d') :
    membersFrom member state true s = membersFrom member state false (',' :: s) := by
  rw [membersFrom_of_comma (skipBlank_cons (by decide) s), h, membersFrom]
  split
  · rename_i hs
    cases h.symm.trans hs
  · rename_i hs
    cases h.symm.trans hs
    rw [if_neg hc, if_pos rfl]
    split <;> rename_i hread <;> simp only [hread]

/-- Members that are all wanted, one after the other, up to the first whose value does not come back. -/
inductive Fills (member : String → σ → Member σ) : σ → List (String × Json) → Except Fault σ → Prop
  where
  | done (state : σ) : Fills member state [] (.ok state)
  | fail {state : σ} {key : String} {j : Json} {rd : Reader σ} {e : Fault}
      {members : List (String × Json)} (hm : member key state = .wanted rd)
      (hd : Decodes rd j (.error e)) : Fills member state ((key, j) :: members) (.error e)
  | next {state next : σ} {key : String} {j : Json} {rd : Reader σ}
      {members : List (String × Json)} {result : Except Fault σ} (hm : member key state = .wanted rd)
      (hd : Decodes rd j (.ok next)) (hrest : Fills member next members result) :
      Fills member state ((key, j) :: members) result

def Style.memberText (w : Style) (depth : Nat) (m : String × Json) : List Char :=
  w.gap depth ++ (stringText m.1 ++ ':' :: (w.colonGap ++ w.write depth m.2))

theorem Style.skipBlank_memberText (w : Style) (depth : Nat) (m : String × Json) (rest : List Char) :
    skipBlank (w.memberText depth m ++ rest) =
      stringText m.1 ++ ':' :: (w.colonGap ++ (w.write depth m.2 ++ rest)) := by
  rw [memberText, List.append_assoc, skipBlank_append (w.all_isBlank_gap depth), List.append_assoc,
    List.cons_append, List.append_assoc]
  exact skipBlank_cons (by decide) _

theorem stops_memberTexts (w : Style) (depth : Nat) (members : List (String × Json))
    {last : List Char} (hlast : last.all isBlank) (rest : List Char) :
    Stops (members.flatMap (',' :: w.memberText depth ·) ++ (last ++ '\x7d' :: rest)) := by
  cases members with
  | nil =>
    rw [List.flatMap_nil, List.nil_append]
    exact .blanks_append hlast (Stops.cons_iff.mpr (by decide))
  | cons m members => exact Stops.cons_iff.mpr (by decide)

theorem Fills.membersFrom_texts {members : List (String × Json)} (h : Fills member state members result)
    (w : Style) (depth : Nat) {last : List Char} (hlast : last.all isBlank) (rest : List Char) :
    membersFrom member state false
      (members.flatMap (',' :: w.memberText depth ·) ++ (last ++ '\x7d' :: rest)) =
        result.map (·, rest) := by
  induction h with
  | done state =>
    refine membersFrom_of_close ?_
    rw [List.flatMap_nil, List.nil_append, skipBlank_append hlast, skipBlank_cons (by decide)]
  | fail hm hd =>
    rw [List.flatMap_cons, List.append_assoc, List.cons_append,
      membersFrom_of_comma (skipBlank_cons (by decide) _), w.skipBlank_memberText,
      readMember_text w depth hm hd (stops_memberTexts w depth _ hlast rest)]
    rfl
  | next hm hd _ ih =>
    rw [List.flatMap_cons, List.append_assoc, List.cons_append,
      membersFrom_of_comma (skipBlank_cons (by decide) _), w.skipBlank_memberText,
      readMember_text w depth hm hd (stops_memberTexts w depth _ hlast rest)]
    exact ih

theorem Fills.decodes {parts : List (RecordPart σ)} {blank : σ} {members : List (String × Json)}
    (h : Fills (memberOf parts) blank members result) :
    Decodes (record parts blank) (.object members) result := by
  refine decodes_of_run_eq (fun _ => rfl) fun w depth c r rest _ ht => ?_
  rw [w.write_object] at ht
  obtain ⟨rfl, rfl⟩ := List.cons.inj ht
  have hlast := w.all_isBlank_lastGap depth members.isEmpty
  have htexts := h.membersFrom_texts w (depth + 1) hlast rest
  rw [if_pos rfl, List.append_assoc, List.append_assoc, List.singleton_append]
  cases members with
  | nil =>
    cases h
    exact membersFrom_of_close (skipBlank_cons (by decide) rest)
  | cons m members =>
    have hskip := w.skipBlank_memberText (depth + 1) m
      (members.flatMap (',' :: w.memberText (depth + 1) ·) ++
        (w.lastGap depth (m :: members).isEmpty ++ '\x7d' :: rest))
    rw [List.flatMap_cons, List.append_assoc, List.cons_append, ← membersFrom_fresh hskip (by decide)]
      at htexts
    rw [List.map_cons, commaSeparated_cons, List.append_assoc, List.flatMap_map]
    exact htexts

end Record

theorem Decodes.ofText_eq {rd : Reader α} {j : Json} {result : Except Fault α}
    (h : Decodes rd j result) : rd.ofText j.compactText = result ∧ rd.ofText j.prettyText = result := by
  have hwrite : ∀ w : Style, rd.ofText (String.ofList (w.write 0 j)) = result := by
    intro w
    have hrun := h w 0 [] [] rfl (by simp [Stops])
    rw [List.nil_append, List.append_nil] at hrun
    rw [Reader.ofText, String.toList_ofList, hrun]
    cases result <;> rfl
  exact ⟨hwrite .line, hwrite .indented⟩

end ExtensiveForm.Json
