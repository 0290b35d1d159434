import ExtensiveForm.SequenceForm.Text
import ExtensiveForm.Proofs.Json.Decoding

/-!
Forms that are written to a text and read back, whatever their arrays hold. Main statement: the text of
a form in either style gives the same form again, if its doubles are finite and come back from their own
digits, and a fault of the data if one of them is not finite.
-/

set_option autoImplicit false

namespace ExtensiveForm

open Json (Coded Decodes Fault Fills Reader ofFloat ofNat)

def Json.Coded.ReadsAs {L L' : Type} [Coded L] [Coded L'] (h : L → L') : Prop :=
  ∀ (depth : Nat) (l : L), Decodes (Coded.reader depth : Reader L') (Coded.toJson l) (.ok (h l))

theorem Json.decodes_list_ok {α γ : Type} {item : Reader α} {code : γ → Json} {value : γ → α}
    {as : List γ} (h : ∀ a ∈ as, Decodes item (code a) (.ok (value a))) :
    Decodes (Reader.list item) (.array (as.map code)) (.ok (as.map value)) := by
  have hlist := decodes_list h
  rwa [show as.mapM (fun a => Except.ok (value a)) = (.ok (as.map value) : Except Fault (List α)) from
    List.mapM_pure] at hlist

variable {L A L' A' : Type}

namespace SequenceTree

def relabel (h : L → L') (k : A → A') (t : SequenceTree L A) : SequenceTree L' A' :=
  ⟨t.parent, t.offset, t.label.map h, t.actions.map (List.map k)⟩

@[simp] theorem relabel_id (t : SequenceTree L A) : t.relabel id id = t := by
  simp [relabel]

structure InWords (t : SequenceTree L A) : Prop where
  parent : ∀ n ∈ t.parent, n < Nat.pow 2 64
  offset : ∀ n ∈ t.offset, n < Nat.pow 2 64

variable [Coded L] [Coded A] [Coded L'] [Coded A'] {h : L → L'} {k : A → A'} {t : SequenceTree L A}

theorem decodes_indices {ns : Array Nat} (hns : ∀ n ∈ ns, n < Nat.pow 2 64) :
    Decodes (Reader.list Reader.index) (.array (ns.toList.map ofNat)) (.ok ns.toList) := by
  have hindex : ∀ n ∈ ns.toList, Decodes Reader.index (ofNat n) (.ok (id n)) := fun n hn =>
    Json.decodes_index (hns n (Array.mem_toList_iff.mp hn))
  have hlist := Json.decodes_list_ok hindex
  rwa [List.map_id] at hlist

theorem decodes_toJson (hl : Coded.ReadsAs h) (ha : Coded.ReadsAs k) (ht : t.InWords) :
    Decodes reader t.toJson (.ok (t.relabel h k)) := by
  have hlabels := Json.decodes_list_ok fun l (_ : l ∈ t.label.toList) => hl (Json.deepest - 3) l
  have hactions := Json.decodes_list_ok fun as (_ : as ∈ t.actions.toList) =>
    Json.decodes_list_ok fun a (_ : a ∈ as) => ha (Json.deepest - 4) a
  have hfills : Fills (Reader.memberOf parts) (Draft.blank : Draft L' A')
      [("par", .array (t.parent.toList.map ofNat)), ("idx", .array (t.offset.toList.map ofNat)),
        ("obs", .array (t.label.toList.map Coded.toJson)),
        ("action", .array (t.actions.toList.map fun as => .array (as.map Coded.toJson)))]
      (.ok ⟨some t.parent.toList, some t.offset.toList, some (t.label.toList.map h),
        some (t.actions.toList.map (List.map k))⟩) :=
    .next rfl ((decodes_indices ht.parent).map _) <|
      .next rfl ((decodes_indices ht.offset).map _) <|
        .next rfl (hlabels.map _) <| .next rfl (hactions.map _) <| .done _
  have htree : t.relabel h k = ⟨t.parent.toList.toArray, t.offset.toList.toArray,
      (t.label.toList.map h).toArray, (t.actions.toList.map (List.map k)).toArray⟩ := by
    simp [relabel, ← Array.toList_map]
  rw [htree]
  exact hfills.decodes.filterMap Draft.finish?

end SequenceTree

namespace PayoffMatrix

structure InWords {R : Type} (m : PayoffMatrix R) : Prop where
  row : ∀ n ∈ m.row, n < Nat.pow 2 64
  col : ∀ n ∈ m.col, n < Nat.pow 2 64

theorem decodes_toJson {m : PayoffMatrix Float} (hm : m.InWords) {read : Float → Except Fault Float}
    (hread : ∀ v ∈ m.value, Decodes Reader.float (ofFloat v) (read v)) :
    Decodes reader m.toJson
      ((m.value.toList.mapM read).map fun vs => ⟨m.row, m.col, vs.toArray⟩) := by
  have hvalues := Json.decodes_list fun v hv => hread v (Array.mem_toList_iff.mp hv)
  generalize m.value.toList.mapM read = result at hvalues ⊢
  have hfills : Fills (Reader.memberOf parts) (⟨none, none, none⟩ : Draft)
      [("row", .array (m.row.toList.map ofNat)), ("col", .array (m.col.toList.map ofNat)),
        ("data", .array (m.value.toList.map ofFloat))]
      (result.map fun vs => ⟨some m.row.toList, some m.col.toList, some vs⟩) := by
    refine .next rfl ((SequenceTree.decodes_indices hm.row).map _) <|
      .next rfl ((SequenceTree.decodes_indices hm.col).map _) ?_
    cases result with
    | error e => exact .fail rfl (hvalues.map _)
    | ok vs => exact .next rfl (hvalues.map _) (.done _)
  have h := hfills.decodes.filterMap Draft.finish?
  cases result <;> exact h

end PayoffMatrix

namespace SequenceForm

def relabel {R : Type} (h : L → L') (k : A → A') (f : SequenceForm L A R) (m : PayoffMatrix R) :
    SequenceForm L' A' R :=
  ⟨f.first.relabel h k, f.second.relabel h k, m⟩

structure InWords {R : Type} (f : SequenceForm L A R) : Prop where
  first : f.first.InWords
  second : f.second.InWords
  payoff : f.payoff.InWords

section Decodes

variable [Coded L] [Coded A] [Coded L'] [Coded A'] {h : L → L'} {k : A → A'}
  {f : SequenceForm L A Float} {read : Float → Except Fault Float}

/-- A form comes back with its labels as they are read and its doubles as they are read. -/
theorem decodes_toJson (hl : Coded.ReadsAs h) (ha : Coded.ReadsAs k) (hf : f.InWords)
    (hread : ∀ v ∈ f.payoff.value, Decodes Reader.float (ofFloat v) (read v)) :
    Decodes reader f.toJson ((f.payoff.value.toList.mapM read).map fun vs =>
      f.relabel h k ⟨f.payoff.row, f.payoff.col, vs.toArray⟩) := by
  have hmatrix := PayoffMatrix.decodes_toJson hf.payoff hread
  generalize f.payoff.value.toList.mapM read = result at hmatrix ⊢
  have hfills : Fills (Reader.memberOf parts) (Draft.blank : Draft L' A')
      [("x", f.first.toJson), ("y", f.second.toJson), ("A", f.payoff.toJson)]
      (result.map fun vs => ⟨some (f.first.relabel h k), some (f.second.relabel h k),
        some ⟨f.payoff.row, f.payoff.col, vs.toArray⟩⟩) := by
    refine .next rfl ((SequenceTree.decodes_toJson hl ha hf.first).map _) <|
      .next rfl ((SequenceTree.decodes_toJson hl ha hf.second).map _) ?_
    cases result with
    | error e => exact .fail rfl (hmatrix.map _)
    | ok vs => exact .next rfl (hmatrix.map _) (.done _)
  have h := hfills.decodes.filterMap Draft.finish?
  cases result <;> exact h

end Decodes

end SequenceForm

section Kinds

/-- What labels can be, if they are to be written and read: text, or integers of 64 bits with or without
a sign. -/
inductive LabelKind where
  | text
  | signed
  | unsigned
  deriving DecidableEq, Repr

namespace LabelKind

abbrev Label : LabelKind → Type
  | text => String
  | signed => Int64
  | unsigned => UInt64

instance : (kind : LabelKind) → Coded kind.Label
  | text => inferInstanceAs (Coded String)
  | signed => inferInstanceAs (Coded Int64)
  | unsigned => inferInstanceAs (Coded UInt64)

theorem readsAs_id (kind : LabelKind) : Coded.ReadsAs (id : kind.Label → kind.Label) := by
  intro depth l
  cases kind with
  | text => exact Json.decodes_string l
  | signed =>
    have hlow : -Int.pow 2 63 ≤ l.toInt := l.le_toInt
    have hhigh : l.toInt < Int.pow 2 63 := l.toInt_lt
    have hhigh' : l.toInt < Int.pow 2 64 := Int.lt_trans hhigh (by decide)
    have h := (Json.decodes_integer hlow hhigh hlow hhigh').map Int64.ofInt
    rw [Except.map, Int64.ofInt_toInt] at h
    exact h
  | unsigned =>
    have h := (Json.decodes_index l.toNat_lt).map UInt64.ofNat
    rw [Except.map, UInt64.ofNat_toNat] at h
    exact h

end LabelKind

end Kinds

theorem Json.isNaN_or_isInf_of_isFinite_eq_false {x : Float} (h : x.isFinite = false) :
    x.isNaN || x.isInf := by
  unfold Float.isFinite Float.Model.isFinite at h
  unfold Float.isNaN Float.isInf Float.Model.isNaN Float.Model.isInf
  generalize x.toModel.unpack = u at h ⊢
  cases u with
  | infinity sign => rfl
  | notANumber => rfl
  | zero sign => exact Bool.noConfusion h
  | finite sign mantissa exponent hpos => exact Bool.noConfusion h

namespace SequenceForm

def readBack (v : Float) : Except Fault Float := if v.isFinite then .ok v else .error .mismatched

theorem mapM_readBack {vs : List Float} (h : ∀ v ∈ vs, v.isFinite) : vs.mapM readBack = .ok vs := by
  induction vs with
  | nil => rfl
  | cons v vs ih =>
    obtain ⟨hv, hvs⟩ := List.forall_mem_cons.mp h
    rw [List.mapM_cons, ih hvs, readBack, if_pos hv]
    rfl

theorem mapM_readBack_of_exists {vs : List Float} (h : ∃ v ∈ vs, v.isFinite = false) :
    vs.mapM readBack = .error .mismatched := by
  induction vs with
  | nil => simp at h
  | cons v vs ih =>
    rw [List.mapM_cons, readBack]
    cases hv : v.isFinite with
    | false => rfl
    | true =>
      simp only [List.mem_cons, exists_eq_or_imp, hv, Bool.true_eq_false, false_or] at h
      rw [if_pos rfl, ih h]
      rfl

variable {kind kind' : LabelKind}

/-- Saving and loading is lossless, if the doubles are finite; a form with another double is refused as
data, not as text. -/
theorem ofText_text (f : SequenceForm kind.Label kind'.Label Float) (hf : f.InWords)
    (hread : ∀ v ∈ f.payoff.value, v.isFinite →
      Reader.float.run (Json.floatText v) = .ok (v, [])) :
    ((∀ v ∈ f.payoff.value, v.isFinite) →
      ofText f.text = .ok f ∧ ofText f.indentedText = .ok f) ∧
    ((∃ v ∈ f.payoff.value, v.isFinite = false) →
      (ofText f.text : Except Fault (SequenceForm kind.Label kind'.Label Float)) =
        .error .mismatched ∧
      (ofText f.indentedText : Except Fault (SequenceForm kind.Label kind'.Label Float)) =
        .error .mismatched) := by
  have hvalues : ∀ v ∈ f.payoff.value, Decodes Reader.float (ofFloat v) (readBack v) := by
    intro v hv
    rw [readBack]
    split
    · rename_i hfinite
      exact Json.decodes_float (hread v hv hfinite)
    · rename_i hfinite
      exact Json.decodes_float_of_isNaN_or_isInf
        (Json.isNaN_or_isInf_of_isFinite_eq_false (eq_false_of_ne_true hfinite))
  have h := decodes_toJson kind.readsAs_id kind'.readsAs_id hf hvalues
  constructor
  · intro hfinite
    rw [mapM_readBack fun v hv => hfinite v (Array.mem_toList_iff.mp hv)] at h
    simp only [Except.map, Array.toArray_toList, relabel, SequenceTree.relabel_id] at h
    exact h.ofText_eq
  · rintro ⟨v, hv, hfinite⟩
    rw [mapM_readBack_of_exists ⟨v, Array.mem_toList_iff.mpr hv, hfinite⟩] at h
    exact h.ofText_eq

end SequenceForm

theorem scale?_half : Json.scale? 5 (-1) = some 0.5 := by
  have hshrink : Json.shrink (5 : Nat).toUInt64.toFloat 1 = 0.5 := by
    rw [Json.shrink, if_pos (by decide)]
    decide +kernel
  exact congrArg some hshrink

theorem finishFloat_half (negative : Bool) : Json.finishFloat negative 5 (-1) [] =
    .ok (.float (if negative then -0.5 else 0.5), []) := by
  rw [Json.finishFloat, scale?_half]

theorem run_float_of_number {cs : List Char} {v : Float}
    (h : Reader.number.run cs = .ok (.float v, [])) : Reader.float.run cs = .ok (v, []) := by
  simp only [Reader.float, Reader.map, Reader.filterMap, h]
  rfl

theorem run_floatText_half : Reader.float.run (Json.floatText 0.5) = .ok (0.5, []) := by
  rw [show Json.floatText 0.5 = ['0', '.', '5'] by decide +kernel]
  exact run_float_of_number (finishFloat_half false)

theorem run_floatText_neg_half : Reader.float.run (Json.floatText (-0.5)) = .ok (-0.5, []) := by
  rw [show Json.floatText (-0.5) = ['-', '0', '.', '5'] by decide +kernel]
  exact run_float_of_number (finishFloat_half true)

/-- A form that fits nowhere, with the largest indices, quotes, controls and rare characters in its
labels, and one more double in its matrix. -/
def oddForm (v : Float) : SequenceForm String UInt64 Float where
  first := ⟨#[0, 18446744073709551615], #[1], #["\"\\/\n\x00\x1f\x7f", "", "é😀"],
    #[[0, 18446744073709551615], []]⟩
  second := ⟨#[], #[], #[], #[]⟩
  payoff := ⟨#[18446744073709551615], #[], #[0.5, v]⟩

theorem inWords_oddForm (v : Float) : (oddForm v).InWords := by
  refine ⟨⟨?_, ?_⟩, ⟨?_, ?_⟩, ⟨?_, ?_⟩⟩ <;> simp [oddForm]

theorem run_floatText_of_mem_oddForm {v w : Float} (hw : w.isFinite → w = 0.5)
    (hv : v ∈ (oddForm w).payoff.value) (hfinite : v.isFinite) :
    Reader.float.run (Json.floatText v) = .ok (v, []) := by
  have hsame : v = 0.5 := by
    have hor : v = 0.5 ∨ v = w := by simpa [oddForm] using hv
    rcases hor with rfl | rfl
    · rfl
    · exact hw hfinite
  rw [hsame]
  exact run_floatText_half

theorem ofText_text_oddForm :
    (SequenceForm.ofText (oddForm 0.5).text = .ok (oddForm 0.5) ∧
      SequenceForm.ofText (oddForm 0.5).indentedText = .ok (oddForm 0.5)) ∧
    (SequenceForm.ofText (L := String) (A := UInt64) (oddForm (0.0 / 0.0)).text =
        .error .mismatched ∧
      SequenceForm.ofText (L := String) (A := UInt64) (oddForm (0.0 / 0.0)).indentedText =
        .error .mismatched) := by
  have hhalf : (0.5 : Float).isFinite := by decide +kernel
  have hnan : (0.0 / 0.0 : Float).isFinite = false := by decide +kernel
  constructor
  · refine (@SequenceForm.ofText_text .text .unsigned (oddForm 0.5)
      (inWords_oddForm _) fun v hv => run_floatText_of_mem_oddForm (fun _ => rfl) hv).1 ?_
    intro v hv
    have hor : v = 0.5 ∨ v = 0.5 := by simpa [oddForm] using hv
    rcases hor with rfl | rfl <;> exact hhalf
  · refine (@SequenceForm.ofText_text .text .unsigned (oddForm (0.0 / 0.0))
      (inWords_oddForm _) fun v hv => run_floatText_of_mem_oddForm (fun h => ?_) hv).2 ?_
    · rw [hnan] at h
      cases h
    · exact ⟨0.0 / 0.0, by simp [oddForm], hnan⟩

end ExtensiveForm
