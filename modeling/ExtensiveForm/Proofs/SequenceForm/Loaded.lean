import ExtensiveForm.SequenceForm.Text
import ExtensiveForm.Proofs.Json.Weight
import ExtensiveForm.Proofs.SequenceForm.Indices

set_option autoImplicit false

namespace ExtensiveForm

open Json.Reader (Pays RecordPart record pays_length pays_one pays_record)

variable {L A : Type} [Json.Coded L] [Json.Coded A]

namespace SequenceTree

def Draft.extent (d : Draft L A) : Nat :=
  (d.parent.getD []).length + ((d.actions.getD []).map List.length).sum

theorem pays_parts : ∀ part ∈ (parts : List (RecordPart (Draft L A))), ∀ d,
    (part.read d).Pays Draft.extent d.extent := by
  intro part hpart d
  rcases List.mem_cons.mp hpart with rfl | hpart
  · refine (pays_length Json.Reader.index).map fun parent => ?_
    simp only [Draft.extent, Option.getD_some]
    omega
  rcases List.mem_cons.mp hpart with rfl | hpart
  · refine (pays_length Json.Reader.index).map fun offset => ?_
    simp only [Draft.extent]
    omega
  rcases List.mem_cons.mp hpart with rfl | hpart
  · refine (pays_length _).map fun label => ?_
    simp only [Draft.extent]
    omega
  · cases List.mem_singleton.mp hpart
    refine (pays_length _).list.map fun actions => ?_
    simp only [Draft.extent, Option.getD_some]
    omega

omit [Json.Coded L] [Json.Coded A] in
theorem extent_of_finish? {d : Draft L A} {t : SequenceTree L A} (h : d.finish? = some t) :
    t.extent = d.extent := by
  unfold Draft.finish? at h
  split at h
  · cases h
    simp [extent, size, actionCount_eq, Draft.extent]
  · cases h

theorem pays_reader : (reader : Json.Reader (SequenceTree L A)).Pays extent 0 := by
  have hdraft : (record parts (Draft.blank : Draft L A)).Pays Draft.extent 0 := pays_record pays_parts
  refine hdraft.filterMap fun d t h => ?_
  rw [extent_of_finish? h, Nat.zero_add]

end SequenceTree

namespace SequenceForm

def Draft.extent (d : Draft L A) : Nat :=
  (d.first.map SequenceTree.extent).getD 0 + (d.second.map SequenceTree.extent).getD 0

theorem pays_parts : ∀ part ∈ (parts : List (RecordPart (Draft L A))), ∀ d,
    (part.read d).Pays Draft.extent d.extent := by
  intro part hpart d
  rcases List.mem_cons.mp hpart with rfl | hpart
  · refine SequenceTree.pays_reader.map fun t => ?_
    simp only [Draft.extent, Option.map_some, Option.getD_some]
    omega
  rcases List.mem_cons.mp hpart with rfl | hpart
  · refine SequenceTree.pays_reader.map fun t => ?_
    simp only [Draft.extent, Option.map_some, Option.getD_some]
    omega
  · cases List.mem_singleton.mp hpart
    refine Pays.map (pays_one PayoffMatrix.reader) fun m => ?_
    simp only [Draft.extent]
    omega

variable {text : String} {f : SequenceForm L A Float}

omit [Json.Coded L] [Json.Coded A] in
theorem extent_of_finish? {d : Draft L A} (h : d.finish? = some f) :
    f.first.extent + f.second.extent = d.extent := by
  unfold Draft.finish? at h
  split at h
  · cases h
    rfl
  · cases h

theorem extent_le_of_ofText (h : ofText text = .ok f) :
    f.first.extent + f.second.extent ≤ text.length := by
  have hdraft : (record parts (Draft.blank : Draft L A)).Pays Draft.extent 0 := pays_record pays_parts
  have hreader : (reader : Json.Reader (SequenceForm L A Float)).Pays
      (fun f => f.first.extent + f.second.extent) 0 := by
    refine hdraft.filterMap fun d f h => ?_
    rw [extent_of_finish? h, Nat.zero_add]
  unfold ofText Json.Reader.ofText at h
  split at h
  · cases h
  · rename_i f' rest hrun
    split at h
    · cases h
      have hle := hreader hrun
      rw [String.length_toList, Nat.zero_add] at hle
      exact Nat.le_of_add_right_le hle
    · cases h

/-- Every text that fits into memory itself says a form that does. -/
theorem inMemory_of_ofText (h : ofText text = .ok f) (hlen : text.length + 1 < Nat.pow 2 64) :
    f.InMemory := by
  have hle := extent_le_of_ofText h
  intro seat
  unfold SequenceTree.InMemory
  cases seat with
  | first =>
    rw [tree]
    omega
  | second =>
    rw [tree]
    omega

theorem run_checkAt_of_ofText (h : ofText text = .ok f) (hlen : text.length + 1 < Nat.pow 2 64) :
    f.checkAt.run = some f.check :=
  (inMemory_of_ofText h hlen).run_checkAt

end SequenceForm

end ExtensiveForm
