import Mathlib.Data.List.Basic
import ExtensiveForm.CommandLine.Files

set_option autoImplicit false

namespace ExtensiveForm.CommandLine

/-- What paths lead to in a state of a system, and what is there. The file of a path need not be there: it
is the one that would be made. -/
structure Storage (S : Type) where
  File : Type
  target : S → String → Option File
  content : S → File → Option ByteArray

namespace FileAccess

variable {S : Type}

def readIn (files : FileAccess (StateM S)) (s : S) (path : String) : Except FileFault String × S :=
  (files.read path).run s

def writeIn (files : FileAccess (StateM S)) (s : S) (path text : String) : Except FileFault Unit × S :=
  (files.write path text).run s

theorem run_read (files : FileAccess (StateM S)) (s : S) (path : String) :
    (files.read path).run s = pure (files.readIn s path) := rfl

theorem run_write (files : FileAccess (StateM S)) (s : S) (path text : String) :
    (files.write path text).run s = pure (files.writeIn s path text) := rfl

/-- What is written under a path is read under it right after. -/
def ReadsBack (files : FileAccess (StateM S)) (path : String) : Prop :=
  ∀ {s s' : S} {text : String}, files.writeIn s path text = (.ok (), s') →
    (files.readIn s' path).1 = .ok text

/-- Only writing changes files: the one that the path leads to if it is done, none if it is refused. -/
structure Lawful (files : FileAccess (StateM S)) (v : Storage S) : Prop where
  read_keeps : ∀ {path : String} {s s' : S} {answer : Except FileFault String},
    files.readIn s path = (answer, s') → v.content s' = v.content s
  refused_keeps : ∀ {path text : String} {s s' : S} {fault : FileFault},
    files.writeIn s path text = (.error fault, s') → v.content s' = v.content s
  write_puts : ∀ {path text : String} {s s' : S}, files.writeIn s path text = (.ok (), s') →
    ∃ file, v.target s path = some file ∧ v.content s' file = some text.toUTF8 ∧
      ∀ other, other ≠ file → v.content s' other = v.content s other

end FileAccess

namespace Disk

variable {d d' : Disk} {p : Path} {bytes : ByteArray} {path text : String}

theorem isFolder_put {q : Path} (h : d.isFolder q) : (d.put p bytes).isFolder q := by
  simp only [isFolder, put, Bool.or_eq_true, List.any_eq_true, Prod.exists] at h ⊢
  rcases h with h | ⟨way, b, hmem, hbelow⟩
  · exact Or.inl h
  · refine Or.inr ?_
    by_cases hway : way = p
    · subst hway
      exact ⟨way, bytes, List.mem_cons_self, hbelow⟩
    · exact ⟨way, b, List.mem_cons_of_mem _ (List.mem_filter.mpr ⟨hmem, by simpa using hway⟩), hbelow⟩

theorem isFolder_put_self (h : d.isFolder p = false) : (d.put p bytes).isFolder p = false := by
  simp only [isFolder, put, Bool.or_eq_false_iff, List.any_eq_false] at h ⊢
  refine ⟨h.1, fun f hf => ?_⟩
  rcases List.mem_cons.mp hf with rfl | hf
  · simp
  · exact h.2 f (List.mem_filter.mp hf).1

theorem found_eq_folder_iff : d.found p = .folder ↔ d.isFolder p := by
  unfold found
  split
  · simp_all
  · split <;> simp_all

theorem found_put_self (h : d.isFolder p = false) : (d.put p bytes).found p = .file bytes := by
  simp only [found, isFolder_put_self h, bytes?_put_self]
  rfl

theorem follow_put {origin stop : Path} {names : List String}
    (h : d.follow origin names = .ok stop) : (d.put p bytes).follow origin names = .ok stop := by
  induction names generalizing origin with
  | nil => exact h
  | cons name rest ih =>
    rw [follow] at h ⊢
    split at h
    · cases h
    · rename_i next henter
      split at h
      · rename_i hfound
        rw [found_eq_folder_iff.mpr (isFolder_put (found_eq_folder_iff.mp hfound))]
        exact ih h
      · cases h
      · cases h

theorem locate_put {origin place : Path} {steps : List String}
    (h : d.locate origin steps = .ok place) : (d.put p bytes).locate origin steps = .ok place := by
  rw [locate] at h ⊢
  split at h
  · cases h
  · rename_i folder hfollow
    rw [follow_put hfollow]
    exact h

theorem exists_of_write (h : d.write path text = .ok d') : ∃ origin steps p,
    d.start path = .ok (origin, steps) ∧ d.locate origin steps = .ok p ∧ d.isFolder p = false ∧
      d' = d.put p text.toUTF8 := by
  unfold write at h
  split at h
  · cases h
  · rename_i origin steps hstart
    split at h
    · simp only at h
      split at h <;> cases h
    · split at h
      · cases h
      · rename_i p hplace
        split at h
        · cases h
        · rename_i hfound
          cases h
          refine ⟨origin, steps, p, hstart, hplace, ?_, rfl⟩
          rw [Bool.eq_false_iff]
          exact fun hp => hfound (found_eq_folder_iff.mpr hp)

theorem read_of_write (h : d.write path text = .ok d') : d'.read path = .ok text := by
  obtain ⟨origin, steps, p, hstart, hplace, hfolder, rfl⟩ := exists_of_write h
  have hstart' : (d.put p text.toUTF8).start path = .ok (origin, steps) := hstart
  simp only [read, hstart', locate_put hplace, found_put_self hfolder, decode_toUTF8]

def target (d : Disk) (path : String) : Option Path :=
  match d.start path with
  | .error _ => none
  | .ok (origin, steps) => (d.locate origin steps).toOption

def storage : Storage Disk := ⟨Path, target, bytes?⟩

theorem writeIn_of_error {fault : FileFault} (h : d.write path text = .error fault) :
    access.writeIn d path text = (.error fault, d) := by
  simp only [FileAccess.writeIn, access, StateT.run_bind, StateT.run_get, pure_bind, h]
  rfl

theorem writeIn_eq_ok_iff : access.writeIn d path text = (.ok (), d') ↔ d.write path text = .ok d' := by
  cases h : d.write path text with
  | error fault => simp [writeIn_of_error h]
  | ok after =>
    have hwrite : access.writeIn d path text = (.ok (), after) := by
      simp only [FileAccess.writeIn, access, StateT.run_bind, StateT.run_get, pure_bind, h]
      rfl
    simp [hwrite]

theorem readsBack (path : String) : access.ReadsBack path := by
  intro d d' text h
  exact read_of_write (writeIn_eq_ok_iff.mp h)

theorem lawful : access.Lawful storage := by
  constructor
  · intro path d d' answer h
    cases h
    rfl
  · intro path text d d' fault h
    cases hwrite : d.write path text with
    | error e =>
      cases (writeIn_of_error hwrite).symm.trans h
      rfl
    | ok after => cases (writeIn_eq_ok_iff.mpr hwrite).symm.trans h
  · intro path text d d' h
    obtain ⟨origin, steps, p, hstart, hplace, -, rfl⟩ := exists_of_write (writeIn_eq_ok_iff.mp h)
    refine ⟨p, ?_, bytes?_put_self d p _, fun q hq => bytes?_put_of_ne d _ hq⟩
    simp only [storage, target, hstart, hplace]
    rfl

end Disk

namespace Directory

theorem readIn_eq (d : Directory) (path : String) :
    access.readIn d path = (Disk.access.readIn d.disk path).map id ofDisk :=
  Prod.ext rfl d.ofDisk_disk.symm

theorem writeIn_eq (d : Directory) (path text : String) :
    access.writeIn d path text = (Disk.access.writeIn d.disk path text).map id ofDisk := by
  cases h : d.disk.write path text with
  | error fault =>
    rw [Disk.writeIn_of_error h, Prod.map_apply, ofDisk_disk]
    simp only [FileAccess.writeIn, access, StateT.run_bind, StateT.run_get, pure_bind, h]
    rfl
  | ok after =>
    rw [Disk.writeIn_eq_ok_iff.mpr h]
    simp only [FileAccess.writeIn, access, StateT.run_bind, StateT.run_get, pure_bind, h]
    rfl

end Directory

end ExtensiveForm.CommandLine
