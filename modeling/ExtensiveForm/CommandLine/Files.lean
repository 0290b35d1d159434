set_option autoImplicit false

namespace ExtensiveForm.CommandLine

inductive FileFault where
  | notFound
  | notDirectory
  | isDirectory
  | nameTooLong
  | nulInPath
  | notText
  | other (text : String)
  deriving DecidableEq, Repr

def FileFault.message : FileFault → String
  | notFound => "No such file or directory (os error 2)"
  | notDirectory => "Not a directory (os error 20)"
  | isDirectory => "Is a directory (os error 21)"
  | nameTooLong => "File name too long (os error 36)"
  | nulInPath => "file name contained an unexpected NUL byte"
  | notText => "stream did not contain valid UTF-8"
  | other text => text

structure FileAccess (m : Type → Type) where
  read : String → m (Except FileFault String)
  write : String → String → m (Except FileFault Unit)

def decode (bytes : ByteArray) : Except FileFault String :=
  match String.fromUTF8? bytes with
  | some text => .ok text
  | none => .error .notText

@[simp] theorem fromUTF8?_toByteArray (text : String) :
    String.fromUTF8? text.toByteArray = some text := dif_pos text.isValidUTF8

theorem decode_toUTF8 (text : String) : decode text.toUTF8 = .ok text := by
  simp [decode]

abbrev Path := List String

def pieces : List Char → List (List Char)
  | [] => [[]]
  | '/' :: rest => [] :: pieces rest
  | c :: rest => (pieces rest).modifyHead (c :: ·)

theorem pieces_ne_nil (cs : List Char) : pieces cs ≠ [] := by
  fun_induction pieces cs <;> simp_all

def names (path : String) : Path := (pieces path.toList).map String.ofList

def longestName : Nat := 255

def longestPath : Nat := 4095

/-- Whether a name stands for a folder on the way and not for an entry of one. -/
def isStep (name : String) : Bool := name == "" || name == "." || name == ".."

/-- All files, by the names from the root down, and the folder that other paths start from. -/
structure Disk where
  home : Path
  files : List (Path × ByteArray)

namespace Disk

def bytes? (d : Disk) (p : Path) : Option ByteArray :=
  (d.files.find? fun f => f.1 = p).map Prod.snd

/-- Folders are told by what lies in them. -/
def isFolder (d : Disk) (p : Path) : Bool :=
  p.isPrefixOf d.home || d.files.any fun (q, _) => p.length < q.length && p.isPrefixOf q

def put (d : Disk) (p : Path) (bytes : ByteArray) : Disk :=
  { d with files := (p, bytes) :: d.files.filter fun f => f.1 ≠ p }

theorem bytes?_put_self (d : Disk) (p : Path) (bytes : ByteArray) :
    (d.put p bytes).bytes? p = some bytes := by simp [put, bytes?]

theorem bytes?_put_of_ne (d : Disk) {p q : Path} (bytes : ByteArray) (h : q ≠ p) :
    (d.put p bytes).bytes? q = d.bytes? q := by
  have hf : (fun f : Path × ByteArray => !decide (f.1 = p) && decide (f.1 = q)) =
      fun f => decide (f.1 = q) := by
    funext f
    by_cases hq : f.1 = q <;> simp [hq, h]
  simp [put, bytes?, List.find?_filter, h.symm, hf]

inductive Found where
  | folder
  | file (bytes : ByteArray)
  | nothing

def found (d : Disk) (p : Path) : Found :=
  if d.isFolder p then .folder
  else
    match d.bytes? p with
    | some bytes => .file bytes
    | none => .nothing

/-- Goes from a folder to what a name in it stands for. The root is the folder above itself. -/
def enter (p : Path) (name : String) : Except FileFault Path :=
  if name = "" ∨ name = "." then .ok p
  else if name = ".." then .ok p.dropLast
  else if longestName < name.utf8ByteSize then .error .nameTooLong
  else .ok (p ++ [name])

def follow (d : Disk) : Path → List String → Except FileFault Path
  | p, [] => .ok p
  | p, name :: rest =>
    match enter p name with
    | .error e => .error e
    | .ok next =>
      match d.found next with
      | .folder => d.follow next rest
      | .nothing => .error .notFound
      | .file _ => .error .notDirectory

def start (d : Disk) (path : String) : Except FileFault (Path × List String) :=
  if '\x00' ∈ path.toList then .error .nulInPath
  else if path = "" then .error .notFound
  else if longestPath < path.utf8ByteSize then .error .nameTooLong
  else .ok (if path.toList.head? = some '/' then [] else d.home, names path)

def locate (d : Disk) (origin : Path) (steps : List String) : Except FileFault Path :=
  match d.follow origin steps.dropLast with
  | .error e => .error e
  | .ok folder => enter folder (steps.getLastD "")

def read (d : Disk) (path : String) : Except FileFault String :=
  match d.start path with
  | .error e => .error e
  | .ok (origin, steps) =>
    match d.locate origin steps with
    | .error e => .error e
    | .ok p =>
      match d.found p with
      | .folder => .error .isDirectory
      | .file bytes => decode bytes
      | .nothing => .error .notFound

/-- A text can be written to no folder, and under no path that ends as one, if the way there leads
through folders. -/
def write (d : Disk) (path text : String) : Except FileFault Disk :=
  match d.start path with
  | .error e => .error e
  | .ok (origin, steps) =>
    if isStep (steps.getLastD "") then
      let bare := (steps.reverse.dropWhile (· = "")).reverse
      let way := if isStep (bare.getLastD "") then bare else bare.dropLast
      match d.follow origin way with
      | .error e => .error e
      | .ok _ => .error .isDirectory
    else
      match d.locate origin steps with
      | .error e => .error e
      | .ok p =>
        match d.found p with
        | .folder => .error .isDirectory
        | _ => .ok (d.put p text.toUTF8)

def access : FileAccess (StateM Disk) where
  read path := do return (← get).read path
  write path text := do
    match (← get).write path text with
    | .error e => return .error e
    | .ok d =>
      set d
      return .ok ()

end Disk

/-- The texts in a folder and below it, where there is nothing else on the disk. -/
structure Directory where
  files : List (Path × String)
  deriving DecidableEq, Repr

namespace Directory

export CommandLine (names)

def text? (d : Directory) (p : Path) : Option String :=
  (d.files.find? fun f => f.1 = p).map Prod.snd

def place : Path := ["srv", "forms"]

def disk (d : Directory) : Disk :=
  ⟨place, d.files.map fun (p, text) => (place ++ p, text.toUTF8)⟩

def ofDisk (d : Disk) : Directory where
  files := d.files.filterMap fun (p, bytes) =>
    if place.isPrefixOf p then (String.fromUTF8? bytes).map (p.drop place.length, ·) else none

theorem ofDisk_disk (d : Directory) : ofDisk d.disk = d := by
  have hback : (fun f : Path × String => if place.isPrefixOf (place ++ f.1) then
      (String.fromUTF8? f.2.toUTF8).map ((place ++ f.1).drop place.length, ·) else none) = some := by
    funext f
    simp [List.isPrefixOf_iff_prefix]
  simp only [ofDisk, disk, List.filterMap_map, Function.comp_def, hback, List.filterMap_some]

/-- What is written elsewhere on the disk is lost from sight. -/
def access : FileAccess (StateM Directory) where
  read path := do return (← get).disk.read path
  write path text := do
    match (← get).disk.write path text with
    | .error e => return .error e
    | .ok d =>
      set (ofDisk d)
      return .ok ()

end Directory

end ExtensiveForm.CommandLine
