/-
  Files and directories as data.

  A `FileTree` says what stands at each place.  Places are counted from the working directory,
  which is always there, as are the directories above it and the root.  Paths are followed one
  name after the other: every name but the last must lead to a directory that exists.
-/
import SealedStore.Assoc
import SealedStore.Files.Path
import SealedStore.Text.Utf8

namespace SealedStore

/-- Why a file operation fails. -/
inductive IoFault where
  | notFound
  /-- A file where a directory is needed. -/
  | notDirectory
  | isDirectory
  | alreadyExists
  | nameTooLong
  /-- No path contains a zero byte. -/
  | zeroByte
  /-- The directory for data is something else. -/
  | notDataDirectory
  deriving DecidableEq, Repr

/-- The text of the fault. -/
def IoFault.message : IoFault → String
  | .notFound => "No such file or directory (os error 2)"
  | .notDirectory => "Not a directory (os error 20)"
  | .isDirectory => "Is a directory (os error 21)"
  | .alreadyExists => "File exists (os error 17)"
  | .nameTooLong => "File name too long (os error 36)"
  | .zeroByte => "file name contained an unexpected NUL byte"
  | .notDataDirectory => "data path is not a directory"

/-- The name of a file or directory inside its directory. -/
abbrev FileName := Bytes

/-- The names that lead from the working directory to a file or directory. -/
abbrev Place := List FileName

/-- What stands at a place. -/
inductive Entry where
  | file (content : Bytes)
  | directory
  deriving DecidableEq, Repr

/-- What stands at every place. -/
structure FileTree where
  entries : List (Place × Entry)
  deriving DecidableEq, Repr

namespace FileTree

/-- The name that stays in a directory. -/
def here : FileName := Utf8.encode "."

/-- The name that leads out of a directory. -/
def up : FileName := Utf8.encode ".."

/-- The place of the root. -/
def root : Place := [Utf8.encode "/"]

/-- The greatest length of a name in bytes. -/
def maxNameLength : Nat := 255

/-- The greatest length of a path in bytes, however few names it has. -/
def maxPathLength : Nat := 4095

/-- The places that are always directories. -/
def isFixed (place : Place) : Bool := place == root || place.all (· == up)

/-- The directory that a directory lies in. -/
def outer (place : Place) : Place :=
  if place = root then root
  else if place.all (· == up) then place ++ [up]
  else place.dropLast

/-- What stands at a place. -/
def find? (t : FileTree) (place : Place) : Option Entry :=
  if isFixed place then some .directory else Assoc.find place t.entries

/-- Puts a file or directory at a place. -/
def set (t : FileTree) (place : Place) (e : Entry) : FileTree := ⟨Assoc.put place e t.entries⟩

/-- Takes away what stands at a place. -/
def erase (t : FileTree) (place : Place) : FileTree := ⟨Assoc.erase place t.entries⟩

theorem find?_set_self (t : FileTree) {place : Place} (h : isFixed place = false) (e : Entry) :
    (t.set place e).find? place = some e := by
  simp [find?, set, h, Assoc.find_put_self]

theorem find?_set_of_ne (t : FileTree) {place other : Place} (h : other ≠ place) (e : Entry) :
    (t.set place e).find? other = t.find? other := by
  simp [find?, set, Assoc.find_put_of_ne h]

/-- The name that a place has inside a directory, if it lies there. -/
def nameIn? (dir place : Place) : Option FileName :=
  if place.dropLast = dir then place.getLast? else none

/-- The names of what lies in a directory. -/
def names (t : FileTree) (dir : Place) : List FileName :=
  t.entries.filterMap fun (place, _) => nameIn? dir place

/-- Requires a directory at a place. -/
def requireDirectory (t : FileTree) (place : Place) : Except IoFault Unit :=
  match t.find? place with
  | none => .error .notFound
  | some (.file _) => .error .notDirectory
  | some .directory => .ok ()

/-- Follows names from a place. -/
def walk (t : FileTree) : Place → List FileName → Except IoFault Place
  | place, [] => .ok place
  | place, name :: rest => do
    t.requireDirectory place
    if name = here then t.walk place rest
    else if name = up then t.walk (outer place) rest
    else if maxNameLength < name.length then .error .nameTooLong
    else t.walk (place ++ [name]) rest

/-- The names in a path. -/
def namesOf (path : String) : List FileName :=
  ((Path.segments path.toList).filter fun seg => !seg.isEmpty).map Utf8.encodeChars

/-- Where a path starts. -/
def base (path : String) : Place := if Path.isAbsolute path then root else []

/-- Follows names from the start of a path. -/
def follow (t : FileTree) (path : String) (names : List FileName) : Except IoFault Place :=
  if path.toList.contains '\x00' then .error .zeroByte
  else if path.isEmpty then .error .notFound
  else if maxPathLength < path.utf8ByteSize then .error .nameTooLong
  else t.walk (base path) names

/-- The place that a path leads to, which may be free.  A slash at the end asks for a directory. -/
def resolve (t : FileTree) (path : String) : Except IoFault Place :=
  t.follow path
    (namesOf path ++ if path.toList.getLast? == some '/' then [here] else [])

/-- What a path leads to. -/
def look (t : FileTree) (path : String) : Except IoFault Entry := do
  match t.find? (← t.resolve path) with
  | some e => .ok e
  | none => .error .notFound

/-- A path leads to a directory. -/
def isDirectory (t : FileTree) (path : String) : Bool :=
  match t.look path with
  | .ok .directory => true
  | _ => false

/-- The content of a file. -/
def read (t : FileTree) (path : String) : Except IoFault Bytes := do
  match ← t.look path with
  | .file content => .ok content
  | .directory => .error .isDirectory

/-- The place of a directory and the names in it. -/
def list (t : FileTree) (path : String) : Except IoFault (Place × List FileName) := do
  let place ← t.resolve path
  t.requireDirectory place
  .ok (place, t.names place)

/-- The place that a path gives to something new: its last name in a directory that exists.  There
    is none if the last name is no name of its own. -/
def newPlace? (t : FileTree) (path : String) : Except IoFault (Option Place) := do
  let names := namesOf path
  let dir ← t.follow path names.dropLast
  t.requireDirectory dir
  match names.getLast? with
  | none => .ok none
  | some name =>
    if name = here || name = up then .ok none
    else if maxNameLength < name.length then .error .nameTooLong
    else .ok (some (dir ++ [name]))

/-- Makes a directory in one that exists. -/
def makeDirectory (t : FileTree) (path : String) : Except IoFault FileTree := do
  match ← t.newPlace? path with
  | none => .error .alreadyExists
  | some place =>
    if (t.find? place).isSome then .error .alreadyExists else .ok (t.set place .directory)

/-- Makes a directory unless it is there.  The empty path, which names none, is left alone. -/
def ensureDirectory (t : FileTree) (path : String) : Except IoFault Unit × FileTree :=
  if path.isEmpty then (.ok (), t)
  else match t.makeDirectory path with
    | .ok t => (.ok (), t)
    | .error e => (if t.isDirectory path then .ok () else .error e, t)

/-- Makes a directory, and before it the directories above that are missing. -/
def ensureDirectoryIn (t : FileTree) (path : String) :
    (above : List String) → Except IoFault Unit × FileTree
  | [] => t.ensureDirectory path
  | dir :: above =>
    match t.makeDirectory path with
    | .error .notFound =>
      match t.ensureDirectoryIn dir above with
      | (.ok (), t) => t.ensureDirectory path
      | (.error e, t) => (.error e, t)
    | _ => t.ensureDirectory path

/-- Makes a directory and all directories above it that are missing.  What was made before a failure
    stays. -/
def makeDirectories (t : FileTree) (path : String) : Except IoFault Unit × FileTree :=
  t.ensureDirectoryIn path (Path.above path)

/-- The length of the longest name. -/
def longest : List FileName → Nat
  | [] => 0
  | name :: names => max name.length (longest names)

/-- How the name of a temporary file begins. -/
def temporaryMark : FileName := Utf8.encode ".tmp"

/-- A name for a temporary file, longer than all such names among the given ones. -/
def freshName (names : List FileName) : FileName :=
  temporaryMark ++
    List.replicate (longest (names.filter fun name => temporaryMark.isPrefixOf name)) 0x78

/-- Room that the path of a temporary file needs after its directory: a slash, the mark and six
    letters. -/
def temporaryRoom : Nat := 11

/-- Makes a file with a name of its own in a directory. -/
def makeTemporary (t : FileTree) (dir : String) (content : Bytes) :
    Except IoFault (Place × FileTree) := do
  if maxPathLength < dir.utf8ByteSize + temporaryRoom then .error .nameTooLong
  else
    let (dir, names) ← t.list dir
    let place := dir ++ [freshName names]
    .ok (place, t.set place (.file content))

/-- Moves a file to the place of a path, over a file that stands there. -/
def moveFile (t : FileTree) (source : Place) (path : String) : Except IoFault FileTree := do
  let target ← t.resolve path
  match t.find? source, t.find? target with
  | some (.file _), some .directory => .error .isDirectory
  | some (.file content), _ => .ok ((t.erase source).set target (.file content))
  | some .directory, _ => .error .isDirectory
  | none, _ => .error .notFound

/-- Writes a file, in place of one that is there. -/
def writeFile (t : FileTree) (path : String) (content : Bytes) : Except IoFault FileTree := do
  match ← t.newPlace? path with
  | none => .error .isDirectory
  | some place =>
    match t.find? place with
    | some .directory => .error .isDirectory
    | _ => .ok (t.set place (.file content))

/-- Removes what a path leads to, with all that lies in it. -/
def remove (t : FileTree) (path : String) : Except IoFault FileTree := do
  let place ← t.resolve path
  .ok ⟨t.entries.filter fun (p, _) => !place.isPrefixOf p⟩

end FileTree

end SealedStore
