/-
  The program: files are read from the disk, the command is carried out on them, and the files
  that it changed are written back.
-/
import SealedStore.CommandLine.Help

namespace SealedStore.Disk

/-- The path of a place. -/
def diskPath (place : Place) : String :=
  let text (names : Place) := "/".intercalate (names.map Utf8.decodeLossy)
  match place with
  | [] => "."
  | name :: names => if [name] = FileTree.root then "/" ++ text names else text (name :: names)

/-- What stands at a path on the disk. -/
def diskEntry (path : String) : IO (Option Entry) := do
  try
    match (← ((← IO.currentDir) / path).metadata).type with
    | .dir => return some .directory
    | _ => return some (.file (← IO.FS.readBinFile path).toList)
  catch _ => return none

/-- Adds what a path leads through and to, and what lies in it if that is a directory. -/
def scan (t : FileTree) (path : String) : IO FileTree := do
  let mut t := t
  let mut place := FileTree.base path
  for name in FileTree.namesOf path do
    if name = FileTree.up then place := FileTree.outer place
    else if name ≠ FileTree.here then place := place ++ [name]
    match ← diskEntry (diskPath place) with
    | some e => if !FileTree.isFixed place then t := t.set place e
    | none => return t
  if t.find? place = some .directory then
    for file in ← ((← IO.currentDir) / diskPath place).readDir do
      let inner := place ++ [Utf8.encode file.fileName]
      if let some e ← diskEntry (diskPath inner) then t := t.set inner e
  return t

/-- Writes what is new or different to the disk.  A file is written under a name of its own and then
    moved. -/
def writeBack (old new : FileTree) : IO Unit := do
  for (place, e) in new.entries do
    if old.find? place ≠ some e then
      match e with
      | .directory => IO.FS.createDirAll (diskPath place)
      | .file content =>
        let dir := place.dropLast
        let temporary := diskPath (dir ++ [FileTree.freshName (new.names dir)])
        IO.FS.writeBinFile temporary ⟨content.toArray⟩
        IO.FS.rename temporary (diskPath place)

/-- Prints bytes. -/
def emit (stream : IO.FS.Stream) (bytes : Bytes) : IO Unit := do
  stream.write ⟨bytes.toArray⟩
  stream.flush

end SealedStore.Disk

open SealedStore Disk

/-- Carries out what the arguments ask for, and gives the exit code. -/
def main (args : List String) : IO UInt32 := do
  let out ← IO.getStdout
  let err ← IO.getStderr
  match Invocation.ofArguments args with
  | .error usage =>
    emit (if usage.exitCode = 0 then out else err) (Outcome.lineBytes usage.lines)
    return usage.exitCode.toUInt32
  | .ok invocation =>
    let defaultDir := Path.join (toString (← IO.appDir)) "data"
    let mut files : FileTree := ⟨[]⟩
    if let some path := invocation.config then files ← scan files path
    if let .pickle path := invocation.command then files ← scan files path
    if let .ok config := Command.settings invocation files then
      files ← scan files (config.dataDir.getD defaultDir)
    let colors := (← out.isTty) && (← IO.getEnv "NO_COLOR").isNone
    let outcome := Command.perform ⟨files, defaultDir, colors⟩ invocation
    writeBack files outcome.files
    emit out outcome.out
    emit err outcome.err
    match outcome.error with
    | none => return 0
    | some e =>
      emit err (Outcome.lineBytes e.lines)
      return 1
