/-
  The commands, as functions from the files before to the files and the output after.

  A command that fails keeps what it did and printed until then.  The error says what was being
  done, and holds the error below it.
-/
import SealedStore.CommandLine.Arguments
import SealedStore.CommandLine.Report
import SealedStore.Config.Basic
import SealedStore.Pickle.Load

namespace SealedStore

/-- Why a command fails. -/
inductive CommandError where
  | configuration (e : ConfigError)
  | openDirectory (e : StoreError)
  | run (e : HarnessError)
  | readValue (slot : SlotName) (e : HarnessError)
  | readBlob (slot : SlotName) (e : StoreError)
  | listSlots (e : StoreError)
  | readPickles (path : String) (fault : IoFault)
  | decodePickles (path : String) (e : CodecError)

/-- The texts of the error and of those below it. -/
def CommandError.chain : CommandError → List String
  | configuration e => [e.message]
  | openDirectory e => "cannot open data directory" :: e.message :: e.causeMessage?.toList
  | run e => "round-trip run failed" :: e.message :: e.causeMessage?.toList
  | readValue slot e => s!"cannot read slot {slot.name}" :: e.message :: e.causeMessage?.toList
  | readBlob slot e => s!"cannot read slot {slot.name}" :: e.message :: e.causeMessage?.toList
  | listSlots e => e.message :: e.causeMessage?.toList
  | readPickles path fault => [s!"cannot read {path}", fault.message]
  | decodePickles path e => [s!"cannot decode pickle stream {path}", e.message]

/-- What a command works with. -/
structure Surroundings where
  files : FileTree
  /-- The directory for data where no setting names one. -/
  defaultDir : String
  /-- The output is colored. -/
  colors : Bool

/-- What a command leaves behind. -/
structure Outcome where
  out : Bytes
  err : Bytes
  files : FileTree
  error : Option CommandError

namespace Outcome

/-- Lines of output. -/
def lineBytes (lines : List String) : Bytes := lines.flatMap fun line => Utf8.encode line ++ [0x0A]

/-- Files as they are, and lines of output. -/
def printed (files : FileTree) (lines : List String) : Outcome :=
  ⟨lineBytes lines, [], files, none⟩

/-- Files as they are, and an error. -/
def failed (files : FileTree) (e : CommandError) : Outcome := ⟨[], [], files, some e⟩

end Outcome

namespace Command

/-- The settings of the file that is named, changed as the command line says. -/
def settings (invocation : Invocation) (files : FileTree) : Except CommandError Config :=
  let overridden (config : Config) : Config :=
    ⟨invocation.dataDir <|> config.dataDir, invocation.create || config.createDataDir,
      !invocation.noVerify && config.verify⟩
  match invocation.config with
  | none => .ok (overridden .default)
  | some path =>
    match Config.load files path with
    | .ok config => .ok (overridden config)
    | .error e => .error (.configuration e)

/-- Opens the directory for data and goes on with it. -/
def withStore (around : Surroundings) (config : Config) (next : DirectoryStore → Outcome) :
    Outcome :=
  match config.openStore around.files around.defaultDir with
  | (.ok store, _) => next store
  | (.error e, files) => .failed files (.openDirectory e)

/-- Writes the samples, reads them back and prints them. -/
def performRun (colors : Bool) (config : Config) (format : OutputFormat)
    (store : DirectoryStore) : Outcome :=
  let lines := match format with
    | .text => LineFormat.labelled colors
    | .json => .json
  let start : Harness DirectoryStore LinePrinter := ⟨store, ⟨lines, .unlimited⟩, config.verify⟩
  match start.run Sample.all with
  | (.error e, h) => ⟨h.renderer.sink.written, [], h.store.files, some (.run e)⟩
  | (.ok report, h) =>
    let told := match format with
      | .text => Report.runLines colors report
      | .json => []
    ⟨h.renderer.sink.written, Outcome.lineBytes told, h.store.files, none⟩

/-- Prints the value in a slot. -/
def performPrint (format : OutputFormat) (slot : SlotName) (store : DirectoryStore) : Outcome :=
  let lines := match format with
    | .text => LineFormat.text
    | .json => .json
  let start : Harness DirectoryStore LinePrinter := ⟨store, ⟨lines, .unlimited⟩, true⟩
  match start.read slot with
  | (.error e, h) => ⟨h.renderer.sink.written, [], h.store.files, some (.readValue slot e)⟩
  | (.ok _, h) => ⟨h.renderer.sink.written, [], h.store.files, none⟩

/-- Shows the blob in a slot. -/
def performDump (colors : Bool) (slot : SlotName) (store : DirectoryStore) : Outcome :=
  match store.getRaw slot with
  | .ok blob => .printed store.files (Report.dumpLines colors slot blob)
  | .error e => .failed store.files (.readBlob slot e)

/-- The summaries of some slots. -/
def summaries {σ : Type} [Store σ] (store : σ) :
    List SlotName → Except CommandError (List Report.SlotSummary)
  | [] => .ok []
  | slot :: slots =>
    match Store.getRaw store slot with
    | .error e => .error (.readBlob slot e)
    | .ok blob =>
      match summaries store slots with
      | .error e => .error e
      | .ok rest => .ok (⟨slot, blob.length, Report.isIntact blob⟩ :: rest)

/-- The summaries of all slots of a store. -/
def summarize {σ : Type} [Store σ] (store : σ) : Except CommandError (List Report.SlotSummary) :=
  match Store.list store with
  | .error e => .error (.listSlots e)
  | .ok slots => summaries store slots

/-- Lists the slots. -/
def performList (colors : Bool) (store : DirectoryStore) : Outcome :=
  match summarize store with
  | .ok found => .printed store.files (Report.listLines colors store.dir found)
  | .error e => .failed store.files e

/-- Prints the values in a file of pickles. -/
def performPickle (format : OutputFormat) (files : FileTree) (path : String) : Outcome :=
  match files.read path with
  | .error fault => .failed files (.readPickles path fault)
  | .ok content =>
    match Pickle.loadAll content with
    | .error e => .failed files (.decodePickles path e)
    | .ok values =>
      match format with
      | .text => .printed files (values.map Value.display)
      | .json => .printed files
        (values.mapIdx fun i v => String.ofList (Report.numberedJson i v).write)

/-- Carries out what the command line asks for. -/
def perform (around : Surroundings) (invocation : Invocation) : Outcome :=
  match settings invocation around.files with
  | .error e => .failed around.files e
  | .ok config =>
    match invocation.command with
    | .run => withStore around config (performRun around.colors config invocation.format)
    | .print slot => withStore around config (performPrint invocation.format slot)
    | .dump slot => withStore around config (performDump around.colors slot)
    | .list => withStore around config (performList around.colors)
    | .pickle path => performPickle invocation.format around.files path

end Command

end SealedStore
