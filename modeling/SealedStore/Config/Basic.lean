/-
  Settings: where the data lies, whether to make that directory, whether to compare.

  Settings are read from a TOML file; a relative directory in it counts from the directory of
  the file.
-/
import SealedStore.Config.Toml
import SealedStore.Store.Directory

namespace SealedStore

/-- The settings of a run. -/
structure Config where
  /-- The directory for data; without one, a directory that the caller knows. -/
  dataDir : Option String
  /-- A missing directory is made. -/
  createDataDir : Bool
  /-- What is read back is compared with what was written. -/
  verify : Bool
  deriving DecidableEq, Repr

/-- Why settings cannot be read. -/
inductive ConfigFault where
  | unreadable (fault : IoFault)
  /-- The file holds bytes that are no text. -/
  | notText
  /-- The text says something that no setting is. -/
  | notSettings
  deriving DecidableEq, Repr

/-- A file of settings that cannot be read, and why. -/
structure ConfigError where
  path : String
  fault : ConfigFault
  deriving DecidableEq, Repr

/-- The wording of a fault. -/
def ConfigFault.message : ConfigFault → String
  | .unreadable fault => fault.message
  | .notText => "stream did not contain valid UTF-8"
  | .notSettings => "not a valid configuration"

/-- The text of the error. -/
def ConfigError.message (e : ConfigError) : String :=
  s!"configuration error: {e.path}: {e.fault.message}"

namespace Config

/-- The settings that hold where nothing else is said. -/
def default : Config := ⟨none, false, true⟩

/-- Settings as they come together, each at most once. -/
structure Draft where
  dataDir : Option String
  createDataDir : Option Bool
  verify : Option Bool

/-- Nothing is said yet. -/
def Draft.blank : Draft := ⟨none, none, none⟩

/-- Enters one setting that was not there before. -/
def Draft.enter (draft : Draft) (key : List Char) (value : Toml.Scalar) : Option Draft :=
  match String.ofList key, value with
  | "data_dir", .string text =>
    if draft.dataDir.isSome then none else some { draft with dataDir := some (String.ofList text) }
  | "create_data_dir", .bool b =>
    if draft.createDataDir.isSome then none else some { draft with createDataDir := some b }
  | "verify", .bool b =>
    if draft.verify.isSome then none else some { draft with verify := some b }
  | _, _ => none

/-- The settings of a draft, the rest as by default. -/
def Draft.finish (draft : Draft) : Config :=
  ⟨draft.dataDir, draft.createDataDir.getD default.createDataDir,
    draft.verify.getD default.verify⟩

/-- The settings that a TOML text says. -/
def ofToml? (text : List Char) : Option Config := do
  let entries ← Toml.read? text
  let draft ← entries.foldlM (fun (draft : Draft) (key, value) => draft.enter key value) .blank
  some draft.finish

/-- The settings as a JSON object. -/
def toJson (config : Config) : Json :=
  .object [
    (Json.units "data_dir".toList,
      match config.dataDir with
      | some dir => .ofString dir
      | none => .null),
    (Json.units "create_data_dir".toList, .bool config.createDataDir),
    (Json.units "verify".toList, .bool config.verify)]

/-- The settings with a relative directory taken to lie where a file lies. -/
def relativeTo (config : Config) (file : String) : Config :=
  match Path.parent? file with
  | some base => { config with dataDir := config.dataDir.map (Path.join base) }
  | none => config

/-- The settings in a file. -/
def load (files : FileTree) (path : String) : Except ConfigError Config :=
  match files.read path with
  | .error fault => .error ⟨path, .unreadable fault⟩
  | .ok content =>
    match Utf8.decodeChars content with
    | .error _ => .error ⟨path, .notText⟩
    | .ok text =>
      match ofToml? text with
      | some config => .ok (config.relativeTo path)
      | none => .error ⟨path, .notSettings⟩

/-- Opens the directory for data, or makes it if the settings say so. -/
def openStore (config : Config) (files : FileTree) (defaultDir : String) :
    Except StoreError DirectoryStore × FileTree :=
  let dir := config.dataDir.getD defaultDir
  if config.createDataDir then DirectoryStore.createAt files dir
  else (DirectoryStore.openAt files dir, files)

end Config

end SealedStore
