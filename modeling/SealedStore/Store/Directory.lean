/-
  A store in a directory: one file for every slot, named as the slot is.

  A blob is first written to a file with a name of its own in the same directory and then moved
  over the file of the slot.  A write that fails takes that file away again, so no blob is ever
  stored in part.
-/
import SealedStore.Store.Basic

namespace SealedStore

/-- A directory, as its path is given, among all files. -/
structure DirectoryStore where
  dir : String
  files : FileTree

namespace DirectoryStore

/-- Opens a directory that is there. -/
def openAt (files : FileTree) (dir : String) : Except StoreError DirectoryStore :=
  match files.look dir with
  | .ok .directory => .ok ⟨dir, files⟩
  | .ok (.file _) => .error (.io (.dataDirectory dir) .notDataDirectory)
  | .error fault => .error (.io (.dataDirectory dir) fault)

/-- Makes a directory, with those above it, and opens it. -/
def createAt (files : FileTree) (dir : String) : Except StoreError DirectoryStore × FileTree :=
  match files.makeDirectories dir with
  | (.ok (), files) => (openAt files dir, files)
  | (.error fault, files) => (.error (.io (.dataDirectory dir) fault), files)

/-- The path of the file of a slot. -/
def slotPath (store : DirectoryStore) (slot : SlotName) : String :=
  Path.join store.dir slot.name

/-- Puts a blob into the file of a slot. -/
def putRaw (store : DirectoryStore) (slot : SlotName) (blob : Bytes) :
    Except StoreError Unit × DirectoryStore :=
  match store.files.makeTemporary store.dir blob with
  | .error fault => (.error (.io (.slotFile slot) fault), store)
  | .ok (temporary, files) =>
    match files.moveFile temporary (store.slotPath slot) with
    | .ok files => (.ok (), { store with files })
    | .error fault =>
      (.error (.io (.slotFile slot) fault), { store with files := files.erase temporary })

/-- The content of the file of a slot. -/
def getRaw (store : DirectoryStore) (slot : SlotName) : Except StoreError Bytes :=
  match store.files.read (store.slotPath slot) with
  | .ok blob => .ok blob
  | .error .notFound => .error (.notFound slot)
  | .error fault => .error (.io (.slotFile slot) fault)

/-- A file stands where the file of a slot belongs. -/
def contains (store : DirectoryStore) (slot : SlotName) : Except StoreError Bool :=
  match store.files.look (store.slotPath slot) with
  | .ok (.file _) => .ok true
  | .ok .directory => .ok false
  | .error .notFound => .ok false
  | .error fault => .error (.io (.slotFile slot) fault)

/-- The slot that a file of this name belongs to, if any. -/
def slotOf? (name : FileName) : Option SlotName :=
  match Utf8.decode name with
  | .ok text => (SlotName.ofString text).toOption
  | .error _ => none

/-- The slots of the files in the directory; files of other names are skipped. -/
def list (store : DirectoryStore) : Except StoreError (List SlotName) :=
  match store.files.list store.dir with
  | .error fault => .error (.io (.dataDirectory store.dir) fault)
  | .ok (place, names) =>
    let isFile (name : FileName) : Bool :=
      match store.files.find? (place ++ [name]) with
      | some (.file _) => true
      | _ => false
    .ok (SlotName.sorted ((names.filter isFile).filterMap slotOf?))

instance : Store DirectoryStore := ⟨putRaw, getRaw, contains, list⟩

end DirectoryStore

end SealedStore
