/-
  A directory of files as a map.

  A directory `Mirrors` a store in memory when its path leads to a directory in which the file of
  every slot is the blob that the memory holds there, and is missing where it holds none; other
  files do not matter.  Every operation answers as it does in memory, and what it changes is
  mirrored again.  Only a path that is too long for the files gets in the way.

  What is only read does not need a memory beside it.  In any directory the slots are the files
  that stand where files of slots belong (`Holds`), and the list is those in their order
  (`exists_list`).
-/
import SealedStore.Proofs.Store.Memory
import SealedStore.Store.Directory

namespace SealedStore.DirectoryStore

open FileTree (maxPathLength temporaryRoom)

/-- The path of the file of a slot is short enough. -/
def Reaches (dir : String) (slot : SlotName) : Prop :=
  (Path.join dir slot.name).utf8ByteSize ≤ maxPathLength

/-- The path of a temporary file is short enough. -/
def HasRoom (dir : String) : Prop := dir.utf8ByteSize + temporaryRoom ≤ maxPathLength

/-- The files of a directory are the blobs that a store in memory holds. -/
structure Mirrors (place : Place) (store : DirectoryStore) (mem : MemoryStore) : Prop where
  resolves : store.files.resolve store.dir = .ok place
  directory : store.files.find? place = some .directory
  holds : ∀ slot : SlotName,
    store.files.find? (place ++ [slot.fileName]) = (mem.get? slot).map Entry.file

section
variable {place : Place} {store : DirectoryStore} {slot : SlotName} {blob : Bytes}

/-! ## Blobs on their way -/

/-- A blob for which there is room in its directory, and no directory in its place, becomes the file
    of its slot. -/
theorem putRaw_of_free (hdir : store.files.resolve store.dir = .ok place)
    (hplace : store.files.find? place = some .directory) (hslot : Reaches store.dir slot)
    (hroom : HasRoom store.dir)
    (hfree : store.files.find? (place ++ [slot.fileName]) ≠ some .directory) :
    Store.putRaw store slot blob =
      (.ok (), ⟨store.dir, store.files.set (place ++ [slot.fileName]) (.file blob)⟩) := by
  have hresolve : store.files.resolve (store.slotPath slot) = .ok (place ++ [slot.fileName]) :=
    FileTree.resolve_join slot.isPlain_name hdir hplace hslot
  show DirectoryStore.putRaw store slot blob = _
  unfold putRaw
  rw [FileTree.makeTemporary_eq hdir hplace hroom]
  simp only [FileTree.moveFile_temporary hresolve hfree]

/-- Without a temporary file nothing happens. -/
theorem putRaw_of_makeTemporary_error {fault : IoFault}
    (h : store.files.makeTemporary store.dir blob = .error fault) :
    Store.putRaw store slot blob = (.error (.io (.slotFile slot) fault), store) := by
  show DirectoryStore.putRaw store slot blob = _
  unfold putRaw
  rw [h]

/-- A temporary file that cannot be moved is taken away again. -/
theorem putRaw_of_moveFile_error {fault : IoFault}
    (hdir : store.files.resolve store.dir = .ok place)
    (hplace : store.files.find? place = some .directory) (hroom : HasRoom store.dir)
    (hmove : (store.files.set (store.files.temporaryPlace place) (.file blob)).moveFile
      (store.files.temporaryPlace place) (store.slotPath slot) = .error fault) :
    Store.putRaw store slot blob = (.error (.io (.slotFile slot) fault), store) := by
  show DirectoryStore.putRaw store slot blob = _
  unfold putRaw
  rw [FileTree.makeTemporary_eq hdir hplace hroom]
  simp only [hmove, FileTree.erase_temporary]

theorem putRaw_of_not_hasRoom (h : ¬ HasRoom store.dir) :
    Store.putRaw store slot blob = (.error (.io (.slotFile slot) .nameTooLong), store) := by
  refine putRaw_of_makeTemporary_error ?_
  rw [FileTree.makeTemporary, if_pos (Nat.lt_of_not_le h)]

/-- A slot whose path is too long is refused, and nothing is left behind. -/
theorem putRaw_of_not_reaches (hdir : store.files.resolve store.dir = .ok place)
    (hplace : store.files.find? place = some .directory) (hroom : HasRoom store.dir)
    (h : ¬ Reaches store.dir slot) :
    Store.putRaw store slot blob = (.error (.io (.slotFile slot) .nameTooLong), store) := by
  refine putRaw_of_moveFile_error hdir hplace hroom ?_
  have hresolves := FileTree.resolve_of_directories
    (fun _ hp => FileTree.find?_set_temporary place hp (.file blob)) hdir
  have hresolve :=
    FileTree.resolve_join_of_long slot.isPlain_name hresolves (Nat.lt_of_not_le h)
  rw [FileTree.moveFile, slotPath, hresolve]
  rfl

end

/-- A file belongs to a slot just when it has the name of the slot: the name must be text, and a
    slot name. -/
theorem slotOf?_eq_some_iff {name : FileName} {slot : SlotName} :
    slotOf? name = some slot ↔ name = slot.fileName := by
  unfold slotOf?
  constructor
  · intro h
    split at h
    · next text hdecode =>
      cases hparse : SlotName.ofString text with
      | error fault =>
        rw [hparse] at h
        nomatch h
      | ok s =>
        rw [hparse] at h
        obtain rfl := Option.some.inj h
        rw [Utf8.decode_eq_ok_iff.mp hdecode, SlotName.ofString_eq_ok_iff.mp hparse]
        rfl
    · nomatch h
  · rintro rfl
    have hdecode : Utf8.decode slot.fileName = .ok slot.name := Utf8.decode_eq_ok_iff.mpr rfl
    simp only [hdecode, SlotName.ofString_eq_ok_iff.mpr rfl]
    rfl

/-! ## Slots in a directory -/

/-- The path of the directory leads to a directory. -/
structure Opened (place : Place) (store : DirectoryStore) : Prop where
  resolves : store.files.resolve store.dir = .ok place
  directory : store.files.find? place = some .directory

/-- Every slot has a path that is short enough in a directory whose own path leaves room for a slash
    and the longest name. -/
theorem reaches_of_short {dir : String}
    (h : dir.utf8ByteSize + 1 + SlotName.maxLength ≤ maxPathLength) (slot : SlotName) :
    Reaches dir slot := by
  have hjoin := Path.utf8ByteSize_join_le dir slot.name
  have hname := slot.utf8ByteSize_name_le
  unfold Reaches
  omega

/-- A file of these bytes stands where the file of a slot belongs. -/
def Holds (place : Place) (store : DirectoryStore) (slot : SlotName) (blob : Bytes) : Prop :=
  store.files.find? (place ++ [slot.fileName]) = some (.file blob)

/-- A file stands under a name in a directory. -/
def isFile (place : Place) (store : DirectoryStore) (name : FileName) : Bool :=
  match store.files.find? (place ++ [name]) with
  | some (.file _) => true
  | _ => false

/-- The slots of the files in a directory, in the order in which the files come. -/
def slotsFound (place : Place) (store : DirectoryStore) : List SlotName :=
  ((store.files.names place).filter (isFile place store)).filterMap slotOf?

/-- A name is that of a file just when a file stands there. -/
theorem isFile_iff {place : Place} {store : DirectoryStore} {name : FileName} :
    isFile place store name = true ↔
      ∃ content, store.files.find? (place ++ [name]) = some (.file content) := by
  unfold isFile
  split
  · next content hcontent => simp [hcontent]
  · next hnot =>
    refine ⟨nofun, ?_⟩
    rintro ⟨content, hcontent⟩
    exact (hnot content hcontent).elim

/-- A slot is found when a file stands in its place. -/
theorem mem_slotsFound_iff {place : Place} {store : DirectoryStore} {slot : SlotName} :
    slot ∈ slotsFound place store ↔ ∃ blob, Holds place store slot blob := by
  unfold slotsFound Holds
  rw [List.mem_filterMap]
  constructor
  · rintro ⟨name, hname, hslot⟩
    obtain rfl := slotOf?_eq_some_iff.mp hslot
    exact isFile_iff.mp (List.mem_filter.mp hname).2
  · rintro ⟨blob, hblob⟩
    have hfound :
        Assoc.find (place ++ [slot.fileName]) store.files.entries = some (.file blob) := by
      rwa [FileTree.find?, slot.isFixed_concat_fileName, if_neg Bool.false_ne_true] at hblob
    refine ⟨slot.fileName, List.mem_filter.mpr ⟨?_, ?_⟩, slotOf?_eq_some_iff.mpr rfl⟩
    · rw [FileTree.mem_names_iff, hfound]
      rfl
    · exact isFile_iff.mpr ⟨blob, hblob⟩

/-- No slot is found twice when no two files are at one place. -/
theorem nodup_slotsFound {place : Place} {store : DirectoryStore}
    (h : (store.files.entries.map Prod.fst).Nodup) : (slotsFound place store).Nodup := by
  have hnames : (store.files.names place).Nodup := by
    have hsame : store.files.names place =
        (store.files.entries.map Prod.fst).filterMap (FileTree.nameIn? place) := by
      rw [List.filterMap_map]
      rfl
    rw [hsame]
    refine List.Nodup.filterMap ?_ h
    intro p q name hp hq
    rw [FileTree.nameIn?_eq_some_iff.mp hp, FileTree.nameIn?_eq_some_iff.mp hq]
  refine List.Nodup.filterMap ?_ (hnames.filter _)
  intro name other slot hname hother
  rw [slotOf?_eq_some_iff.mp hname, slotOf?_eq_some_iff.mp hother]

namespace Opened

variable {place : Place} {store : DirectoryStore} {slot : SlotName}

/-- A store that was opened is that of a directory, and no file was changed. -/
theorem of_openAt {files : FileTree} {dir : String} (h : openAt files dir = .ok store) :
    store = ⟨dir, files⟩ ∧ ∃ place, Opened place store := by
  unfold openAt at h
  split at h
  · next hlook =>
    obtain rfl := Except.ok.inj h
    refine ⟨rfl, ?_⟩
    rw [FileTree.look, except_bind_eq_ok] at hlook
    obtain ⟨place, hresolve, hfind⟩ := hlook
    refine ⟨place, hresolve, ?_⟩
    split at hfind
    · next e he => rw [he, Except.ok.inj hfind]
    · nomatch hfind
  · nomatch h
  · nomatch h

/-- **The list is the slots found, in their order.** -/
theorem list_eq (h : Opened place store) :
    Store.list store = .ok (SlotName.sorted (slotsFound place store)) := by
  have hlist : store.files.list store.dir = .ok (place, store.files.names place) :=
    FileTree.list_eq_ok_iff.mpr ⟨h.resolves, h.directory, rfl⟩
  show DirectoryStore.list store = _
  unfold list
  rw [hlist]
  rfl

/-- What the path of a slot leads to is what stands in its place. -/
theorem look_slot (h : Opened place store) (hslot : Reaches store.dir slot) :
    store.files.look (store.slotPath slot) =
      match store.files.find? (place ++ [slot.fileName]) with
      | some e => .ok e
      | none => .error .notFound := by
  have hresolve : store.files.resolve (store.slotPath slot) = .ok (place ++ [slot.fileName]) :=
    FileTree.resolve_join slot.isPlain_name h.resolves h.directory hslot
  rw [FileTree.look, hresolve]
  rfl

/-! ### Paths that are too long -/

section
variable (h : Opened place store) (hslot : ¬ Reaches store.dir slot)
include h hslot

theorem look_of_long : store.files.look (store.slotPath slot) = .error .nameTooLong := by
  have hresolve :=
    FileTree.resolve_join_of_long slot.isPlain_name h.resolves (Nat.lt_of_not_le hslot)
  rw [FileTree.look, slotPath, hresolve]
  rfl

theorem getRaw_of_long : Store.getRaw store slot = .error (.io (.slotFile slot) .nameTooLong) := by
  show DirectoryStore.getRaw store slot = _
  unfold getRaw
  rw [FileTree.read, h.look_of_long hslot]
  rfl

theorem contains_of_long :
    Store.contains store slot = .error (.io (.slotFile slot) .nameTooLong) := by
  show DirectoryStore.contains store slot = _
  unfold contains
  rw [h.look_of_long hslot]

end

end Opened

namespace Mirrors

variable {place : Place} {store : DirectoryStore} {mem : MemoryStore} {slot : SlotName}

/-! ## Reading -/

theorem opened (h : Mirrors place store mem) : Opened place store := ⟨h.resolves, h.directory⟩

/-- A slot that the store in memory has is a file, -/
theorem look_of_some (h : Mirrors place store mem) (hslot : Reaches store.dir slot) {blob : Bytes}
    (hheld : mem.get? slot = some blob) :
    store.files.look (store.slotPath slot) = .ok (.file blob) := by
  rw [h.opened.look_slot hslot, h.holds, hheld]
  rfl

/-- and nothing is where one would be that it does not have. -/
theorem look_of_none (h : Mirrors place store mem) (hslot : Reaches store.dir slot)
    (hfree : mem.get? slot = none) :
    store.files.look (store.slotPath slot) = .error .notFound := by
  rw [h.opened.look_slot hslot, h.holds, hfree]
  rfl

/-- A slot is read as it is from the store that the directory mirrors. -/
theorem getRaw_eq (h : Mirrors place store mem) (hslot : Reaches store.dir slot) :
    Store.getRaw store slot = Store.getRaw mem slot := by
  show DirectoryStore.getRaw store slot = _
  unfold getRaw
  cases hheld : mem.get? slot with
  | some blob =>
    rw [MemoryStore.getRaw_of_some hheld, FileTree.read, h.look_of_some hslot hheld, except_ok_bind]
  | none =>
    rw [MemoryStore.getRaw_of_none hheld, FileTree.read, h.look_of_none hslot hheld]
    rfl

theorem get_eq (h : Mirrors place store mem) (hslot : Reaches store.dir slot) :
    Store.get store slot = Store.get mem slot := by
  unfold Store.get
  rw [h.getRaw_eq hslot]

/-- A slot is there when it is there in the store that the directory mirrors. -/
theorem contains_eq (h : Mirrors place store mem) (hslot : Reaches store.dir slot) :
    Store.contains store slot = Store.contains mem slot := by
  show DirectoryStore.contains store slot = .ok (mem.get? slot).isSome
  unfold contains
  cases hheld : mem.get? slot with
  | some blob => rw [h.look_of_some hslot hheld]; rfl
  | none => rw [h.look_of_none hslot hheld]; rfl

/-! ## Listing -/

theorem exists_holds_iff (h : Mirrors place store mem) :
    (∃ blob, Holds place store slot blob) ↔ slot ∈ mem.slots := by
  unfold Holds
  rw [h.holds, MemoryStore.mem_slots_iff, Option.isSome_iff_exists]
  simp

theorem list_eq (h : Mirrors place store mem) : Store.list store = Store.list mem := by
  rw [h.opened.list_eq]
  refine congrArg Except.ok (SlotName.sorted_eq mem.pairwise_slots fun slot => ?_)
  exact mem_slotsFound_iff.trans h.exists_holds_iff

/-! ## Writing -/

/-- A file at the place of a slot, and nothing else, is what a blob in the slot is. -/
theorem set_insert (h : Mirrors place store mem) (slot : SlotName) (blob : Bytes) :
    Mirrors place ⟨store.dir, store.files.set (place ++ [slot.fileName]) (.file blob)⟩
      (mem.insert slot blob) := by
  have hfixed := slot.isFixed_concat_fileName place
  have hfree : store.files.find? (place ++ [slot.fileName]) ≠ some .directory := by
    rw [h.holds]
    simp
  have hkept : ∀ p, store.files.find? p = some .directory →
      (store.files.set (place ++ [slot.fileName]) (.file blob)).find? p = some .directory :=
    fun _ hp => FileTree.find?_set_directory hfree hp _
  refine ⟨FileTree.resolve_of_directories hkept h.resolves, hkept _ h.directory, fun other => ?_⟩
  by_cases heq : other = slot
  · subst heq
    show FileTree.find? (store.files.set _ _) _ = _
    rw [FileTree.find?_set_self _ hfixed, MemoryStore.get?_insert_self]
    rfl
  · have hne : place ++ [other.fileName] ≠ place ++ [slot.fileName] := fun hplace =>
      heq (SlotName.fileName_inj (List.singleton_inj.mp (List.append_cancel_left hplace)))
    show FileTree.find? (store.files.set _ _) _ = _
    rw [FileTree.find?_set_of_ne _ hne, h.holds, MemoryStore.get?_insert_of_ne _ heq]

/-- **A blob that is put into a slot is put into its file**, and the directory is a mirror again. -/
theorem exists_putRaw_eq (h : Mirrors place store mem) (hslot : Reaches store.dir slot)
    (hroom : HasRoom store.dir) (blob : Bytes) :
    ∃ next, Store.putRaw store slot blob = (.ok (), next) ∧ next.dir = store.dir ∧
      Mirrors place next (mem.insert slot blob) := by
  have hfree : store.files.find? (place ++ [slot.fileName]) ≠ some .directory := by
    rw [h.holds]
    simp
  exact ⟨_, putRaw_of_free h.resolves h.directory hslot hroom hfree, rfl, h.set_insert slot blob⟩

/-- A blob whose file or temporary file has too long a path changes nothing. -/
theorem putRaw_of_long (h : Mirrors place store mem)
    (hlong : ¬ (Reaches store.dir slot ∧ HasRoom store.dir)) (blob : Bytes) :
    Store.putRaw store slot blob = (.error (.io (.slotFile slot) .nameTooLong), store) := by
  by_cases hroom : HasRoom store.dir
  · exact putRaw_of_not_reaches h.resolves h.directory hroom fun hslot => hlong ⟨hslot, hroom⟩
  · exact putRaw_of_not_hasRoom hroom

end Mirrors

end SealedStore.DirectoryStore
