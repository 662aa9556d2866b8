/-
  What a write changes among all files.

  A blob goes to a temporary file first, and from there to the place of its slot.  Between the two
  there is one file more; afterwards there is not.  If the move succeeds, the temporary file has
  become that of the slot, and if it fails, it is taken away again.  So a write changes the file of
  its slot or nothing (`putRaw_of_writable`, `putRaw_of_not_writable`), and what it depends on is
  named once (`Writable`): that the directory is there, that no directory stands where the file
  belongs, and that the paths are not too long.

  Where the file belongs is a matter of texts.  The name of a slot has no slash and is none of the
  names that lead elsewhere, so it is one name behind those of the directory (`isChild_slotPath`).
-/
import SealedStore.Proofs.Store.Calls
import SealedStore.Proofs.Store.Directory

namespace SealedStore

/-! ## Names -/

namespace SlotName

/-- What slot names are: up to 255 letters, digits and three marks, no dot at the front. -/
structure Names (name : String) : Prop where
  length : 1 ≤ name.length ∧ name.length ≤ 255
  first : name.toList.head? ≠ some '.'
  parts : ∀ c ∈ name.toList, ('a' ≤ c ∧ c ≤ 'z') ∨ ('A' ≤ c ∧ c ≤ 'Z') ∨ ('0' ≤ c ∧ c ≤ '9') ∨
    c = '-' ∨ c = '_' ∨ c = '.'

/-- The characters of slot names: letters and digits of ASCII, and three signs. -/
theorem isPart_iff {c : Char} :
    isPart c = true ↔ ('a' ≤ c ∧ c ≤ 'z') ∨ ('A' ≤ c ∧ c ≤ 'Z') ∨ ('0' ≤ c ∧ c ≤ '9') ∨
      c = '-' ∨ c = '_' ∨ c = '.' := by
  have hrange : ∀ a b : Char, (decide (a ≤ c) && decide (c ≤ b)) = true ↔ a ≤ c ∧ c ≤ b := by
    intro a b
    rw [Bool.and_eq_true, decide_eq_true_eq, decide_eq_true_eq]
  have hupper : c.isUpper = true ↔ 'A' ≤ c ∧ c ≤ 'Z' := decide_eq_true_iff
  have hlower : c.isLower = true ↔ 'a' ≤ c ∧ c ≤ 'z' := hrange 'a' 'z'
  have hdigit : c.isDigit = true ↔ '0' ≤ c ∧ c ≤ '9' := hrange '0' '9'
  have halphanum : c.isAlphanum = true ↔
      ('a' ≤ c ∧ c ≤ 'z') ∨ ('A' ≤ c ∧ c ≤ 'Z') ∨ ('0' ≤ c ∧ c ≤ '9') := by
    show ((c.isUpper || c.isLower) || c.isDigit) = true ↔ _
    rw [Bool.or_eq_true, Bool.or_eq_true, hupper, hlower, hdigit, or_comm (a := 'A' ≤ c ∧ _),
      or_assoc]
  unfold isPart
  rw [Bool.or_eq_true, Bool.or_eq_true, Bool.or_eq_true, halphanum, beq_iff_eq, beq_iff_eq,
    beq_iff_eq, or_assoc, or_assoc, or_assoc, or_assoc]

/-- A name of these characters has as many bytes as characters. -/
theorem utf8ByteSize_of_parts {name : String} (h : ∀ c ∈ name.toList, isPart c = true) :
    name.utf8ByteSize = name.length := by
  have hbytes : (Utf8.encode name).length = name.utf8ByteSize := by
    rw [Utf8.encode_eq_toByteArray]
    rfl
  have hchars : ∀ cs : List Char, (∀ c ∈ cs, isPart c = true) →
      (Utf8.encodeChars cs).length = cs.length := by
    intro cs hcs
    induction cs with
    | nil => rfl
    | cons c cs ih =>
      have hc := encodeChar_of_isPart (hcs c List.mem_cons_self)
      have hrest := ih fun d hd => hcs d (List.mem_cons_of_mem _ hd)
      rw [Utf8.encodeChars, List.flatMap_cons, hc, List.length_append, List.length_cons,
        List.length_cons, ← Utf8.encodeChars, hrest]
      exact Nat.add_comm _ _
  rw [← hbytes, Utf8.encode, hchars _ h, String.length_toList]

/-- **The names of slots** are just these. -/
theorem names_iff {name : String} : (∃ slot, ofString name = .ok slot) ↔ Names name := by
  have hfault : (∃ slot, ofString name = .ok slot) ↔ fault? name = none := by
    constructor
    · rintro ⟨slot, hslot⟩
      obtain rfl := ofString_eq_ok_iff.mp hslot
      exact slot.valid
    · intro hvalid
      exact ⟨⟨name, hvalid⟩, ofString_eq_ok_iff.mpr rfl⟩
  rw [hfault, fault?_eq_none_iff]
  constructor
  · rintro ⟨hnil, hlong, hfirst, hparts⟩
    rw [utf8ByteSize_of_parts hparts] at hlong
    refine ⟨⟨?_, hlong⟩, hfirst, fun c hc => isPart_iff.mp (hparts c hc)⟩
    rw [← String.length_toList]
    exact List.length_pos_iff.mpr hnil
  · rintro ⟨⟨hpos, hlong⟩, hfirst, hparts⟩
    have hparts' : ∀ c ∈ name.toList, isPart c = true := fun c hc => isPart_iff.mpr (hparts c hc)
    refine ⟨?_, ?_, hfirst, hparts'⟩
    · rw [← String.length_toList] at hpos
      exact List.length_pos_iff.mp hpos
    · rw [utf8ByteSize_of_parts hparts']
      exact hlong

end SlotName

/-! ## Paths -/

/-- A path is that of a directory and one more name, which stays in the directory. -/
structure IsChild (dir path : String) (name : FileName) : Prop where
  base : FileTree.base path = FileTree.base dir
  names : FileTree.namesOf path = FileTree.namesOf dir ++ [name]
  own : name ≠ FileTree.here ∧ name ≠ FileTree.up

/-- A plain name makes a path into the directory and no further, also behind the empty path, where
    it stands by itself. -/
theorem FileTree.IsPlain.isChild {name : String} (h : FileTree.IsPlain name) (dir : String) :
    IsChild dir (Path.join dir name) (Utf8.encode name) := by
  by_cases hdir : dir.toList = []
  · -- inside the working directory a name is a path by itself
    obtain rfl : dir = "" := String.toList_eq_nil_iff.mp hdir
    have hjoin : Path.join "" name = name := by
      unfold Path.join
      rw [show ("" : String).isEmpty = true from rfl, Bool.or_true, if_pos rfl]
    rw [hjoin]
    refine ⟨?_, ?_, h.notHere, h.notUp⟩
    · have hrelative : Path.isAbsolute name = false := by
        unfold Path.isAbsolute
        cases hchars : name.toList with
        | nil => rfl
        | cons c cs =>
          have hc : c ≠ '/' := fun heq => h.slashless (hchars ▸ heq ▸ List.mem_cons_self)
          simp [hc]
      rw [FileTree.base, hrelative]
      rfl
    · rw [FileTree.namesOf, Path.segments_of_not_mem h.slashless]
      simp [h.nonempty, FileTree.namesOf, Path.segments, Utf8.encode]
  · exact ⟨FileTree.base_join hdir h, FileTree.namesOf_join hdir h, h.notHere, h.notUp⟩

namespace DirectoryStore

variable {store : DirectoryStore} {slot : SlotName}

/-- **The file of a slot lies in the directory itself**, whatever the path of the directory is. -/
theorem isChild_slotPath (store : DirectoryStore) (slot : SlotName) :
    IsChild store.dir (store.slotPath slot) slot.fileName :=
  slot.isPlain_name.isChild store.dir

/-- No two slots have one file. -/
theorem slotPath_inj {a b : SlotName} : store.slotPath a = store.slotPath b ↔ a = b := by
  constructor
  · intro h
    have hnames := (store.isChild_slotPath a).names
    rw [h, (store.isChild_slotPath b).names] at hnames
    exact SlotName.fileName_inj (List.singleton_inj.mp (List.append_cancel_left hnames)).symm
  · rintro rfl
    rfl

/-! ## Writes -/

/-- The directory is there, with no directory where the file of the slot belongs, and neither that
    file nor a temporary one has too long a path. -/
structure Writable (store : DirectoryStore) (slot : SlotName) : Prop where
  place : ∃ place, store.files.resolve store.dir = .ok place ∧
    store.files.find? place = some .directory ∧
    store.files.find? (place ++ [slot.fileName]) ≠ some .directory
  reaches : Reaches store.dir slot
  room : HasRoom store.dir

/-- One place among all files was changed, and the path of the slot leads there: the blob is the
    file of the slot. -/
structure Written (store next : DirectoryStore) (slot : SlotName) (blob : Bytes) : Prop where
  dir : next.dir = store.dir
  place : ∃ place, store.files.resolve store.dir = .ok place ∧
    next.files.resolve (store.slotPath slot) = .ok (place ++ [slot.fileName]) ∧
    next.files.find? (place ++ [slot.fileName]) = some (.file blob) ∧
    ∀ other, other ≠ place ++ [slot.fileName] →
      next.files.find? other = store.files.find? other
  read : Store.getRaw next slot = .ok blob

theorem getRaw_of_read {blob : Bytes} (h : store.files.read (store.slotPath slot) = .ok blob) :
    Store.getRaw store slot = .ok blob := by
  show DirectoryStore.getRaw store slot = _
  unfold getRaw
  rw [h]

/-- A blob is written when there is room for it and no directory in its place, and then it is what
    is read from there. -/
theorem putRaw_of_writable (h : Writable store slot) (blob : Bytes) :
    ∃ next, Store.putRaw store slot blob = (.ok (), next) ∧ Written store next slot blob := by
  obtain ⟨place, hdir, hplace, hfree⟩ := h.place
  have hput : Store.putRaw store slot blob = _ :=
    putRaw_of_free hdir hplace h.reaches h.room hfree
  -- the path leads to the same place as before, as all directories are there still
  have hkept : ∀ p, store.files.find? p = some .directory →
      (store.files.set (place ++ [slot.fileName]) (.file blob)).find? p = some .directory :=
    fun _ hp => FileTree.find?_set_directory hfree hp _
  have hslot : (store.files.set (place ++ [slot.fileName]) (.file blob)).resolve
      (store.slotPath slot) = .ok (place ++ [slot.fileName]) :=
    FileTree.resolve_join slot.isPlain_name (FileTree.resolve_of_directories hkept hdir)
      (hkept place hplace) h.reaches
  have hfile :=
    FileTree.find?_set_self store.files (slot.isFixed_concat_fileName place) (.file blob)
  have hread : (store.files.set (place ++ [slot.fileName]) (.file blob)).read
      (store.slotPath slot) = .ok blob := by
    rw [FileTree.read, FileTree.look, hslot, except_ok_bind, hfile]
    rfl
  refine ⟨_, hput, rfl, ⟨place, hdir, hslot, hfile, ?_⟩, ?_⟩
  · intro other hne
    exact FileTree.find?_set_of_ne _ hne _
  · exact getRaw_of_read hread

/-- A file does not become a directory: the temporary one is taken away again. -/
theorem putRaw_of_taken {place : Place} {blob : Bytes}
    (hdir : store.files.resolve store.dir = .ok place)
    (hplace : store.files.find? place = some .directory) (hslot : Reaches store.dir slot)
    (hroom : HasRoom store.dir)
    (htaken : store.files.find? (place ++ [slot.fileName]) = some .directory) :
    Store.putRaw store slot blob = (.error (.io (.slotFile slot) .isDirectory), store) := by
  refine putRaw_of_moveFile_error hdir hplace hroom ?_
  -- the temporary file is there, and it stands in the way of no directory
  have hkept : ∀ p, store.files.find? p = some .directory →
      (store.files.set (store.files.temporaryPlace place) (.file blob)).find? p =
        some .directory :=
    fun p hp => FileTree.find?_set_temporary place hp _
  have hsource := FileTree.find?_set_self store.files
    (store.files.isFixed_temporaryPlace place) (.file blob)
  have htarget : (store.files.set (store.files.temporaryPlace place) (.file blob)).find?
      (place ++ [Utf8.encode slot.name]) = some .directory := hkept _ htaken
  have hresolve := FileTree.resolve_join slot.isPlain_name
    (FileTree.resolve_of_directories hkept hdir) (hkept place hplace) hslot
  rw [FileTree.moveFile, slotPath, hresolve, except_ok_bind, hsource, htarget]

/-- **A write that cannot be done leaves everything as it was.** -/
theorem putRaw_of_not_writable (h : ¬ Writable store slot) (blob : Bytes) :
    ∃ fault, Store.putRaw store slot blob = (.error (.io (.slotFile slot) fault), store) := by
  by_cases hroom : HasRoom store.dir
  · cases hlist : store.files.list store.dir with
    | error fault =>
      refine ⟨fault, putRaw_of_makeTemporary_error ?_⟩
      rw [FileTree.makeTemporary, if_neg (Nat.not_lt.mpr hroom), hlist]
      rfl
    | ok found =>
      obtain ⟨place, names⟩ := found
      obtain ⟨hdir, hplace, -⟩ := FileTree.list_eq_ok_iff.mp hlist
      by_cases hslot : Reaches store.dir slot
      · have htaken : store.files.find? (place ++ [slot.fileName]) = some .directory := by
          by_contra hfree
          exact h ⟨⟨place, hdir, hplace, hfree⟩, hslot, hroom⟩
        exact ⟨_, putRaw_of_taken hdir hplace hslot hroom htaken⟩
      · exact ⟨_, putRaw_of_not_reaches hdir hplace hroom hslot⟩
  · exact ⟨_, putRaw_of_not_hasRoom hroom⟩

/-- A blob is written, or something is in the way and nothing happens. -/
theorem putRaw_or (store : DirectoryStore) (slot : SlotName) (blob : Bytes) :
    (Writable store slot ∧
      ∃ next, Store.putRaw store slot blob = (.ok (), next) ∧ Written store next slot blob) ∨
    (¬ Writable store slot ∧ ∃ e, Store.putRaw store slot blob = (.error e, store)) := by
  by_cases h : Writable store slot
  · exact .inl ⟨h, putRaw_of_writable h blob⟩
  · obtain ⟨fault, hfault⟩ := putRaw_of_not_writable h blob
    exact .inr ⟨h, _, hfault⟩

/-- A value is written as its blob is, and the size is told.  One without a blob is not written. -/
theorem put_or (store : DirectoryStore) (slot : SlotName) (v : Value) :
    (∃ blob next, Frame.pack v = .ok blob ∧ Writable store slot ∧
      Store.put store slot v = (.ok blob.length, next) ∧ Written store next slot blob) ∨
    ((¬ Writable store slot ∨ ∃ e, Frame.pack v = .error e) ∧
      ∃ e, Store.put store slot v = (.error e, store)) := by
  cases hpack : Frame.pack v with
  | error e => exact .inr ⟨.inr ⟨e, rfl⟩, _, Store.put_of_refused store slot hpack⟩
  | ok blob =>
    have hput := Store.put_of_pack store slot hpack
    rcases putRaw_or store slot blob with ⟨hable, next, hraw, hwritten⟩ | ⟨hnot, e, hraw⟩
    · rw [hraw] at hput
      exact .inl ⟨blob, next, rfl, hable, hput, hwritten⟩
    · rw [hraw] at hput
      exact .inr ⟨.inl hnot, e, hput⟩

/-- **A write changes the file of its slot or nothing**, and that file lies in the directory, by
    itself: the names of slots lead nowhere else, and no two of them to one file. -/
theorem writes_one_path (store : DirectoryStore) (slot : SlotName) :
    (∀ blob, (Writable store slot ∧
        ∃ next, Store.putRaw store slot blob = (.ok (), next) ∧ Written store next slot blob) ∨
      (¬ Writable store slot ∧ ∃ e, Store.putRaw store slot blob = (.error e, store))) ∧
    (∀ v, (∃ blob next, Frame.pack v = .ok blob ∧ Writable store slot ∧
        Store.put store slot v = (.ok blob.length, next) ∧ Written store next slot blob) ∨
      ((¬ Writable store slot ∨ ∃ e, Frame.pack v = .error e) ∧
        ∃ e, Store.put store slot v = (.error e, store))) ∧
    (∀ name, (∃ named, SlotName.ofString name = .ok named) ↔ SlotName.Names name) ∧
    IsChild store.dir (store.slotPath slot) slot.fileName ∧
    ∀ other, store.slotPath other = store.slotPath slot ↔ other = slot := by
  refine ⟨putRaw_or store slot, put_or store slot, fun name => SlotName.names_iff,
    store.isChild_slotPath slot, ?_⟩
  intro other
  exact slotPath_inj

end DirectoryStore

end SealedStore
