/-
  What a directory says of its slots.

  Anything may lie in a directory: files under names that are no slots, names that are no text,
  directories where files of slots belong.  The list goes through the names of the files there.
  The other operations follow the path of one slot, to a file, to a directory or to nothing.  All
  of them come to the same, whether a file stands in the place of the slot (`Holds`), and so the
  slots that are listed are those that give bytes (`contains_eq_ok_true_iff`, `getRaw_eq_ok_iff`).
  The list works by names alone, and a path can be too long to be followed; such a file cannot be
  read, and the directory has to have none of these (`Readable`).

  The summary goes through the list and reads every slot, so it tells of each of them once.
-/
import SealedStore.CommandLine.Command
import SealedStore.Proofs.Store.Directory

namespace SealedStore

/-! ## Summaries -/

section
variable {σ : Type} [Store σ] {store : σ} {slot : SlotName}

/-- A row tells of the bytes in a slot. -/
def TellsOf (store : σ) (slot : SlotName) (row : Report.SlotSummary) : Prop :=
  ∃ blob, Store.getRaw store slot = .ok blob ∧ row = ⟨slot, blob.length, Report.isIntact blob⟩

theorem Report.isIntact_iff {blob : Bytes} :
    Report.isIntact blob = true ↔ ∃ v, Frame.unpack blob = .ok v := by
  unfold Report.isIntact
  split
  · next v hv => simp [hv]
  · next e he => simp [he]

/-- A slot that gives bytes gives a value when the bytes are a sound blob. -/
theorem Store.exists_get_iff {blob : Bytes} (h : getRaw store slot = .ok blob) :
    (∃ v, get store slot = .ok v) ↔ ∃ v, Frame.unpack blob = .ok v := by
  unfold get
  rw [h]
  cases hread : Frame.unpack blob with
  | ok v => simp [hread]
  | error e => simp [hread]

/-- **Slots that all give bytes have a row each**, in their order. -/
theorem exists_summaries {slots : List SlotName}
    (h : ∀ slot ∈ slots, ∃ blob, Store.getRaw store slot = .ok blob) :
    ∃ rows, Command.summaries store slots = .ok rows ∧ List.Forall₂ (TellsOf store) slots rows := by
  induction slots with
  | nil => exact ⟨[], rfl, .nil⟩
  | cons slot slots ih =>
    obtain ⟨⟨blob, hblob⟩, hrest⟩ := List.forall_mem_cons.mp h
    obtain ⟨rows, hrows, htell⟩ := ih hrest
    refine ⟨⟨slot, blob.length, Report.isIntact blob⟩ :: rows, ?_, .cons ⟨blob, hblob, rfl⟩ htell⟩
    unfold Command.summaries
    simp only [hblob, hrows]

end

namespace DirectoryStore

variable {place : Place} {store : DirectoryStore} {slot : SlotName}

/-! ## One slot -/

section
variable (h : Opened place store)
include h

/-- The store has a slot when a file stands in its place, at the end of a path that can be
    followed. -/
theorem Opened.contains_eq_ok_true_iff :
    Store.contains store slot = .ok true ↔
      Reaches store.dir slot ∧ ∃ blob, Holds place store slot blob := by
  by_cases hslot : Reaches store.dir slot
  · have hlook := h.look_slot hslot
    show DirectoryStore.contains store slot = .ok true ↔ _
    unfold contains Holds
    rw [hlook]
    rcases store.files.find? (place ++ [slot.fileName]) with _ | ⟨content⟩ | _
    · simp
    · simp [hslot]
    · simp
  · rw [h.contains_of_long hslot]
    simp [hslot]

/-- The bytes that a slot gives are those of that file. -/
theorem Opened.getRaw_eq_ok_iff {blob : Bytes} :
    Store.getRaw store slot = .ok blob ↔ Reaches store.dir slot ∧ Holds place store slot blob := by
  by_cases hslot : Reaches store.dir slot
  · have hlook := h.look_slot hslot
    show DirectoryStore.getRaw store slot = .ok blob ↔ _
    unfold getRaw Holds
    rw [FileTree.read, hlook]
    rcases store.files.find? (place ++ [slot.fileName]) with _ | ⟨content⟩ | _
    · simp [bind, Except.bind]
    · simp [bind, Except.bind, hslot]
    · simp [bind, Except.bind]
  · rw [h.getRaw_of_long hslot]
    simp [hslot]

end

/-! ## All slots -/

/-- The files of slots can be read: each of them has a path that is short enough. -/
def Readable (store : DirectoryStore) : Prop :=
  ∀ place slot blob, store.files.resolve store.dir = .ok place → Holds place store slot blob →
    Reaches store.dir slot

/-- A row tells how long the file of a slot is, and whether there is a value in it. -/
structure RowOf (place : Place) (store : DirectoryStore) (slot : SlotName)
    (row : Report.SlotSummary) : Prop where
  named : row.slot = slot
  bytes : ∃ content, Holds place store slot content ∧ row.bytes = content.length
  intact : row.intact = true ↔ ∃ v, Store.get store slot = .ok v

/-- What the summary tells of a slot is what the file of the slot tells. -/
theorem Opened.rowOf (h : Opened place store) {row : Report.SlotSummary}
    (hrow : TellsOf store slot row) : RowOf place store slot row := by
  obtain ⟨blob, hblob, rfl⟩ := hrow
  refine ⟨rfl, ⟨blob, (h.getRaw_eq_ok_iff.mp hblob).2, rfl⟩, ?_⟩
  rw [Store.exists_get_iff hblob]
  exact Report.isIntact_iff

/-- What a directory says of its slots: in its list, slot by slot, and in its summary. -/
structure Agrees (place : Place) (store : DirectoryStore) (slots : List SlotName)
    (rows : List Report.SlotSummary) : Prop where
  list : Store.list store = .ok slots
  ascending : slots.Pairwise (· < ·)
  /-- The list has every file of a slot once, as no two files are at one place. -/
  once : (store.files.entries.map Prod.fst).Nodup → slots.Perm (slotsFound place store)
  contains : ∀ slot, slot ∈ slots ↔ Store.contains store slot = .ok true
  getRaw : ∀ slot, slot ∈ slots ↔ ∃ blob, Store.getRaw store slot = .ok blob
  summary : Command.summarize store = .ok rows
  rows : List.Forall₂ (RowOf place store) slots rows

/-- **The list, the single slots and the summary of a directory agree**, whatever lies in it. -/
theorem listing_agrees {files : FileTree} {dir : String} (hopen : openAt files dir = .ok store)
    (hreadable : Readable store) :
    ∃ place slots rows, files.resolve dir = .ok place ∧ Agrees place store slots rows := by
  obtain ⟨rfl, place, h⟩ := Opened.of_openAt hopen
  have hlist := h.list_eq
  have hmem : ∀ slot, slot ∈ SlotName.sorted (slotsFound place ⟨dir, files⟩) ↔
      ∃ blob, Holds place ⟨dir, files⟩ slot blob := by
    intro slot
    rw [SlotName.mem_sorted_iff, mem_slotsFound_iff]
  have hgetRaw : ∀ slot, slot ∈ SlotName.sorted (slotsFound place ⟨dir, files⟩) ↔
      ∃ blob, Store.getRaw (DirectoryStore.mk dir files) slot = .ok blob := by
    intro slot
    rw [hmem]
    constructor
    · rintro ⟨blob, hblob⟩
      exact ⟨blob, h.getRaw_eq_ok_iff.mpr ⟨hreadable place slot blob h.resolves hblob, hblob⟩⟩
    · rintro ⟨blob, hblob⟩
      exact ⟨blob, (h.getRaw_eq_ok_iff.mp hblob).2⟩
  have hcontains : ∀ slot, slot ∈ SlotName.sorted (slotsFound place ⟨dir, files⟩) ↔
      Store.contains (DirectoryStore.mk dir files) slot = .ok true := by
    intro slot
    rw [hmem, h.contains_eq_ok_true_iff]
    constructor
    · rintro ⟨blob, hblob⟩
      exact ⟨hreadable place slot blob h.resolves hblob, blob, hblob⟩
    · rintro ⟨-, hheld⟩
      exact hheld
  obtain ⟨rows, hrows, htell⟩ := exists_summaries fun slot hslot => (hgetRaw slot).mp hslot
  refine ⟨place, _, rows, h.resolves, hlist, SlotName.pairwise_sorted _, ?_, hcontains, hgetRaw,
    ?_, htell.imp fun _ _ hrow => h.rowOf hrow⟩
  · intro hplaces
    exact SlotName.perm_sorted (nodup_slotsFound hplaces)
  · unfold Command.summarize
    rw [hlist]
    exact hrows

/-- A directory of all sorts: a hidden file, a name with a space, one that is no text, the slots
    `b` with a blob and `a` with other bytes, and a directory where the file of slot `c` belongs. -/
def mixedFiles : FileTree :=
  let data : FileName := Utf8.encode "data"
  ⟨[([data], .directory), ([data, Utf8.encode ".b"], .file []),
    ([data, Utf8.encode "b b"], .file []), ([data, [0xFF]], .file [0x00]),
    ([data, Utf8.encode "b"], .file ((Frame.pack (.int 5)).toOption.getD [])),
    ([data, Utf8.encode "c"], .directory), ([data, Utf8.encode "a"], .file [0x00])]⟩

/-- In such a directory the slots `a` and `b` are listed, and the summary agrees with that. -/
theorem mixed_listing_agrees :
    openAt mixedFiles "data" = .ok ⟨"data", mixedFiles⟩ ∧ Readable ⟨"data", mixedFiles⟩ ∧
      ∃ place rows, mixedFiles.resolve "data" = .ok place ∧
        Agrees place ⟨"data", mixedFiles⟩ [⟨"a", by decide⟩, ⟨"b", by decide⟩] rows := by
  have hopen : openAt mixedFiles "data" = .ok ⟨"data", mixedFiles⟩ := by rfl
  have hreadable : Readable ⟨"data", mixedFiles⟩ := fun _ slot _ _ _ =>
    reaches_of_short (by decide) slot
  have hlist : Store.list (DirectoryStore.mk "data" mixedFiles) =
      .ok [⟨"a", by decide⟩, ⟨"b", by decide⟩] := by rfl
  obtain ⟨place, slots, rows, hplace, hagrees⟩ := listing_agrees hopen hreadable
  obtain rfl := Except.ok.inj (hagrees.list.symm.trans hlist)
  exact ⟨hopen, hreadable, place, rows, hplace, hagrees⟩

end DirectoryStore

end SealedStore
