/-
  A directory answers as a store in memory does.

  Both are asked the same calls, the one opened on an empty directory and the other empty.  As
  long as the files do what is asked of them, a call gets the same answer from both and leaves
  the directory a mirror of the memory (`perform_eq`), and so do all calls in a row.  The files
  fail where a path is too long for them, and there the answer says so (`filesFail_of_not_fits`).
-/
import SealedStore.Proofs.Store.Directory

namespace SealedStore

/-- The files did not do what a store asked of them. -/
def Answer.FilesFail (answer : Answer) : Prop :=
  ∃ target fault, answer.error? = some (.io target fault)

namespace DirectoryStore

/-- The paths that a call needs in a directory are short enough.  A value without a blob needs
    none. -/
def Fits (dir : String) : Call → Prop
  | .put slot v => (∃ blob, Frame.pack v = .ok blob) → Reaches dir slot ∧ HasRoom dir
  | .putRaw slot _ => Reaches dir slot ∧ HasRoom dir
  | .get slot | .getRaw slot | .contains slot => Reaches dir slot
  | .list => True

/-- Every call fits a directory whose path leaves room for a slash and the longest name. -/
theorem fits_of_short {dir : String}
    (hdir : dir.utf8ByteSize + 1 + SlotName.maxLength ≤ FileTree.maxPathLength) (call : Call) :
    Fits dir call := by
  have hreaches : ∀ slot, Reaches dir slot := reaches_of_short hdir
  have hroom : HasRoom dir := by
    unfold HasRoom FileTree.temporaryRoom
    unfold SlotName.maxLength at hdir
    omega
  cases call with
  | put slot v => exact fun _ => ⟨hreaches slot, hroom⟩
  | putRaw slot blob => exact ⟨hreaches slot, hroom⟩
  | get slot => exact hreaches slot
  | getRaw slot => exact hreaches slot
  | contains slot => exact hreaches slot
  | list => trivial

namespace Mirrors

variable {place : Place} {store : DirectoryStore} {mem : MemoryStore}

/-! ## A directory when it is opened -/

/-- An empty directory mirrors the empty store, when it is opened. -/
theorem of_empty {files : FileTree} {dir : String} (hopen : openAt files dir = .ok store)
    (hempty : files.list dir = .ok (place, [])) :
    store.dir = dir ∧ Mirrors place store MemoryStore.empty := by
  have hstore : store = ⟨dir, files⟩ := by
    unfold openAt at hopen
    split at hopen
    · exact (Except.ok.inj hopen).symm
    · nomatch hopen
    · nomatch hopen
  obtain ⟨hresolve, hplace, hnames⟩ := FileTree.list_eq_ok_iff.mp hempty
  subst hstore
  refine ⟨rfl, hresolve, hplace, fun slot => ?_⟩
  have hfree : slot.fileName ∉ files.names place := by
    rw [← hnames]
    exact List.not_mem_nil
  rw [FileTree.mem_names_iff, Option.not_isSome_iff_eq_none] at hfree
  rw [MemoryStore.get?_empty, FileTree.find?, slot.isFixed_concat_fileName,
    if_neg Bool.false_ne_true]
  exact hfree

/-! ## A call -/

/-- **A call that fits gets the answer that the memory gives**, and is mirrored. -/
theorem perform_eq (h : Mirrors place store mem) {call : Call} (hfits : Fits store.dir call) :
    ∃ next, Store.perform store call = ((Store.perform mem call).1, next) ∧
      next.dir = store.dir ∧ Mirrors place next (Store.perform mem call).2 := by
  cases call with
  | put slot v =>
    rw [Store.perform_put, Store.perform_put]
    cases hpack : Frame.pack v with
    | error e =>
      rw [Store.put_of_refused store slot hpack, Store.put_of_refused mem slot hpack]
      exact ⟨store, rfl, rfl, h⟩
    | ok blob =>
      obtain ⟨hslot, hroom⟩ := hfits ⟨blob, hpack⟩
      obtain ⟨next, hput, hdir, hnext⟩ := h.exists_putRaw_eq hslot hroom blob
      rw [Store.put_of_pack store slot hpack, hput, MemoryStore.put_of_pack mem slot hpack]
      exact ⟨next, rfl, hdir, hnext⟩
  | putRaw slot blob =>
    obtain ⟨next, hput, hdir, hnext⟩ := h.exists_putRaw_eq hfits.1 hfits.2 blob
    rw [Store.perform_putRaw, hput]
    exact ⟨next, rfl, hdir, hnext⟩
  | get slot =>
    refine ⟨store, ?_, rfl, h⟩
    rw [Store.perform, h.get_eq hfits]
    rfl
  | getRaw slot =>
    refine ⟨store, ?_, rfl, h⟩
    rw [Store.perform, h.getRaw_eq hfits]
    rfl
  | contains slot =>
    refine ⟨store, ?_, rfl, h⟩
    rw [Store.perform, h.contains_eq hfits]
    rfl
  | list =>
    refine ⟨store, ?_, rfl, h⟩
    rw [Store.perform, h.list_eq]
    rfl

/-- A call that does not fit is answered by the failure of the files. -/
theorem filesFail_of_not_fits (h : Mirrors place store mem) {call : Call}
    (hlong : ¬ Fits store.dir call) : (Store.perform store call).1.FilesFail := by
  cases call with
  | put slot v =>
    obtain ⟨⟨blob, hpack⟩, hlong⟩ := Classical.not_imp.mp hlong
    refine ⟨.slotFile slot, .nameTooLong, ?_⟩
    rw [Store.perform_put, Store.put_of_pack store slot hpack, h.putRaw_of_long hlong]
    rfl
  | putRaw slot blob =>
    refine ⟨.slotFile slot, .nameTooLong, ?_⟩
    rw [Store.perform_putRaw, h.putRaw_of_long hlong]
    rfl
  | get slot =>
    refine ⟨.slotFile slot, .nameTooLong, ?_⟩
    simp only [Store.perform, Store.get, h.opened.getRaw_of_long hlong, Answer.error?]
  | getRaw slot =>
    refine ⟨.slotFile slot, .nameTooLong, ?_⟩
    rw [Store.perform, h.opened.getRaw_of_long hlong]
    rfl
  | contains slot =>
    refine ⟨.slotFile slot, .nameTooLong, ?_⟩
    rw [Store.perform, h.opened.contains_of_long hlong]
    rfl
  | list => exact absurd trivial hlong

/-! ## Calls in a row -/

/-- **Calls that fit get the answers that the memory gives**, and all of them are mirrored. -/
theorem answers_eq {calls : List Call} (h : Mirrors place store mem)
    (hfits : ∀ call ∈ calls, Fits store.dir call) :
    Store.answers store calls = Store.answers mem calls ∧
      Mirrors place (Store.after store calls) (Store.after mem calls) := by
  induction calls generalizing store mem with
  | nil => exact ⟨rfl, h⟩
  | cons call calls ih =>
    obtain ⟨next, hcall, hdir, hnext⟩ := h.perform_eq (hfits call List.mem_cons_self)
    have hrest : ∀ c ∈ calls, Fits next.dir c := by
      intro c hc
      rw [hdir]
      exact hfits c (List.mem_cons_of_mem _ hc)
    obtain ⟨hanswers, hafter⟩ := ih hnext hrest
    rw [Store.after_cons, Store.after_cons, Store.answers, Store.answers, hcall]
    exact ⟨congrArg _ hanswers, hafter⟩

/-- Calls fit when the files never fail. -/
theorem fits_of_answers {calls : List Call} (h : Mirrors place store mem)
    (hfiles : ∀ answer ∈ Store.answers store calls, ¬ answer.FilesFail) :
    ∀ call ∈ calls, Fits store.dir call := by
  induction calls generalizing store mem with
  | nil => nofun
  | cons call calls ih =>
    rw [Store.answers, List.forall_mem_cons] at hfiles
    have hfits : Fits store.dir call := by
      by_contra hlong
      exact hfiles.1 (h.filesFail_of_not_fits hlong)
    obtain ⟨next, hcall, hdir, hnext⟩ := h.perform_eq hfits
    rw [hcall] at hfiles
    have hrest := ih hnext hfiles.2
    rw [hdir] at hrest
    exact List.forall_mem_cons.mpr ⟨hfits, hrest⟩

end Mirrors

/-- **A directory that was empty answers any calls as a store in memory does**: whenever its path
    leaves room for the names of slots, and whenever the files do not fail. -/
theorem answers_eq_memory {files : FileTree} {dir : String} {store : DirectoryStore} {place : Place}
    (hopen : openAt files dir = .ok store) (hempty : files.list dir = .ok (place, []))
    (calls : List Call)
    (hfiles : dir.utf8ByteSize + 1 + SlotName.maxLength ≤ FileTree.maxPathLength ∨
      ∀ answer ∈ Store.answers store calls, ¬ answer.FilesFail) :
    Store.answers store calls = Store.answers MemoryStore.empty calls := by
  obtain ⟨hdir, hmirrors⟩ := Mirrors.of_empty hopen hempty
  have hfits : ∀ call ∈ calls, Fits store.dir call := by
    rcases hfiles with hshort | hfiles
    · intro call _
      rw [hdir]
      exact fits_of_short hshort call
    · exact hmirrors.fits_of_answers hfiles
  exact (hmirrors.answers_eq hfits).1

/-- The files of a working directory with one empty directory in it. -/
def newFiles : FileTree := ⟨[([Utf8.encode "data"], .directory)]⟩

/-- Calls on two slots: a value, bytes that are no blob, a value over them and one that has no
    blob. -/
def mixedCalls : List Call :=
  let first : SlotName := ⟨"left.bin", by decide⟩
  let second : SlotName := ⟨"Right-2", by decide⟩
  [.get first, .put first (.str "a"), .putRaw second [0x01], .list, .get second, .contains first,
    .put second (.int 7), .put first (.dict [(.list [], .none)]), .getRaw second, .get first]

/-- These calls get the same answers from a new directory as from memory. -/
theorem answers_eq_memory_newFiles :
    openAt newFiles "data" = .ok ⟨"data", newFiles⟩ ∧
      newFiles.list "data" = .ok ([Utf8.encode "data"], []) ∧
      "data".utf8ByteSize + 1 + SlotName.maxLength ≤ FileTree.maxPathLength ∧
      Store.answers (DirectoryStore.mk "data" newFiles) mixedCalls =
        Store.answers MemoryStore.empty mixedCalls := by
  have hopen : openAt newFiles "data" = .ok ⟨"data", newFiles⟩ := by rfl
  have hempty : newFiles.list "data" = .ok ([Utf8.encode "data"], []) := by rfl
  have hshort : "data".utf8ByteSize + 1 + SlotName.maxLength ≤ FileTree.maxPathLength := by decide
  exact ⟨hopen, hempty, hshort, answers_eq_memory hopen hempty mixedCalls (.inl hshort)⟩

end DirectoryStore

end SealedStore
