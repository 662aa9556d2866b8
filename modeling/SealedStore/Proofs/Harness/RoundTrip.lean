/-
  A run over a store in memory.

  All samples are written before the first is read, so what is read from a slot is the last value
  that any sample has for it.  Which sample that is, `lastFor` says from the list alone; the puts
  of the first pass are calls on the store, and what calls leave in a slot is known
  (`get?_after`).  The second pass then finds a value for every sample, and shows and reports
  each of them.
-/
import Mathlib.Data.List.Forall2
import SealedStore.Proofs.Harness.Passes
import SealedStore.Proofs.Store.Memory

namespace SealedStore

/-- The last of the samples for a slot. -/
def lastFor (slot : SlotName) (samples : List Sample) : Option Sample :=
  samples.findRev? fun sample => sample.slot = slot

/-- The call that writes a sample. -/
def Sample.put (sample : Sample) : Call := .put sample.slot sample.value

/-- What a report shows of a value. -/
def RunEntry.shown (entry : RunEntry) : SlotName × Value := (entry.slot, entry.value)

/-! ## Writing -/

/-- The last sample for a slot is for it, and none of those behind is. -/
theorem lastFor_eq_some_iff {slot : SlotName} {samples : List Sample} {last : Sample} :
    lastFor slot samples = some last ↔ last.slot = slot ∧
      ∃ before after, samples = before ++ last :: after ∧ ∀ sample ∈ after, sample.slot ≠ slot := by
  rw [lastFor, List.findRev?_eq_find?_reverse, List.find?_eq_some_iff_append, decide_eq_true_iff]
  refine and_congr_right fun _ => ?_
  constructor
  · rintro ⟨after, before, hsplit, hafter⟩
    refine ⟨before.reverse, after.reverse, ?_, fun sample hmem => ?_⟩
    · rw [← List.reverse_reverse samples, hsplit]
      simp
    · simpa using hafter sample (List.mem_reverse.mp hmem)
  · rintro ⟨before, after, rfl, hafter⟩
    refine ⟨after.reverse, before.reverse, by simp, fun sample hmem => ?_⟩
    simpa using hafter sample (List.mem_reverse.mp hmem)

theorem mem_of_lastFor {slot : SlotName} {samples : List Sample} {last : Sample}
    (h : lastFor slot samples = some last) : last ∈ samples := by
  obtain ⟨-, before, after, rfl, -⟩ := lastFor_eq_some_iff.mp h
  simp

/-- There is a last sample for the slot of every sample. -/
theorem exists_lastFor {sample : Sample} {samples : List Sample} (h : sample ∈ samples) :
    ∃ last, lastFor sample.slot samples = some last := by
  rw [← Option.isSome_iff_exists, lastFor, List.findRev?_eq_find?_reverse, List.find?_isSome]
  exact ⟨sample, List.mem_reverse.mpr h, decide_eq_true rfl⟩

theorem written_put {sample : Sample} {slot : SlotName} (h : sample.slot ≠ slot) :
    sample.put.written slot = none := by
  rw [Sample.put, Call.written, if_neg h]

/-- The puts of samples leave in a slot the blob of the last sample for it. -/
theorem lastWritten_of_lastFor {slot : SlotName} {samples : List Sample} {last : Sample}
    {blob : Bytes} (hlast : lastFor slot samples = some last)
    (hpack : Frame.pack last.value = .ok blob) :
    lastWritten slot (samples.map Sample.put) = some blob := by
  obtain ⟨hslot, before, after, rfl, hafter⟩ := lastFor_eq_some_iff.mp hlast
  have hput : last.put.written slot = some blob := by
    rw [Sample.put, Call.written, if_pos hslot, hpack]
    rfl
  rw [List.map_append, List.map_cons]
  refine lastWritten_append hput fun call hcall => ?_
  obtain ⟨sample, hmem, rfl⟩ := List.mem_map.mp hcall
  exact written_put (hafter sample hmem)

theorem lastWritten_of_not_mem {slot : SlotName} {samples : List Sample}
    (h : ∀ sample ∈ samples, sample.slot ≠ slot) :
    lastWritten slot (samples.map Sample.put) = none := by
  rw [lastWritten, List.findSomeRev?_eq_findSome?_reverse, List.findSome?_eq_none_iff]
  intro call hcall
  obtain ⟨sample, hmem, rfl⟩ := List.mem_map.mp (List.mem_reverse.mp hcall)
  exact written_put (h sample hmem)

/-- The blob of a sample, with the slot for it. -/
def Sample.PacksTo (sample : Sample) (entry : SlotName × Bytes) : Prop :=
  entry.1 = sample.slot ∧ Frame.pack sample.value = .ok entry.2

/-- Samples that all have blobs have them one by one. -/
theorem exists_packsTo {samples : List Sample}
    (h : ∀ sample ∈ samples, ∃ blob, Frame.pack sample.value = .ok blob) :
    ∃ blobs, List.Forall₂ Sample.PacksTo samples blobs := by
  induction samples with
  | nil => exact ⟨[], .nil⟩
  | cons sample samples ih =>
    obtain ⟨⟨blob, hblob⟩, hrest⟩ := List.forall_mem_cons.mp h
    obtain ⟨blobs, hblobs⟩ := ih hrest
    exact ⟨(sample.slot, blob) :: blobs, .cons ⟨rfl, hblob⟩ hblobs⟩

/-- The blob of a sample has this size. -/
def HasSize (sample : Sample) (size : Nat) : Prop :=
  ∃ blob, Frame.pack sample.value = .ok blob ∧ size = blob.length

theorem Sample.PacksTo.hasSize {sample : Sample} {entry : SlotName × Bytes}
    (h : sample.PacksTo entry) : HasSize sample entry.2.length :=
  ⟨entry.2, h.2, rfl⟩

namespace MemoryStore

variable (store : MemoryStore)

/-- Puts blobs into slots, one after the other. -/
def insertAll (blobs : List (SlotName × Bytes)) : MemoryStore :=
  blobs.foldl (fun store entry => store.insert entry.1 entry.2) store

/-- A sample that has a blob is put by inserting the blob. -/
theorem put_of_packsTo {sample : Sample} {entry : SlotName × Bytes} (h : sample.PacksTo entry) :
    Store.put store sample.slot sample.value =
      (.ok entry.2.length, store.insert entry.1 entry.2) := by
  obtain ⟨hslot, hpack⟩ := h
  rw [hslot]
  exact store.put_of_pack sample.slot hpack

/-- Puts of samples that have blobs leave these in the store. -/
theorem after_puts {samples : List Sample} {blobs : List (SlotName × Bytes)}
    (h : List.Forall₂ Sample.PacksTo samples blobs) :
    Store.after store (samples.map Sample.put) = store.insertAll blobs := by
  induction h generalizing store with
  | nil => rfl
  | cons hpacks _ ih =>
    rw [List.map_cons, Store.after_cons, Sample.put, Store.perform_put, store.put_of_packsTo hpacks]
    exact ih _

/-- **Samples that have blobs are put in front of others.** -/
theorem putAll_append {before : List Sample} {blobs : List (SlotName × Bytes)}
    (h : List.Forall₂ Sample.PacksTo before blobs) (behind : List Sample) :
    Store.putAll store (before ++ behind) =
      ((Store.putAll (store.insertAll blobs) behind).1.map
          (blobs.map (fun entry => entry.2.length) ++ ·),
        (Store.putAll (store.insertAll blobs) behind).2) := by
  induction h generalizing store with
  | nil =>
    rw [List.nil_append, insertAll, List.foldl_nil]
    rcases Store.putAll store behind with ⟨e | sizes, next⟩
    · rfl
    · rfl
  | cons hpacks _ ih =>
    have hput := store.put_of_packsTo hpacks
    rw [List.cons_append, Store.putAll, hput]
    simp only [ih]
    rw [insertAll, insertAll, List.foldl_cons]
    rcases Store.putAll _ behind with ⟨e | sizes, next⟩
    · rfl
    · rfl

/-- So they are all put when there are no others. -/
theorem exists_putAll_eq {samples : List Sample}
    (hpack : ∀ sample ∈ samples, ∃ blob, Frame.pack sample.value = .ok blob) :
    ∃ sizes, Store.putAll store samples = (.ok sizes, Store.after store (samples.map Sample.put)) ∧
      List.Forall₂ HasSize samples sizes := by
  obtain ⟨blobs, hblobs⟩ := exists_packsTo hpack
  refine ⟨blobs.map fun entry => entry.2.length, ?_, ?_⟩
  · have hput := store.putAll_append hblobs []
    rw [List.append_nil] at hput
    rw [hput, store.after_puts hblobs, Store.putAll, Except.map, List.append_nil]
  · rw [List.forall₂_map_right_iff]
    exact hblobs.imp fun _ _ h => h.hasSize

end MemoryStore

section
variable (store : MemoryStore) {slot : SlotName} {samples : List Sample} {last : Sample}

theorem MemoryStore.get?_puts_of_lastFor {blob : Bytes} (hlast : lastFor slot samples = some last)
    (hpack : Frame.pack last.value = .ok blob) :
    (Store.after store (samples.map Sample.put)).get? slot = some blob := by
  rw [MemoryStore.get?_after, lastWritten_of_lastFor hlast hpack, Option.some_or]

theorem MemoryStore.get?_puts_of_not_mem (h : ∀ sample ∈ samples, sample.slot ≠ slot) :
    (Store.after store (samples.map Sample.put)).get? slot = store.get? slot := by
  rw [MemoryStore.get?_after, lastWritten_of_not_mem h, Option.none_or]

/-- **After the puts the value of a slot is that of the last sample for it.** -/
theorem MemoryStore.get_puts_of_lastFor (hlast : lastFor slot samples = some last)
    (hpack : ∃ blob, Frame.pack last.value = .ok blob)
    (hnamed : last.value.Everywhere Value.FieldsNamed) :
    ∃ v, Store.get (Store.after store (samples.map Sample.put)) slot = .ok v ∧
      v.sameAs last.value = true := by
  obtain ⟨blob, hpack⟩ := hpack
  obtain ⟨v, hv, hsame⟩ := (Payload.readBack_unpack hpack).1 hnamed
  exact ⟨v, MemoryStore.get_of_some (store.get?_puts_of_lastFor hlast hpack) hv, hsame⟩

end

theorem RunReport.totalBytes_eq (report : RunReport) :
    report.totalBytes = (report.entries.map RunEntry.bytes).sum := by
  rw [RunReport.totalBytes, List.sum_eq_foldl_nat, List.foldl_map]

namespace Harness

/-! ## Reading -/

/-- The entry that a report has for a sample that was written with a size. -/
structure Reads (store : MemoryStore) (x : Sample × Nat) (entry : RunEntry) : Prop where
  slot : entry.slot = x.1.slot
  bytes : entry.bytes = x.2
  value : Store.get store x.1.slot = .ok entry.value
  matched : entry.matched = entry.value.sameAs x.1.value

/-- **Slots that give values are all read, shown and reported.** -/
theorem exists_readAll_eq (store : MemoryStore) (collector : Collector) {xs : List (Sample × Nat)}
    (hget : ∀ x ∈ xs, ∃ v, Store.get store x.1.slot = .ok v) :
    ∃ entries, readAll ⟨store, collector, false⟩ xs =
        (.ok entries, ⟨store, ⟨collector.rendered ++ entries.map RunEntry.shown⟩, false⟩) ∧
      List.Forall₂ (Reads store) xs entries := by
  induction xs generalizing collector with
  | nil =>
    refine ⟨[], ?_, .nil⟩
    rw [List.map_nil, List.append_nil]
    rfl
  | cons x xs ih =>
    obtain ⟨sample, bytes⟩ := x
    obtain ⟨⟨v, hv⟩, hrest⟩ := List.forall_mem_cons.mp hget
    obtain ⟨entries, hentries, hreads⟩ := ih ⟨collector.rendered ++ [(sample.slot, v)]⟩ hrest
    refine ⟨⟨sample.slot, bytes, v, v.sameAs sample.value⟩ :: entries, ?_,
      .cons ⟨rfl, rfl, hv, rfl⟩ hreads⟩
    rw [readAll_of_render bytes xs hv rfl fun h => absurd h Bool.false_ne_true, hentries,
      List.append_assoc]
    rfl

/-! ## A whole run -/

/-- The entry that a report has for one of the samples of a run. -/
structure EntryFor (samples : List Sample) (sample : Sample) (entry : RunEntry) : Prop where
  slot : entry.slot = sample.slot
  /-- The size is that of the sample's own blob. -/
  bytes : HasSize sample entry.bytes
  /-- The value is that of the last sample for the slot. -/
  value : ∃ last, lastFor sample.slot samples = some last ∧ entry.value.sameAs last.value = true
  matched : entry.matched = entry.value.sameAs sample.value

/-- What a run over samples reports, and what it leaves in the store that it found. -/
structure RoundTrip (store : MemoryStore) (samples : List Sample) (report : RunReport)
    (next : MemoryStore) : Prop where
  entries : List.Forall₂ (EntryFor samples) samples report.entries
  mismatches : report.mismatches =
    (samples.zip report.entries).countP fun (sample, entry) => !entry.value.sameAs sample.value
  totalBytes : report.totalBytes = (report.entries.map RunEntry.bytes).sum
  written : ∀ slot last, lastFor slot samples = some last →
    ∃ blob, Frame.pack last.value = .ok blob ∧ next.get? slot = some blob
  kept : ∀ slot, (∀ sample ∈ samples, sample.slot ≠ slot) → next.get? slot = store.get? slot

/-- What relates samples to sizes, and both to entries, relates samples to entries. -/
theorem forall₂_of_zip {P : Sample → Nat → Prop} {R : Sample × Nat → RunEntry → Prop}
    {samples : List Sample} {sizes : List Nat} {entries : List RunEntry}
    (hsizes : List.Forall₂ P samples sizes)
    (hentries : List.Forall₂ R (samples.zip sizes) entries) :
    List.Forall₂ (fun sample entry => ∃ size, P sample size ∧ R (sample, size) entry)
      samples entries := by
  induction hsizes generalizing entries with
  | nil =>
    cases hentries
    exact .nil
  | cons hsize _ ih =>
    cases hentries with
    | cons hentry hrest => exact .cons ⟨_, hsize, hentry⟩ (ih hrest)

/-- What was put and then read makes the entries, if each slot gives its last value. -/
theorem forall₂_entryFor {next : MemoryStore} {samples : List Sample} {sizes : List Nat}
    {entries : List RunEntry}
    (hread : ∀ slot last, lastFor slot samples = some last →
      ∃ v, Store.get next slot = .ok v ∧ v.sameAs last.value = true)
    (hsizes : List.Forall₂ HasSize samples sizes)
    (hreads : List.Forall₂ (Reads next) (samples.zip sizes) entries) :
    List.Forall₂ (EntryFor samples) samples entries := by
  have hall := (List.forall₂_and_left samples entries).mpr
    ⟨fun _ hmem => hmem, forall₂_of_zip hsizes hreads⟩
  refine hall.imp ?_
  rintro sample entry ⟨hmem, size, hsize, hreads⟩
  obtain ⟨last, hlast⟩ := exists_lastFor hmem
  obtain ⟨v, hv, hsame⟩ := hread _ last hlast
  obtain rfl := Except.ok.inj (hv.symm.trans hreads.value)
  refine ⟨hreads.slot, ?_, ⟨last, hlast, hsame⟩, hreads.matched⟩
  rw [hreads.bytes]
  exact hsize

/-- The entries that are not marked are those whose value is not that of the sample. -/
theorem countP_of_matched {samples : List Sample} {entries : List RunEntry}
    (h : List.Forall₂ (fun sample entry => entry.matched = entry.value.sameAs sample.value)
      samples entries) :
    (entries.countP fun entry => !entry.matched) =
      (samples.zip entries).countP fun (sample, entry) => !entry.value.sameAs sample.value := by
  induction h with
  | nil => rfl
  | cons hentry _ ih => rw [List.zip_cons_cons, List.countP_cons, List.countP_cons, ih, hentry]

/-- **A run over a store in memory reads back the last value of every slot**, and leaves its blob
    there. -/
theorem run_roundTrip (store : MemoryStore) (collector : Collector) {samples : List Sample}
    (hsamples : ∀ sample ∈ samples, (∃ blob, Frame.pack sample.value = .ok blob) ∧
      sample.value.Everywhere Value.FieldsNamed) :
    ∃ report next, run ⟨store, collector, false⟩ samples =
        (.ok report, ⟨next, ⟨collector.rendered ++ report.entries.map RunEntry.shown⟩, false⟩) ∧
      RoundTrip store samples report next := by
  have hpack : ∀ sample ∈ samples, ∃ blob, Frame.pack sample.value = .ok blob := by
    intro sample hmem
    exact (hsamples sample hmem).1
  obtain ⟨sizes, hput, hsizes⟩ := store.exists_putAll_eq hpack
  have hread : ∀ slot last, lastFor slot samples = some last →
      ∃ v, Store.get (Store.after store (samples.map Sample.put)) slot = .ok v ∧
        v.sameAs last.value = true := by
    intro slot last hlast
    obtain ⟨hblob, hnamed⟩ := hsamples last (mem_of_lastFor hlast)
    exact store.get_puts_of_lastFor hlast hblob hnamed
  -- the slot of every sample has a last sample, so each read finds a value
  have hfound : ∀ x ∈ samples.zip sizes,
      ∃ v, Store.get (Store.after store (samples.map Sample.put)) x.1.slot = .ok v := by
    intro x hx
    obtain ⟨last, hlast⟩ := exists_lastFor (List.of_mem_zip hx).1
    obtain ⟨v, hv, -⟩ := hread _ last hlast
    exact ⟨v, hv⟩
  obtain ⟨entries, hentries, hreads⟩ := exists_readAll_eq _ collector hfound
  have hfor := forall₂_entryFor hread hsizes hreads
  refine ⟨⟨entries⟩, Store.after store (samples.map Sample.put), ?_, ?_⟩
  · rw [run_of_putAll hput, hentries]
    rfl
  · refine ⟨hfor, ?_, RunReport.totalBytes_eq ⟨entries⟩, ?_, ?_⟩
    · exact countP_of_matched (hfor.imp fun _ _ h => h.matched)
    · intro slot last hlast
      obtain ⟨blob, hblob⟩ := hpack last (mem_of_lastFor hlast)
      exact ⟨blob, hblob, store.get?_puts_of_lastFor hlast hblob⟩
    · intro slot hslot
      exact store.get?_puts_of_not_mem hslot

/-- Three samples, of which the first and the last are for one slot. -/
def twiceWritten : List Sample :=
  let first : SlotName := ⟨"twice", by decide⟩
  let second : SlotName := ⟨"once", by decide⟩
  [⟨first, .int 1⟩, ⟨second, .record "P" [("x", .none)]⟩, ⟨first, .str "one"⟩]

/-- A run over samples of which two are for one slot, the second in the place of the first. -/
theorem run_twiceWritten :
    (∀ sample ∈ twiceWritten, (∃ blob, Frame.pack sample.value = .ok blob) ∧
      sample.value.Everywhere Value.FieldsNamed) ∧
    ∃ report next, run ⟨MemoryStore.empty, Collector.mk [], false⟩ twiceWritten =
        (.ok report, ⟨next, ⟨report.entries.map RunEntry.shown⟩, false⟩) ∧
      RoundTrip MemoryStore.empty twiceWritten report next := by
  have hpacks : ∀ sample ∈ twiceWritten, ∃ p, Payload.encode sample.value = .ok p ∧
      p.length < 2 ^ 32 := by
    simp only [twiceWritten, List.forall_mem_cons]
    exact ⟨⟨_, rfl, by decide⟩, ⟨_, rfl, by decide⟩, ⟨_, rfl, by decide⟩, List.forall_mem_nil _⟩
  have hnamed : ∀ sample ∈ twiceWritten, sample.value.Everywhere Value.FieldsNamed := by decide
  have hsamples : ∀ sample ∈ twiceWritten, (∃ blob, Frame.pack sample.value = .ok blob) ∧
      sample.value.Everywhere Value.FieldsNamed := by
    intro sample h
    obtain ⟨p, hp, hlen⟩ := hpacks sample h
    exact ⟨⟨_, Frame.pack_eq_ok_iff.mpr ⟨p, hp, hlen, rfl⟩⟩, hnamed sample h⟩
  exact ⟨hsamples, run_roundTrip MemoryStore.empty ⟨[]⟩ hsamples⟩

end Harness

end SealedStore
