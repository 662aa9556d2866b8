/-
  A run over a value that has no blob.

  The first pass puts the samples in order and stops at the first that is refused, so what the
  store has by then are the blobs of those in front of it (`putAll_of_refused`), one after the
  other into their slots, two of which may be the same.  Nothing has been read by then, and nothing
  is shown, whatever shows the values and whether they are compared or not.
-/
import SealedStore.Proofs.Harness.RoundTrip

namespace SealedStore

/-- **Samples are put up to the first that is refused.** -/
theorem MemoryStore.putAll_of_refused (store : MemoryStore) {before : List Sample} {bad : Sample}
    {blobs : List (SlotName × Bytes)} {e : CodecError}
    (hbefore : List.Forall₂ Sample.PacksTo before blobs) (hbad : Frame.pack bad.value = .error e)
    (behind : List Sample) :
    Store.putAll store (before ++ bad :: behind) =
      (.error (.serialization bad.slot e), store.insertAll blobs) := by
  have hput := Store.put_of_refused (store.insertAll blobs) bad.slot hbad
  have hbehind : Store.putAll (store.insertAll blobs) (bad :: behind) =
      (.error (.serialization bad.slot e), store.insertAll blobs) := by
    simp only [Store.putAll, hput]
  rw [store.putAll_append hbefore, hbehind]
  rfl

namespace Harness

/-- A run over a store in memory ends at a sample that is refused, behind others that are not. -/
structure RefusedAt {ρ : Type} (store : MemoryStore) (renderer : ρ) (before : List Sample)
    (bad : Sample) (r : Except HarnessError RunReport × Harness MemoryStore ρ) : Prop where
  /-- It fails with the refusal of the value. -/
  error : ∃ e, Frame.pack bad.value = .error e ∧
    r.1 = .error (.store (.serialization bad.slot e))
  /-- Its error names the slot of the sample. -/
  slot : ∀ e, r.1 = .error e → e.slot? = some bad.slot
  /-- Nothing is shown. -/
  shown : r.2.renderer = renderer
  /-- The blobs of the samples in front have been put in order, and nothing else. -/
  put : ∃ blobs, List.Forall₂ Sample.PacksTo before blobs ∧ r.2.store = store.insertAll blobs
  /-- So a slot holds the last of them that is for it. -/
  written : ∀ slot last, lastFor slot before = some last →
    ∃ blob, Frame.pack last.value = .ok blob ∧ r.2.store.get? slot = some blob
  /-- The slots of no sample in front are as they were. -/
  kept : ∀ slot, (∀ sample ∈ before, sample.slot ≠ slot) →
    r.2.store.get? slot = store.get? slot

/-- **A run ends at the first value that is refused**, with the samples in front of it written and
    nothing shown. -/
theorem run_refusedAt {ρ : Type} [Renderer ρ] (store : MemoryStore) (renderer : ρ) (verify : Bool)
    {before : List Sample} {bad : Sample} (behind : List Sample)
    (hbefore : ∀ sample ∈ before, ∃ blob, Frame.pack sample.value = .ok blob)
    (hbad : ∃ e, Frame.pack bad.value = .error e) :
    RefusedAt store renderer before bad
      (run ⟨store, renderer, verify⟩ (before ++ bad :: behind)) := by
  obtain ⟨e, he⟩ := hbad
  obtain ⟨blobs, hblobs⟩ := exists_packsTo hbefore
  have hafter := store.after_puts hblobs
  rw [run_of_putAll_error (store.putAll_of_refused hblobs he behind)]
  refine ⟨⟨e, he, rfl⟩, ?_, rfl, ⟨blobs, hblobs, rfl⟩, ?_, ?_⟩
  · intro error herror
    obtain rfl := Except.error.inj herror
    rfl
  · intro slot last hlast
    obtain ⟨blob, hblob⟩ := hbefore last (mem_of_lastFor hlast)
    refine ⟨blob, hblob, ?_⟩
    show (store.insertAll blobs).get? slot = some blob
    rw [← hafter]
    exact store.get?_puts_of_lastFor hlast hblob
  · intro slot hslot
    show (store.insertAll blobs).get? slot = store.get? slot
    rw [← hafter]
    exact store.get?_puts_of_not_mem hslot

/-- The slot of a value that is refused has a value in front of it and another behind. -/
theorem run_unhashableKey :
    let slot : SlotName := ⟨"a", by decide⟩
    let before : List Sample := [⟨slot, .int 1⟩, ⟨⟨"b", by decide⟩, .record "" [("", .none)]⟩]
    let bad : Sample := ⟨slot, .tuple [.dict [(.list [], .none)]]⟩
    (∀ sample ∈ before, ∃ blob, Frame.pack sample.value = .ok blob) ∧
      (∃ e, Frame.pack bad.value = .error e) ∧
      RefusedAt MemoryStore.empty (Collector.mk []) before bad
        (run ⟨MemoryStore.empty, Collector.mk [], true⟩ (before ++ bad :: [⟨slot, .int 2⟩])) := by
  intro slot before bad
  have hbefore : ∀ sample ∈ before, ∃ blob, Frame.pack sample.value = .ok blob := by
    simp only [before, List.forall_mem_cons]
    exact ⟨⟨_, rfl⟩, ⟨_, rfl⟩, List.forall_mem_nil _⟩
  have hbad : ∃ e, Frame.pack bad.value = .error e := ⟨_, rfl⟩
  exact ⟨hbefore, hbad, run_refusedAt _ _ _ _ hbefore hbad⟩

end Harness

end SealedStore
