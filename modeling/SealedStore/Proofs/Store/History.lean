/-
  What a store in memory holds is what was put into it.

  `lastWritten` says from the calls alone which bytes a slot got last.  A store in memory that was
  empty before the calls answers by that (`MapAfter`), so it is a map from slots to bytes: a write
  replaces what is in its own slot and leaves the others alone, and a value that has no blob
  changes nothing.
-/
import SealedStore.Proofs.Store.Memory

namespace SealedStore.MemoryStore

/-- The store `next` holds a blob in a slot, and in all others what `store` holds. -/
def Replaces (store : MemoryStore) (slot : SlotName) (blob : Bytes) (next : MemoryStore) : Prop :=
  next.get? slot = some blob ∧ ∀ other, other ≠ slot → next.get? other = store.get? other

/-- What a store answers after calls that found it empty. -/
structure MapAfter (calls : List Call) (store : MemoryStore) : Prop where
  /-- Bytes go into their slot alone. -/
  putRaw : ∀ slot blob, ∃ next, Store.putRaw store slot blob = (.ok (), next) ∧
    store.Replaces slot blob next
  /-- So does the blob of a value, and its size is told. -/
  put : ∀ slot v blob, Frame.pack v = .ok blob →
    ∃ next, Store.put store slot v = (.ok blob.length, next) ∧ store.Replaces slot blob next
  /-- A value without a blob is refused, and changes nothing. -/
  refused : ∀ slot v e, Frame.pack v = .error e →
    Store.put store slot v = (.error (.serialization slot e), store)
  /-- A slot gives the bytes that were put there last. -/
  written : ∀ slot blob, lastWritten slot calls = some blob → Store.getRaw store slot = .ok blob
  /-- A slot into which nothing was put is not found. -/
  missing : ∀ slot, lastWritten slot calls = none →
    Store.getRaw store slot = .error (.notFound slot)
  /-- The store says of each slot whether it gives bytes. -/
  contains : ∀ slot, ∃ held, Store.contains store slot = .ok held ∧
    (held = true ↔ ∃ blob, Store.getRaw store slot = .ok blob)
  /-- A value is read back while no other call puts anything into its slot. -/
  kept : ∀ before slot v later, calls = before ++ .put slot v :: later →
    (∃ blob, Frame.pack v = .ok blob) → (∀ call ∈ later, call.written slot = none) →
    v.Everywhere Value.FieldsNamed → ∃ w, Store.get store slot = .ok w ∧ w.sameAs v = true
  /-- The slots that were written are listed in the order of the bytes of their names. -/
  list : ∃ slots, Store.list store = .ok slots ∧
    slots.Pairwise (fun a b => Utf8.encode a.name < Utf8.encode b.name) ∧
    (∀ slot, slot ∈ slots ↔ ∃ blob, lastWritten slot calls = some blob) ∧
    store.size = slots.length

theorem replaces_insert (store : MemoryStore) (slot : SlotName) (blob : Bytes) :
    store.Replaces slot blob (store.insert slot blob) :=
  ⟨store.get?_insert_self slot blob, fun _ h => store.get?_insert_of_ne h blob⟩

theorem get?_after_empty (calls : List Call) (slot : SlotName) :
    (Store.after empty calls).get? slot = lastWritten slot calls := by
  rw [get?_after, get?_empty, Option.or_none]

/-- **After any calls a store in memory is the map that they wrote.** -/
theorem mapAfter_calls (calls : List Call) : MapAfter calls (Store.after empty calls) := by
  have hget := get?_after_empty calls
  generalize Store.after empty calls = store at hget
  refine ⟨?_, ?_, ?_, ?_, ?_, ?_, ?_, ?_⟩
  · intro slot blob
    exact ⟨_, store.putRaw_eq slot blob, store.replaces_insert slot blob⟩
  · intro slot v blob hpack
    exact ⟨_, store.put_of_pack slot hpack, store.replaces_insert slot blob⟩
  · intro slot v e hpack
    exact Store.put_of_refused store slot hpack
  · intro slot blob hlast
    exact getRaw_of_some ((hget slot).trans hlast)
  · intro slot hlast
    exact getRaw_of_none ((hget slot).trans hlast)
  · intro slot
    refine ⟨_, rfl, ?_⟩
    cases hslot : store.get? slot with
    | some blob => simp [getRaw_of_some hslot]
    | none => simp [getRaw_of_none hslot]
  · rintro before slot v later rfl ⟨blob, hpack⟩ hlater hnamed
    have hput : (Call.put slot v).written slot = some blob := by
      simp [Call.written, hpack, Except.toOption]
    have hheld : store.get? slot = some blob := (hget slot).trans (lastWritten_append hput hlater)
    obtain ⟨w, hw, hsame⟩ := (Payload.readBack_unpack hpack).1 hnamed
    exact ⟨w, get_of_some hheld hw, hsame⟩
  · refine ⟨store.slots, rfl, ?_, ?_, store.length_slots.symm⟩
    · exact store.pairwise_slots.imp SlotName.lt_iff_encode_lt.mp
    · intro slot
      rw [mem_slots_iff, hget, Option.isSome_iff_exists]

end SealedStore.MemoryStore
