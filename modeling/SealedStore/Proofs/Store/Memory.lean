/-
  A store in memory as a map.

  Looking at a store slot by slot says all about it: what a call leaves there is what it writes,
  or what was there before.  Its list names the slots that hold something, in ascending order.
-/
import SealedStore.Proofs.Codec.RoundTrip
import SealedStore.Proofs.Store.Calls
import SealedStore.Proofs.Store.SlotName
import SealedStore.Store.Memory

namespace SealedStore.MemoryStore

/-! ## Slots -/

theorem get?_empty (slot : SlotName) : empty.get? slot = none := rfl

/-- A slot is listed when something is in it. -/
theorem mem_slots_iff {store : MemoryStore} {slot : SlotName} :
    slot ∈ store.slots ↔ (store.get? slot).isSome = true :=
  Assoc.isSome_find_iff.symm

theorem pairwise_slots (store : MemoryStore) : store.slots.Pairwise (· < ·) :=
  List.pairwise_map.mpr store.ascending

theorem length_slots (store : MemoryStore) : store.slots.length = store.size := List.length_map _

/-! ## Operations -/

section
variable (store : MemoryStore) (slot : SlotName)

theorem putRaw_eq (blob : Bytes) :
    Store.putRaw store slot blob = (.ok (), store.insert slot blob) :=
  rfl

theorem getRaw_of_some {store : MemoryStore} {slot : SlotName} {blob : Bytes}
    (h : store.get? slot = some blob) : Store.getRaw store slot = .ok blob := by
  simp only [Store.getRaw, h]

theorem getRaw_of_none {store : MemoryStore} {slot : SlotName} (h : store.get? slot = none) :
    Store.getRaw store slot = .error (.notFound slot) := by
  simp only [Store.getRaw, h]

/-- The value in a slot is that of its blob. -/
theorem get_of_some {store : MemoryStore} {slot : SlotName} {blob : Bytes} {v : Value}
    (h : store.get? slot = some blob) (hv : Frame.unpack blob = .ok v) :
    Store.get store slot = .ok v := by
  simp only [Store.get, getRaw_of_some h, hv]

theorem put_of_pack {v : Value} {blob : Bytes} (h : Frame.pack v = .ok blob) :
    Store.put store slot v = (.ok blob.length, store.insert slot blob) := by
  rw [Store.put_of_pack store slot h]
  rfl

end

/-! ## Calls -/

/-- A slot has the blob that was put into it last. -/
theorem get?_insert (store : MemoryStore) (s slot : SlotName) (blob : Bytes) :
    (store.insert s blob).get? slot =
      (if s = slot then some blob else none).or (store.get? slot) := by
  by_cases h : s = slot
  · rw [if_pos h, Option.some_or, h]
    exact store.get?_insert_self slot blob
  · rw [if_neg h, Option.none_or]
    exact store.get?_insert_of_ne (Ne.symm h) blob

/-- **A call leaves in a slot what it writes there**, or what the slot held. -/
theorem get?_perform (store : MemoryStore) (call : Call) (slot : SlotName) :
    (Store.perform store call).2.get? slot = (call.written slot).or (store.get? slot) := by
  cases call with
  | put s v =>
    rw [Store.perform_put, Call.written]
    cases hpack : Frame.pack v with
    | error e =>
      rw [Store.put_of_refused store s hpack]
      split <;> rfl
    | ok blob =>
      rw [put_of_pack store s hpack]
      exact store.get?_insert s slot blob
  | putRaw s blob => exact store.get?_insert s slot blob
  | _ => rfl

/-- **After any calls a slot holds what was put there last.** -/
theorem get?_after (store : MemoryStore) (calls : List Call) (slot : SlotName) :
    (Store.after store calls).get? slot = (lastWritten slot calls).or (store.get? slot) := by
  induction calls generalizing store with
  | nil => rfl
  | cons call calls ih =>
    rw [Store.after_cons, ih, get?_perform, lastWritten_cons, Option.or_assoc]

end SealedStore.MemoryStore
