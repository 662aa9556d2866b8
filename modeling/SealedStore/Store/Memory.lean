/-
  A store in memory: blobs by slot, in the order of the slots.
-/
import SealedStore.Store.Basic

namespace SealedStore

namespace SlotName

/-- The slots of the entries ascend. -/
def Ascending (blobs : List (SlotName × Bytes)) : Prop :=
  blobs.Pairwise fun a b => a.1 < b.1

/-- Puts a blob into the place of its slot. -/
def insertBlob (slot : SlotName) (blob : Bytes) :
    List (SlotName × Bytes) → List (SlotName × Bytes)
  | [] => [(slot, blob)]
  | (s, b) :: rest =>
    if slot < s then (slot, blob) :: (s, b) :: rest
    else if slot = s then (s, blob) :: rest
    else (s, b) :: insertBlob slot blob rest

/-- An entry after an insertion has the slot of the blob, or one that was there. -/
theorem fst_of_mem_insertBlob {slot : SlotName} {blob : Bytes} {entry : SlotName × Bytes} :
    {blobs : List (SlotName × Bytes)} → entry ∈ insertBlob slot blob blobs →
      entry.1 = slot ∨ ∃ old ∈ blobs, entry.1 = old.1
  | [], h => by simp_all [insertBlob]
  | (s, b) :: rest, h => by
    simp only [insertBlob] at h
    split at h
    · simp only [List.mem_cons] at h
      rcases h with rfl | h
      · exact .inl rfl
      · exact .inr ⟨entry, by simpa using h, rfl⟩
    split at h
    · simp only [List.mem_cons] at h
      rcases h with rfl | h
      · exact .inr ⟨(s, b), by simp, rfl⟩
      · exact .inr ⟨entry, by simp [h], rfl⟩
    · simp only [List.mem_cons] at h
      rcases h with rfl | h
      · exact .inr ⟨(s, b), by simp, rfl⟩
      · rcases fst_of_mem_insertBlob h with h | ⟨old, hold, h⟩
        · exact .inl h
        · exact .inr ⟨old, by simp [hold], h⟩

/-- Slots that ascend do so also after an insertion. -/
theorem ascending_insertBlob (slot : SlotName) (blob : Bytes) :
    {blobs : List (SlotName × Bytes)} → Ascending blobs →
      Ascending (insertBlob slot blob blobs)
  | [], _ => by simp [Ascending, insertBlob]
  | (s, b) :: rest, h => by
    have hrest := List.pairwise_cons.1 h
    simp only [insertBlob]
    split
    · rename_i hlt
      refine List.pairwise_cons.2 ⟨fun entry hmem => ?_, h⟩
      rcases List.mem_cons.1 hmem with rfl | hmem
      · exact hlt
      · exact lt_trans hlt (hrest.1 entry hmem)
    split
    · exact List.pairwise_cons.2 ⟨hrest.1, hrest.2⟩
    · rename_i hnlt hne
      refine List.pairwise_cons.2 ⟨fun entry hmem => ?_, ascending_insertBlob slot blob hrest.2⟩
      rcases fst_of_mem_insertBlob hmem with heq | ⟨old, hold, heq⟩
      · exact heq ▸ lt_of_ne hne hnlt
      · exact heq ▸ hrest.1 old hold

/-- What is put into a slot is found there, -/
theorem find_insertBlob_self (slot : SlotName) (blob : Bytes)
    (blobs : List (SlotName × Bytes)) :
    Assoc.find slot (insertBlob slot blob blobs) = some blob := by
  induction blobs with
  | nil => simp [insertBlob, Assoc.find]
  | cons entry rest ih =>
    simp only [insertBlob]
    split
    · simp [Assoc.find]
    split
    · rename_i h
      simp [Assoc.find, h]
    · rename_i h
      simp [Assoc.find, Ne.symm h, ih]

/-- and every other slot has what it had. -/
theorem find_insertBlob_of_ne {slot other : SlotName} (h : other ≠ slot) (blob : Bytes)
    (blobs : List (SlotName × Bytes)) :
    Assoc.find other (insertBlob slot blob blobs) = Assoc.find other blobs := by
  induction blobs with
  | nil => simp [insertBlob, Assoc.find, Ne.symm h]
  | cons entry rest ih =>
    simp only [insertBlob]
    split
    · simp [Assoc.find, Ne.symm h]
    split
    · rename_i heq
      subst heq
      simp [Assoc.find, Ne.symm h]
    · simp [Assoc.find, ih]

end SlotName

/-- Blobs by slot, the slots ascending. -/
structure MemoryStore where
  blobs : List (SlotName × Bytes)
  ascending : SlotName.Ascending blobs

namespace MemoryStore

/-- The store that holds nothing. -/
def empty : MemoryStore := ⟨[], List.Pairwise.nil⟩

/-- Puts a blob into a slot. -/
def insert (store : MemoryStore) (slot : SlotName) (blob : Bytes) : MemoryStore :=
  ⟨SlotName.insertBlob slot blob store.blobs,
    SlotName.ascending_insertBlob slot blob store.ascending⟩

/-- The blob in a slot. -/
def get? (store : MemoryStore) (slot : SlotName) : Option Bytes := Assoc.find slot store.blobs

theorem get?_insert_self (store : MemoryStore) (slot : SlotName) (blob : Bytes) :
    (store.insert slot blob).get? slot = some blob :=
  SlotName.find_insertBlob_self slot blob store.blobs

theorem get?_insert_of_ne (store : MemoryStore) {slot other : SlotName} (h : other ≠ slot)
    (blob : Bytes) : (store.insert slot blob).get? other = store.get? other :=
  SlotName.find_insertBlob_of_ne h blob store.blobs

/-- The number of slots that hold blobs. -/
def size (store : MemoryStore) : Nat := store.blobs.length

/-- The slots that hold blobs. -/
def slots (store : MemoryStore) : List SlotName := store.blobs.map Prod.fst

instance : Store MemoryStore where
  putRaw store slot blob := (.ok (), store.insert slot blob)
  getRaw store slot :=
    match store.get? slot with
    | some blob => .ok blob
    | none => .error (.notFound slot)
  contains store slot := .ok (store.get? slot).isSome
  list store := .ok store.slots

/-- The store as a debugger shows it, by the number of its slots. -/
def debugText (store : MemoryStore) : String :=
  s!"InMemorySlotStore \x7B slot_count: {store.size} \x7D"

end MemoryStore

end SealedStore
