/-
  What a store took is read back when its records are well formed.

  A store refuses values that have no blob, and a value has one whatever its fields are called.
  The reader of a blob does look at the names: so of the values that were put, those come back in
  which every record has valid names, no two the same, and the others are reported as corrupt.
  Values that are built field by field are of the first sort; one that comes from JSON need not be.
-/
import SealedStore.Proofs.Store.Failures
import SealedStore.Proofs.Value.Json

namespace SealedStore

open Value (FieldsNamed)

variable {store next : MemoryStore} {slot : SlotName} {v : Value} {size : Nat}

/-- What was put has a blob, and that is what the slot then holds. -/
theorem MemoryStore.exists_pack_of_put (h : Store.put store slot v = (.ok size, next)) :
    ∃ blob, Frame.pack v = .ok blob ∧ next.get? slot = some blob := by
  cases hpack : Frame.pack v with
  | error e =>
    rw [Store.put_of_refused store slot hpack] at h
    nomatch h
  | ok blob =>
    rw [put_of_pack store slot hpack] at h
    obtain ⟨-, rfl⟩ := Prod.mk.inj h
    exact ⟨blob, rfl, store.get?_insert_self slot blob⟩

/-- A value with a payload is put, unless the payload is too long for a blob. -/
theorem MemoryStore.exists_put {p : Bytes} (store : MemoryStore) (slot : SlotName)
    (h : Payload.encode v = .ok p) (hlen : p.length < 2 ^ 32) :
    ∃ next, Store.put store slot v = (.ok (headerLength + p.length), next) := by
  have hpack := Frame.pack_eq_ok_iff.mpr ⟨p, h, hlen, rfl⟩
  rw [put_of_pack store slot hpack, Frame.length_wrap]
  exact ⟨_, rfl⟩

/-- A value with well-formed records is read back. -/
theorem MemoryStore.get_of_put (h : Store.put store slot v = (.ok size, next))
    (hnamed : v.Everywhere FieldsNamed) :
    ∃ w, Store.get next slot = .ok w ∧ w.sameAs v = true := by
  obtain ⟨blob, hpack, hslot⟩ := exists_pack_of_put h
  obtain ⟨w, hw, hsame⟩ := (Payload.readBack_unpack hpack).1 hnamed
  exact ⟨w, get_of_some hslot hw, hsame⟩

/-- The blob of any other value is found to be corrupt, although nothing has touched it. -/
theorem MemoryStore.corrupt_of_put (h : Store.put store slot v = (.ok size, next))
    (hnot : ¬ v.Everywhere FieldsNamed) :
    ∃ offset cause, Store.get next slot = .error (.corrupt slot (.corrupt offset cause)) := by
  obtain ⟨blob, hpack, hslot⟩ := exists_pack_of_put h
  obtain ⟨offset, cause, hread⟩ := (Payload.readBack_unpack hpack).2 hnot
  exact ⟨offset, cause, get_of_unpack_error hslot hread⟩

/-- **Of the values that a store took, it gives back those with well-formed records** and calls the
    others corrupt. -/
theorem well_formed_read_back (h : Store.put store slot v = (.ok size, next)) :
    (v.Everywhere FieldsNamed → ∃ w, Store.get next slot = .ok w ∧ w.sameAs v = true) ∧
    (¬ v.Everywhere FieldsNamed →
      ∃ offset cause, Store.get next slot = .error (.corrupt slot (.corrupt offset cause))) :=
  ⟨MemoryStore.get_of_put h, MemoryStore.corrupt_of_put h⟩

/-! ## A record from JSON -/

/-- A record with a field twice. -/
def doubled : Value := .record "R" [("x", .none), ("x", .none)]

/-- Its JSON. -/
def doubledText : String :=
  "\x7B\"Record\":\x7B\"class\":\"R\",\"fields\":[[\"x\",\"None\"],[\"x\",\"None\"]]\x7D\x7D"

theorem ofJsonText?_doubledText : Value.ofJsonText? doubledText.toList = some doubled := by
  have htext : doubled.jsonText = doubledText.toList := by decide
  rw [← htext]
  exact Value.ofJsonText?_jsonText (by decide) (by decide)

theorem encode_doubled :
    Payload.encode doubled = .ok [0x0A, 1, 0x52, 2, 1, 0x78, 0x00, 1, 0x78, 0x00] := rfl

/-- **Not all that is taken is read back**: this record is read from JSON and put, and what is then
    in the slot is called corrupt. -/
theorem doubled_not_read_back :
    ¬ ∀ (text : List Char) (v : Value) (store next : MemoryStore) (slot : SlotName) (size : Nat),
      Value.ofJsonText? text = some v → Store.put store slot v = (.ok size, next) →
      ∃ w, Store.get next slot = .ok w ∧ w.sameAs v = true := by
  intro hclaim
  obtain ⟨next, hput⟩ := MemoryStore.exists_put .empty ⟨"s", by decide⟩ encode_doubled (by decide)
  obtain ⟨w, hw, -⟩ := hclaim _ _ _ _ _ _ ofJsonText?_doubledText hput
  obtain ⟨offset, cause, hcorrupt⟩ := MemoryStore.corrupt_of_put hput (by decide)
  rw [hcorrupt] at hw
  nomatch hw

/-- The same record with the field once is read back from the same slot. -/
theorem doubled_corrupt_single_read_back :
    ∃ (slot : SlotName) (size size' : Nat) (first second : MemoryStore),
      Store.put MemoryStore.empty slot doubled = (.ok size, first) ∧
      (∃ offset cause, Store.get first slot = .error (.corrupt slot (.corrupt offset cause))) ∧
      Store.put first slot (.record "R" [("x", .none)]) = (.ok size', second) ∧
      ∃ w, Store.get second slot = .ok w ∧ w.sameAs (.record "R" [("x", .none)]) = true := by
  have hsingle : Payload.encode (.record "R" [("x", .none)]) =
      .ok [0x0A, 1, 0x52, 1, 1, 0x78, 0x00] := rfl
  obtain ⟨first, hput⟩ := MemoryStore.exists_put .empty ⟨"s", by decide⟩ encode_doubled (by decide)
  obtain ⟨second, hput'⟩ := MemoryStore.exists_put first ⟨"s", by decide⟩ hsingle (by decide)
  refine ⟨_, _, _, first, second, hput, ?_, hput', ?_⟩
  · exact (well_formed_read_back hput).2 (by decide)
  · exact (well_formed_read_back hput').1 (by decide)

end SealedStore
