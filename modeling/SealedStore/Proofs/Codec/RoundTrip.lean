/-
  What was written is read back.

  The payload of a value spells it, and no byte string spells two values.  So a reader of the
  payload either gives this very value or none; it gives it when every record in the value has
  valid names, no two the same, and finds corruption when some record has not, since that is all
  the reader asks of a value that the writer does not.  The same holds of blobs.
-/
import SealedStore.Proofs.Codec.Faults
import SealedStore.Proofs.Codec.Frame
import SealedStore.Proofs.Codec.Reading
import SealedStore.Proofs.Codec.Writing

namespace SealedStore.Payload

/-! ## Payloads that were written -/

/-- The payload of a value is in the grammar when the records of the value are well formed. -/
theorem grammar_of_encode {v : Value} {b : Bytes} (h : encode v = .ok b)
    (haddr : v.Everywhere Addressable) (hnamed : v.Everywhere Value.FieldsNamed) : Grammar b v := by
  have hspells := spells_iff.mp (spells_of_encode h haddr)
  exact spells_iff.mpr ⟨hspells.1, fun w hw => ⟨hspells.2 w hw, hnamed w hw⟩⟩

theorem decode_encode {v : Value} {b : Bytes} (h : encode v = .ok b)
    (haddr : v.Everywhere Addressable) (hnamed : v.Everywhere Value.FieldsNamed) :
    decode b = .ok v :=
  decode_of_grammar (grammar_of_encode h haddr hnamed)

/-- **Nothing but the value is read from its payload**, and that only when its records are well
    formed. -/
theorem eq_of_decode_encode {v w : Value} {b : Bytes} (h : encode v = .ok b)
    (haddr : v.Everywhere Addressable) (hdecode : decode b = .ok w) :
    w = v ∧ v.Everywhere Value.FieldsNamed := by
  have hgrammar := spells_iff.mp (grammar_of_decode hdecode)
  have hspells := spells_iff.mp (spells_of_encode h haddr)
  -- both values are spelled by the same bytes, so they are one
  obtain ⟨-, rfl⟩ := unambiguous_spells recognises_varint.unambiguous _ _ hgrammar.1 hspells.1 [] []
    rfl
  exact ⟨rfl, fun x hx => (hgrammar.2 x hx).2⟩

/-- What a reader makes of the bytes of a value: the value itself, bit for bit, if each of its
    records has valid names, no two the same, and corruption if one has not. -/
def ReadBack (v : Value) (r : Except CodecError Value) : Prop :=
  (v.Everywhere Value.FieldsNamed → ∃ w, r = .ok w ∧ w.sameAs v = true) ∧
  (¬ v.Everywhere Value.FieldsNamed → ∃ offset cause, r = .error (.corrupt offset cause))

/-- The payload of a value is read back.  What is written is spelled by the grammar but for the
    names of fields, and these alone decide between the two outcomes. -/
theorem readBack_decode {v : Value} {b : Bytes} (h : encode v = .ok b) (hlen : b.length < 2 ^ 64) :
    ReadBack v (decode b) := by
  have haddr := addressable_of_encode h hlen
  constructor
  · intro hnamed
    exact ⟨v, decode_encode h haddr hnamed, (Value.sameAs_iff_eq v v).mpr rfl⟩
  · intro hnot
    cases hdecode : decode b with
    | error e =>
      obtain ⟨offset, cause, rfl, -⟩ := corrupt_of_decode hdecode
      exact ⟨offset, cause, rfl⟩
    | ok w => exact absurd (eq_of_decode_encode h haddr hdecode).2 hnot

/-- The blob of a value is read back, as its payload is. -/
theorem readBack_unpack {v : Value} {blob : Bytes} (h : Frame.pack v = .ok blob) :
    ReadBack v (Frame.unpack blob) := by
  obtain ⟨p, hp, hlen, rfl⟩ := Frame.pack_eq_ok_iff.mp h
  rw [Frame.unpack_wrap hlen]
  exact readBack_decode hp (Nat.lt_trans hlen (by decide))

/-- **Stored values are read back**, from payloads whose length is a number of 64 bits and from
    blobs. -/
theorem stored_values_read_back (v : Value) :
    (∀ b, encode v = .ok b → b.length < 2 ^ 64 → ReadBack v (decode b)) ∧
      ∀ blob, Frame.pack v = .ok blob → ReadBack v (Frame.unpack blob) :=
  ⟨fun _ h hlen => readBack_decode h hlen, fun _ h => readBack_unpack h⟩

/-- A NaN with a payload, a negative zero, a repeated key and a record. -/
def mixed : Value :=
  .tuple [.float 0x7FF8000000000001, .float 0x8000000000000000,
    .dict [(.int 1, .bool true), (.int 1, .list [])], .record "P" [("x", .none)]]

/-- A record with a repeated field. -/
def repeated : Value := .list [.record "P" [("x", .none), ("x", .none)]]

/-- A value with a NaN, a negative zero and a key that comes twice is read back bit for bit, and a
    record with a field that comes twice is corrupt. -/
theorem stored_mixed_read_back :
    (∃ b, encode mixed = .ok b ∧ b.length < 2 ^ 64 ∧
      ∃ w, decode b = .ok w ∧ w.sameAs mixed = true) ∧
    ∃ blob, Frame.pack repeated = .ok blob ∧
      ∃ offset cause, Frame.unpack blob = .error (.corrupt offset cause) := by
  have hmixed : encode mixed = .ok [0x07, 4, 0x04, 0x7F, 0xF8, 0, 0, 0, 0, 0, 1,
      0x04, 0x80, 0, 0, 0, 0, 0, 0, 0, 0x09, 2, 0x03, 2, 0x02, 0x03, 2, 0x08, 0,
      0x0A, 1, 0x50, 1, 1, 0x78, 0x00] := rfl
  have hrepeated : encode repeated =
      .ok [0x08, 1, 0x0A, 1, 0x50, 2, 1, 0x78, 0x00, 1, 0x78, 0x00] := rfl
  have hblob := Frame.pack_eq_ok_iff.mpr ⟨_, hrepeated, by decide, rfl⟩
  have hnamed : mixed.Everywhere Value.FieldsNamed := by decide
  have htwice : ¬ repeated.Everywhere Value.FieldsNamed := by decide
  refine ⟨⟨_, hmixed, by decide, ?_⟩, _, hblob, ?_⟩
  · exact ((stored_values_read_back mixed).1 _ hmixed (by decide)).1 hnamed
  · exact ((stored_values_read_back repeated).2 _ hblob).2 htwice

end SealedStore.Payload
