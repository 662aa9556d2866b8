/-
  Bytes tell values apart.

  Two payloads of which one begins the other spell one value, since no spelling begins another
  (`unambiguous_spells`).  This asks nothing of the records in the values, so it also holds of
  payloads that no reader takes.  `sameAs` is equality of values: it is therefore equality of the
  bytes that are stored.
-/
import SealedStore.Proofs.Codec.Frame
import SealedStore.Proofs.Codec.Reading
import SealedStore.Proofs.Codec.Writing

namespace SealedStore.Payload

/-- **One payload begins another only if it is that payload**, and then their values are one. -/
theorem eq_of_encode_append {a b : Value} {p q t u : Bytes} (ha : encode a = .ok p)
    (hb : encode b = .ok q) (haddr : a.Everywhere Addressable) (haddr' : b.Everywhere Addressable)
    (h : p ++ t = q ++ u) : p = q ∧ a = b :=
  unambiguous_spells recognises_varint.unambiguous Value.KeysHashable (maxDepth + 1)
    (spells_of_encode ha haddr) (spells_of_encode hb haddr') t u h

/-- It is enough that the length of the longer payload is a number of 64 bits. -/
theorem eq_of_encode_isPrefix {a b : Value} {p q : Bytes} (ha : encode a = .ok p)
    (hb : encode b = .ok q) (hlen : q.length < 2 ^ 64) (h : p <+: q) : p = q ∧ a = b := by
  have haddr := addressable_of_encode ha (Nat.lt_of_le_of_lt h.length_le hlen)
  have haddr' := addressable_of_encode hb hlen
  obtain ⟨t, ht⟩ := h
  exact eq_of_encode_append ha hb haddr haddr' (ht.trans (List.append_nil q).symm)

/-- Two values have the same payload just when they are the same, bit for bit. -/
theorem encode_eq_iff_sameAs {a b : Value} {p q : Bytes} (ha : encode a = .ok p)
    (hb : encode b = .ok q) (hlen : q.length < 2 ^ 64) : p = q ↔ a.sameAs b = true := by
  rw [Value.sameAs_iff_eq]
  constructor
  · rintro rfl
    exact (eq_of_encode_isPrefix ha hb hlen (List.prefix_refl p)).2
  · rintro rfl
    exact Except.ok.inj (ha.symm.trans hb)

/-- Two values have the same blob just when they are the same; a blob contains the payload. -/
theorem pack_eq_iff_sameAs {a b : Value} {x y : Bytes} (ha : Frame.pack a = .ok x)
    (hb : Frame.pack b = .ok y) : x = y ↔ a.sameAs b = true := by
  obtain ⟨p, hp, -, rfl⟩ := Frame.pack_eq_ok_iff.mp ha
  obtain ⟨q, hq, hlen, rfl⟩ := Frame.pack_eq_ok_iff.mp hb
  rw [← encode_eq_iff_sameAs hp hq (Nat.lt_trans hlen (by decide))]
  constructor
  · intro h
    exact congrArg Frame.payload h
  · rintro rfl
    rfl

/-- **Stored bytes identify a value**, bit for bit and whatever its records are: payloads whose
    length is a number of 64 bits, of which none begins another, and blobs. -/
theorem stored_bytes_identify (a b : Value) :
    (∀ p q, encode a = .ok p → encode b = .ok q → q.length < 2 ^ 64 →
      (p = q ↔ a.sameAs b = true) ∧ (p <+: q → p = q)) ∧
    ∀ x y, Frame.pack a = .ok x → Frame.pack b = .ok y → (x = y ↔ a.sameAs b = true) := by
  refine ⟨fun p q ha hb hlen => ⟨encode_eq_iff_sameAs ha hb hlen, fun h => ?_⟩, fun x y ha hb => ?_⟩
  · exact (eq_of_encode_isPrefix ha hb hlen h).1
  · exact pack_eq_iff_sameAs ha hb

/-- A record that no reader takes, around a zero of either sign. -/
def unnamed (zero : UInt64) : Value := .record "" [("", .float zero), ("", .list [])]

/-- Records around the two zeros have different payloads, of which the first does not begin the
    second, and different blobs. -/
theorem zeros_identified :
    (∃ p q, encode (unnamed 0) = .ok p ∧ encode (unnamed 0x8000000000000000) = .ok q ∧
      q.length < 2 ^ 64 ∧ p ≠ q ∧ ¬ p <+: q) ∧
    ∃ x y, Frame.pack (unnamed 0) = .ok x ∧ Frame.pack (unnamed 0x8000000000000000) = .ok y ∧
      x ≠ y := by
  have hplus : encode (unnamed 0) =
      .ok [0x0A, 0, 2, 0, 0x04, 0, 0, 0, 0, 0, 0, 0, 0, 0, 0x08, 0] := rfl
  have hminus : encode (unnamed 0x8000000000000000) =
      .ok [0x0A, 0, 2, 0, 0x04, 0x80, 0, 0, 0, 0, 0, 0, 0, 0, 0x08, 0] := rfl
  have hblob := Frame.pack_eq_ok_iff.mpr ⟨_, hplus, by decide, rfl⟩
  have hblob' := Frame.pack_eq_ok_iff.mpr ⟨_, hminus, by decide, rfl⟩
  have hdiff : ¬ (unnamed 0).sameAs (unnamed 0x8000000000000000) = true := by decide
  obtain ⟨hpayload, hpack⟩ := stored_bytes_identify (unnamed 0) (unnamed 0x8000000000000000)
  obtain ⟨heq, hfront⟩ := hpayload _ _ hplus hminus (by decide)
  refine ⟨⟨_, _, hplus, hminus, by decide, ?_, ?_⟩, _, _, hblob, hblob', ?_⟩
  · exact fun h => hdiff (heq.mp h)
  · exact fun h => hdiff (heq.mp (hfront h))
  · exact fun h => hdiff ((hpack _ _ hblob hblob').mp h)

end SealedStore.Payload
