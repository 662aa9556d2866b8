/-
  Which bytes are blobs, and why others are none.

  A blob is opened just when it is the frame of a payload that is read, with the checksum of that
  payload.  All other bytes have a fault (`framed_or_blobFault`), and it is the first one: each case
  of `BlobFault` says that all that is looked at before is right.
-/
import SealedStore.Proofs.Codec.Frame
import SealedStore.Proofs.Codec.Reading

namespace SealedStore.Frame

/-! ## Headers -/

/-- Opening a blob fails with the first part of the header that is wrong. -/
theorem inspect_eq_error_iff {b : Bytes} {e : CodecError} :
    inspect b = .error e ↔ HeaderFault b e := by
  constructor
  · intro h
    rcases framed_or_headerFault b with ⟨crc, p, hp, rfl⟩ | ⟨e', hfault⟩
    · rw [inspect_framed crc hp] at h
      nomatch h
    · have he := (inspect_of_headerFault hfault).symm.trans h
      obtain rfl := Except.error.inj he
      exact hfault
  · exact inspect_of_headerFault

/-- The header of a frame is read whatever the checksum in it, as long as the payload has the length
    that it says. -/
theorem inspect_eq_ok_iff {b : Bytes} {found : Header} :
    inspect b = .ok found ↔ ∃ crc p, p.length < 2 ^ 32 ∧ b = framed crc p ∧
      found = ⟨1, p.length.toUInt32, crc⟩ := by
  constructor
  · intro h
    rcases framed_or_headerFault b with ⟨crc, p, hp, rfl⟩ | ⟨e, hfault⟩
    · rw [inspect_framed crc hp] at h
      exact ⟨crc, p, hp, rfl, (Except.ok.inj h).symm⟩
    · rw [inspect_of_headerFault hfault] at h
      nomatch h
  · rintro ⟨crc, p, hp, rfl, rfl⟩
    exact inspect_framed crc hp

/-! ## Blobs -/

/-- What is wrong with a blob, and that what is looked at before is right. -/
inductive BlobFault : Bytes → CodecError → Prop
  | header {b : Bytes} {e : CodecError} : HeaderFault b e → BlobFault b e
  /-- The checksum of the payload is another. -/
  | checksum {crc : UInt32} {p : Bytes} : p.length < 2 ^ 32 → Checksum.crc32 p ≠ crc →
      BlobFault (framed crc p) (.checksumMismatch crc (Checksum.crc32 p))
  /-- The payload is not read. -/
  | payload {p : Bytes} {e : CodecError} : p.length < 2 ^ 32 → Payload.decode p = .error e →
      BlobFault (framed (Checksum.crc32 p) p) e

theorem unpack_of_blobFault {b : Bytes} {e : CodecError} (h : BlobFault b e) :
    unpack b = .error e := by
  cases h with
  | header hheader => exact unpack_of_headerFault hheader
  | checksum hp hcrc => rw [unpack_framed _ hp, if_neg hcrc]
  | payload hp hdecode => rw [unpack_framed _ hp, if_pos rfl, hdecode]

/-- **A blob is whole or at fault.** -/
theorem framed_or_blobFault (b : Bytes) :
    (∃ p v, p.length < 2 ^ 32 ∧ b = framed (Checksum.crc32 p) p ∧ Payload.decode p = .ok v) ∨
      ∃ e, BlobFault b e := by
  rcases framed_or_headerFault b with ⟨crc, p, hp, rfl⟩ | ⟨e, hheader⟩
  · by_cases hcrc : Checksum.crc32 p = crc
    · subst hcrc
      cases hdecode : Payload.decode p with
      | ok v => exact .inl ⟨p, v, hp, rfl, hdecode⟩
      | error e => exact .inr ⟨e, .payload hp hdecode⟩
    · exact .inr ⟨_, .checksum hp hcrc⟩
  · exact .inr ⟨e, .header hheader⟩

/-- Taking a value out of a blob fails for the header, then for the checksum, then for the
    payload. -/
theorem unpack_eq_error_iff {b : Bytes} {e : CodecError} :
    unpack b = .error e ↔ BlobFault b e := by
  constructor
  · intro h
    rcases framed_or_blobFault b with ⟨p, v, hp, rfl, hdecode⟩ | ⟨e', hfault⟩
    · rw [unpack_framed _ hp, if_pos rfl, hdecode] at h
      nomatch h
    · have he := (unpack_of_blobFault hfault).symm.trans h
      obtain rfl := Except.error.inj he
      exact hfault
  · exact unpack_of_blobFault

/-- A blob gives a value when it is the frame of a payload with the checksum of that payload, and
    the payload gives the value. -/
theorem unpack_eq_ok_iff {b : Bytes} {v : Value} :
    unpack b = .ok v ↔ ∃ p, p.length < 2 ^ 32 ∧ b = framed (Checksum.crc32 p) p ∧
      Payload.decode p = .ok v := by
  constructor
  · intro h
    rcases framed_or_blobFault b with ⟨p, w, hp, rfl, hdecode⟩ | ⟨e, hfault⟩
    · rw [unpack_framed _ hp, if_pos rfl] at h
      exact ⟨p, hp, rfl, h⟩
    · rw [unpack_of_blobFault hfault] at h
      nomatch h
  · rintro ⟨p, hp, rfl, hdecode⟩
    rw [unpack_framed _ hp, if_pos rfl, hdecode]

/-- The tag of a payload that is read tells the kind of its value. -/
theorem peekKind_of_decode {p : Bytes} {v : Value} (h : Payload.decode p = .ok v) :
    Payload.peekKind p = some v.kind := by
  obtain ⟨-, body, rfl, -⟩ := Payload.grammar_of_decode h
  exact Payload.peekKind_tag v body

/-- A payload is packed if a header can say its length; otherwise the kind of the value is
    refused. -/
theorem pack_of_encode {v : Value} {p : Bytes} (h : Payload.encode v = .ok p) :
    pack v = if p.length < 2 ^ 32 then .ok (framed (Checksum.crc32 p) p)
      else .error (.unsupported v.kind (.tooLong p.length)) := by
  unfold pack
  rw [h]
  rfl

/-- **The format of blobs.**  A blob is opened just when it is the frame of a payload that is read,
    and its header is found just when it is that of a frame with any checksum.  Otherwise what is
    wrong is found in order: room for the header, magic, version, length, then checksum and
    payload.  A value is packed into the frame of its payload when a header can say its length, and
    the kind of what is opened stands behind the header. -/
theorem blob_format :
    (∀ b v, unpack b = .ok v ↔ ∃ p, p.length < 2 ^ 32 ∧ b = framed (Checksum.crc32 p) p ∧
      Payload.decode p = .ok v) ∧
    (∀ b found, inspect b = .ok found ↔ ∃ crc p, p.length < 2 ^ 32 ∧ b = framed crc p ∧
      found = ⟨1, p.length.toUInt32, crc⟩) ∧
    (∀ b e, inspect b = .error e ↔ HeaderFault b e) ∧
    (∀ b e, unpack b = .error e ↔ BlobFault b e) ∧
    (∀ v p, Payload.encode v = .ok p →
      (p.length < 2 ^ 32 → pack v = .ok (framed (Checksum.crc32 p) p)) ∧
      (2 ^ 32 ≤ p.length → pack v = .error (.unsupported v.kind (.tooLong p.length)))) ∧
    ∀ b v, unpack b = .ok v → Payload.peekKind (b.drop 14) = some v.kind := by
  refine ⟨fun b v => unpack_eq_ok_iff, fun b found => inspect_eq_ok_iff,
    fun b e => inspect_eq_error_iff, fun b e => unpack_eq_error_iff, ?_, ?_⟩
  · intro v p h
    rw [pack_of_encode h]
    exact ⟨fun hshort => if_pos hshort, fun hlong => if_neg (Nat.not_lt.mpr hlong)⟩
  · intro b v h
    obtain ⟨p, -, rfl, hdecode⟩ := unpack_eq_ok_iff.mp h
    exact peekKind_of_decode hdecode

/-- The payload of a list of the integer 1. -/
def onePayload : Bytes := [0x08, 1, 0x03, 2]

/-- A list that is packed and opened, and the same bytes with another checksum and another
    version. -/
theorem one_framed :
    let blob : Bytes :=
      [0x53, 0x4A, 0x41, 0x52, 0, 1, 0, 0, 0, 4, 0x20, 0x11, 0xAF, 0x2B, 0x08, 1, 0x03, 2]
    pack (.list [.int 1]) = .ok blob ∧ unpack blob = .ok (.list [.int 1]) ∧
      Payload.peekKind (blob.drop 14) = some .list ∧
      inspect (framed 7 onePayload) = .ok ⟨1, 4, 7⟩ ∧
      unpack (framed 7 onePayload) = .error (.checksumMismatch 7 0x2011AF2B) ∧
      unpack [0x53, 0x4A, 0x41, 0x52, 0, 2, 0, 0, 0, 9, 0, 0, 0, 0] =
        .error (.unsupportedVersion 2) := by
  intro blob
  have hcrc : Checksum.crc32 onePayload = 0x2011AF2B := by decide +kernel
  have hblob : framed (Checksum.crc32 onePayload) onePayload = blob := by
    rw [hcrc]
    rfl
  have hencode : Payload.encode (.list [.int 1]) = .ok onePayload := rfl
  have hdecode : Payload.decode onePayload = .ok (.list [.int 1]) := rfl
  obtain ⟨hopen, hheader, -, hfault, hpack, hkind⟩ := blob_format
  have hunpack : unpack blob = .ok (.list [.int 1]) :=
    (hopen _ _).mpr ⟨onePayload, by decide, hblob.symm, hdecode⟩
  refine ⟨?_, hunpack, hkind _ _ hunpack, ?_, ?_, ?_⟩
  · rw [← hblob]
    exact (hpack _ _ hencode).1 (by decide)
  · exact (hheader _ _).mpr ⟨7, onePayload, by decide, rfl, rfl⟩
  · rw [← hcrc]
    refine (hfault _ _).mpr (.checksum (by decide) ?_)
    rw [hcrc]
    decide
  · exact (hfault _ _).mpr (.header (.version (f := ⟨magic, 2, 9, 0, [], rfl⟩) rfl (by decide)))

end SealedStore.Frame
