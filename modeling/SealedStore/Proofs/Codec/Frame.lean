/-
  The frames of blobs.

  Bytes that have room for a header are five parts in their places (`Parts`), and `inspect` looks
  at these one after the other (`inspect_bytes`).  So bytes are the frame of a payload, with some
  checksum, or the first part that is wrong tells the error: each case of `HeaderFault` says that
  all parts looked at before are right.  Unpacking a frame is reading the payload if the checksum
  is that of the payload, as it is in a wrapped payload.
-/
import SealedStore.Codec.Frame
import SealedStore.Proofs.Endian
import SealedStore.Proofs.Codec.Reader

namespace SealedStore.Frame

/-! ## Parts in their places -/

/-- The parts of bytes that have room for a header. -/
structure Parts where
  magic : Bytes
  version : UInt16
  declared : UInt32
  crc : UInt32
  payload : Bytes
  length_magic : magic.length = 4

/-- The parts one behind the other, numbers with their most significant byte first. -/
def Parts.bytes (f : Parts) : Bytes :=
  f.magic ++ (Bytes.bigEndian 2 f.version.toNat ++ (Bytes.bigEndian 4 f.declared.toNat ++
    (Bytes.bigEndian 4 f.crc.toNat ++ f.payload)))

/-- The blob of a payload, with any checksum: `SJAR`, version 1, the length of the payload, the
    checksum and the payload. -/
def framed (crc : UInt32) (p : Bytes) : Bytes :=
  [0x53, 0x4A, 0x41, 0x52] ++ [0x00, 0x01] ++ Bytes.bigEndian 4 p.length ++
    Bytes.bigEndian 4 crc.toNat ++ p

/-- A part of the bytes is found by what is in front of it. -/
theorem slice_middle {start size : Nat} (front back : Bytes) {mid : Bytes}
    (hstart : front.length = start) (hsize : mid.length = size) :
    slice start size (front ++ (mid ++ back)) = mid := by
  subst hstart hsize
  rw [slice, List.drop_left, List.take_left]

theorem slice_append_drop (start size : Nat) (b : Bytes) :
    slice start size b ++ b.drop (start + size) = b.drop start := by
  rw [slice, ← List.drop_drop]
  exact List.take_append_drop size (b.drop start)

theorem length_slice {start size : Nat} {b : Bytes} (h : start + size ≤ b.length) :
    (slice start size b).length = size := by
  rw [slice, List.length_take, List.length_drop]
  omega

theorem toUInt16_ofBigEndian (n : UInt16) :
    (Bytes.ofBigEndian (Bytes.bigEndian 2 n.toNat)).toUInt16 = n := by
  have hlt : n.toNat < 256 ^ 2 := n.toNat_lt
  rw [Bytes.ofBigEndian_bigEndian hlt]
  exact UInt16.toNat_inj.mp (UInt16.toNat_ofNat_of_lt n.toNat_lt)

theorem toUInt32_toNat (n : UInt32) : n.toNat.toUInt32 = n :=
  UInt32.toNat_inj.mp (UInt32.toNat_ofNat_of_lt n.toNat_lt)

theorem ofBigEndian_four (n : UInt32) :
    Bytes.ofBigEndian (Bytes.bigEndian 4 n.toNat) = n.toNat := by
  have hlt : n.toNat < 256 ^ 4 := n.toNat_lt
  exact Bytes.ofBigEndian_bigEndian hlt

/-- Two bytes are the digits of a number of 16 bits. -/
theorem exists_bigEndian_two {raw : Bytes} (h : raw.length = 2) :
    ∃ n : UInt16, raw = Bytes.bigEndian 2 n.toNat := by
  have hlt : Bytes.ofBigEndian raw < 256 ^ 2 := h ▸ Bytes.ofBigEndian_lt raw
  have hraw : Bytes.bigEndian 2 (Bytes.ofBigEndian raw) = raw := h ▸ Bytes.bigEndian_ofBigEndian raw
  refine ⟨(Bytes.ofBigEndian raw).toUInt16, ?_⟩
  have hn : (Bytes.ofBigEndian raw).toUInt16.toNat = Bytes.ofBigEndian raw :=
    UInt16.toNat_ofNat_of_lt hlt
  rw [hn, hraw]

/-- Four bytes are the digits of a number of 32 bits. -/
theorem exists_bigEndian_four {raw : Bytes} (h : raw.length = 4) :
    ∃ n : UInt32, raw = Bytes.bigEndian 4 n.toNat := by
  have hlt : Bytes.ofBigEndian raw < 256 ^ 4 := h ▸ Bytes.ofBigEndian_lt raw
  have hraw : Bytes.bigEndian 4 (Bytes.ofBigEndian raw) = raw := h ▸ Bytes.bigEndian_ofBigEndian raw
  refine ⟨(Bytes.ofBigEndian raw).toUInt32, ?_⟩
  have hn : (Bytes.ofBigEndian raw).toUInt32.toNat = Bytes.ofBigEndian raw :=
    UInt32.toNat_ofNat_of_lt hlt
  rw [hn, hraw]

/-- **Bytes with room for a header have parts.** -/
theorem exists_parts {b : Bytes} (h : headerLength ≤ b.length) : ∃ f : Parts, b = f.bytes := by
  have hlen : 14 ≤ b.length := h
  obtain ⟨version, hversion⟩ := exists_bigEndian_two (length_slice (show 4 + 2 ≤ b.length by omega))
  obtain ⟨declared, hdeclared⟩ :=
    exists_bigEndian_four (length_slice (show 6 + 4 ≤ b.length by omega))
  obtain ⟨crc, hcrc⟩ := exists_bigEndian_four (length_slice (show 10 + 4 ≤ b.length by omega))
  have hmagic : (slice 0 4 b).length = 4 := length_slice (show 0 + 4 ≤ b.length by omega)
  refine ⟨⟨slice 0 4 b, version, declared, crc, b.drop 14, hmagic⟩, ?_⟩
  show b = slice 0 4 b ++ (Bytes.bigEndian 2 version.toNat ++ (Bytes.bigEndian 4 declared.toNat ++
    (Bytes.bigEndian 4 crc.toNat ++ b.drop 14)))
  rw [← hversion, ← hdeclared, ← hcrc]
  -- each part is followed by what begins at its end
  rw [show b.drop 14 = b.drop (10 + 4) from rfl, slice_append_drop 10 4,
    show b.drop 10 = b.drop (6 + 4) from rfl, slice_append_drop 6 4,
    show b.drop 6 = b.drop (4 + 2) from rfl, slice_append_drop 4 2,
    show b.drop 4 = b.drop (0 + 4) from rfl, slice_append_drop 0 4, List.drop_zero]

section
variable (f : Parts)

theorem Parts.length_bytes : f.bytes.length = headerLength + f.payload.length := by
  rw [bytes, List.length_append, List.length_append, List.length_append, List.length_append,
    Bytes.length_bigEndian, Bytes.length_bigEndian, Bytes.length_bigEndian, f.length_magic]
  show 4 + (2 + (4 + (4 + _))) = 14 + _
  omega

theorem Parts.slice_magic : slice 0 4 f.bytes = f.magic :=
  slice_middle [] _ rfl f.length_magic

theorem Parts.slice_version : slice 4 2 f.bytes = Bytes.bigEndian 2 f.version.toNat :=
  slice_middle _ _ f.length_magic (Bytes.length_bigEndian 2 _)

theorem Parts.slice_declared : slice 6 4 f.bytes = Bytes.bigEndian 4 f.declared.toNat := by
  have hfront : (f.magic ++ Bytes.bigEndian 2 f.version.toNat).length = 6 := by
    rw [List.length_append, f.length_magic, Bytes.length_bigEndian]
  rw [bytes, ← List.append_assoc]
  exact slice_middle _ _ hfront (Bytes.length_bigEndian 4 _)

theorem Parts.slice_crc : slice 10 4 f.bytes = Bytes.bigEndian 4 f.crc.toNat := by
  have hfront : (f.magic ++ Bytes.bigEndian 2 f.version.toNat ++
      Bytes.bigEndian 4 f.declared.toNat).length = 10 := by
    rw [List.length_append, List.length_append, f.length_magic, Bytes.length_bigEndian,
      Bytes.length_bigEndian]
  rw [bytes, ← List.append_assoc, ← List.append_assoc]
  exact slice_middle _ _ hfront (Bytes.length_bigEndian 4 _)

/-- What stands behind the header is the payload. -/
theorem Parts.payload_bytes : Frame.payload f.bytes = f.payload := by
  have hfront : (f.magic ++ Bytes.bigEndian 2 f.version.toNat ++
      Bytes.bigEndian 4 f.declared.toNat ++ Bytes.bigEndian 4 f.crc.toNat).length =
        headerLength := by
    rw [List.length_append, List.length_append, List.length_append, f.length_magic,
      Bytes.length_bigEndian, Bytes.length_bigEndian, Bytes.length_bigEndian]
    rfl
  rw [Frame.payload, bytes, ← List.append_assoc, ← List.append_assoc, ← List.append_assoc,
    ← hfront, List.drop_left]

/-- **The parts are looked at in order**: magic, version, length. -/
theorem inspect_bytes : inspect f.bytes =
    if f.magic ≠ magic then .error (.invalidMagic f.magic)
    else if f.version ≠ 1 then .error (.unsupportedVersion f.version)
    else if f.payload.length ≠ f.declared.toNat then
      .error (.lengthMismatch f.declared.toNat f.payload.length)
    else .ok ⟨f.version, f.declared, f.crc⟩ := by
  have hroom : ¬ f.bytes.length < headerLength := by
    rw [f.length_bytes]
    omega
  unfold inspect
  dsimp only
  rw [f.slice_magic, f.slice_version, f.slice_declared, f.slice_crc, f.payload_bytes,
    toUInt16_ofBigEndian, ofBigEndian_four, ofBigEndian_four, toUInt32_toNat, toUInt32_toNat]
  exact if_neg hroom

end

/-! ## Headers -/

/-- What is wrong with a header, and that what is looked at before is right. -/
inductive HeaderFault : Bytes → CodecError → Prop
  /-- There is no room for a header. -/
  | short {b : Bytes} : b.length < headerLength →
      HeaderFault b (.corrupt 0 (.shortBlob b.length))
  /-- The first four bytes are others. -/
  | magic {f : Parts} : f.magic ≠ magic → HeaderFault f.bytes (.invalidMagic f.magic)
  /-- The version is another. -/
  | version {f : Parts} : f.magic = magic → f.version ≠ 1 →
      HeaderFault f.bytes (.unsupportedVersion f.version)
  /-- The payload has not the length that is declared. -/
  | length {f : Parts} : f.magic = magic → f.version = 1 → f.payload.length ≠ f.declared.toNat →
      HeaderFault f.bytes (.lengthMismatch f.declared.toNat f.payload.length)

theorem HeaderFault.isCorruption {b : Bytes} {e : CodecError} (h : HeaderFault b e) :
    e.isCorruption = true := by
  cases h <;> rfl

theorem inspect_short {b : Bytes} (h : b.length < headerLength) :
    inspect b = .error (.corrupt 0 (.shortBlob b.length)) :=
  if_pos h

/-- What is wrong with a header is what it is refused for. -/
theorem inspect_of_headerFault {b : Bytes} {e : CodecError} (h : HeaderFault b e) :
    inspect b = .error e := by
  cases h with
  | short hshort => exact inspect_short hshort
  | magic hmagic => rw [inspect_bytes, if_pos hmagic]
  | version hmagic hversion =>
    rw [inspect_bytes, if_neg (not_not_intro hmagic), if_pos hversion]
  | length hmagic hversion hlength =>
    rw [inspect_bytes, if_neg (not_not_intro hmagic), if_neg (not_not_intro hversion),
      if_pos hlength]

/-- Parts that are right make a frame. -/
theorem Parts.bytes_eq_framed {f : Parts} (hmagic : f.magic = Frame.magic)
    (hversion : f.version = 1) (hlength : f.payload.length = f.declared.toNat) :
    f.bytes = framed f.crc f.payload := by
  rw [bytes, framed, hmagic, hversion, hlength, List.append_assoc, List.append_assoc,
    List.append_assoc]
  rfl

/-- The header of a frame is what the frame was made of. -/
theorem inspect_framed (crc : UInt32) {p : Bytes} (h : p.length < 2 ^ 32) :
    inspect (framed crc p) = .ok ⟨1, p.length.toUInt32, crc⟩ := by
  have hlength : p.length = p.length.toUInt32.toNat := (UInt32.toNat_ofNat_of_lt h).symm
  have hbytes := Parts.bytes_eq_framed (f := ⟨magic, 1, p.length.toUInt32, crc, p, rfl⟩) rfl rfl
    hlength
  rw [← hbytes, inspect_bytes, if_neg (not_not_intro rfl), if_neg (not_not_intro rfl),
    if_neg (not_not_intro hlength)]

/-- **A header is right or wrong**: it is that of a frame, or one of its parts is the first that
    is wrong. -/
theorem framed_or_headerFault (b : Bytes) :
    (∃ crc p, p.length < 2 ^ 32 ∧ b = framed crc p) ∨ ∃ e, HeaderFault b e := by
  rcases Nat.lt_or_ge b.length headerLength with hshort | hroom
  · exact .inr ⟨_, .short hshort⟩
  · obtain ⟨f, rfl⟩ := exists_parts hroom
    by_cases hmagic : f.magic = magic
    · by_cases hversion : f.version = 1
      · by_cases hlength : f.payload.length = f.declared.toNat
        · have hsmall : f.payload.length < 2 ^ 32 := by
            rw [hlength]
            exact f.declared.toNat_lt
          exact .inl ⟨f.crc, f.payload, hsmall, f.bytes_eq_framed hmagic hversion hlength⟩
        · exact .inr ⟨_, .length hmagic hversion hlength⟩
      · exact .inr ⟨_, .version hmagic hversion⟩
    · exact .inr ⟨_, .magic hmagic⟩

/-! ## Opening -/

theorem payload_framed (crc : UInt32) (p : Bytes) : payload (framed crc p) = p := rfl

/-- Of a frame the checksum is looked at, and then the payload. -/
theorem unpack_framed (crc : UInt32) {p : Bytes} (h : p.length < 2 ^ 32) :
    unpack (framed crc p) = if Checksum.crc32 p = crc then Payload.decode p
      else .error (.checksumMismatch crc (Checksum.crc32 p)) := by
  unfold unpack
  rw [inspect_framed crc h, except_ok_bind, payload_framed]

theorem unpack_of_headerFault {b : Bytes} {e : CodecError} (h : HeaderFault b e) :
    unpack b = .error e := by
  unfold unpack
  rw [inspect_of_headerFault h]
  rfl

/-! ## Payloads that were wrapped -/

theorem wrap_eq_framed (p : Bytes) : wrap p = framed (Checksum.crc32 p) p := rfl

theorem length_wrap (p : Bytes) : (wrap p).length = headerLength + p.length := by
  rw [wrap, List.length_append, List.length_append, List.length_append, List.length_append,
    Bytes.length_bigEndian, Bytes.length_bigEndian, Bytes.length_bigEndian]
  rfl

/-- **Unpacking undoes wrapping**, down to the reading of the payload. -/
theorem unpack_wrap {p : Bytes} (h : p.length < 2 ^ 32) : unpack (wrap p) = Payload.decode p := by
  rw [wrap_eq_framed, unpack_framed _ h, if_pos rfl]

/-- What is packed is the payload of the value, short enough for its header. -/
theorem pack_eq_ok_iff {v : Value} {blob : Bytes} :
    pack v = .ok blob ↔ ∃ p, Payload.encode v = .ok p ∧ p.length < 2 ^ 32 ∧ blob = wrap p := by
  unfold pack
  rw [except_bind_eq_ok]
  refine exists_congr fun p => and_congr_right fun _ => ?_
  split
  · next hlt =>
    constructor
    · intro h
      exact ⟨hlt, (Except.ok.inj h).symm⟩
    · rintro ⟨-, rfl⟩
      rfl
  · next hge =>
    constructor
    · intro h; nomatch h
    · rintro ⟨hlt, -⟩
      exact absurd hlt hge

end SealedStore.Frame
