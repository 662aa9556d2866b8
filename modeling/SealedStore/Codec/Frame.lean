/-
  Sealed blobs: a payload behind a header that lets damage be noticed.

  The header is the magic bytes `SJAR`, the format version in two bytes, the length and the
  CRC-32 of the payload in four bytes each, all most significant byte first.  `inspect` checks
  all of it but the checksum, `unpack` checks the checksum and reads the payload.
-/
import SealedStore.Codec.Checksum
import SealedStore.Codec.Payload

namespace SealedStore

/-- The fields of a header. -/
structure Header where
  version : UInt16
  payloadLength : UInt32
  crc : UInt32
  deriving DecidableEq, Repr

namespace Frame

/-- The first four bytes of every blob: `SJAR`. -/
def magic : Bytes := [0x53, 0x4A, 0x41, 0x52]

/-- The format version that is written and read. -/
def version : UInt16 := 1

/-- A payload behind its header. -/
def wrap (payload : Bytes) : Bytes :=
  magic ++ Bytes.bigEndian 2 version.toNat ++ Bytes.bigEndian 4 payload.length ++
    Bytes.bigEndian 4 (Checksum.crc32 payload).toNat ++ payload

/-- The blob of a value. -/
def pack (v : Value) : Except CodecError Bytes := do
  let payload ← Payload.encode v
  if payload.length < Nat.pow 2 32 then .ok (wrap payload)
  else .error (.unsupported v.kind (.tooLong payload.length))

/-- The bytes from `start` on, `size` of them. -/
def slice (start size : Nat) (bytes : Bytes) : Bytes := (bytes.drop start).take size

/-- The payload of a blob. -/
def payload (blob : Bytes) : Bytes := blob.drop headerLength

/-- The header of a blob, checked but for the checksum. -/
def inspect (blob : Bytes) : Except CodecError Header :=
  let found := (Bytes.ofBigEndian (slice 4 2 blob)).toUInt16
  let declared := Bytes.ofBigEndian (slice 6 4 blob)
  let actual := (payload blob).length
  if blob.length < headerLength then .error (.corrupt 0 (.shortBlob blob.length))
  else if slice 0 4 blob ≠ magic then .error (.invalidMagic (slice 0 4 blob))
  else if found ≠ version then .error (.unsupportedVersion found)
  else if actual ≠ declared then .error (.lengthMismatch declared actual)
  else .ok ⟨found, declared.toUInt32, (Bytes.ofBigEndian (slice 10 4 blob)).toUInt32⟩

/-- The value inside a blob. -/
def unpack (blob : Bytes) : Except CodecError Value := do
  let header ← inspect blob
  let computed := Checksum.crc32 (payload blob)
  if computed = header.crc then Payload.decode (payload blob)
  else .error (.checksumMismatch header.crc computed)

end Frame

end SealedStore
