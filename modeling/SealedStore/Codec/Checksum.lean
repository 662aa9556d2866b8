/-
  CRC-32 with the reflected polynomial `0xEDB88320`, one bit at a time.

  The register starts with all bits set, takes in each byte at its low end, and is inverted at
  the end.
-/
import SealedStore.Bytes

namespace SealedStore.Checksum

/-- The polynomial, least significant bit first. -/
def polynomial : UInt32 := 0xEDB88320

/-- One bit out of the register. -/
def shift (r : UInt32) : UInt32 := if r &&& 1 == 1 then (r >>> 1) ^^^ polynomial else r >>> 1

/-- One byte into the register. -/
def update (r : UInt32) (b : UInt8) : UInt32 :=
  shift (shift (shift (shift (shift (shift (shift (shift (r ^^^ b.toUInt32))))))))

/-- The register after all bytes. -/
def register (r : UInt32) (bytes : Bytes) : UInt32 := bytes.foldl update r

/-- The checksum of a byte string. -/
def crc32 (bytes : Bytes) : UInt32 := register 0xFFFFFFFF bytes ^^^ 0xFFFFFFFF

end SealedStore.Checksum
