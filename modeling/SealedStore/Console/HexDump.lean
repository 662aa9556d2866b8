/-
  Bytes shown in rows of sixteen: the offset, the bytes in hexadecimal by pairs, and the bytes
  as characters.  The characters begin in the same column of every row.
-/
import SealedStore.Bytes

namespace SealedStore.HexDump

/-- The bytes of a row. -/
def rowLength : Nat := 16

/-- The columns of the hexadecimal part: two for every byte, one after every pair. -/
def hexWidth : Nat := rowLength * 2 + rowLength / 2

/-- The bytes in hexadecimal, with a space after every second one. -/
def pairs : Bytes → List Char
  | [] => []
  | [b] => Bytes.hexByte b
  | b :: c :: rest => Bytes.hexByte b ++ Bytes.hexByte c ++ ' ' :: pairs rest

/-- The character of a byte, a dot for one that is not printable ASCII. -/
def printable (b : UInt8) : Char := if 0x20 ≤ b && b ≤ 0x7E then Char.ofNat b.toNat else '.'

/-- A text filled up with spaces. -/
def padded (width : Nat) (cs : List Char) : List Char :=
  cs ++ List.replicate (width - cs.length) ' '

/-- One row, whose first byte stands at an offset. -/
def row (offset : Nat) (bytes : Bytes) : List Char :=
  Bytes.hexPadded 8 offset ++ [':', ' '] ++ padded hexWidth (pairs bytes) ++
    ' ' :: bytes.map printable

/-- The rows of bytes from an offset on, at most `most` of them. -/
def rows : (most : Nat) → (offset : Nat) → Bytes → List (List Char)
  | 0, _, _ => []
  | most + 1, offset, bytes =>
    if bytes.isEmpty then []
    else row offset (bytes.take rowLength) ::
      rows most (offset + rowLength) (bytes.drop rowLength)

/-- The rows of a byte string. -/
def lines (bytes : Bytes) : List (List Char) := rows bytes.length 0 bytes

end SealedStore.HexDump
