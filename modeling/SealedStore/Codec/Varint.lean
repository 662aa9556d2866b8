/-
  Numbers below `2 ^ 64` in groups of seven bits, least significant group first.

  Every byte but the last has its top bit set.  `encode` writes the fewest groups; `decode`
  puts the groups together in a word of 64 bits.  It also takes groups of zeros on top, up to ten
  bytes in all, and refuses what the word cannot hold.  `zigzag` numbers the signed integers 0,
  -1, 1, -2, 2 and so on.
-/
import SealedStore.Bytes

namespace SealedStore.Varint

/-- The groups of a number, at most `more + 1` of them. -/
def encodeGroups : (more : Nat) → Nat → Bytes
  | 0, n => [n.toUInt8]
  | more + 1, n =>
    if n < 128 then [n.toUInt8] else (n % 128 + 128).toUInt8 :: encodeGroups more (n / 128)

/-- The shortest form of a number below `2 ^ 64`. -/
def encode (n : Nat) : Bytes := encodeGroups 9 n

/-- How bytes fail to begin with a number. -/
inductive Fault where
  /-- The number does not fit into 64 bits. -/
  | overflow
  /-- The bytes end before the last group. -/
  | truncated
  deriving DecidableEq, Repr

/-- Reads groups on top of a word that `taken` others have made, each shifted past those before
    it.  The tenth may only carry bit 63, and none may follow it. -/
def decodeWord : (word : UInt64) → (taken : Nat) → Bytes → Except Fault (UInt64 × Nat)
  | _, _, [] => .error .truncated
  | word, taken, b :: rest =>
    let shift := 7 * taken
    if 64 ≤ shift ∨ (shift = 63 ∧ b &&& 0x7E ≠ 0) then .error .overflow
    else
      let word := word ||| (b &&& 0x7F).toUInt64 <<< shift.toUInt64
      if b &&& 0x80 = 0 then .ok (word, taken + 1) else decodeWord word (taken + 1) rest

/-- The number in front, and how many bytes it takes. -/
def decode (bytes : Bytes) : Except Fault (Nat × Nat) :=
  (decodeWord 0 0 bytes).map fun (word, length) => (word.toNat, length)

/-- Signed numbers as natural ones, small ones staying small: the sign moves to the lowest bit,
    and the others are inverted if it is set. -/
def zigzag (n : Int64) : Nat := (n <<< 1 ^^^ n >>> 63).toUInt64.toNat

/-- The signed number of a natural one below `2 ^ 64`. -/
def unzigzag (z : Nat) : Int64 :=
  let word := z.toUInt64
  (word >>> 1).toInt64 ^^^ -(word &&& 1).toInt64

end SealedStore.Varint
