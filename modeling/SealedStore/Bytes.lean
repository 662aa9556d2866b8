/-
  Byte strings: numbers in both byte orders, exact splitting, hexadecimal digits.

  `bigEndian w n` writes the low `w` bytes of `n`, most significant first, and `ofBigEndian`
  reads such bytes back.  `splitExact` cuts a prefix of a given length, or fails.
-/

namespace SealedStore

/-- A string of bytes. -/
abbrev Bytes := List UInt8

namespace Bytes

/-- The low `width` bytes of a number, most significant first. -/
def bigEndian : (width : Nat) → Nat → Bytes
  | 0, _ => []
  | width + 1, n => (n / Nat.pow 256 width).toUInt8 :: bigEndian width n

/-- The number whose base-256 digits these are, most significant first. -/
def ofBigEndian (bytes : Bytes) : Nat :=
  bytes.foldl (fun n b => 256 * n + b.toNat) 0

/-- The number whose base-256 digits these are, least significant first. -/
def ofLittleEndian : Bytes → Nat
  | [] => 0
  | b :: rest => b.toNat + 256 * ofLittleEndian rest

/-- There are `n` bytes or more.  No more than `n` are looked at. -/
def hasAtLeast : Nat → Bytes → Bool
  | 0, _ => true
  | _ + 1, [] => false
  | n + 1, _ :: rest => hasAtLeast n rest

theorem hasAtLeast_iff {n : Nat} {bytes : Bytes} :
    hasAtLeast n bytes = true ↔ n ≤ bytes.length := by
  induction n generalizing bytes with
  | zero => simp [hasAtLeast]
  | succ n ih => cases bytes <;> simp [hasAtLeast, ih]

/-- The first `n` bytes and the rest, if there are that many. -/
def splitExact (n : Nat) (bytes : Bytes) : Option (Bytes × Bytes) :=
  if hasAtLeast n bytes then some (bytes.take n, bytes.drop n) else none

theorem splitExact_append (front back : Bytes) :
    splitExact front.length (front ++ back) = some (front, back) := by
  simp [splitExact, hasAtLeast_iff]

/-- The two parts are the bytes, and the first has the length that was asked for. -/
theorem append_of_splitExact {n : Nat} {bytes front back : Bytes}
    (h : splitExact n bytes = some (front, back)) : bytes = front ++ back ∧ front.length = n := by
  unfold splitExact at h
  split at h
  · next hn =>
    obtain ⟨rfl, rfl⟩ := Prod.mk.inj (Option.some.inj h)
    exact ⟨(List.take_append_drop n bytes).symm, List.length_take_of_le (hasAtLeast_iff.1 hn)⟩
  · contradiction

/-- One hexadecimal digit, in lower case. -/
def hexDigit (n : Nat) : Char :=
  if n < 10 then Char.ofNat ('0'.toNat + n) else Char.ofNat ('a'.toNat + (n - 10))

/-- The last `width` hexadecimal digits of a number. -/
def hexFixed : (width : Nat) → Nat → List Char
  | 0, _ => []
  | width + 1, n => hexDigit (n / Nat.pow 16 width % 16) :: hexFixed width n

/-- A number in hexadecimal, padded with zeros to at least `width` digits. -/
def hexPadded (width n : Nat) : List Char :=
  if n < Nat.pow 16 width then hexFixed width n else Nat.toDigits 16 n

/-- Two hexadecimal digits for a byte. -/
def hexByte (b : UInt8) : List Char := hexFixed 2 b.toNat

end Bytes

end SealedStore
