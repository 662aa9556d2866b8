/-
  UTF-8: text to bytes, and bytes to text with the exact place and length of a fault.

  `decode` reads what `encode` wrote and refuses all else: overlong forms, surrogates, code
  points above U+10FFFF.  A fault tells how many bytes of the string are well formed and
  either how long the maximal ill-formed part after them is, or that the bytes end inside a
  sequence that could still be completed.
-/
import SealedStore.Bytes

namespace SealedStore.Utf8

/-- The one to four bytes of a character. -/
def encodeChar (c : Char) : Bytes :=
  let n := c.toNat
  if n < 0x80 then [n.toUInt8]
  else if n < 0x800 then [(0xC0 + n / 0x40).toUInt8, (0x80 + n % 0x40).toUInt8]
  else if n < 0x10000 then
    [(0xE0 + n / 0x1000).toUInt8, (0x80 + n / 0x40 % 0x40).toUInt8, (0x80 + n % 0x40).toUInt8]
  else
    [(0xF0 + n / 0x40000).toUInt8, (0x80 + n / 0x1000 % 0x40).toUInt8,
      (0x80 + n / 0x40 % 0x40).toUInt8, (0x80 + n % 0x40).toUInt8]

/-- The bytes of a text. -/
def encodeChars (cs : List Char) : Bytes := cs.flatMap encodeChar

/-- The bytes of a string. -/
def encode (s : String) : Bytes := encodeChars s.toList

/-- How a byte string fails to be UTF-8 text. -/
inductive Fault where
  /-- After `good` bytes of text stand `length` bytes that no text has there. -/
  | illFormed (good length : Nat)
  /-- After `good` bytes of text the bytes end inside a character. -/
  | incomplete (good : Nat)
  deriving DecidableEq, Repr

/-- What stands at the front of a byte string. -/
inductive Front where
  /-- A character of `length` bytes. -/
  | char (c : Char) (length : Nat)
  /-- The first `length` bytes begin no character. -/
  | illFormed (length : Nat)
  /-- All bytes together are the beginning of a character. -/
  | incomplete
  deriving DecidableEq, Repr

/-- A byte that continues a character. -/
def isContinuation (b : UInt8) : Bool := 0x80 ≤ b && b ≤ 0xBF

/-- The bytes that may follow the first byte of a character of three or four bytes: this leaves out
    overlong forms, surrogates and code points above U+10FFFF. -/
def isSecond (first second : UInt8) : Bool :=
  if first == 0xE0 then 0xA0 ≤ second && second ≤ 0xBF
  else if first == 0xED then 0x80 ≤ second && second ≤ 0x9F
  else if first == 0xF0 then 0x90 ≤ second && second ≤ 0xBF
  else if first == 0xF4 then 0x80 ≤ second && second ≤ 0x8F
  else isContinuation second

/-- The six bits that a continuation byte carries. -/
def tail (b : UInt8) : Nat := b.toNat - 0x80

/-- A character of two bytes, after its first. -/
def front2 (first : UInt8) : Bytes → Front
  | [] => .incomplete
  | b :: _ =>
    if isContinuation b then .char (Char.ofNat ((first.toNat - 0xC0) * 0x40 + tail b)) 2
    else .illFormed 1

/-- A character of three bytes, after its first. -/
def front3 (first : UInt8) : Bytes → Front
  | [] => .incomplete
  | b :: rest =>
    if !isSecond first b then .illFormed 1
    else match rest with
      | [] => .incomplete
      | c :: _ =>
        if isContinuation c then
          .char (Char.ofNat ((first.toNat - 0xE0) * 0x1000 + tail b * 0x40 + tail c)) 3
        else .illFormed 2

/-- A character of four bytes, after its first. -/
def front4 (first : UInt8) : Bytes → Front
  | [] => .incomplete
  | b :: rest =>
    if !isSecond first b then .illFormed 1
    else match rest with
      | [] => .incomplete
      | c :: rest =>
        if !isContinuation c then .illFormed 2
        else match rest with
          | [] => .incomplete
          | d :: _ =>
            if isContinuation d then
              .char (Char.ofNat
                ((first.toNat - 0xF0) * 0x40000 + tail b * 0x1000 + tail c * 0x40 + tail d)) 4
            else .illFormed 3

/-- What a non-empty byte string begins with, by its first byte. -/
def front (first : UInt8) (rest : Bytes) : Front :=
  if first < 0x80 then .char (Char.ofNat first.toNat) 1
  else if first < 0xC2 then .illFormed 1
  else if first < 0xE0 then front2 first rest
  else if first < 0xF0 then front3 first rest
  else if first < 0xF5 then front4 first rest
  else .illFormed 1

/-- Reads characters while `skip` counts the bytes that belong to the one just read. -/
def decodeFrom : (skip good : Nat) → Bytes → Except Fault (List Char)
  | _, _, [] => .ok []
  | skip + 1, good, _ :: rest => decodeFrom skip good rest
  | 0, good, b :: rest =>
    match front b rest with
    | .char c length => (decodeFrom (length - 1) (good + length) rest).map (c :: ·)
    | .illFormed length => .error (.illFormed good length)
    | .incomplete => .error (.incomplete good)

/-- The characters of a byte string that is UTF-8 text. -/
def decodeChars (bytes : Bytes) : Except Fault (List Char) := decodeFrom 0 0 bytes

/-- The string of a byte string that is UTF-8 text. -/
def decode (bytes : Bytes) : Except Fault String := (decodeChars bytes).map String.ofList

/-- Reads as `decodeFrom` does, with U+FFFD for every maximal ill-formed part. -/
def decodeLossyFrom : (skip : Nat) → Bytes → List Char
  | _, [] => []
  | skip + 1, _ :: rest => decodeLossyFrom skip rest
  | 0, b :: rest =>
    match front b rest with
    | .char c length => c :: decodeLossyFrom (length - 1) rest
    | .illFormed length => '\uFFFD' :: decodeLossyFrom (length - 1) rest
    | .incomplete => ['\uFFFD']

/-- The text of any byte string, with U+FFFD for every maximal ill-formed part. -/
def decodeLossy (bytes : Bytes) : String := String.ofList (decodeLossyFrom 0 bytes)

/-- What an error report says about a fault. -/
def Fault.message : Fault → String
  | .illFormed good length => s!"invalid utf-8 sequence of {length} bytes from index {good}"
  | .incomplete good => s!"incomplete utf-8 byte sequence from index {good}"

end SealedStore.Utf8
