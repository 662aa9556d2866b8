/-
  Reading from bytes with the position kept.

  A reader takes bytes off the front of its input.  The position counts from the beginning of
  everything there was to read, so a fault is reported where it lies in the whole.
-/
import SealedStore.Codec.Error

namespace SealedStore

/-- Where a reader stands: how many bytes were read, and those that were not. -/
structure Input where
  pos : Nat
  rest : Bytes
  deriving DecidableEq, Repr

/-- Reads from an input, or tells what is wrong and where. -/
abbrev Reader (α : Type) := Input → Except CodecError (α × Input)

namespace Reader

/-- The next byte.  The cause is for an input that has none. -/
def byte (atEnd : Cause) : Reader UInt8
  | ⟨pos, []⟩ => .error (.corrupt pos atEnd)
  | ⟨pos, b :: rest⟩ => .ok (b, ⟨pos + 1, rest⟩)

/-- The next `n` bytes. -/
def take (n : Nat) : Reader Bytes := fun i =>
  match Bytes.splitExact n i.rest with
  | some (front, back) => .ok (front, ⟨i.pos + n, back⟩)
  | none => .error (.corrupt i.pos (.missingBytes n i.rest.length))

/-- The text of bytes; one that is none is reported at the given position. -/
def utf8 (pos : Nat) (raw : Bytes) : Except CodecError String :=
  match Utf8.decode raw with
  | .ok s => .ok s
  | .error fault => .error (.corrupt pos (.invalidText fault))

end Reader

end SealedStore
