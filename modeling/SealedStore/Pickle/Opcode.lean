/-
  The opcodes of pickle streams that carry plain data, with their operands.

  Every opcode that puts a value without members on the stack is one case, `push`.  Versions
  up to 5 and frames within the stream are checked here and mean nothing further on.  Opcodes
  that import or build objects are refused like unknown ones.
-/
import SealedStore.Codec.Reader

namespace SealedStore.Pickle

/-- The highest protocol that is understood. -/
def highestProtocol : UInt8 := 5

/-- An opcode and its operands. -/
inductive Opcode where
  /-- A protocol version that is understood. -/
  | protocol
  /-- A frame within the stream. -/
  | frame
  | stop
  | mark
  | pop
  | popMark
  | dup
  /-- A scalar, or an empty container. -/
  | push (v : Value)
  /-- The items above the mark as a tuple. -/
  | tuple
  /-- The upper `n` items as a tuple. -/
  | tupleOf (n : Nat)
  | list
  | append
  | appends
  | dict
  | setItem
  | setItems
  /-- Remembers the top under the number of ids known so far. -/
  | memoize
  | put (id : Nat)
  | get (id : Nat)

open Reader

/-- One byte of operand. -/
def operandByte : Reader UInt8 := byte .endWithoutStop

/-- A number of `width` bytes, least significant first. -/
def operandNat (width : Nat) : Reader Nat := fun i => do
  let (raw, j) ← take width i
  .ok (Bytes.ofLittleEndian raw, j)

/-- A protocol version, in the opcode at `pos`. -/
def protocol (pos : Nat) : Reader Opcode := fun i => do
  let (version, j) ← operandByte i
  if highestProtocol < version then .error (.corrupt pos (.unsupportedProtocol version))
  else .ok (.protocol, j)

/-- The length of a frame, in the opcode at `pos`. -/
def frame (pos : Nat) : Reader Opcode := fun i => do
  let (size, j) ← operandNat 8 i
  if Bytes.hasAtLeast size j.rest then .ok (.frame, j)
  else .error (.corrupt pos (.longFrame size j.rest.length))

/-- The signed number whose two's complement these bytes are, least significant first. -/
def signed (raw : Bytes) : Int64 :=
  let n := Bytes.ofLittleEndian raw
  if n < Nat.pow 2 (8 * raw.length) / 2 then Int64.ofNat n
  else if raw.isEmpty then 0
  else Int64.ofInt ((n : Int) - Nat.pow 2 (8 * raw.length))

/-- A signed number of `width` bytes. -/
def pushSigned (width : Nat) : Reader Opcode := fun i => do
  let (raw, j) ← take width i
  if raw.length ≤ 8 then .ok (.push (.int (signed raw)), j)
  else .error (.unsupported .int (.wideInteger raw.length))

/-- A natural number of `width` bytes. -/
def pushNat (width : Nat) : Reader Opcode := fun i => do
  let (n, j) ← operandNat width i
  .ok (.push (.int (Int64.ofNat n)), j)

/-- A text after its length of `width` bytes. -/
def pushStr (width : Nat) : Reader Opcode := fun i => do
  let (size, j) ← operandNat width i
  let (raw, k) ← take size j
  let s ← utf8 j.pos raw
  .ok (.push (.str s), k)

/-- A byte string after its length of `width` bytes. -/
def pushBytes (width : Nat) : Reader Opcode := fun i => do
  let (size, j) ← operandNat width i
  let (raw, k) ← take size j
  .ok (.push (.bytes raw), k)

/-- An id of `width` bytes, for the opcode made of it. -/
def withId (width : Nat) (make : Nat → Opcode) : Reader Opcode := fun i => do
  let (id, j) ← operandNat width i
  .ok (make id, j)

/-- The operands of the opcode `code` read at `pos`. -/
def operands (pos : Nat) (code : UInt8) : Reader Opcode := fun i =>
  match code with
  | 0x80 => protocol pos i
  | 0x95 => frame pos i
  | 0x2E => .ok (.stop, i)
  | 0x28 => .ok (.mark, i)
  | 0x30 => .ok (.pop, i)
  | 0x31 => .ok (.popMark, i)
  | 0x32 => .ok (.dup, i)
  | 0x4E => .ok (.push .none, i)
  | 0x88 => .ok (.push (.bool true), i)
  | 0x89 => .ok (.push (.bool false), i)
  | 0x4A => pushSigned 4 i
  | 0x4B => do
    let (n, j) ← operandByte i
    .ok (.push (.int (Int64.ofNat n.toNat)), j)
  | 0x4D => pushNat 2 i
  | 0x8A => do
    let (size, j) ← operandByte i
    pushSigned size.toNat j
  | 0x47 => do
    let (raw, j) ← take 8 i
    .ok (.push (.float (Bytes.ofBigEndian raw).toUInt64), j)
  | 0x8C => do
    let (size, j) ← operandByte i
    let (raw, k) ← take size.toNat j
    let s ← utf8 j.pos raw
    .ok (.push (.str s), k)
  | 0x58 => pushStr 4 i
  | 0x8D => pushStr 8 i
  | 0x43 => do
    let (size, j) ← operandByte i
    let (raw, k) ← take size.toNat j
    .ok (.push (.bytes raw), k)
  | 0x42 => pushBytes 4 i
  | 0x8E => pushBytes 8 i
  | 0x29 => .ok (.push (.tuple []), i)
  | 0x74 => .ok (.tuple, i)
  | 0x85 => .ok (.tupleOf 1, i)
  | 0x86 => .ok (.tupleOf 2, i)
  | 0x87 => .ok (.tupleOf 3, i)
  | 0x5D => .ok (.push (.list []), i)
  | 0x61 => .ok (.append, i)
  | 0x65 => .ok (.appends, i)
  | 0x6C => .ok (.list, i)
  | 0x7D => .ok (.push (.dict []), i)
  | 0x64 => .ok (.dict, i)
  | 0x73 => .ok (.setItem, i)
  | 0x75 => .ok (.setItems, i)
  | 0x94 => .ok (.memoize, i)
  | 0x71 => do
    let (id, j) ← operandByte i
    .ok (.put id.toNat, j)
  | 0x72 => withId 4 .put i
  | 0x68 => do
    let (id, j) ← operandByte i
    .ok (.get id.toNat, j)
  | 0x6A => withId 4 .get i
  | other => .error (.corrupt pos (.unknownOpcode other))

/-- The next opcode. -/
def Opcode.read : Reader Opcode := fun i => do
  let (code, j) ← operandByte i
  operands i.pos code j

end SealedStore.Pickle
