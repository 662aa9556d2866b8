/-
  Values as payload bytes.

  Every value begins with a tag byte.  Integers are zigzag varints, floats their eight bytes,
  texts and byte strings a length and their bytes, containers a count and their members.
  `encode` refuses values that lie too deep and keys that may not be keys, in reading order;
  `decode` takes any varints, minimal or not, and nothing after the value.
-/
import SealedStore.Codec.Reader
import SealedStore.Codec.Varint

namespace SealedStore.Payload

open Reader

/-- A byte string after its length. -/
def sized (b : Bytes) : Bytes := Varint.encode b.length ++ b

/-- Two byte strings in order, or the first error. -/
def andThen (x : Except CodecError Bytes) (y : Except CodecError Bytes) :
    Except CodecError Bytes :=
  match x with
  | .error e => .error e
  | .ok front => y.map (front ++ ·)

/-- Bytes in front of others that may fail. -/
def after (front : Bytes) (x : Except CodecError Bytes) : Except CodecError Bytes :=
  x.map (front ++ ·)

mutual

/-- The bytes of a value inside `depth` containers. -/
def encodeAt (depth : Nat) (v : Value) : Except CodecError Bytes :=
  if maxDepth < depth then .error (.unsupported v.kind .tooDeep)
  else match v with
    | .none => .ok [0x00]
    | .bool false => .ok [0x01]
    | .bool true => .ok [0x02]
    | .int n => .ok (0x03 :: Varint.encode (Varint.zigzag n))
    | .float bits => .ok (0x04 :: Bytes.bigEndian 8 bits.toNat)
    | .str s => .ok (0x05 :: sized (Utf8.encode s))
    | .bytes b => .ok (0x06 :: sized b)
    | .tuple items =>
      after (0x07 :: Varint.encode items.length) (encodeItems (depth + 1) items)
    | .list items =>
      after (0x08 :: Varint.encode items.length) (encodeItems (depth + 1) items)
    | .dict entries =>
      after (0x09 :: Varint.encode entries.length) (encodeEntries (depth + 1) entries)
    | .record cls fields =>
      after (0x0A :: sized (Utf8.encode cls) ++ Varint.encode fields.length)
        (encodeFields (depth + 1) fields)
termination_by structural v

/-- The bytes of values in order. -/
def encodeItems (depth : Nat) (items : List Value) : Except CodecError Bytes :=
  match items with
  | [] => .ok []
  | v :: vs => andThen (encodeAt depth v) (encodeItems depth vs)
termination_by structural items

/-- The bytes of keys and values in order. -/
def encodeEntries (depth : Nat) (entries : List (Value × Value)) : Except CodecError Bytes :=
  match entries with
  | [] => .ok []
  | (k, v) :: es =>
    if k.isHashable then
      andThen (encodeAt depth k) (andThen (encodeAt depth v) (encodeEntries depth es))
    else .error (.unsupported k.kind .unhashableKey)
termination_by structural entries

/-- The bytes of names and values in order. -/
def encodeFields (depth : Nat) (fields : List (String × Value)) : Except CodecError Bytes :=
  match fields with
  | [] => .ok []
  | (n, v) :: fs =>
    after (sized (Utf8.encode n)) (andThen (encodeAt depth v) (encodeFields depth fs))
termination_by structural fields

end

/-- The payload of a value. -/
def encode (v : Value) : Except CodecError Bytes := encodeAt 0 v

/-- The cause of a varint's fault. -/
def varintCause : Varint.Fault → Cause
  | .overflow => .varintOverflow
  | .truncated => .varintTruncated

/-- The next varint. -/
def varint : Reader Nat := fun i =>
  match Varint.decode i.rest with
  | .ok (n, length) => .ok (n, ⟨i.pos + length, i.rest.drop length⟩)
  | .error fault => .error (.corrupt i.pos (varintCause fault))

/-- A count of members of at least `least` bytes each.  A count that the remaining bytes cannot
    satisfy is refused before any member is read. -/
def count (least : Nat) : Reader Nat := fun i => do
  let (n, j) ← varint i
  if Bytes.hasAtLeast (n * least) j.rest then .ok (n, j)
  else .error (.corrupt i.pos (.countTooLarge n))

/-- A length and that many bytes. -/
def sizedBytes : Reader Bytes := fun i => do
  let (n, j) ← varint i
  take n j

/-- A length and that many bytes of text. -/
def text : Reader String := fun i => do
  let (raw, j) ← sizedBytes i
  let s ← utf8 i.pos raw
  .ok (s, j)

/-- A number of things one after the other. -/
def times {α : Type} (read : Reader α) : Nat → Reader (List α)
  | 0, i => .ok ([], i)
  | n + 1, i => do
    let (x, j) ← read i
    let (xs, k) ← times read n j
    .ok (x :: xs, k)

/-- A key and a value. -/
def entry (value : Reader Value) : Reader (Value × Value) := fun i => do
  let (k, j) ← value i
  if k.isHashable then
    let (v, j) ← value j
    .ok ((k, v), j)
  else .error (.corrupt i.pos (.unhashableMappingKey k.kind))

/-- The fields of a record after those already read. -/
def fields (value : Reader Value) :
    Nat → List (String × Value) → Reader (List (String × Value))
  | 0, before, i => .ok (before, i)
  | n + 1, before, i => do
    let (name, j) ← text i
    if (Assoc.find name before).isSome then .error (.corrupt i.pos (.duplicateField name))
    else
      let (v, j) ← value j
      match FieldName.fault? name.toList with
      | none => fields value n (before ++ [(name, v)]) j
      | some fault => .error (.corrupt i.pos (.invalidField (.invalidFieldName name fault)))

/-- What follows a tag byte read at `pos`, with the reader of members. -/
def content (member : Reader Value) (pos : Nat) (tag : UInt8) : Reader Value := fun i =>
  match tag with
  | 0x00 => .ok (.none, i)
  | 0x01 => .ok (.bool false, i)
  | 0x02 => .ok (.bool true, i)
  | 0x03 => do
    let (z, j) ← varint i
    .ok (.int (Varint.unzigzag z), j)
  | 0x04 => do
    let (raw, j) ← take 8 i
    .ok (.float (Bytes.ofBigEndian raw).toUInt64, j)
  | 0x05 => do
    let (s, j) ← text i
    .ok (.str s, j)
  | 0x06 => do
    let (b, j) ← sizedBytes i
    .ok (.bytes b, j)
  | 0x07 => do
    let (n, j) ← count 1 i
    let (items, j) ← times member n j
    .ok (.tuple items, j)
  | 0x08 => do
    let (n, j) ← count 1 i
    let (items, j) ← times member n j
    .ok (.list items, j)
  | 0x09 => do
    let (n, j) ← count 2 i
    let (entries, j) ← times (entry member) n j
    .ok (.dict entries, j)
  | 0x0A => do
    let (cls, j) ← text i
    let (n, j) ← count 2 j
    let (fs, j) ← fields member n [] j
    .ok (.record cls fs, j)
  | other => .error (.corrupt pos (.unknownTag other))

/-- A value inside so many containers that `room - 1` more are allowed. -/
def value : (room : Nat) → Reader Value
  | 0, i => .error (.corrupt i.pos .tooDeep)
  | room + 1, i => do
    let (tag, j) ← byte .endOfPayload i
    content (value room) i.pos tag j

/-- The value whose payload is the whole byte string. -/
def decode (bytes : Bytes) : Except CodecError Value := do
  let (v, i) ← value (maxDepth + 1) ⟨0, bytes⟩
  if i.rest.isEmpty then .ok v
  else .error (.corrupt i.pos (.trailingPayload i.rest.length))

/-- The kind of the outermost value, from its tag alone. -/
def peekKind : Bytes → Option Kind
  | [] => none
  | tag :: _ =>
    match tag with
    | 0x00 => some .none
    | 0x01 => some .bool
    | 0x02 => some .bool
    | 0x03 => some .int
    | 0x04 => some .float
    | 0x05 => some .str
    | 0x06 => some .bytes
    | 0x07 => some .tuple
    | 0x08 => some .list
    | 0x09 => some .dict
    | 0x0A => some .record
    | _ => none

end SealedStore.Payload
