/-
  How writing and reading of stored bytes fail.

  `CodecError` has one constructor for values that cannot be written and five for bytes that
  cannot be read.  A `Cause` says what is wrong at an offset; its wording is in `message`
  alone.
-/
import SealedStore.Text.Utf8
import SealedStore.Value.Build

namespace SealedStore

/-- The greatest number of containers around a stored value. -/
def maxDepth : Nat := 128

/-- The length of the header of a blob. -/
def headerLength : Nat := 14

/-- How many values may be copied while one stream is read. -/
def maxShared : Nat := Nat.pow 2 20

/-- How many ids a memo has: they are numbers of 32 bits. -/
def memoIds : Nat := Nat.pow 2 32

/-- What cannot be represented. -/
inductive Unwritable where
  /-- The value lies inside more than `maxDepth` containers. -/
  | tooDeep
  /-- The value is a key and may not be one. -/
  | unhashableKey
  /-- The payload has this many bytes, more than a header can say. -/
  | tooLong (size : Nat)
  /-- An integer of this many bytes. -/
  | wideInteger (size : Nat)
  deriving DecidableEq, Repr

/-- What is wrong at an offset. -/
inductive Cause where
  /-- A blob of this many bytes has no room for a header. -/
  | shortBlob (size : Nat)
  | endOfPayload
  /-- Bytes that are announced but not there. -/
  | missingBytes (need remain : Nat)
  | varintOverflow
  | varintTruncated
  /-- More members are announced than the remaining bytes can hold. -/
  | countTooLarge (count : Nat)
  | invalidText (fault : Utf8.Fault)
  /-- A key of a kind that may not be one. -/
  | unhashableMappingKey (kind : Kind)
  | duplicateField (name : String)
  | invalidField (error : ValueError)
  | unknownTag (tag : UInt8)
  | tooDeep
  /-- Bytes after the value. -/
  | trailingPayload (size : Nat)
  | noProtocol
  | unsupportedProtocol (version : UInt8)
  | endWithoutStop
  /-- A frame that is longer than the stream. -/
  | longFrame (size remain : Nat)
  | unknownOpcode (code : UInt8)
  | emptyStack
  | markForValue
  | noMark
  | markRemembered
  | notList (kind : Kind)
  | notDict (kind : Kind)
  | unhashableDictKey (kind : Kind)
  | oddItems
  /-- All ids are taken. -/
  | memoFull
  | undefinedMemo (id : Nat)
  /-- The memo entry names a place of the stack that holds no value. -/
  | lostMemo (id : Nat)
  /-- More than `maxShared` values would be copied. -/
  | tooShared
  /-- Bytes after the end of the stream. -/
  | trailingStream (size : Nat)
  deriving DecidableEq, Repr

/-- Why a value cannot be written or bytes cannot be read. -/
inductive CodecError where
  | unsupported (kind : Kind) (reason : Unwritable)
  /-- The first four bytes are these. -/
  | invalidMagic (found : Bytes)
  | unsupportedVersion (version : UInt16)
  | checksumMismatch (expected computed : UInt32)
  | lengthMismatch (declared actual : Nat)
  | corrupt (offset : Nat) (cause : Cause)
  deriving DecidableEq, Repr

/-- The wording of a reason. -/
def Unwritable.message : Unwritable → String
  | .tooDeep => s!"nesting deeper than {maxDepth}"
  | .unhashableKey => "mapping key is not hashable"
  | .tooLong size => s!"encoded size {size} exceeds the 4 GiB frame limit"
  | .wideInteger size => s!"{size}-byte integer is wider than 64 bits"

/-- A byte as `0x` and two digits. -/
def hexText (b : UInt8) : String := "0x" ++ String.ofList (Bytes.hexByte b)

/-- The wording of a cause. -/
def Cause.message : Cause → String
  | .shortBlob size => s!"blob is {size} bytes, shorter than the {headerLength}-byte header"
  | .endOfPayload => "unexpected end of payload"
  | .missingBytes need remain => s!"need {need} bytes, {remain} remain"
  | .varintOverflow => "varint overflow"
  | .varintTruncated => "truncated varint"
  | .countTooLarge count => s!"count {count} exceeds remaining payload"
  | .invalidText fault => s!"invalid UTF-8: {fault.message}"
  | .unhashableMappingKey kind => s!"unhashable {kind.name} used as mapping key"
  | .duplicateField name => s!"duplicate field {Quoted.text name}"
  | .invalidField error => error.message
  | .unknownTag tag => s!"unknown tag byte {hexText tag}"
  | .tooDeep => s!"nesting deeper than {maxDepth}"
  | .trailingPayload size => s!"{size} trailing bytes after value"
  | .noProtocol => "pickle does not start with PROTO"
  | .unsupportedProtocol version => s!"unsupported pickle protocol {version.toNat}"
  | .endWithoutStop => "pickle ends without STOP"
  | .longFrame size remain => s!"frame of {size} bytes, {remain} remain"
  | .unknownOpcode code => s!"unsupported pickle opcode {hexText code}"
  | .emptyStack => "stack underflow"
  | .markForValue => "MARK where a value was expected"
  | .noMark => "no MARK on stack"
  | .markRemembered => "cannot memoize MARK"
  | .notList kind => s!"cannot append to {kind.name}"
  | .notDict kind => s!"cannot set items on {kind.name}"
  | .unhashableDictKey kind => s!"unhashable {kind.name} used as dict key"
  | .oddItems => "odd number of items for a dict"
  | .memoFull => "memo full"
  | .undefinedMemo id => s!"memo key {id} not defined"
  | .lostMemo id => s!"memo key {id} lost its value"
  | .tooShared => s!"shared references expand past {maxShared} values"
  | .trailingStream size => s!"{size} trailing bytes after STOP"

/-- Eight hexadecimal digits. -/
def checksumText (crc : UInt32) : String := String.ofList (Bytes.hexFixed 8 crc.toNat)

/-- The text of the error. -/
def CodecError.message : CodecError → String
  | .unsupported kind reason => s!"cannot encode {kind.name}: {reason.message}"
  | .invalidMagic found => s!"invalid blob magic: expected SJAR, got {Utf8.decodeLossy found}"
  | .unsupportedVersion version => s!"unsupported blob version: {version.toNat}"
  | .checksumMismatch expected computed =>
    s!"blob checksum mismatch: expected {checksumText expected}, computed {checksumText computed}"
  | .lengthMismatch declared actual =>
    s!"payload length mismatch: header declares {declared} bytes, found {actual}"
  | .corrupt offset cause => s!"corrupt payload at offset {offset}: {cause.message}"

/-- The bytes are at fault, not a value. -/
def CodecError.isCorruption : CodecError → Bool
  | .unsupported _ _ => false
  | _ => true

end SealedStore
