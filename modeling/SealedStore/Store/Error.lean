/-
  How work on a store fails.

  A codec error becomes the fault of what is stored or of the value to store, by its kind, and
  keeps the slot it concerns.
-/
import SealedStore.Codec.Error
import SealedStore.Files.Tree
import SealedStore.Store.SlotName

namespace SealedStore

/-- What a file operation was about. -/
inductive IoTarget where
  | slotFile (slot : SlotName)
  | dataDirectory (path : String)
  deriving DecidableEq

/-- Why a store does not do what it is asked. -/
inductive StoreError where
  | io (target : IoTarget) (fault : IoFault)
  /-- The slot was never written. -/
  | notFound (slot : SlotName)
  /-- The slot holds bytes that are no blob. -/
  | corrupt (slot : SlotName) (error : CodecError)
  /-- The value has no blob. -/
  | serialization (slot : SlotName) (error : CodecError)
  | invalidSlot (name : String) (fault : SlotName.Fault)
  deriving DecidableEq

/-- How a report names a target. -/
def IoTarget.text : IoTarget → String
  | .slotFile slot => s!"slot {slot.name}"
  | .dataDirectory path => path

namespace StoreError

/-- A codec error that arose over a slot. -/
def ofCodec (slot : SlotName) (e : CodecError) : StoreError :=
  if e.isCorruption then .corrupt slot e else .serialization slot e

/-- The text of the error. -/
def message : StoreError → String
  | .io target fault => s!"I/O error on {target.text}: {fault.message}"
  | .notFound slot => s!"slot not found: {slot.name}"
  | .corrupt slot e => s!"corrupt blob in slot {slot.name}: {e.message}"
  | .serialization slot e => s!"cannot serialize value for slot {slot.name}: {e.message}"
  | .invalidSlot name fault => s!"invalid slot name {Quoted.text name}: {fault.message}"

/-- The slot that the error concerns, when there is one. -/
def slot? : StoreError → Option SlotName
  | .notFound slot | .corrupt slot _ | .serialization slot _ => some slot
  | .io _ _ | .invalidSlot _ _ => none

/-- The text of the cause below the error, when there is one. -/
def causeMessage? : StoreError → Option String
  | .io _ fault => some fault.message
  | .corrupt _ e | .serialization _ e => some e.message
  | .notFound _ | .invalidSlot _ _ => none

end StoreError

/-- The slot of a name, as a store takes it. -/
def SlotName.parse (name : String) : Except StoreError SlotName :=
  match ofString name with
  | .ok slot => .ok slot
  | .error fault => .error (.invalidSlot name fault)

end SealedStore
