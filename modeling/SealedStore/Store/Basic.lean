/-
  Stores of blobs under slot names.

  A store keeps bytes; values go in and out through the codec, so that what is read back went
  through every check.  An operation that changes a store gives the store back also when it
  fails.
-/
import SealedStore.Codec.Frame
import SealedStore.Store.Error

namespace SealedStore

/-- What holds blobs by slot. -/
class Store (σ : Type) where
  /-- Puts a blob into a slot, in place of what the slot held. -/
  putRaw : σ → SlotName → Bytes → Except StoreError Unit × σ
  /-- The blob in a slot. -/
  getRaw : σ → SlotName → Except StoreError Bytes
  /-- The slot holds a blob. -/
  contains : σ → SlotName → Except StoreError Bool
  /-- The slots that hold blobs, in ascending order. -/
  list : σ → Except StoreError (List SlotName)

namespace Store

variable {σ : Type} [Store σ]

/-- Puts the blob of a value into a slot, and gives its size. -/
def put (store : σ) (slot : SlotName) (v : Value) : Except StoreError Nat × σ :=
  match Frame.pack v with
  | .error e => (.error (.ofCodec slot e), store)
  | .ok blob =>
    match putRaw store slot blob with
    | (.error e, store) => (.error e, store)
    | (.ok (), store) => (.ok blob.length, store)

/-- The value of the blob in a slot. -/
def get (store : σ) (slot : SlotName) : Except StoreError Value :=
  match getRaw store slot with
  | .error e => .error e
  | .ok blob =>
    match Frame.unpack blob with
    | .error e => .error (.ofCodec slot e)
    | .ok v => .ok v

end Store

end SealedStore
