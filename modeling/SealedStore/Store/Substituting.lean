/-
  A store that puts other blobs into some slots than it is handed, as damage would.
-/
import SealedStore.Store.Basic

namespace SealedStore

/-- A store, and the blobs that some slots get whatever is put into them. -/
structure SubstitutingStore (σ : Type) where
  inner : σ
  substitutes : List (SlotName × Bytes)

namespace SubstitutingStore

variable {σ : Type} [Store σ]

/-- The blob that a slot gets when one is put into it. -/
def substitute (store : SubstitutingStore σ) (slot : SlotName) (blob : Bytes) : Bytes :=
  (Assoc.find slot store.substitutes).getD blob

instance : Store (SubstitutingStore σ) where
  putRaw store slot blob :=
    match Store.putRaw store.inner slot (store.substitute slot blob) with
    | (result, inner) => (result, { store with inner })
  getRaw store := Store.getRaw store.inner
  contains store := Store.contains store.inner
  list store := Store.list store.inner

end SubstitutingStore

end SealedStore
