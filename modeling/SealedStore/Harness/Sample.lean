/-
  Values with the slots that they are written to, and the five that every run writes.
-/
import SealedStore.Store.Error

namespace SealedStore

/-- A value and the slot for it. -/
structure Sample where
  slot : SlotName
  value : Value

namespace Sample

/-- A value for the slot of a name. -/
def make (name : String) (value : Value) : Except StoreError Sample :=
  (SlotName.parse name).map fun slot => ⟨slot, value⟩

/-- A tuple of mixed members, two of them given. -/
def mixedTuple (second fourth : Value) : Value :=
  .tuple [.int 1, second, .int 3, fourth, .tuple [.int 5, .int 6, .int 7], .str "Test",
    .tuple [.str "This is just a test.", .list [.int 2, .int 4, .int 6, .int 8]],
    .str "One", .str "Two", .str "Three"]

/-- Scalars that differ by kind alone, side by side. -/
def scalars : Value :=
  .list [.bool true, .int 1, .float 0x3FF0000000000000, .bool false, .int 0, .none, .int (-42),
    .float 0x4019000000000000, .str "mixed", .bytes [0x00, 0x01, 0x72, 0x61, 0x77]]

/-- A dictionary with keys of several kinds and another dictionary inside. -/
def mapping : Value :=
  .dict [(.str "name", .str "slotjar"), (.str "count", .int 3),
    (.str "ratio", .float 0x3FE8000000000000), (.str "enabled", .bool true),
    (.tuple [.int 1, .int 2], .str "tuple key"), (.int 7, .list [.int 1, .int 2, .int 3]),
    (.str "nested", .dict [(.str "inner", .tuple [.float 0x3FF8000000000000, .str "x"]),
      (.str "empty", .list [])])]

/-- A record. -/
def record : Value :=
  .record "Sample" [("name", .str "alpha"),
    ("values", .list [.int 1, .float 0x4004000000000000, .str "three"]),
    ("extra", .dict [(.str "added", .str "later"), (.str "flag", .bool false)])]

/-- The samples of every run, in the order in which they are written and read. -/
def all : List Sample :=
  [⟨⟨"test1", by decide⟩, mixedTuple (.int 2) (.int 4)⟩,
    ⟨⟨"test2", by decide⟩, mixedTuple (.float 0x4000000000000000) (.float 0x4010000000000000)⟩,
    ⟨⟨"test3", by decide⟩, scalars⟩,
    ⟨⟨"test4", by decide⟩, mapping⟩,
    ⟨⟨"test5", by decide⟩, record⟩]

end Sample

end SealedStore
