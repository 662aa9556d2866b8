/-
  Names of slots.

  A slot name also serves as a file name, so it is one plain path segment: 1 to 255 ASCII
  letters, digits, `-`, `_` and `.`, and no `.` at the front.
-/
import SealedStore.Text.Quoted

namespace SealedStore

namespace SlotName

/-- The greatest length of a name in bytes. -/
def maxLength : Nat := 255

/-- A character that may stand in a slot name. -/
def isPart (c : Char) : Bool := c.isAlphanum || c == '-' || c == '_' || c == '.'

/-- What is wrong with a slot name. -/
inductive Fault where
  | empty
  | tooLong
  /-- A name with a dot at the front would name a hidden file. -/
  | leadingDot
  /-- The first character that may not stand in a name. -/
  | part (c : Char)
  deriving DecidableEq, Repr

/-- The fault of a name, if it has one; of several, the first in the order of `Fault`. -/
def fault? (name : String) : Option Fault :=
  if name.toList.isEmpty then some .empty
  else if maxLength < name.utf8ByteSize then some .tooLong
  else if name.toList.head? == some '.' then some .leadingDot
  else (name.toList.find? fun c => !isPart c).map .part

/-- What an error report says about a fault. -/
def Fault.message : Fault → String
  | .empty => "slot name must not be empty"
  | .tooLong => s!"slot name longer than {maxLength} bytes"
  | .leadingDot => "must not start with '.'"
  | .part c => s!"contains forbidden character: {Quoted.char c}"

end SlotName

/-- A name that may name a slot. -/
structure SlotName where
  name : String
  valid : SlotName.fault? name = none
  deriving DecidableEq

namespace SlotName

/-- The slot of a name, or the fault of the name. -/
def ofString (name : String) : Except Fault SlotName :=
  match h : fault? name with
  | none => .ok ⟨name, h⟩
  | some fault => .error fault

/-- Slots are ordered as their names are. -/
instance : LT SlotName := ⟨fun a b => a.name < b.name⟩

instance (a b : SlotName) : Decidable (a < b) := inferInstanceAs (Decidable (a.name < b.name))

theorem eq_of_name_eq {a b : SlotName} (h : a.name = b.name) : a = b := by
  cases a; cases b; simp_all

theorem lt_trans {a b c : SlotName} (hab : a < b) (hbc : b < c) : a < c :=
  String.lt_trans hab hbc

theorem lt_irrefl (a : SlotName) : ¬ a < a := String.lt_irrefl a.name

theorem lt_of_ne {a b : SlotName} (hne : a ≠ b) (hnlt : ¬ a < b) : b < a := by
  rcases String.le_total a.name b.name with h | h
  · exact absurd (eq_of_name_eq (String.le_antisymm h hnlt)) hne
  · exact Decidable.byContradiction fun hba => hne (eq_of_name_eq (String.le_antisymm hba h))

/-- Puts a slot into its place in an ascending list, once. -/
def insertSorted (slot : SlotName) : List SlotName → List SlotName
  | [] => [slot]
  | s :: rest =>
    if slot < s then slot :: s :: rest
    else if slot = s then s :: rest
    else s :: insertSorted slot rest

/-- The slots of a list in ascending order, each once. -/
def sorted (slots : List SlotName) : List SlotName := slots.foldr insertSorted []

end SlotName

end SealedStore
