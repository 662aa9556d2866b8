/-
  Values that are checked as they are built: dictionaries from pairs, and records whose
  fields are attached, replaced and removed one at a time.

  A `Record` keeps its fields in the order of attachment; replacing a field keeps its place.
  Only valid names can be attached, and a name is attached at most once.
-/
import SealedStore.Assoc
import SealedStore.Value.Basic
import SealedStore.Value.FieldName

namespace SealedStore

/-- Why a value cannot be built. -/
inductive ValueError where
  /-- The name cannot name a field. -/
  | invalidFieldName (name : String) (fault : FieldName.Fault)
  /-- A value of this kind cannot be a dictionary key. -/
  | unhashableKey (kind : Kind)
  deriving DecidableEq, Repr

/-- The text of the error. -/
def ValueError.message : ValueError → String
  | .invalidFieldName name fault => s!"invalid field name {Quoted.text name}: {fault.message}"
  | .unhashableKey kind => s!"unhashable mapping key of kind {kind.name}"

namespace Value

/-- Inserts pairs one after the other, up to the first key that may not be one. -/
def insertAll :
    List (Value × Value) → List (Value × Value) → Except ValueError (List (Value × Value))
  | entries, [] => .ok entries
  | entries, (key, value) :: pairs =>
    if isHashable key then insertAll (insert key value entries) pairs
    else .error (.unhashableKey key.kind)

/-- The dictionary of a list of pairs: a repeated key keeps its first place and takes its last
    value. -/
def ofPairs (pairs : List (Value × Value)) : Except ValueError Value :=
  (insertAll [] pairs).map dict

end Value

/-- A record: the name of its class, and its fields in the order of attachment. -/
structure Record where
  cls : String
  fields : List (String × Value)

namespace Record

/-- The record of a class without fields. -/
def new (cls : String) : Record := ⟨cls, []⟩

/-- The record as a value. -/
def toValue (r : Record) : Value := .record r.cls r.fields

/-- The record that a value is. -/
def ofValue? : Value → Option Record
  | .record cls fields => some ⟨cls, fields⟩
  | _ => none

/-- The value of a field. -/
def get? (r : Record) (name : String) : Option Value := Assoc.find name r.fields

/-- Attaches a field, or replaces its value in place.  Gives the value replaced. -/
def set (r : Record) (name : String) (value : Value) :
    Except ValueError (Option Value × Record) :=
  match FieldName.fault? name.toList with
  | some fault => .error (.invalidFieldName name fault)
  | none => .ok (r.get? name, { r with fields := Assoc.put name value r.fields })

/-- Removes a field.  Gives the value removed. -/
def erase (r : Record) (name : String) : Option Value × Record :=
  (r.get? name, { r with fields := Assoc.erase name r.fields })

/-- The number of fields. -/
def size (r : Record) : Nat := r.fields.length

end Record

end SealedStore
