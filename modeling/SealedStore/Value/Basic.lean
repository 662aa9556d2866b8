/-
  The values that are stored: scalars, texts, byte strings, tuples, lists, dictionaries in
  insertion order, and records of named fields.

  A float is its 64 bits, so that every NaN and both zeros are kept apart.  `sameAs` compares
  all of a value, bit for bit; `equals` compares floats as numbers, which makes a NaN differ
  from itself and the two zeros agree.  Dictionary keys are compared by `equals`.
-/
import SealedStore.Bytes

namespace SealedStore

/-- A value.  The entries of a dictionary and the fields of a record are kept as given: which of
    them are well formed is asked where it matters. -/
inductive Value where
  | none
  | bool (b : Bool)
  | int (n : Int64)
  | float (bits : UInt64)
  | str (s : String)
  | bytes (b : Bytes)
  | tuple (items : List Value)
  | list (items : List Value)
  | dict (entries : List (Value × Value))
  | record (cls : String) (fields : List (String × Value))
  deriving Inhabited

/-- The kinds of value. -/
inductive Kind where
  | none | bool | int | float | str | bytes | tuple | list | dict | record
  deriving DecidableEq, Repr

/-- The name of a kind in messages. -/
def Kind.name : Kind → String
  | .none => "none"
  | .bool => "bool"
  | .int => "int"
  | .float => "float"
  | .str => "str"
  | .bytes => "bytes"
  | .tuple => "tuple"
  | .list => "list"
  | .dict => "dict"
  | .record => "record"

/-- The name of a kind as the tag of a value in JSON. -/
def Kind.tag : Kind → String
  | .none => "None"
  | .bool => "Bool"
  | .int => "Int"
  | .float => "Float"
  | .str => "Str"
  | .bytes => "Bytes"
  | .tuple => "Tuple"
  | .list => "List"
  | .dict => "Dict"
  | .record => "Record"

namespace Float64

/-- The bits of a NaN: all exponent bits set, and a fraction. -/
def isNaN (bits : UInt64) : Bool := bits &&& 0x7FFFFFFFFFFFFFFF > 0x7FF0000000000000

/-- The bits of a zero of either sign. -/
def isZero (bits : UInt64) : Bool := bits &&& 0x7FFFFFFFFFFFFFFF == 0

/-- Equality of numbers: a NaN equals nothing, and the two zeros are equal. -/
def equals (a b : UInt64) : Bool :=
  !isNaN a && !isNaN b && (a == b || (isZero a && isZero b))

end Float64

namespace Value

/-- The kind of a value. -/
def kind : Value → Kind
  | none => .none
  | bool _ => .bool
  | int _ => .int
  | float _ => .float
  | str _ => .str
  | bytes _ => .bytes
  | tuple _ => .tuple
  | list _ => .list
  | dict _ => .dict
  | record _ _ => .record

mutual

/-- A value that may be a dictionary key: a scalar, a text, a byte string, or a tuple of such. -/
def isHashable : Value → Bool
  | tuple items => allHashable items
  | list _ => false
  | dict _ => false
  | record _ _ => false
  | _ => true

/-- Every value of a list may be a dictionary key. -/
def allHashable : List Value → Bool
  | [] => true
  | v :: vs => isHashable v && allHashable vs

end

mutual

/-- How many containers are nested at most, an empty container counting as one. -/
def depth : Value → Nat
  | tuple items => 1 + depthItems items
  | list items => 1 + depthItems items
  | dict entries => 1 + depthEntries entries
  | record _ fields => 1 + depthFields fields
  | _ => 0

/-- The greatest depth in a list. -/
def depthItems : List Value → Nat
  | [] => 0
  | v :: vs => max (depth v) (depthItems vs)

/-- The greatest depth among keys and values. -/
def depthEntries : List (Value × Value) → Nat
  | [] => 0
  | (k, v) :: es => max (max (depth k) (depth v)) (depthEntries es)

/-- The greatest depth among field values. -/
def depthFields : List (String × Value) → Nat
  | [] => 0
  | (_, v) :: fs => max (depth v) (depthFields fs)

end

mutual

/-- Identity of values: kinds, texts, order and float bits all agree. -/
def sameAs (x y : Value) : Bool :=
  match x, y with
  | none, none => true
  | bool a, bool b => a == b
  | int a, int b => a == b
  | float a, float b => a == b
  | str a, str b => a == b
  | bytes a, bytes b => a == b
  | tuple a, tuple b => sameItems a b
  | list a, list b => sameItems a b
  | dict a, dict b => sameEntries a b
  | record c a, record d b => c == d && sameFields a b
  | _, _ => false
termination_by structural x

/-- `sameAs` at every position. -/
def sameItems (xs ys : List Value) : Bool :=
  match xs, ys with
  | [], [] => true
  | x :: xs, y :: ys => sameAs x y && sameItems xs ys
  | _, _ => false
termination_by structural xs

/-- `sameAs` of keys and of values at every position. -/
def sameEntries (xs ys : List (Value × Value)) : Bool :=
  match xs, ys with
  | [], [] => true
  | (k, v) :: xs, (l, w) :: ys => sameAs k l && sameAs v w && sameEntries xs ys
  | _, _ => false
termination_by structural xs

/-- Equal names and `sameAs` of values at every position. -/
def sameFields (xs ys : List (String × Value)) : Bool :=
  match xs, ys with
  | [], [] => true
  | (m, v) :: xs, (n, w) :: ys => m == n && sameAs v w && sameFields xs ys
  | _, _ => false
termination_by structural xs

end

mutual

/-- Equality of values, floats compared as numbers.  Values of different kinds differ. -/
def equals (x y : Value) : Bool :=
  match x, y with
  | none, none => true
  | bool a, bool b => a == b
  | int a, int b => a == b
  | float a, float b => Float64.equals a b
  | str a, str b => a == b
  | bytes a, bytes b => a == b
  | tuple a, tuple b => equalItems a b
  | list a, list b => equalItems a b
  | dict a, dict b => equalEntries a b
  | record c a, record d b => c == d && equalFields a b
  | _, _ => false
termination_by structural x

/-- `equals` at every position. -/
def equalItems (xs ys : List Value) : Bool :=
  match xs, ys with
  | [], [] => true
  | x :: xs, y :: ys => equals x y && equalItems xs ys
  | _, _ => false
termination_by structural xs

/-- `equals` of keys and of values at every position. -/
def equalEntries (xs ys : List (Value × Value)) : Bool :=
  match xs, ys with
  | [], [] => true
  | (k, v) :: xs, (l, w) :: ys => equals k l && equals v w && equalEntries xs ys
  | _, _ => false
termination_by structural xs

/-- Equal names and `equals` of values at every position. -/
def equalFields (xs ys : List (String × Value)) : Bool :=
  match xs, ys with
  | [], [] => true
  | (m, v) :: xs, (n, w) :: ys => m == n && equals v w && equalFields xs ys
  | _, _ => false
termination_by structural xs

end

/-- The text of a text value. -/
def asStr? : Value → Option String
  | str s => some s
  | _ => Option.none

/-- The value of the first entry whose key equals the given one. -/
def lookup (key : Value) : List (Value × Value) → Option Value
  | [] => Option.none
  | (k, v) :: entries => if equals k key then some v else lookup key entries

/-- What a dictionary holds under a key.  Other kinds hold nothing. -/
def get? (v : Value) (key : Value) : Option Value :=
  match v with
  | dict entries => lookup key entries
  | _ => Option.none

/-- Puts a value under a key: in the place of the first entry with an equal key, whose key stays, or
    else at the end. -/
def insert (key value : Value) : List (Value × Value) → List (Value × Value)
  | [] => [(key, value)]
  | (k, v) :: entries =>
    if equals k key then (k, value) :: entries else (k, v) :: insert key value entries

theorem insert_of_forall_ne {key value : Value} {entries : List (Value × Value)}
    (h : ∀ entry ∈ entries, equals entry.1 key = false) :
    insert key value entries = entries ++ [(key, value)] := by
  induction entries with
  | nil => rfl
  | cons entry entries ih =>
    simp [insert, h entry List.mem_cons_self, ih fun e he => h e (List.mem_cons_of_mem _ he)]

end Value

end SealedStore
