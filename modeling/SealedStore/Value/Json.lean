/-
  Values as JSON, and back.

  A value is an object of one member whose name is the kind of the value; `None` is written as
  a string alone.  The reader takes what the writer writes, and besides `None` with a null, an
  integer as a float, a record as an array of its class and its fields, and unknown members of
  a record, which it passes over.  It asks neither for valid field names nor for hashable keys,
  and it refuses more than 127 nested brackets.
-/
import SealedStore.Json.Number
import SealedStore.Json.Reader
import SealedStore.Value.Build
import SealedStore.Value.Printed

namespace SealedStore.Value

/-- The object of one member that carries a value of a kind. -/
def tagged (kind : Kind) (content : Json) : Json :=
  .object [(Json.units kind.tag.toList, content)]

/-- A float as JSON; null stands for NaN and for the infinities. -/
def floatJson (bits : UInt64) : Json :=
  if Float64.isNaN bits || Float64.isInfinite bits then .null
  else .number (Layout.json.float bits)

mutual

/-- The JSON of a value. -/
def toJson : Value → Json
  | none => .ofString Kind.none.tag
  | bool b => tagged .bool (.bool b)
  | int n => tagged .int (.number (intText n.toInt))
  | float bits => tagged .float (floatJson bits)
  | str s => tagged .str (.ofString s)
  | bytes b => tagged .bytes (.array (b.map fun x => .ofNat x.toNat))
  | tuple items => tagged .tuple (.array (toJsonItems items))
  | list items => tagged .list (.array (toJsonItems items))
  | dict entries => tagged .dict (.array (toJsonEntries entries))
  | record cls fields =>
    tagged .record (.object [(Json.units "class".toList, .ofString cls),
      (Json.units "fields".toList, .array (toJsonFields fields))])

/-- The JSON of values in order. -/
def toJsonItems : List Value → List Json
  | [] => []
  | v :: vs => toJson v :: toJsonItems vs

/-- Entries as arrays of key and value. -/
def toJsonEntries : List (Value × Value) → List Json
  | [] => []
  | (k, v) :: es => .array [toJson k, toJson v] :: toJsonEntries es

/-- Fields as arrays of name and value. -/
def toJsonFields : List (String × Value) → List Json
  | [] => []
  | (n, v) :: fs => .array [.ofString n, toJson v] :: toJsonFields fs

end

/-- The JSON text of a value. -/
def jsonText (v : Value) : List Char := v.toJson.write

/-- The text that a JSON string is. -/
def textOf? : Json → Option String
  | .string units => (Json.textOf? units).map String.ofList
  | _ => Option.none

/-- The bytes of an array of numbers. -/
def bytesOf? : List Json → Option Bytes
  | [] => some []
  | .number lexeme :: js => do
    let b ← Json.byte? lexeme
    let rest ← bytesOf? js
    return b :: rest
  | _ => Option.none

/-- Puts the first of two results before the second. -/
def consed {α : Type} (x : Option α) (xs : Option (List α)) : Option (List α) :=
  match x, xs with
  | some x, some xs => some (x :: xs)
  | _, _ => Option.none

/-- Two results as a pair. -/
def paired {α β : Type} (x : Option α) (y : Option β) : Option (α × β) :=
  match x, y with
  | some x, some y => some (x, y)
  | _, _ => Option.none

/-- What the members of a record have given so far. -/
structure RecordParts where
  cls : Option String
  fields : Option (List (String × Value))

/-- The record of its parts, if none is missing. -/
def RecordParts.value? (parts : RecordParts) : Option Value :=
  match parts.cls, parts.fields with
  | some cls, some fields => some (.record cls fields)
  | _, _ => Option.none

mutual

/-- The value of a JSON tree with at most `room` nested brackets. -/
def ofJson? (room : Nat) : Json → Option Value
  | .string units =>
    if Json.textOf? units = some Kind.none.tag.toList then some .none else Option.none
  | .object [(name, content)] =>
    match room with
    | 0 => Option.none
    | room + 1 => ofContent? room ((Json.textOf? name).map String.ofList) content
  | _ => Option.none

/-- The value of the one member of an object, by its name. -/
def ofContent? (room : Nat) (name : Option String) : Json → Option Value
  | .null => if name = some Kind.none.tag then some .none else Option.none
  | .bool b => if name = some Kind.bool.tag then some (.bool b) else Option.none
  | .number lexeme =>
    if name = some Kind.int.tag then (Json.int64? lexeme).map .int
    else if name = some Kind.float.tag then (Json.float? lexeme).map .float
    else Option.none
  | .string units =>
    if name = some Kind.str.tag then (Json.textOf? units).map fun cs => .str (String.ofList cs)
    else Option.none
  | .array js =>
    match room with
    | 0 => Option.none
    | room + 1 =>
      if name = some Kind.bytes.tag then (bytesOf? js).map .bytes
      else if name = some Kind.tuple.tag then (ofItems? room js).map .tuple
      else if name = some Kind.list.tag then (ofItems? room js).map .list
      else if name = some Kind.dict.tag then (ofEntries? room js).map .dict
      else if name = some Kind.record.tag then ofPair? room js
      else Option.none
  | .object members =>
    match room with
    | 0 => Option.none
    | room + 1 =>
      if name = some Kind.record.tag then
        (ofMembers? room ⟨Option.none, Option.none⟩ members).bind RecordParts.value?
      else Option.none

/-- The values of an array. -/
def ofItems? (room : Nat) : List Json → Option (List Value)
  | [] => some []
  | j :: js => consed (ofJson? room j) (ofItems? room js)

/-- The entries of a dictionary: arrays of a key and a value. -/
def ofEntries? (room : Nat) : List Json → Option (List (Value × Value))
  | [] => some []
  | .array [k, v] :: js =>
    match room with
    | 0 => Option.none
    | room' + 1 => consed (paired (ofJson? room' k) (ofJson? room' v)) (ofEntries? room js)
  | _ => Option.none

/-- The fields of a record: arrays of a name and a value. -/
def ofFields? (room : Nat) : List Json → Option (List (String × Value))
  | [] => some []
  | .array [n, v] :: js =>
    match room with
    | 0 => Option.none
    | room' + 1 => consed (paired (textOf? n) (ofJson? room' v)) (ofFields? room js)
  | _ => Option.none

/-- The fields of a record from the array that holds them. -/
def ofFieldArray? (room : Nat) : Json → Option (List (String × Value))
  | .array js =>
    match room with
    | 0 => Option.none
    | room + 1 => ofFields? room js
  | _ => Option.none

/-- A record as an array of its class and its fields. -/
def ofPair? (room : Nat) : List Json → Option Value
  | [c, f] =>
    (paired (textOf? c) (ofFieldArray? room f)).map fun (cls, fields) => .record cls fields
  | _ => Option.none

/-- The parts of a record from the members of an object.  A part given twice is refused. -/
def ofMembers? (room : Nat) (parts : RecordParts) :
    List (List Json.Unit × Json) → Option RecordParts
  | [] => some parts
  | (name, content) :: members =>
    match Json.textOf? name with
    | Option.none => Option.none
    | some name =>
      if name = "class".toList then
        match parts.cls, textOf? content with
        | Option.none, some cls => ofMembers? room { parts with cls := some cls } members
        | _, _ => Option.none
      else if name = "fields".toList then
        match parts.fields, ofFieldArray? room content with
        | Option.none, some fields => ofMembers? room { parts with fields := some fields } members
        | _, _ => Option.none
      else ofMembers? room parts members

end

/-- The greatest number of nested brackets that is read. -/
def maxBrackets : Nat := 127

/-- The value of a JSON text. -/
def ofJsonText? (cs : List Char) : Option Value := (Json.read? cs).bind (ofJson? maxBrackets)

end SealedStore.Value
