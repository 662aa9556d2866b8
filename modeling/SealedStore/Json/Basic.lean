/-
  JSON texts as trees, and how a tree is written.

  A string of JSON is a list of units: characters, and halves of surrogate pairs, which an
  escape can name alone but which no text contains.  A number is kept as it is written.
  `write` puts no space between tokens and escapes only what must be escaped.
-/
import SealedStore.Bytes

namespace SealedStore

namespace Json

/-- One unit of a string. -/
inductive Unit where
  | char (c : Char)
  /-- Half of a surrogate pair, by its code. -/
  | half (code : Nat)
  deriving DecidableEq, Repr

/-- The text that units spell, if no half stands alone. -/
def textOf? : List Unit → Option (List Char)
  | [] => some []
  | .char c :: units => (textOf? units).map (c :: ·)
  | .half _ :: _ => none

/-- The units of a text. -/
def units (cs : List Char) : List Unit := cs.map .char

end Json

/-- A JSON text. -/
inductive Json where
  | null
  | bool (b : Bool)
  /-- A number, as it is written. -/
  | number (lexeme : List Char)
  | string (units : List Json.Unit)
  | array (items : List Json)
  | object (members : List (List Json.Unit × Json))

namespace Json

/-- The string of a text. -/
def ofString (s : String) : Json := .string (units s.toList)

/-- The number of a natural number. -/
def ofNat (n : Nat) : Json := .number (Nat.toDigits 10 n)

/-- A code of four hexadecimal digits after a backslash. -/
def writeCode (code : Nat) : List Char := '\\' :: 'u' :: Bytes.hexFixed 4 code

/-- One unit inside a string. -/
def writeUnit : Unit → List Char
  | .half code => writeCode code
  | .char c =>
    if c == '"' then ['\\', '"']
    else if c == '\\' then ['\\', '\\']
    else if c == '\n' then ['\\', 'n']
    else if c == '\r' then ['\\', 'r']
    else if c == '\t' then ['\\', 't']
    else if c == '\x08' then ['\\', 'b']
    else if c == '\x0c' then ['\\', 'f']
    else if c.toNat < 0x20 then writeCode c.toNat
    else [c]

/-- A string in quotes. -/
def writeString (units : List Unit) : List Char := '"' :: units.flatMap writeUnit ++ ['"']

/-- A comma between an item and what follows it, unless no item does. -/
def comma {α : Type} : List α → List Char → List Char
  | [], rest => rest
  | _ :: _, rest => ',' :: rest

mutual

/-- A JSON text, without spaces, in front of a text. -/
def writeOnto (j : Json) (rest : List Char) : List Char :=
  match j with
  | null => 'n' :: 'u' :: 'l' :: 'l' :: rest
  | bool true => 't' :: 'r' :: 'u' :: 'e' :: rest
  | bool false => 'f' :: 'a' :: 'l' :: 's' :: 'e' :: rest
  | number lexeme => lexeme ++ rest
  | string units => writeString units ++ rest
  | array items => '[' :: itemsOnto items (']' :: rest)
  | object members => Char.ofNat 0x7B :: membersOnto members (Char.ofNat 0x7D :: rest)
termination_by structural j

/-- The items of an array. -/
def itemsOnto (items : List Json) (rest : List Char) : List Char :=
  match items with
  | [] => rest
  | j :: js => writeOnto j (comma js (itemsOnto js rest))
termination_by structural items

/-- The members of an object. -/
def membersOnto (members : List (List Unit × Json)) (rest : List Char) : List Char :=
  match members with
  | [] => rest
  | (name, j) :: ms => writeString name ++ ':' :: writeOnto j (comma ms (membersOnto ms rest))
termination_by structural members

end

/-- A JSON text, without spaces. -/
def write (j : Json) : List Char := writeOnto j []

theorem comma_append {α : Type} (xs : List α) (s rest : List Char) :
    comma xs (s ++ rest) = comma xs s ++ rest := by
  cases xs <;> rfl

mutual

/-- What stands behind a text is not looked at. -/
theorem writeOnto_append (j : Json) (s rest : List Char) :
    writeOnto j (s ++ rest) = writeOnto j s ++ rest := by
  match j with
  | null | bool true | bool false => rfl
  | number _ | string _ => simp [writeOnto]
  | array items => simp [writeOnto, ← itemsOnto_append items]
  | object members => simp [writeOnto, ← membersOnto_append members]
termination_by structural j

theorem itemsOnto_append (items : List Json) (s rest : List Char) :
    itemsOnto items (s ++ rest) = itemsOnto items s ++ rest := by
  match items with
  | [] => rfl
  | j :: js => simp [itemsOnto, itemsOnto_append js, comma_append, writeOnto_append j]
termination_by structural items

theorem membersOnto_append (members : List (List Unit × Json)) (s rest : List Char) :
    membersOnto members (s ++ rest) = membersOnto members s ++ rest := by
  match members with
  | [] => rfl
  | (_, j) :: ms =>
    simp [membersOnto, membersOnto_append ms, comma_append, writeOnto_append j]
termination_by structural members

end

/-- A text in front of which a tree is written is left as it is. -/
theorem writeOnto_eq (j : Json) (rest : List Char) : writeOnto j rest = write j ++ rest :=
  writeOnto_append j [] rest

end Json

end SealedStore
