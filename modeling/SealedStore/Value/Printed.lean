/-
  The printed form of values, for reading by eye.

  `(1, 'Test', [2, 4])`, `(5,)`, `{'a': True}`, `Sample(name='x')`: every kind has its own
  brackets, and a float always shows a fraction or an exponent, so that it never reads as an
  integer.
-/
import SealedStore.Number.Layout
import SealedStore.Value.Literal

namespace SealedStore.Value

/-- A whole number in decimal. -/
def intText (n : Int) : List Char :=
  if n < 0 then '-' :: Nat.toDigits 10 n.natAbs else Nat.toDigits 10 n.natAbs

/-- A comma between a member and what follows it, unless no member does. -/
def comma {α : Type} : List α → List Char → List Char
  | [], rest => rest
  | _ :: _, rest => ',' :: ' ' :: rest

/-- The end of a tuple: a comma tells one item in brackets from the item alone. -/
def closeTuple {α : Type} : List α → List Char → List Char
  | [_], rest => ',' :: ')' :: rest
  | _, rest => ')' :: rest

mutual

/-- The printed form of a value in front of a text. -/
def textOnto (v : Value) (rest : List Char) : List Char :=
  match v with
  | none => 'N' :: 'o' :: 'n' :: 'e' :: rest
  | bool true => 'T' :: 'r' :: 'u' :: 'e' :: rest
  | bool false => 'F' :: 'a' :: 'l' :: 's' :: 'e' :: rest
  | int n => intText n.toInt ++ rest
  | float bits => Layout.printed.float bits ++ rest
  | str s => Literal.str s ++ rest
  | bytes b => Literal.bytes b ++ rest
  | tuple items => '(' :: itemsOnto items (closeTuple items rest)
  | list items => '[' :: itemsOnto items (']' :: rest)
  | dict entries => Char.ofNat 0x7B :: entriesOnto entries (Char.ofNat 0x7D :: rest)
  | record cls fields => cls.toList ++ '(' :: fieldsOnto fields (')' :: rest)
termination_by structural v

/-- Values with commas between. -/
def itemsOnto (items : List Value) (rest : List Char) : List Char :=
  match items with
  | [] => rest
  | v :: vs => textOnto v (comma vs (itemsOnto vs rest))
termination_by structural items

/-- Entries `key: value` with commas between. -/
def entriesOnto (entries : List (Value × Value)) (rest : List Char) : List Char :=
  match entries with
  | [] => rest
  | (k, v) :: es => textOnto k (':' :: ' ' :: textOnto v (comma es (entriesOnto es rest)))
termination_by structural entries

/-- Fields `name=value` with commas between. -/
def fieldsOnto (fields : List (String × Value)) (rest : List Char) : List Char :=
  match fields with
  | [] => rest
  | (n, v) :: fs => n.toList ++ '=' :: textOnto v (comma fs (fieldsOnto fs rest))
termination_by structural fields

end

/-- The printed form of a value. -/
def text (v : Value) : List Char := textOnto v []

theorem comma_append {α : Type} (xs : List α) (s rest : List Char) :
    comma xs (s ++ rest) = comma xs s ++ rest := by
  cases xs <;> rfl

theorem closeTuple_append {α : Type} (xs : List α) (s rest : List Char) :
    closeTuple xs (s ++ rest) = closeTuple xs s ++ rest := by
  match xs with
  | [] => rfl
  | [_] => rfl
  | _ :: _ :: _ => rfl

mutual

/-- What stands behind a printed value is not looked at. -/
theorem textOnto_append (v : Value) (s rest : List Char) :
    textOnto v (s ++ rest) = textOnto v s ++ rest := by
  match v with
  | none | bool true | bool false => rfl
  | int _ | float _ | str _ | bytes _ => simp [textOnto]
  | tuple items => simp [textOnto, closeTuple_append, itemsOnto_append items]
  | list items => simp [textOnto, ← itemsOnto_append items]
  | dict entries => simp [textOnto, ← entriesOnto_append entries]
  | record _ fields => simp [textOnto, ← fieldsOnto_append fields]
termination_by structural v

theorem itemsOnto_append (items : List Value) (s rest : List Char) :
    itemsOnto items (s ++ rest) = itemsOnto items s ++ rest := by
  match items with
  | [] => rfl
  | v :: vs => simp [itemsOnto, itemsOnto_append vs, comma_append, textOnto_append v]
termination_by structural items

theorem entriesOnto_append (entries : List (Value × Value)) (s rest : List Char) :
    entriesOnto entries (s ++ rest) = entriesOnto entries s ++ rest := by
  match entries with
  | [] => rfl
  | (k, v) :: es =>
    simp [entriesOnto, entriesOnto_append es, comma_append, textOnto_append v,
      ← textOnto_append k]
termination_by structural entries

theorem fieldsOnto_append (fields : List (String × Value)) (s rest : List Char) :
    fieldsOnto fields (s ++ rest) = fieldsOnto fields s ++ rest := by
  match fields with
  | [] => rfl
  | (_, v) :: fs => simp [fieldsOnto, fieldsOnto_append fs, comma_append, textOnto_append v]
termination_by structural fields

end

/-- A text in front of which a value is printed is left as it is. -/
theorem textOnto_eq (v : Value) (rest : List Char) : textOnto v rest = text v ++ rest :=
  textOnto_append v [] rest

/-- The printed form as a string. -/
def display (v : Value) : String := String.ofList v.text

end SealedStore.Value
