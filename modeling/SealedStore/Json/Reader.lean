/-
  Reading JSON texts.

  The reader follows the grammar alone: it takes every number and every string that the
  grammar allows and leaves it to its caller which numbers are in range and which strings are
  texts.  `read?` takes the whole input, with spaces around it.
-/
import SealedStore.Json.Basic

namespace SealedStore.Json

/-- A space between tokens. -/
def isSpace (c : Char) : Bool := c == ' ' || c == '\n' || c == '\t' || c == '\r'

/-- The input after the spaces in front. -/
def skip (cs : List Char) : List Char := cs.dropWhile isSpace

/-- The value of a hexadecimal digit in either case. -/
def hexValue? (c : Char) : Option Nat :=
  if '0' ≤ c && c ≤ '9' then some (c.toNat - '0'.toNat)
  else if 'a' ≤ c && c ≤ 'f' then some (c.toNat - 'a'.toNat + 10)
  else if 'A' ≤ c && c ≤ 'F' then some (c.toNat - 'A'.toNat + 10)
  else none

/-- The code that four hexadecimal digits name. -/
def code? (a b c d : Char) : Option Nat := do
  let a ← hexValue? a
  let b ← hexValue? b
  let c ← hexValue? c
  let d ← hexValue? d
  return ((a * 16 + b) * 16 + c) * 16 + d

/-- The unit of a code: a half if the code is a surrogate. -/
def unitOf (code : Nat) : Unit :=
  if 0xD800 ≤ code && code < 0xE000 then .half code else .char (Char.ofNat code)

/-- The character that a one-letter escape stands for. -/
def escaped? (c : Char) : Option Char :=
  match c with
  | '"' => some '"'
  | '\\' => some '\\'
  | '/' => some '/'
  | 'b' => some '\x08'
  | 'f' => some '\x0c'
  | 'n' => some '\n'
  | 'r' => some '\r'
  | 't' => some '\t'
  | _ => none

/-- Puts a unit in front, as one character with a half that completes it. -/
def attach : Unit → List Unit → List Unit
  | .half high, .half low :: units =>
    if high < 0xDC00 && 0xDC00 ≤ low then
      .char (Char.ofNat (0x10000 + (high - 0xD800) * 0x400 + (low - 0xDC00))) :: units
    else .half high :: .half low :: units
  | u, units => u :: units

/-- Puts a unit in front of what was read. -/
def attached (u : Unit) (read : Option (List Unit × List Char)) :
    Option (List Unit × List Char) :=
  read.map fun (units, rest) => (attach u units, rest)

/-- The units of a string up to its closing quote, and the input after that. -/
def string? : List Char → Option (List Unit × List Char)
  | [] => none
  | '"' :: rest => some ([], rest)
  | '\\' :: 'u' :: a :: b :: c :: d :: rest => do
    let code ← code? a b c d
    attached (unitOf code) (string? rest)
  | '\\' :: c :: rest => do
    let e ← escaped? c
    attached (.char e) (string? rest)
  | c :: rest => if c.toNat < 0x20 || c == '\\' then none else attached (.char c) (string? rest)

/-- The digits in front, and the input after them. -/
def digits (cs : List Char) : List Char × List Char := cs.span Char.isDigit

/-- A point and at least one digit, or nothing if there is no point. -/
def fraction? : List Char → Option (List Char × List Char)
  | '.' :: rest =>
    let (ds, rest) := digits rest
    if ds.isEmpty then none else some ('.' :: ds, rest)
  | rest => some ([], rest)

/-- The digits of an exponent after its sign. -/
def exponentDigits? (mark : List Char) (cs : List Char) : Option (List Char × List Char) :=
  let (ds, rest) := digits cs
  if ds.isEmpty then none else some (mark ++ ds, rest)

/-- An exponent mark, sign and digits, or nothing if there is no mark. -/
def exponent? : List Char → Option (List Char × List Char)
  | [] => some ([], [])
  | e :: rest =>
    if e == 'e' || e == 'E' then
      match rest with
      | '+' :: rest => exponentDigits? [e, '+'] rest
      | '-' :: rest => exponentDigits? [e, '-'] rest
      | rest => exponentDigits? [e] rest
    else some ([], e :: rest)

/-- The whole part of a number: one zero, or digits that do not begin with zero. -/
def whole? (cs : List Char) : Option (List Char × List Char) :=
  match digits cs with
  | ([], _) => none
  | ('0' :: _ :: _, _) => none
  | (ds, rest) => some (ds, rest)

/-- A number without its sign. -/
def unsigned? (cs : List Char) : Option (List Char × List Char) := do
  let (whole, rest) ← whole? cs
  let (fraction, rest) ← fraction? rest
  let (exponent, rest) ← exponent? rest
  return (whole ++ fraction ++ exponent, rest)

/-- A number, as it is written, and the input after it. -/
def number? : List Char → Option (List Char × List Char)
  | '-' :: rest => (unsigned? rest).map fun (lexeme, rest) => ('-' :: lexeme, rest)
  | cs => unsigned? cs

mutual

/-- A value with spaces in front, and the input after it. -/
def value? : (fuel : Nat) → List Char → Option (Json × List Char)
  | 0, _ => none
  | fuel + 1, cs =>
    match skip cs with
    | [] => none
    | 'n' :: 'u' :: 'l' :: 'l' :: rest => some (.null, rest)
    | 't' :: 'r' :: 'u' :: 'e' :: rest => some (.bool true, rest)
    | 'f' :: 'a' :: 'l' :: 's' :: 'e' :: rest => some (.bool false, rest)
    | '"' :: rest => (string? rest).map fun (units, rest) => (.string units, rest)
    | c :: rest =>
      if c == '[' then
        match skip rest with
        | ']' :: rest => some (.array [], rest)
        | _ => (items? fuel rest).map fun (items, rest) => (.array items, rest)
      else if c.toNat == 0x7B then
        match skip rest with
        | '"' :: _ => (members? fuel rest).map fun (members, rest) => (.object members, rest)
        | d :: rest => if d.toNat == 0x7D then some (.object [], rest) else none
        | [] => none
      else (number? (c :: rest)).map fun (lexeme, rest) => (.number lexeme, rest)

/-- The items of an array up to its bracket, at least one. -/
def items? : (fuel : Nat) → List Char → Option (List Json × List Char)
  | 0, _ => none
  | fuel + 1, cs => do
    let (item, rest) ← value? fuel cs
    match skip rest with
    | ',' :: rest =>
      let (items, rest) ← items? fuel rest
      return (item :: items, rest)
    | ']' :: rest => return ([item], rest)
    | _ => none

/-- The members of an object up to its brace, at least one. -/
def members? : (fuel : Nat) → List Char → Option (List (List Unit × Json) × List Char)
  | 0, _ => none
  | fuel + 1, cs => do
    let rest ← match skip cs with
      | '"' :: rest => some rest
      | _ => none
    let (name, rest) ← string? rest
    let rest ← match skip rest with
      | ':' :: rest => some rest
      | _ => none
    let (value, rest) ← value? fuel rest
    match skip rest with
    | [] => none
    | c :: rest =>
      if c == ',' then
        let (members, rest) ← members? fuel rest
        return ((name, value) :: members, rest)
      else if c.toNat == 0x7D then return ([(name, value)], rest)
      else none

end

/-- The JSON text that the whole input is.  Two steps suffice for every character. -/
def read? (cs : List Char) : Option Json := do
  let (j, rest) ← value? (2 * cs.length + 2) cs
  if (skip rest).isEmpty then return j else none

end SealedStore.Json
