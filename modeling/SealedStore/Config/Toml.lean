/-
  The part of TOML that settings are written in: one key and its value to a line, the value a
  string in any of the four forms or a boolean, with comments and blank lines between.

  `read?` gives the keys and values in order and refuses every other text, also tables and
  values of other types.
-/
import SealedStore.Json.Reader

namespace SealedStore.Toml

/-- A value of a key. -/
inductive Scalar where
  | string (text : List Char)
  | bool (b : Bool)
  deriving DecidableEq, Repr

/-- A space or a tab. -/
def isBlank (c : Char) : Bool := c == ' ' || c == '\t'

/-- A character that may stand in comments and strings. -/
def isPlain (c : Char) : Bool := c == '\t' || (0x20 ≤ c.toNat && c.toNat != 0x7F)

/-- A character of a key without quotes. -/
def isBare (c : Char) : Bool := c.isAlphanum || c == '-' || c == '_'

/-- The text with a line feed alone for every line end.  A carriage return in another place stays,
    and nothing that reads on takes it. -/
def unified : List Char → List Char
  | [] => []
  | '\r' :: '\n' :: rest => '\n' :: unified rest
  | c :: rest => c :: unified rest

/-- The rest after blanks. -/
def skipBlanks (cs : List Char) : List Char := cs.dropWhile isBlank

/-- The rest after the end of a line. -/
def lineEnd? : List Char → Option (List Char)
  | [] => some []
  | '\n' :: rest => some rest
  | _ => none

/-- The rest after blanks, a comment if there is one, and the end of the line. -/
def skipLine? (cs : List Char) : Option (List Char) :=
  match skipBlanks cs with
  | '#' :: rest => lineEnd? (rest.dropWhile isPlain)
  | rest => lineEnd? rest

/-- Characters in front of a text that was read. -/
def extended (front : List Char) (read : Option (List Char × List Char)) :
    Option (List Char × List Char) :=
  read.map fun (text, rest) => (front ++ text, rest)

/-- What stands between quotes, and what follows the second.  Where there are escapes, a quote after
    a backslash is none. -/
def quoted? (quote : Char) (escapes : Bool) : List Char → Option (List Char × List Char)
  | [] => none
  | c :: rest =>
    if c = quote then some ([], rest)
    else if escapes && c == '\\' then
      match rest with
      | [] => none
      | d :: rest => extended [c, d] (quoted? quote escapes rest)
    else extended [c] (quoted? quote escapes rest)

/-- What stands between triple quotes, and what follows.  One or two more quotes before the last
    three still belong to the text. -/
def longQuoted? (quote : Char) (escapes : Bool) : List Char → Option (List Char × List Char)
  | [] => none
  | c :: rest =>
    let quotes := ((c :: rest).takeWhile (· == quote)).length
    if 3 ≤ quotes then
      if quotes ≤ 5 then some (List.replicate (quotes - 3) quote, (c :: rest).drop quotes)
      else none
    else if escapes && c == '\\' then
      match rest with
      | [] => none
      | d :: rest => extended [c, d] (longQuoted? quote escapes rest)
    else extended [c] (longQuoted? quote escapes rest)

/-- The character whose number is written in hexadecimal. -/
def byNumber? (digits : List Char) : Option Char := do
  let n ← digits.foldlM (fun n c => (Json.hexValue? c).map (16 * n + ·)) 0
  if n < 0xD800 || (0xE000 ≤ n && n < 0x110000) then some (Char.ofNat n) else none

/-- The character that one after a backslash stands for. -/
def escaped? : Char → Option Char
  | 'b' => some '\x08'
  | 't' => some '\t'
  | 'n' => some '\n'
  | 'f' => some '\x0C'
  | 'r' => some '\r'
  | '"' => some '"'
  | '\\' => some '\\'
  | _ => none

/-- A character in front of a text, if both are there. -/
def consed (c : Option Char) (text : Option (List Char)) : Option (List Char) :=
  match c, text with
  | some c, some text => some (c :: text)
  | _, _ => none

/-- The text between single quotes; a long one may have line ends. -/
def literal? (long : Bool) (raw : List Char) : Option (List Char) :=
  if raw.all fun c => isPlain c || (long && c == '\n') then some raw else none

/-- The text between double quotes.  In a long one a backslash at the end of a line folds it: all
    blanks and line ends after it are left out, and `folded` says that this is going on. -/
def unescaped? (long : Bool) : (folded : Bool) → List Char → Option (List Char)
  | _, [] => some []
  | _, '\\' :: 'u' :: a :: b :: c :: d :: rest =>
    consed (byNumber? [a, b, c, d]) (unescaped? long false rest)
  | _, '\\' :: 'U' :: a :: b :: c :: d :: e :: f :: g :: h :: rest =>
    consed (byNumber? [a, b, c, d, e, f, g, h]) (unescaped? long false rest)
  | _, '\\' :: c :: rest =>
    if long && (skipBlanks (c :: rest)).head? == some '\n' then unescaped? long true rest
    else consed (escaped? c) (unescaped? long false rest)
  | folded, c :: rest =>
    if folded && (isBlank c || c == '\n') then unescaped? long true rest
    else if (isPlain c && c != '\\') || (long && c == '\n') then
      consed (some c) (unescaped? long false rest)
    else none

/-- A text that was read between quotes, decoded. -/
def decoded {α : Type} (decode : List Char → Option α) (read : Option (List Char × List Char)) :
    Option (α × List Char) :=
  read.bind fun (raw, rest) => (decode raw).map (·, rest)

/-- The rest after a line end, which may be missing. -/
def skipLineEnd : List Char → List Char
  | '\n' :: rest => rest
  | cs => cs

/-- The string at the front. -/
def string? : List Char → Option (List Char × List Char)
  | '"' :: '"' :: '"' :: rest =>
    decoded (unescaped? true false) (longQuoted? '"' true (skipLineEnd rest))
  | '\'' :: '\'' :: '\'' :: rest =>
    decoded (literal? true) (longQuoted? '\'' false (skipLineEnd rest))
  | '"' :: rest => decoded (unescaped? false false) (quoted? '"' true rest)
  | '\'' :: rest => decoded (literal? false) (quoted? '\'' false rest)
  | _ => none

/-- The value at the front. -/
def scalar? : List Char → Option (Scalar × List Char)
  | 't' :: 'r' :: 'u' :: 'e' :: rest => some (.bool true, rest)
  | 'f' :: 'a' :: 'l' :: 's' :: 'e' :: rest => some (.bool false, rest)
  | cs => (string? cs).map fun (text, rest) => (.string text, rest)

/-- The key at the front. -/
def key? : List Char → Option (List Char × List Char)
  | '"' :: rest => decoded (unescaped? false false) (quoted? '"' true rest)
  | '\'' :: rest => decoded (literal? false) (quoted? '\'' false rest)
  | cs => if (cs.takeWhile isBare).isEmpty then none else some (cs.span isBare)

/-- The keys and values of lines, at most `most` of them. -/
def entries? : (most : Nat) → List Char → Option (List (List Char × Scalar))
  | 0, _ => none
  | most + 1, cs =>
    match skipBlanks cs with
    | [] => some []
    | '\n' :: rest => entries? most rest
    | '#' :: rest => (skipLine? ('#' :: rest)).bind (entries? most)
    | cs => do
      let (key, rest) ← key? cs
      match skipBlanks rest with
      | '=' :: rest =>
        let (value, rest) ← scalar? (skipBlanks rest)
        let entries ← entries? most (← skipLine? rest)
        some ((key, value) :: entries)
      | _ => none

/-- The rest after a byte order mark, which may be missing. -/
def skipMark : List Char → List Char
  | '\uFEFF' :: rest => rest
  | cs => cs

/-- The keys and values of a text, in order. -/
def read? (text : List Char) : Option (List (List Char × Scalar)) :=
  entries? (text.length + 1) (unified (skipMark text))

end SealedStore.Toml
