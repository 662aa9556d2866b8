/-
  Texts and byte strings as literals, between quotes on one line.

  A text is quoted by `'`, or by `"` if it has a `'` and no `"` in it.  Backslashes, the quote
  in use and control characters are escaped; everything else stands for itself.  In a byte
  string every byte outside printable ASCII is escaped.
-/
import SealedStore.Bytes

namespace SealedStore.Literal

/-- A control character (category Cc). -/
def isControl (c : Char) : Bool := c.toNat < 0x20 || (0x7F ≤ c.toNat && c.toNat ≤ 0x9F)

/-- The quote that a text is put in. -/
def quoteOf (cs : List Char) : Char :=
  if cs.contains '\'' && !cs.contains '"' then '"' else '\''

/-- One character between the given quotes. -/
def escapeChar (quote c : Char) : List Char :=
  if c == '\\' then ['\\', '\\']
  else if c == '\n' then ['\\', 'n']
  else if c == '\r' then ['\\', 'r']
  else if c == '\t' then ['\\', 't']
  else if c == quote then ['\\', c]
  else if isControl c then '\\' :: 'x' :: Bytes.hexFixed 2 c.toNat
  else [c]

/-- A text as a literal. -/
def str (s : String) : List Char :=
  let cs := s.toList
  let quote := quoteOf cs
  quote :: cs.flatMap (escapeChar quote) ++ [quote]

/-- One byte between `'` quotes. -/
def escapeByte (b : UInt8) : List Char :=
  if b == 0x5C then ['\\', '\\']
  else if b == 0x27 then ['\\', '\'']
  else if b == 0x0A then ['\\', 'n']
  else if b == 0x0D then ['\\', 'r']
  else if b == 0x09 then ['\\', 't']
  else if 0x20 ≤ b && b ≤ 0x7E then [Char.ofNat b.toNat]
  else '\\' :: 'x' :: Bytes.hexByte b

/-- A byte string as a literal. -/
def bytes (b : Bytes) : List Char := 'b' :: '\'' :: b.flatMap escapeByte ++ ['\'']

end SealedStore.Literal
