/-
  Names and characters quoted for error reports.

  A quoted text shows every character that a reader could miss: control characters,
  separators, unassigned code points and combining marks appear by number, so two texts
  that differ are never quoted alike by accident of display.
-/
import SealedStore.Unicode.Extending
import SealedStore.Unicode.Unprintable

namespace SealedStore.Quoted

/-- A code point by number: `\u{301}`. -/
def byNumber (c : Char) : List Char :=
  ['\\', 'u', Char.ofNat 0x7B] ++ Nat.toDigits 16 c.toNat ++ [Char.ofNat 0x7D]

/-- One character between quotes of the given kind. -/
def escape (quote c : Char) : List Char :=
  if c == '\x00' then ['\\', '0']
  else if c == '\t' then ['\\', 't']
  else if c == '\r' then ['\\', 'r']
  else if c == '\n' then ['\\', 'n']
  else if c == '\\' then ['\\', '\\']
  else if c == quote then ['\\', c]
  else if 0x20 ≤ c.toNat && c.toNat < 0x7F then [c]
  else if Unicode.isExtending c || Unicode.isUnprintable c then byNumber c
  else [c]

/-- A text in double quotes. -/
def text (s : String) : String :=
  String.ofList ('"' :: s.toList.flatMap (escape '"') ++ ['"'])

/-- A character in single quotes. -/
def char (c : Char) : String :=
  String.ofList ('\'' :: escape '\'' c ++ ['\''])

end SealedStore.Quoted
