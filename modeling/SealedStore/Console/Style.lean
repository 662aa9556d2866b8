/-
  Text styles of a terminal, by escape sequences.
-/

namespace SealedStore

/-- A color of letters. -/
inductive Color where
  | red | green | yellow | cyan
  deriving DecidableEq, Repr

/-- How letters look. -/
structure Style where
  bold : Bool
  color : Option Color
  deriving DecidableEq, Repr

namespace Style

/-- The terminal's number of a color. -/
def code : Color → List Char
  | .red => ['3', '1']
  | .green => ['3', '2']
  | .yellow => ['3', '3']
  | .cyan => ['3', '6']

/-- Letters of a color. -/
def of (color : Color) : Style := ⟨false, some color⟩

/-- Bold letters of a color. -/
def boldOf (color : Color) : Style := ⟨true, some color⟩

/-- Bold letters. -/
def strong : Style := ⟨true, none⟩

/-- The numbers of a style, with a semicolon between. -/
def codes : Style → List Char
  | ⟨false, none⟩ => []
  | ⟨true, none⟩ => ['1']
  | ⟨false, some c⟩ => code c
  | ⟨true, some c⟩ => ['1', ';'] ++ code c

/-- The escape character. -/
def escape : Char := '\x1B'

/-- A text in a style, or as it is when styles are off. -/
def paint (on : Bool) (style : Style) (text : List Char) : List Char :=
  if on then [escape, '['] ++ codes style ++ 'm' :: text ++ [escape, '[', '0', 'm'] else text

end Style

end SealedStore
