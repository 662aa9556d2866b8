/-
  The rule for names of record fields: a letter or an underscore, then letters, digits and
  underscores, in any script.
-/
import SealedStore.Text.Quoted
import SealedStore.Unicode.Alphabetic
import SealedStore.Unicode.Numeric

namespace SealedStore.FieldName

/-- A letter of any script. -/
def isLetter (c : Char) : Bool :=
  if c.toNat < 0x80 then c.isAlpha else Unicode.isAlphabetic c

/-- A digit or another number of any script. -/
def isDigit (c : Char) : Bool :=
  if c.toNat < 0x80 then c.isDigit else Unicode.isNumeric c

/-- A character that may begin a field name. -/
def isStart (c : Char) : Bool := isLetter c || c == '_'

/-- A character that may stand after the first in a field name. -/
def isPart (c : Char) : Bool := isLetter c || isDigit c || c == '_'

/-- What is wrong with a field name. -/
inductive Fault where
  | empty
  /-- The first character may not begin a name. -/
  | start (c : Char)
  /-- The first later character that may not stand in a name. -/
  | part (c : Char)
  deriving DecidableEq, Repr

/-- The fault of a name, if it has one. -/
def fault? : List Char → Option Fault
  | [] => some .empty
  | c :: cs => if isStart c then (cs.find? fun c => !isPart c).map .part else some (.start c)

/-- The names that a field may have. -/
def isValid (name : String) : Bool := (fault? name.toList).isNone

/-- What an error report says about a fault. -/
def Fault.message : Fault → String
  | .empty => "field name must not be empty"
  | .start c => s!"must not start with {Quoted.char c}"
  | .part c => s!"contains forbidden character: {Quoted.char c}"

end SealedStore.FieldName
