/-
  The value of a number that is written in JSON, as an integer or as a float.

  An integer has neither point nor exponent; `-0` is not an integer.  A float is taken from
  the longest run of leading digits whose number stays below `2 ^ 64`; the rest of the digits
  only moves the exponent.  The digits are rounded to a float, and that is multiplied by a
  rounded power of ten, or divided by one, with the result rounded again.
-/
import SealedStore.Number.Binary64

namespace SealedStore.Json

/-- The parts of a written number. -/
structure Numeral where
  negative : Bool
  whole : List Char
  fraction : List Char
  exponentNegative : Bool
  exponent : List Char
  /-- There is neither point nor exponent. -/
  isInteger : Bool
  deriving DecidableEq, Repr

/-- The number of a run of digits. -/
def natOf (ds : List Char) : Nat := ds.foldl (fun n d => 10 * n + (d.toNat - '0'.toNat)) 0

/-- The sign of a written number and what follows it. -/
def sign : List Char → Bool × List Char
  | '-' :: rest => (true, rest)
  | '+' :: rest => (false, rest)
  | rest => (false, rest)

/-- The digits after a point in front, and what follows them. -/
def afterPoint : List Char → List Char × List Char
  | '.' :: rest => rest.span Char.isDigit
  | rest => ([], rest)

/-- Takes a written number apart. -/
def Numeral.ofLexeme (lexeme : List Char) : Numeral :=
  let (negative, rest) := sign lexeme
  let (whole, rest) := rest.span Char.isDigit
  let (fraction, mark) := afterPoint rest
  let (exponentNegative, exponent) := sign (mark.drop 1)
  ⟨negative, whole, fraction, exponentNegative, exponent, rest.isEmpty⟩

/-- The signed number of 64 bits that is written. -/
def int64? (lexeme : List Char) : Option Int64 :=
  let x := Numeral.ofLexeme lexeme
  let n := natOf x.whole
  if !x.isInteger then none
  else if x.negative then
    if 0 < n && n ≤ Nat.pow 2 63 then some (Int64.ofInt (-n)) else none
  else if n < Nat.pow 2 63 then some (Int64.ofNat n) else none

/-- The byte that is written. -/
def byte? (lexeme : List Char) : Option UInt8 :=
  let x := Numeral.ofLexeme lexeme
  let n := natOf x.whole
  if x.isInteger && !x.negative && n < 256 then some n.toUInt8 else none

/-- Takes digits in while the number stays below `2 ^ 64`.  Gives the digits left. -/
def absorb : Nat → List Char → Nat × List Char
  | n, [] => (n, [])
  | n, d :: ds =>
    let next := 10 * n + (d.toNat - '0'.toNat)
    if next < Nat.pow 2 64 then absorb next ds else (n, d :: ds)

/-- The float nearest to a power of ten. -/
def powerOfTen (e : Nat) : UInt64 := Float64.ofRatio (Nat.pow 10 e) 1

/-- A positive float times a power of ten, in steps of at most 308; nothing if it grows too
    large. -/
def scale? : (steps : Nat) → UInt64 → Int → Option UInt64
  | 0, _, _ => some 0
  | steps + 1, bits, e =>
    if e.natAbs ≤ 308 then
      if 0 ≤ e then
        let product := Float64.product bits (powerOfTen e.toNat)
        if product == Float64.infinity then none else some product
      else some (Float64.quotient bits (powerOfTen e.natAbs))
    else if bits == 0 then some 0
    else if 0 ≤ e then none
    else scale? steps (Float64.quotient bits (powerOfTen 308)) (e + 308)

/-- The absolute value of a written number as a float.  An exponent beyond 32 bits makes the number
    zero or too large. -/
def magnitude? (x : Numeral) : Option UInt64 :=
  let (n, wholeLeft) := absorb 0 x.whole
  let (n, fractionLeft) := absorb n x.fraction
  let start : Int := (wholeLeft.length + fractionLeft.length : Int) - x.fraction.length
  let e := natOf x.exponent
  if e < Nat.pow 2 31 then
    scale? 4 (Float64.ofRatio n 1) (if x.exponentNegative then start - e else start + e)
  else if n ≠ 0 && !x.exponentNegative then none
  else some 0

/-- The float that is written; nothing if it is too large. -/
def float? (lexeme : List Char) : Option UInt64 :=
  let x := Numeral.ofLexeme lexeme
  (magnitude? x).map fun bits => if x.negative then Float64.negate bits else bits

end SealedStore.Json
