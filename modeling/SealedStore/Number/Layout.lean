/-
  How floats are written.

  A `Layout` says from which to which power of ten a number is written with a decimal point
  alone, how wide its exponent is otherwise, and what stands for the numbers that are not
  finite.  `printed` is the layout of the printed form, `json` that of JSON.
-/
import SealedStore.Number.Shortest

namespace SealedStore

/-- The decisions of a number format. -/
structure Layout where
  /-- The least power of ten of a first digit that is written without an exponent. -/
  least : Int
  /-- The least power of ten that is too great to be written without an exponent. -/
  limit : Int
  /-- The least number of digits of an exponent. -/
  exponentDigits : Nat
  /-- How a tie between two shortest decimals falls. -/
  tie : Shortest.Tie
  nan : String
  infinity : String
  negativeInfinity : String

namespace Layout

/-- The printed form: positional from `1e-4` to below `1e16`, exponents of two digits. -/
def printed : Layout where
  least := -4
  limit := 16
  exponentDigits := 2
  tie := .up
  nan := "nan"
  infinity := "inf"
  negativeInfinity := "-inf"

/-- JSON: positional from `1e-5` to below `1e16`, and `null` for what JSON cannot say. -/
def json : Layout where
  least := -5
  limit := 16
  exponentDigits := 1
  tie := .even
  nan := "null"
  infinity := "null"
  negativeInfinity := "null"

/-- Digits with a point after the first `whole` of them, and at least one after the point. -/
def pointed (whole : Nat) (digits : List Char) : List Char :=
  let fraction := digits.drop whole
  digits.take whole ++ List.replicate (whole - digits.length) '0' ++ ['.'] ++
    (if fraction.isEmpty then ['0'] else fraction)

/-- The exponent mark: a sign, and zeros up to the least width. -/
def mark (width : Nat) (e : Int) : List Char :=
  let digits := Nat.toDigits 10 e.natAbs
  ['e', if e < 0 then '-' else '+'] ++ List.replicate (width - digits.length) '0' ++ digits

/-- A positive decimal whose first digit stands for `10 ^ e`. -/
def decimal (layout : Layout) (digits : List Char) (e : Int) : List Char :=
  if layout.least ≤ e ∧ e < layout.limit then
    if 0 ≤ e then pointed (e.toNat + 1) digits
    else ['0', '.'] ++ List.replicate ((-e).toNat - 1) '0' ++ digits
  else
    let fraction := digits.drop 1
    digits.take 1 ++ (if fraction.isEmpty then [] else '.' :: fraction) ++
      mark layout.exponentDigits e

/-- A float without its sign, neither NaN nor infinite. -/
def finite (layout : Layout) (bits : UInt64) : List Char :=
  if Float64.isZero bits then ['0', '.', '0']
  else
    let d := Shortest.ofFloat layout.tie bits
    let digits := Nat.toDigits 10 d.digits
    layout.decimal digits (d.exponent + digits.length - 1)

/-- The text of a float. -/
def float (layout : Layout) (bits : UInt64) : List Char :=
  if Float64.isNaN bits then layout.nan.toList
  else if Float64.isInfinite bits then
    (if Float64.isNegative bits then layout.negativeInfinity else layout.infinity).toList
  else if Float64.isNegative bits then '-' :: layout.finite (Float64.negate bits)
  else layout.finite bits

end Layout

end SealedStore
