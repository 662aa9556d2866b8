/-
  Floats of 64 bits as exact numbers.

  A finite float is `m * 2 ^ q` for natural `m` below `2 ^ 53` and `q` at least `-1074`.
  `ofRatio` gives the float nearest to a fraction, the one with even `m` when two are equally
  near; `product` and `quotient` are the rounded product and quotient of two floats.
-/
import SealedStore.Value.Basic

namespace SealedStore.Float64

/-- The sign bit is set. -/
def isNegative (bits : UInt64) : Bool := bits &&& 0x8000000000000000 != 0

/-- The bits of positive infinity. -/
def infinity : UInt64 := 0x7FF0000000000000

/-- An infinity of either sign. -/
def isInfinite (bits : UInt64) : Bool := bits &&& 0x7FFFFFFFFFFFFFFF == infinity

/-- The bits with the sign turned. -/
def negate (bits : UInt64) : UInt64 := bits ^^^ 0x8000000000000000

/-- A natural number times a power of two. -/
structure Scaled where
  significand : Nat
  exponent : Int
  deriving DecidableEq, Repr

/-- The absolute value of a finite float. -/
def magnitude (bits : UInt64) : Scaled :=
  let field : Nat := (bits.toNat / Nat.pow 2 52) % Nat.pow 2 11
  let fraction := bits.toNat % Nat.pow 2 52
  if field = 0 then ⟨fraction, -1074⟩ else ⟨Nat.pow 2 52 + fraction, (field : Int) - 1075⟩

/-- The numerator of a scaled number as a fraction. -/
def Scaled.num (x : Scaled) : Nat := x.significand * Nat.pow 2 x.exponent.toNat

/-- The denominator of a scaled number as a fraction. -/
def Scaled.den (x : Scaled) : Nat := Nat.pow 2 (-x.exponent).toNat

/-- The integer nearest to a fraction, an even one if two are equally near. -/
def roundEven (num den : Nat) : Nat :=
  let down := num / den
  let rest := 2 * (num % den)
  if rest < den then down
  else if den < rest then down + 1
  else down + down % 2

/-- The greatest `e` with `2 ^ e * den ≤ num`, for positive `num` and `den`. -/
def floorLog2 (num den : Nat) : Int :=
  let e : Int := (num.log2 : Int) - den.log2
  if Nat.pow 2 e.toNat * den ≤ num * Nat.pow 2 (-e).toNat then e else e - 1

/-- The bits of the float nearest to `num / den`, infinity if that is too large. -/
def ofRatio (num den : Nat) : UInt64 :=
  if num = 0 then 0
  else
    let q := max (floorLog2 num den - 52) (-1074)
    let m := roundEven (num * Nat.pow 2 (-q).toNat) (den * Nat.pow 2 q.toNat)
    let bits := m + (q + 1074).toNat * Nat.pow 2 52
    if bits < infinity.toNat then bits.toUInt64 else infinity

/-- The float nearest to the product of two positive finite floats. -/
def product (a b : UInt64) : UInt64 :=
  let x := magnitude a
  let y := magnitude b
  ofRatio (x.num * y.num) (x.den * y.den)

/-- The float nearest to the quotient of two positive finite floats. -/
def quotient (a b : UInt64) : UInt64 :=
  let x := magnitude a
  let y := magnitude b
  ofRatio (x.num * y.den) (x.den * y.num)

end SealedStore.Float64
