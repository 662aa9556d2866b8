/-
  The shortest decimal that reads back as a given float.

  The reals that round to a float form an interval around it, with its ends when the
  significand is even.  For one digit, two digits and so on up to seventeen, the two decimals
  of that many digits next to the float are tested against the interval.  The first length
  with a hit wins; of two hits the nearer one is taken, and how an exact tie falls is the
  caller's choice.
-/
import SealedStore.Number.Binary64

namespace SealedStore.Shortest

/-- Which of two equally near decimals is taken. -/
inductive Tie where
  /-- The greater one. -/
  | up
  /-- The one with an even last digit. -/
  | even
  deriving DecidableEq, Repr

/-- A decimal number `digits * 10 ^ exponent`. -/
structure Decimal where
  digits : Nat
  exponent : Int
  deriving DecidableEq, Repr

/-- How many decimal digits a number has; zero has none. -/
def length (n : Nat) : Nat := if n = 0 then 0 else (Nat.toDigits 10 n).length

/-- The greatest `e` with `10 ^ e * den ≤ num`, for positive `num` and `den`. -/
def floorLog10 (num den : Nat) : Int :=
  if den ≤ num then (length (num / den) : Int) - 1 else -(length ((den - 1) / num) : Int)

/-- The reals that round to a float, all multiplied by four and over one denominator. -/
structure Interval where
  low : Nat
  middle : Nat
  high : Nat
  den : Nat
  closed : Bool

/-- The interval of `m * 2 ^ q`.  Below a power of two the floats lie twice as dense, so the lower
    end is nearer there. -/
def interval (x : Float64.Scaled) : Interval :=
  let unit := Nat.pow 2 x.exponent.toNat
  let below := if x.significand = Nat.pow 2 52 ∧ -1074 < x.exponent then 1 else 2
  { low := (4 * x.significand - below) * unit
    middle := 4 * x.significand * unit
    high := (4 * x.significand + 2) * unit
    den := 4 * x.den
    closed := x.significand % 2 = 0 }

/-- The fraction `num / den` lies in the interval. -/
def Interval.contains (i : Interval) (num den : Nat) : Bool :=
  let n := num * i.den
  if i.closed then i.low * den ≤ n && n ≤ i.high * den
  else i.low * den < n && n < i.high * den

/-- The decimal with step `10 ^ e` that stands for the interval, if one does. -/
def onGrid (tie : Tie) (i : Interval) (e : Int) : Option Nat :=
  let up := Nat.pow 10 e.toNat
  let down := Nat.pow 10 (-e).toNat
  let d := i.middle * down / (i.den * up)
  match i.contains (d * up) down, i.contains ((d + 1) * up) down with
  | false, false => none
  | true, false => some d
  | false, true => some (d + 1)
  | true, true =>
    let twice := 2 * (i.middle * down)
    let half := (2 * d + 1) * (i.den * up)
    if twice < half then some d
    else if half < twice then some (d + 1)
    else match tie with
      | .up => some (d + 1)
      | .even => some (d + d % 2)

/-- Tries ever finer steps. -/
def search (tie : Tie) (i : Interval) : (tries : Nat) → Int → Decimal
  | 0, e => ⟨i.middle * Nat.pow 10 (-e).toNat / (i.den * Nat.pow 10 e.toNat), e⟩
  | tries + 1, e =>
    match onGrid tie i e with
    | some d => ⟨d, e⟩
    | none => search tie i tries (e - 1)

/-- Moves zeros at the end of the digits into the exponent. -/
def Decimal.trim : (fuel : Nat) → Decimal → Decimal
  | 0, x => x
  | fuel + 1, x =>
    if x.digits ≠ 0 ∧ x.digits % 10 = 0 then trim fuel ⟨x.digits / 10, x.exponent + 1⟩ else x

/-- The shortest decimal of a positive finite float. -/
def ofFloat (tie : Tie) (bits : UInt64) : Decimal :=
  let x := Float64.magnitude bits
  (search tie (interval x) 17 (floorLog10 x.num x.den)).trim 17

end SealedStore.Shortest
