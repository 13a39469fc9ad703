import Motewatch.Decimal.Binary
import Motewatch.Text.Numeral

/-!
# Shortest decimal digits

The fewest decimal digits that are read back as a given double, and of those the nearest to it.

Around a double lies the interval of all numbers that are read as it; its ends belong to it exactly
if the mantissa is even. For one digit, two digits, and so on, the two numbers with that many digits
next to the double are tried: the first count with a hit wins, and of two hits the nearer one.
Seventeen digits always hit.

## Main definitions

* `shortest` — the digits and the power of ten of the first of them.
-/

namespace Motewatch.Decimal
open Motewatch.Text (digits)

/-- The power of ten of the first digit of `mantissa * 2 ^ exponent`, for an exponent not below
`-1074` and a positive mantissa. -/
def leadingPower (mantissa : Nat) (exponent : Int) : Int :=
  let scaled := mantissa * Nat.pow 2 (exponent + 1074).toNat * Nat.pow 10 324 / Nat.pow 2 1074
  (digits scaled).length - 325

/-- The numbers that are read as one double, in quarters of the unit of its last place, and the
double itself; `closed` says whether the ends belong to them. -/
structure Interval where
  low : Nat
  middle : Nat
  high : Nat
  closed : Bool

/-- The gap below a power of two is half the gap above it, save at the smallest exponent. -/
def interval (mantissa : Nat) (exponent : Int) : Interval where
  low := if mantissa = Nat.pow 2 52 ∧ -1074 < exponent then 4 * mantissa - 1 else 4 * mantissa - 2
  middle := 4 * mantissa
  high := 4 * mantissa + 2
  closed := mantissa % 2 = 0

/-- The multiple of `10 ^ power` next to the double that is read back as it, if there is one: the
nearer one of two. -/
def onGrid? (mantissa : Nat) (exponent power : Int) (tie : Tie) : Option Nat :=
  let range := interval mantissa exponent
  let up := Nat.pow 2 (exponent - 2).toNat * Nat.pow 10 (-power).toNat
  let unit := Nat.pow 2 (2 - exponent).toNat * Nat.pow 10 power.toNat
  let below := range.middle * up / unit
  let hits (c : Nat) : Bool :=
    if range.closed then range.low * up ≤ c * unit && c * unit ≤ range.high * up
    else range.low * up < c * unit && c * unit < range.high * up
  match hits below, hits (below + 1) with
  | true, true => some (roundDiv (range.middle * up) unit tie)
  | true, false => some below
  | false, true => some (below + 1)
  | false, false => none

/-- Tries one more digit at a time. -/
def searchGrids (mantissa : Nat) (exponent : Int) (tie : Tie) : Nat → Int → Nat × Int
  | 0, power => (mantissa, power)
  | fuel + 1, power =>
    match onGrid? mantissa exponent power tie with
    | some c => (c, power)
    | none => searchGrids mantissa exponent tie fuel (power - 1)

/-- A run of digits without the zeros at its end. -/
def dropTrailingZeros (ds : List Char) : List Char := (ds.reverse.dropWhile (· = '0')).reverse

/-- The shortest digits of a positive double and the power of ten of the first one. -/
def shortest (mantissa : Nat) (exponent : Int) (tie : Tie) : List Char × Int :=
  let (c, power) := searchGrids mantissa exponent tie 17 (leadingPower mantissa exponent)
  let ds := digits c
  (dropTrailingZeros ds, power + (ds.length - 1))

end Motewatch.Decimal
