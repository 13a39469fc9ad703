import Motewatch.Text.Numeral

/-!
# Reading decimal numbers

The reading of a double from a text as people write it on a command line: digits with an optional
point and an optional exponent, or the name of what is no number. The result is the double nearest
to the number written.

## Main definitions

* `nearest` — the double nearest to a whole number times a power of ten.
* `double?` — the double that a text stands for.
-/

namespace Motewatch.Decimal
open Motewatch.Text (valueOf)

/-- The double nearest to `coefficient * 10 ^ power`. Powers beyond the range of doubles are not
computed. -/
def nearest (coefficient : Nat) (power : Int) : Float :=
  let top := (Text.digits coefficient).length + power
  if coefficient = 0 ∨ top < -400 then 0
  else if 400 < top then 1 / 0
  else Float.ofScientific coefficient (power < 0) power.natAbs

/-- The power of ten that an exponent gives: `e`, an optional sign, and digits up to the end. An
empty text gives the power zero. -/
def exponent? : List Char → Option Int
  | [] => some 0
  | e :: s =>
    let signed : Bool × List Char := match s with
      | '-' :: t => (true, t)
      | '+' :: t => (false, t)
      | t => (false, t)
    if (e = 'e' ∨ e = 'E') ∧ signed.2 ≠ [] ∧ signed.2.all Char.isDigit then
      some (if signed.1 then -(valueOf signed.2 : Int) else valueOf signed.2)
    else none

/-- The double that digits, an optional point and an optional exponent stand for; at least one digit
stands before the exponent. -/
def unsigned? (s : List Char) : Option Float :=
  let whole := s.takeWhile Char.isDigit
  let afterWhole := s.dropWhile Char.isDigit
  let tail := match afterWhole with
    | '.' :: t => t
    | t => t
  let pointed := afterWhole.head? = some '.'
  let fraction := if pointed then tail.takeWhile Char.isDigit else []
  let afterFraction := if pointed then tail.dropWhile Char.isDigit else afterWhole
  if whole = [] ∧ fraction = [] then none
  else
    (exponent? afterFraction).map fun power =>
      nearest (valueOf (whole ++ fraction)) (power - fraction.length)

/-- The double that a text stands for: an optional sign, then a number, `inf`, `infinity` or `nan`
in letters of either case. -/
def double? (s : List Char) : Option Float :=
  let negative := s.head? = some '-'
  let body := match s with
    | '-' :: t => t
    | '+' :: t => t
    | t => t
  let name := String.ofList (body.map Char.toLower)
  let magnitude :=
    if name = "inf" ∨ name = "infinity" then some (1 / 0)
    else if name = "nan" then some (0 / 0)
    else unsigned? body
  magnitude.map fun x => if negative then -x else x

end Motewatch.Decimal
