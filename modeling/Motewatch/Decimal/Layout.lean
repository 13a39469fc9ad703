import Motewatch.Decimal.Shortest

/-!
# Layouts of decimal texts

How the digits of a double are laid out as a text: which powers of ten are written out, and what is
written for whole numbers and for what is no number.

## Main definitions

* `Layout` — the decisions of one kind of text.
* `write` — the text of a double with its shortest digits.
* `writeFixed` — the text of a double with a fixed number of places.
-/

namespace Motewatch.Decimal
open Motewatch.Text (digits)

/-- The decisions of one kind of text. -/
structure Layout where
  /-- Whether a number whose first digit has this power of ten is written without an exponent. -/
  plain : Int → Bool
  /-- What follows the digits of a whole number. -/
  whole : List Char
  /-- Which of two equally near shortest texts is taken. -/
  tie : Tie
  nan : List Char
  infinite : List Char

/-- The digits with a point, the first digit at the given power of ten. -/
def writePlain (whole ds : List Char) (power : Int) : List Char :=
  if power < 0 then '0' :: '.' :: List.replicate (-power - 1).toNat '0' ++ ds
  else if (ds.length : Int) ≤ power + 1 then
    ds ++ List.replicate (power + 1 - ds.length).toNat '0' ++ whole
  else ds.take (power + 1).toNat ++ '.' :: ds.drop (power + 1).toNat

/-- One digit, the others behind a point, and the power of ten with its sign. -/
def writeScaled (ds : List Char) (power : Int) : List Char :=
  let mark := 'e' :: (if power < 0 then '-' else '+') :: digits power.natAbs
  match ds with
  | [] => mark
  | [d] => d :: mark
  | d :: rest => d :: '.' :: rest ++ mark

/-- A text with a minus sign in front if it is of a negative number. -/
def withSign (negative : Bool) (s : List Char) : List Char := if negative then '-' :: s else s

/-- The text of a double; zero has a sign as well. -/
def Layout.write (layout : Layout) (x : Float) : List Char :=
  match parts x with
  | .nan => layout.nan
  | .infinite negative => withSign negative layout.infinite
  | .finite negative mantissa exponent =>
    withSign negative <|
      if mantissa = 0 then '0' :: layout.whole
      else
        let (ds, power) := shortest mantissa exponent layout.tie
        if layout.plain power then writePlain layout.whole ds power else writeScaled ds power

/-- Layout of messages: never an exponent, whole numbers without a point. -/
def prose : Layout where
  plain _ := true
  whole := []
  tie := .away
  nan := "NaN".toList
  infinite := "inf".toList

/-- A digit string with a point before its last `places` digits. -/
def pointBefore (places : Nat) (ds : List Char) : List Char :=
  let padded := List.replicate (places + 1 - ds.length) '0' ++ ds
  padded.take (padded.length - places) ++ '.' :: padded.drop (padded.length - places)

/-- The text of a double with a fixed positive number of places, exactly rounded, a tie to the even
neighbour. -/
def writeFixed (places : Nat) (x : Float) : List Char :=
  match parts x with
  | .nan => prose.nan
  | .infinite negative => withSign negative prose.infinite
  | .finite negative mantissa exponent =>
    let (num, den) := quotient mantissa exponent
    withSign negative (pointBefore places (digits (roundDiv (num * Nat.pow 10 places) den .even)))

end Motewatch.Decimal
