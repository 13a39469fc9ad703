import Motewatch.Json.Value
import Motewatch.Word
import Motewatch.Text.Numeral
import Motewatch.Decimal.Layout

/-!
# JSON numbers

A number is first scanned as a literal, whose parts are runs of digits, and then given its value.
A literal without point and exponent whose number fits 64 bits is a whole number. Every other one is
a double, computed in one or two rounded operations from the leading digits that fit 64 bits; the
digits after these do not count.

## Main definitions

* `Literal`, `literal` — the parts of a number as written, and their scanning.
* `Literal.value?` — the value, if it is within the range of doubles.
* `number` — reads a number.
* `writeInt`, `writeDouble` — the written forms.
-/

namespace Motewatch.Json
open Motewatch.Text (digits valueOf)

/-- A number as written: its sign, the digits before and after the point, and the exponent with its
sign. -/
structure Literal where
  negative : Bool
  whole : List Char
  fraction : Option (List Char)
  exponent : Option (Bool × List Char)
  deriving DecidableEq

/-- Where a digit is missing from a number: at the end of the text or before another character. -/
inductive Gap
  | atEnd
  | within
  deriving DecidableEq

/-- One or more digits at the start of a text, and what follows them. -/
def digitRun (s : List Char) : Except Gap (List Char × List Char) :=
  let ds := s.takeWhile Char.isDigit
  let rest := s.dropWhile Char.isDigit
  if ds ≠ [] then .ok (ds, rest) else .error (if rest = [] then .atEnd else .within)

/-- The digits before the point: zero alone, or digits that do not begin with zero. -/
def wholeRun : List Char → Except Gap (List Char × List Char)
  | '0' :: rest => if (rest.takeWhile Char.isDigit) ≠ [] then .error .within else .ok (['0'], rest)
  | s => digitRun s

/-- A point and the digits after it, if a point stands at the start of a text. -/
def fractionRun : List Char → Except Gap (Option (List Char) × List Char)
  | '.' :: rest => (digitRun rest).map fun (ds, rest) => (some ds, rest)
  | s => .ok (none, s)

/-- The digits of an exponent with the sign before them. -/
def signedRun : List Char → Except Gap ((Bool × List Char) × List Char)
  | '-' :: rest => (digitRun rest).map fun (ds, rest) => ((true, ds), rest)
  | '+' :: rest => (digitRun rest).map fun (ds, rest) => ((false, ds), rest)
  | s => (digitRun s).map fun (ds, rest) => ((false, ds), rest)

/-- An exponent, if its mark stands at the start of a text. -/
def exponentRun : List Char → Except Gap (Option (Bool × List Char) × List Char)
  | 'e' :: rest => (signedRun rest).map fun (e, rest) => (some e, rest)
  | 'E' :: rest => (signedRun rest).map fun (e, rest) => (some e, rest)
  | s => .ok (none, s)

/-- The minus sign at the start of a text. -/
def signRun : List Char → Bool × List Char
  | '-' :: rest => (true, rest)
  | s => (false, s)

/-- Scans a number. -/
def literal (s : List Char) : Except Gap (Literal × List Char) := do
  let (negative, s) := signRun s
  let (whole, s) ← wholeRun s
  let (fraction, s) ← fractionRun s
  let (exponent, s) ← exponentRun s
  pure (⟨negative, whole, fraction, exponent⟩, s)

/-- Appends digits to a number for as long as it stays below `2 ^ 64`; returns the number and how
many digits were appended. -/
def absorb (significand : Nat) : List Char → Nat × Nat
  | [] => (significand, 0)
  | d :: ds =>
    let next := valueOf [d] + 10 * significand
    if next < wordLimit then
      let (s, n) := absorb next ds
      (s, n + 1)
    else (significand, 0)

/-- The double nearest to a power of ten. -/
def powerOfTen (n : Nat) : Float := Float.ofScientific 1 false n

/-- `significand * 10 ^ power` as a double, by one rounded multiplication or by one or two rounded
divisions; nothing beyond the range of doubles. -/
def scale? (significand : Nat) (power : Int) : Option Float :=
  let f := significand.toUInt64.toFloat
  let k := power.natAbs
  if 0 ≤ power then
    if k ≤ 308 then
      let x := f * powerOfTen k
      if x.isInf then none else some x
    else if significand = 0 then some f
    else none
  else if k ≤ 308 then some (f / powerOfTen k)
  else if k ≤ 616 then some (f / powerOfTen 308 / powerOfTen (k - 308))
  else some 0

/-- The power of ten that an exponent gives. -/
def exponentValue : Option (Bool × List Char) → Int
  | none => 0
  | some (negative, ds) => if negative then -(valueOf ds : Int) else valueOf ds

/-- The value of a number: a whole number from `-2 ^ 63` to `2 ^ 64 - 1` if it is written without
point and exponent, where minus zero is no whole number; else a double. -/
def Literal.value? (l : Literal) : Option Value :=
  let (significand, kept) := absorb 0 l.whole
  let dropped := l.whole.length - kept
  let (all, keptAfter) := absorb significand (l.fraction.getD [])
  if l.fraction = none ∧ l.exponent = none ∧ dropped = 0 ∧
      (l.negative = false ∨ (0 < significand ∧ significand ≤ wordLimit / 2)) then
    some (.int (if l.negative then -(significand : Int) else significand))
  else
    let power := exponentValue l.exponent + dropped - keptAfter
    (scale? all power).map fun x => .double (if l.negative then -x else x)

/-- Reads a number. -/
def number : Reader Value := fun s =>
  match literal s with
  | .error .atEnd => .error .unfinished
  | .error .within => .error .malformed
  | .ok (l, rest) =>
    match l.value? with
    | none => .error .malformed
    | some v => .ok (v, rest)

/-- Passes over a number of any size. -/
def skipNumber (s : List Char) : Except Fault (List Char) :=
  match literal s with
  | .error _ => .error .malformed
  | .ok (_, rest) => .ok rest

/-- Layout of doubles: plain from `0.00001` up to sixteen digits, with at least one digit after the
point; what is no number is written as `null`. -/
def doubleLayout : Decimal.Layout where
  plain power := -5 ≤ power && power ≤ 15
  whole := ['.', '0']
  tie := .even
  nan := "null".toList
  infinite := "null".toList

/-- The text of a whole number. -/
def writeInt (i : Int) : List Char := if i < 0 then '-' :: digits i.natAbs else digits i.natAbs

/-- The text of a double; what is not finite is written as `null`. -/
def writeDouble (x : Float) : List Char :=
  if x.isFinite then doubleLayout.write x else "null".toList

end Motewatch.Json
