import Motewatch.Word

/-!
# Doubles as exact numbers

A finite double is a whole number times a power of two. All decimal texts of doubles are computed
from these two parts in exact arithmetic.

## Main definitions

* `Parts`, `parts` — what a double stands for.
* `roundDiv` — the whole number nearest to a quotient, with a rule for ties.
* `roundedWord` — a double as a 64-bit count.
-/

namespace Motewatch.Decimal

/-- What a double stands for; a finite one is `± mantissa * 2 ^ exponent`. -/
inductive Parts
  | nan
  | infinite (negative : Bool)
  | finite (negative : Bool) (mantissa : Nat) (exponent : Int)
  deriving DecidableEq

/-- The sign, mantissa and exponent that the bits of a double hold. -/
def parts (x : Float) : Parts :=
  let bits := x.toBits.toNat
  let negative := bits / Nat.pow 2 63 == 1
  let field : Nat := bits / Nat.pow 2 52 % Nat.pow 2 11
  let fraction : Nat := bits % Nat.pow 2 52
  if field = Nat.pow 2 11 - 1 then
    if fraction = 0 then .infinite negative else .nan
  else if field = 0 then .finite negative fraction (-1074)
  else .finite negative (Nat.pow 2 52 + fraction) ((field : Int) - 1075)

/-- Which of the two whole numbers next to a quotient is taken when both are equally near. -/
inductive Tie
  | even
  | away
  deriving DecidableEq

/-- The whole number nearest to `num / den`. -/
def roundDiv (num den : Nat) (tie : Tie) : Nat :=
  let q := num / den
  let r := num % den
  if 2 * r < den then q
  else if den < 2 * r then q + 1
  else match tie with
    | .away => q + 1
    | .even => if q % 2 = 0 then q else q + 1

/-- A rounded quotient is within half a unit of the quotient. -/
theorem roundDiv_near (num : Nat) {den : Nat} (h : 0 < den) (tie : Tie) :
    2 * num ≤ (2 * roundDiv num den tie + 1) * den ∧
      2 * roundDiv num den tie * den ≤ 2 * num + den := by
  have hdiv := Nat.div_add_mod num den
  have hmod := Nat.mod_lt num h
  generalize hq : num / den = q at *
  generalize hr : num % den = r at *
  have hnum : num = q * den + r := by rw [Nat.mul_comm]; exact hdiv.symm
  unfold roundDiv
  simp only [hq, hr]
  subst hnum
  split
  · constructor <;> grind
  · split
    · constructor <;> grind
    · cases tie
      · simp only; split <;> constructor <;> grind
      · constructor <;> grind

/-- The double as a quotient of whole numbers. -/
def quotient (mantissa : Nat) (exponent : Int) : Nat × Nat :=
  (mantissa * Nat.pow 2 exponent.toNat, Nat.pow 2 (-exponent).toNat)

/-- The 64-bit count nearest to a double, halves away from zero. What is below zero or not a number
counts as zero, and what is too large as the largest count. -/
def roundedWord (x : Float) : Nat :=
  match parts x with
  | .nan => 0
  | .infinite negative => if negative then 0 else wordLimit - 1
  | .finite negative mantissa exponent =>
    let (num, den) := quotient mantissa exponent
    if negative then 0 else min (roundDiv num den .away) (wordLimit - 1)

example : parts 0.75 = .finite false (3 * Nat.pow 2 51) (-53) := by decide +kernel
example : roundedWord 2.5 = 3 ∧ roundedWord (-2.5) = 0 ∧ roundedWord 1e300 = wordLimit - 1 := by
  decide +kernel

end Motewatch.Decimal
