import Motewatch.Word

/-!
# Decimal numerals

Numbers below `2 ^ 64` as they stand in texts written by people and programs.

## Main definitions

* `digits` — the digits of a number, without leading zeros.
* `valueOf` — the number that a run of digits stands for.
* `word?` — the reading of an unsigned 64-bit number.
-/

namespace Motewatch.Text

/-- The decimal digits of a number, most significant first. -/
def digits (n : Nat) : List Char := Nat.toDigits 10 n

/-- The number that decimal digits stand for. -/
def valueOf (ds : List Char) : Nat := Nat.ofDigitChars 10 ds 0

@[simp] theorem valueOf_digits (n : Nat) : valueOf (digits n) = n :=
  Nat.ofDigitChars_toDigits (by decide) (by decide)

theorem isDigit_of_mem_digits {n : Nat} {c : Char} (h : c ∈ digits n) : c.isDigit = true :=
  Nat.isDigit_of_mem_toDigits (by decide) (by decide) h

theorem digits_ne_nil (n : Nat) : digits n ≠ [] := Nat.toDigits_ne_nil

theorem exists_digits_eq_cons (n : Nat) : ∃ c rest, digits n = c :: rest ∧ c.isDigit = true := by
  obtain ⟨c, rest, h⟩ := List.exists_cons_of_ne_nil (digits_ne_nil n)
  exact ⟨c, rest, h, isDigit_of_mem_digits (n := n) (by simp [h])⟩

/-- A text without the plus sign that it may begin with. -/
def dropPlus : List Char → List Char
  | '+' :: rest => rest
  | s => s

/-- The number that digits alone stand for, if there is at least one and the number is below
`2 ^ 64`. Leading zeros are allowed in any number. -/
def digitsWord? (ds : List Char) : Option Nat :=
  if ds ≠ [] ∧ ds.all Char.isDigit ∧ valueOf ds < wordLimit then some (valueOf ds) else none

/-- Reads an unsigned 64-bit number: an optional plus sign and digits, nothing else. -/
def word? (s : List Char) : Option Nat := digitsWord? (dropPlus s)

theorem digitsWord?_digits {n : Nat} (h : n < wordLimit) : digitsWord? (digits n) = some n := by
  have hall : (digits n).all Char.isDigit = true :=
    List.all_eq_true.2 fun _ hc => isDigit_of_mem_digits hc
  have hvalue : valueOf (digits n) < wordLimit := by rw [valueOf_digits]; exact h
  rw [digitsWord?, if_pos ⟨digits_ne_nil n, hall, hvalue⟩, valueOf_digits]

/-- The digits of a number do not begin with a sign. -/
theorem word?_digits {n : Nat} (h : n < wordLimit) : word? (digits n) = some n := by
  have hplus : dropPlus (digits n) = digits n := by
    obtain ⟨c, rest, heq, hc⟩ := exists_digits_eq_cons n
    have hne : c ≠ '+' := by rintro rfl; exact absurd hc (by decide)
    rw [heq, dropPlus]
    rintro rest' ⟨rfl, -⟩
    exact hne rfl
  rw [word?, hplus, digitsWord?_digits h]

theorem lt_of_digitsWord? {ds : List Char} {n : Nat} (h : digitsWord? ds = some n) :
    n < wordLimit := by
  unfold digitsWord? at h
  split at h
  · cases h; simp_all
  · cases h

example : word? "+007".toList = some 7 ∧ word? "-7".toList = none ∧ word? "+".toList = none := by
  decide

end Motewatch.Text
