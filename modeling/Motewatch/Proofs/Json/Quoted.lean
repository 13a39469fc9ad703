import Mathlib.Tactic.SplitIfs
import Motewatch.Json.Quoted

/-!
# Quoted texts are read back

Every character is written so that reading on from its written form yields the character and goes
on behind it: as itself, as a backslash and a letter, or, for the other controls, as an escape with
four hexadecimal digits. So any text is read back, whatever characters it has.

## Main results

* `quotedChars_escape` — the written form of one character.
* `quoted_quote` — a text is read back.
-/

namespace Motewatch.Json

/-- The four digits of an escaped control stand for it, and are no half of a surrogate pair. -/
theorem hexValue4?_control : ∀ n < 32,
    hexValue4? '0' '0' (hexDigit (n / 16)) (hexDigit (n % 16)) = some n ∧
      isLowHalf n = false ∧ isHighHalf n = false := by
  decide

theorem readEscape_control {c : Char} (h : c < ' ') (s : List Char) :
    readEscape ('u' :: '0' :: '0' :: hexDigit (c.toNat / 16) :: hexDigit (c.toNat % 16) :: s) =
      .ok (c, 5) := by
  obtain ⟨hvalue, hlow, hhigh⟩ := hexValue4?_control c.toNat h
  simp [readEscape, hex4, hvalue, hlow, hhigh, bind, Except.bind]

/-- An escape with one letter behind the backslash. -/
theorem readEscape_of_ne {letter : Char} (hu : letter ≠ 'u') (s : List Char) :
    readEscape (letter :: s) = match unescape? letter with
      | some c => .ok (c, 1)
      | none => .error .malformed := by
  unfold readEscape
  split
  · contradiction
  · rename_i heq
    exact absurd (List.cons.inj heq).1 hu
  · rename_i heq
    cases heq
    rfl

theorem skipEscape_of_ne {c : Char} (hu : c ≠ 'u') (s : List Char) :
    skipEscape (c :: s) = if (unescape? c).isSome then .ok 1 else .error .malformed := by
  unfold skipEscape
  split
  · contradiction
  · rename_i heq
    exact absurd (List.cons.inj heq).1 hu
  · rename_i heq
    cases heq
    rfl

theorem quotedChars_letter {letter c : Char} (hu : letter ≠ 'u') (h : unescape? letter = some c)
    (s : List Char) :
    quotedChars 0 ('\\' :: letter :: s) = (quotedChars 0 s).map fun r => (c :: r.1, r.2) := by
  simp [quotedChars, readEscape_of_ne hu, h]

/-- Reading goes on behind the written form of a character. -/
theorem quotedChars_escape (c : Char) (s : List Char) :
    quotedChars 0 (escape c ++ s) = (quotedChars 0 s).map fun r => (c :: r.1, r.2) := by
  unfold escape
  split_ifs with hquote hbackslash hb ht hn hf hr hcontrol
  iterate 7 (subst c; exact quotedChars_letter (by decide) rfl s)
  · simp [quotedChars, readEscape_control hcontrol]
  · simp [quotedChars, hquote, hbackslash, hcontrol]

/-- A text up to its closing mark is read back. -/
theorem quotedChars_flatMap_escape (cs after : List Char) :
    quotedChars 0 (cs.flatMap escape ++ '"' :: after) = .ok (cs, after) := by
  induction cs with
  | nil => simp [quotedChars]
  | cons c cs ih =>
    rw [List.flatMap_cons, List.append_assoc, quotedChars_escape, ih]
    rfl

/-- **A text is read back**, whatever follows its closing mark. -/
theorem quoted_quote (s : String) :
    ∃ body, quote s = '"' :: body ∧ ∀ after, quoted (body ++ after) = .ok (s, after) := by
  refine ⟨s.toList.flatMap escape ++ ['"'], rfl, fun after => ?_⟩
  rw [quoted, List.append_assoc, List.singleton_append, quotedChars_flatMap_escape]
  simp [Except.map]

end Motewatch.Json
