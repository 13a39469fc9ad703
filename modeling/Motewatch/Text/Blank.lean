/-!
# Blank characters

The white space of Unicode, as the property `White_Space` lists it, and the cutting of such
characters from the two ends of a text.

## Main definitions

* `isBlank` — membership in the property.
* `trimStart`, `trimEnd`, `trim` — a text without the blanks at its start, its end, both.
-/

namespace Motewatch.Text

/-- Whether a character has the Unicode property `White_Space`. -/
def isBlank (c : Char) : Bool :=
  let n := c.toNat
  (9 ≤ n && n ≤ 13) || n == 0x20 || n == 0x85 || n == 0xA0 || n == 0x1680 ||
    (0x2000 ≤ n && n ≤ 0x200A) || n == 0x2028 || n == 0x2029 || n == 0x202F || n == 0x205F ||
    n == 0x3000

/-- The text from its first character that is not blank on. -/
def trimStart (s : List Char) : List Char := s.dropWhile isBlank

/-- The text up to its last character that is not blank. -/
def trimEnd (s : List Char) : List Char := (s.reverse.dropWhile isBlank).reverse

/-- The text without the blanks at both ends. -/
def trim (s : List Char) : List Char := trimEnd (trimStart s)

example : isBlank '\u2003' = true ∧ isBlank '\u200b' = false ∧ isBlank '\x0c' = true := by decide

example : trim " \u3000a b\r\n".toList = "a b".toList := by decide

end Motewatch.Text
