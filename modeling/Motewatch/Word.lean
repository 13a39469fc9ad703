/-!
# Words

Counts, times and node numbers are kept in words of 64 bits.

## Main definitions

* `wordLimit` — the first number that is too large for a word.
* `wordSum` — a sum of words in a word.
-/

namespace Motewatch

/-- The first number that is too large for a word, `2 ^ 64`. -/
def wordLimit : Nat := 0x10000000000000000

theorem wordLimit_pos : 0 < wordLimit := by decide

/-- The sum of words, of which only what fits a word is kept. -/
def wordSum (words : List Nat) : Nat := words.foldr (· + ·) 0 % wordLimit

end Motewatch
