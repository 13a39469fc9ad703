import Motewatch.Text.Blank
import Motewatch.Text.Numeral
import Motewatch.Text.Search

/-!
# Link counts

A node reports the number of links of the network behind a fixed mark.

## Main definitions

* `LinkCount.mark` — the mark.
* `linkCount?` — the number that a message reports.
-/

namespace Motewatch

/-- What stands before the number of links. -/
def LinkCount.mark : String := "Graph n_links:"

/-- The number behind the first mark: blanks, then as many digits as there are. A number that does
not fit 64 bits is no number. -/
def linkCount? (message : String) : Option Nat := do
  let rest ← Text.afterFirst? LinkCount.mark.toList message.toList
  Text.digitsWord? ((Text.trimStart rest).takeWhile Char.isDigit)

end Motewatch
