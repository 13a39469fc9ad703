import Motewatch.Json.Reader
import Motewatch.Json.Writer
import Motewatch.Text.Search

/-!
# Link reports

A node reports the quality of its link to a neighbour as a JSON object somewhere in a message. The
object names the neighbour; its other members are kept as they are.

## Main definitions

* `LinkReport` — a neighbour and what was reported about the link to it.
* `linkReport?` — the report in a message.
-/

namespace Motewatch

/-- What was reported about the link to one neighbour. -/
structure LinkReport where
  neighbor : String
  fields : Catalog Json.Value

/-- The name of a neighbour: a text stands for itself, any other value for its JSON text. -/
def neighborName : Json.Value → String
  | .text s => s
  | v => v.compactText

/-- The report of an object that names a neighbour. -/
def LinkReport.ofMembers? (members : Catalog Json.Value) : Option LinkReport :=
  (members.get? "neighbor").map fun v => ⟨neighborName v, members.erase "neighbor"⟩

/-- The report in a message: the object that begins at the first opening brace. What follows the
object does not count. -/
def linkReport? (message : String) : Option LinkReport := do
  let s ← Text.fromFirst? '{' message.toList
  match Json.catalog (Json.value (Json.maxDepth - 1)) s with
  | .error _ => none
  | .ok (members, _) => LinkReport.ofMembers? members

end Motewatch
