import Motewatch.Instant
import Motewatch.Text.Numeral

/-!
# Log events

The nodes of the network print log lines while the simulation runs. One such line, with the node it
comes from and the time at which it was printed, is an event.

## Main definitions

* `NodeId` — the number of a node; nodes are counted from one.
* `Event` — one line of the log of one node.
* `Event.rawLine` — the line under which an event is kept in the raw log.
-/

namespace Motewatch

/-- The number of a node. -/
structure NodeId where
  number : Nat
  deriving DecidableEq

namespace NodeId

/-- The place of the node in a list of all nodes. There is no node with the number zero. -/
def index? (n : NodeId) : Option Nat := if n.number = 0 then none else some (n.number - 1)

/-- The number as a text. -/
def display (n : NodeId) : String := String.ofList (Text.digits n.number)

end NodeId

/-- One line of the log of one node. -/
structure Event where
  node : NodeId
  time : Instant
  message : String
  deriving DecidableEq

/-- The line of the raw log: the node, a colon, and the message. -/
def Event.rawLine (e : Event) : String := e.node.display ++ ":" ++ e.message

end Motewatch
