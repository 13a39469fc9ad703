import Motewatch.Instant
import Motewatch.Word
import Motewatch.Catalog
import Motewatch.Json.Value

/-!
# Reports

A report sums up a run: what every node sent and received, how many nodes completed, and how long it
took to install the schedule.

## Main definitions

* `NodeTally` — the counts of one node.
* `Report` — the summary of a run.
* `FlatReport` — the counts as arrays.
-/

namespace Motewatch

/-- The counts of one node and the latest reports on its links. -/
structure NodeTally where
  id : Nat
  transmitted : Nat
  received : Nat
  timeouts : Nat
  /-- Under the name of each neighbour, what was last reported about the link to it. -/
  links : Catalog (Catalog Json.Value)

/-- The counts of a node that has printed nothing. -/
def NodeTally.fresh (id : Nat) : NodeTally := ⟨id, 0, 0, 0, .empty⟩

/-- The summary of a run. -/
structure Report where
  /-- The time of the first schedule update, in microseconds. -/
  firstSchedule : Option Nat
  /-- The nodes in the order of their numbers. -/
  nodes : List NodeTally
  /-- How long it took to install the schedule, in seconds of real time. -/
  duration : Float
  speed : Float
  total : Nat
  completed : Nat
  /-- Whether the run was ended before all nodes completed. -/
  timedOut : Bool

/-- The layouts in which a report can be written: `full`, with an object for each node, or `flat`,
with an array for each kind of count. -/
inductive Report.Format
  | full
  | flat
  deriving DecidableEq

/-- The counts of a report as arrays in the order of the nodes. -/
structure FlatReport where
  /-- The time of the first schedule update, zero if there was none. -/
  firstSchedule : Nat
  transmitted : List Nat
  received : List Nat
  timeouts : List Nat
  duration : Float
  speed : Float
  deriving DecidableEq

namespace Report

def totalTransmitted (r : Report) : Nat := wordSum (r.nodes.map (·.transmitted))
def totalReceived (r : Report) : Nat := wordSum (r.nodes.map (·.received))
def totalTimeouts (r : Report) : Nat := wordSum (r.nodes.map (·.timeouts))

/-- The report with its counts as arrays; link reports, totals and the manner of the end are left
out. -/
def flatten (r : Report) : FlatReport where
  firstSchedule := r.firstSchedule.getD 0
  transmitted := r.nodes.map (·.transmitted)
  received := r.nodes.map (·.received)
  timeouts := r.nodes.map (·.timeouts)
  duration := r.duration
  speed := r.speed

end Report

end Motewatch
