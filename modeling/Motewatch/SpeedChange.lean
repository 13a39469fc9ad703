import Motewatch.Json.Record
import Motewatch.Json.Writer

/-!
# Change of speed

The simulation runs at a multiple of real time. This speed may be changed once, when the topology of
the network has settled.

## Main definitions

* `Trigger` — how it is known that the topology has settled.
* `SpeedChange` — the new speed and its trigger.
* `isSpeed` — whether a double is a speed.
-/

namespace Motewatch

/-- How it is known that the topology has settled: the node with the largest number reports a change
of the topology, or the network has as many links as a tree of all nodes. -/
inductive Trigger
  | lastNode
  | linkCount
  deriving DecidableEq

/-- The change of speed asked for. -/
structure SpeedChange where
  speed : Float
  trigger : Trigger
  deriving DecidableEq

/-- Speeds are positive and finite. -/
def isSpeed (x : Float) : Bool := x.isFinite && x > 0

/-- The names of the triggers. -/
def Trigger.names : List (String × Trigger) :=
  [("last_node", .lastNode), ("link_count", .linkCount)]

/-- The name of a trigger. -/
def Trigger.name : Trigger → String
  | lastNode => "last_node"
  | linkCount => "link_count"

/-- A change of speed as a JSON record. -/
def SpeedChange.shape : Json.Shape SpeedChange where
  fields := [
    .of "speed_limit" true Json.double fun c x => { c with speed := x },
    .of "trigger" true (Json.choice Trigger.names) fun c t => { c with trigger := t }]
  start := ⟨1, .lastNode⟩
  mayBeShort := false

/-- The JSON object for a change of speed. -/
def SpeedChange.toJson (c : SpeedChange) : Json.Value :=
  .object [("speed_limit", .double c.speed), ("trigger", .text c.trigger.name)]

/-- The change of speed that a JSON text holds. -/
def SpeedChange.parse (s : String) : Except Json.Fault SpeedChange := Json.parse shape.read s

end Motewatch
