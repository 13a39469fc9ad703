import Motewatch.LinkCount
import Motewatch.Json.Record
import Motewatch.Json.Writer

/-!
# Kinds of messages

What a message is about is told by texts that occur in it, the markers. They are looked for in a
fixed order, and the first one found decides.

## Main definitions

* `Markers` — the texts to look for.
* `Kind` — what a message is about.
* `Markers.classify` — the kind of a message.
* `Markers.shape`, `Markers.toJson` — markers as JSON.
-/

namespace Motewatch

/-- The texts by which messages are told apart. -/
structure Markers where
  completion : String
  scheduleUpdate : String
  receive : String
  transmit : String
  timeout : String
  /-- Any of these tells of a change of the topology. -/
  topology : List String
  neighborLink : String
  deriving DecidableEq

/-- The markers in use where nothing else is asked for. -/
def Markers.standard : Markers where
  completion := "pkt->type = complete"
  scheduleUpdate := "schedule_updater_pkt"
  receive := "Received"
  transmit := "Sending"
  timeout := "Timer expired"
  topology := ["Switching parent", LinkCount.mark]
  neighborLink := "neighbor"

/-- What a message is about. -/
inductive Kind
  | completion
  | scheduleUpdate
  | receive
  | transmit
  | timeout
  | topology
  | neighborLink
  | unmatched
  deriving DecidableEq

/-- The kind of a message. Once the first schedule update is known, updates are told apart by the
other markers only. An empty marker occurs in every message. -/
def Markers.classify (m : Markers) (message : String) (scheduleKnown : Bool) : Kind :=
  if Text.contains message m.completion then .completion
  else if !scheduleKnown && Text.contains message m.scheduleUpdate then .scheduleUpdate
  else if Text.contains message m.receive then .receive
  else if Text.contains message m.transmit then .transmit
  else if Text.contains message m.timeout then .timeout
  else if m.topology.any (Text.contains message ·) then .topology
  else if Text.contains message m.neighborLink then .neighborLink
  else .unmatched

/-- Markers as a JSON record: each may be left out and is then the standard one. -/
def Markers.shape : Json.Shape Markers where
  fields := [
    .of "completion" false Json.text fun m s => { m with completion := s },
    .of "schedule_update" false Json.text fun m s => { m with scheduleUpdate := s },
    .of "receive" false Json.text fun m s => { m with receive := s },
    .of "transmit" false Json.text fun m s => { m with transmit := s },
    .of "timeout" false Json.text fun m s => { m with timeout := s },
    .of "topology" false (Json.array Json.text) fun m ss => { m with topology := ss },
    .of "neighbor_link" false Json.text fun m s => { m with neighborLink := s }]
  start := .standard
  mayBeShort := true

/-- The JSON object for markers. -/
def Markers.toJson (m : Markers) : Json.Value :=
  .object [
    ("completion", .text m.completion),
    ("schedule_update", .text m.scheduleUpdate),
    ("receive", .text m.receive),
    ("transmit", .text m.transmit),
    ("timeout", .text m.timeout),
    ("topology", .array (m.topology.map .text)),
    ("neighbor_link", .text m.neighborLink)]

/-- The markers that a JSON text holds. -/
def Markers.parse (s : String) : Except Json.Fault Markers := Json.parse shape.read s

end Motewatch
