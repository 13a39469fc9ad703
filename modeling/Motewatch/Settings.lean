import Motewatch.Markers
import Motewatch.SpeedChange
import Motewatch.Report
import Motewatch.Settings.Fault
import Motewatch.Storage.Path

/-!
# Settings of a run

## Main definitions

* `Settings` — what can be set for a run.
* `Settings.standard` — what holds where nothing is set.
* `Settings.validate` — the first thing that is wrong with settings.
* `Settings.parse`, `Settings.toJson` — settings as JSON.
-/

namespace Motewatch

/-- What can be set for a run. -/
structure Settings where
  /-- The number of nodes; if it is not set, the largest number of a node in the trace. -/
  totalNodes : Option Nat
  speed : Float
  /-- When the run is ended, in milliseconds of simulated time. -/
  timeoutMillis : Nat
  markers : Markers
  speedChange : Option SpeedChange
  outputDir : String
  format : Report.Format

namespace Settings

/-- Settings are the same if their values are; of the output directory the path counts and not how
it is written. -/
instance : BEq Settings where
  beq s t := s.totalNodes == t.totalNodes && s.speed == t.speed &&
    s.timeoutMillis == t.timeoutMillis && s.markers == t.markers &&
    s.speedChange == t.speedChange && Storage.samePath s.outputDir t.outputDir &&
    s.format == t.format

/-- What holds where nothing is set. A run ends after five hours. -/
def standard : Settings where
  totalNodes := none
  speed := 1
  timeoutMillis := 18000000
  markers := .standard
  speedChange := none
  outputDir := "."
  format := .full

/-- The instant at which the run is ended. -/
def timeout (s : Settings) : Instant := .ofMillis s.timeoutMillis

/-! ## What is refused -/

/-- Refuses a double that is no speed. -/
def checkSpeed (field : String) (x : Float) : Except Fault Unit :=
  if isSpeed x then .ok () else .error (.badSpeed field x)

/-- Refuses the first empty text of a list of named ones. -/
def checkMarkers : List (String × String) → Except Fault Unit
  | [] => .ok ()
  | (name, marker) :: rest => if marker = "" then .error (.emptyMarker name) else checkMarkers rest

/-- The markers that stand alone, under the names that faults give them. -/
def namedMarkers (m : Markers) : List (String × String) :=
  [("completion", m.completion), ("schedule_update", m.scheduleUpdate), ("receive", m.receive),
    ("transmit", m.transmit), ("timeout", m.timeout), ("neighbor_link", m.neighborLink)]

/-- Refuses settings without nodes, with a speed that is none, or with an empty marker, which would
occur in every message. -/
def validate (s : Settings) : Except Fault Unit := do
  if s.totalNodes = some 0 then .error .noNodes
  checkSpeed "speed_limit" s.speed
  match s.speedChange with
  | none => .ok ()
  | some change => checkSpeed "speed_change.speed_limit" change.speed
  checkMarkers (namedMarkers s.markers)
  if s.markers.topology.contains "" then .error .emptyTopologyMarker

/-! ## Settings as JSON -/

/-- The names of the layouts of reports. -/
def formatNames : List (String × Report.Format) := [("full", .full), ("legacy", .flat)]

/-- The name of a layout of reports. -/
def formatName : Report.Format → String
  | .full => "full"
  | .flat => "legacy"

/-- Settings as a JSON record: each may be left out and is then the standard one. -/
def shape : Json.Shape Settings where
  fields := [
    .of "total_nodes" false (Json.optional Json.natural) fun s n => { s with totalNodes := n },
    .of "speed_limit" false Json.double fun s x => { s with speed := x },
    .of "timeout_ms" false Json.natural fun s n => { s with timeoutMillis := n },
    .of "markers" false Markers.shape.read fun s m => { s with markers := m },
    .of "speed_change" false (Json.optional SpeedChange.shape.read)
      fun s c => { s with speedChange := c },
    .of "output_dir" false Json.text fun s dir => { s with outputDir := dir },
    .of "report_format" false (Json.choice formatNames) fun s f => { s with format := f }]
  start := .standard
  mayBeShort := true

/-- The JSON object for settings. -/
def toJson (s : Settings) : Json.Value :=
  .object [
    ("total_nodes", match s.totalNodes with
      | none => .null
      | some n => .int n),
    ("speed_limit", .double s.speed),
    ("timeout_ms", .int s.timeoutMillis),
    ("markers", s.markers.toJson),
    ("speed_change", match s.speedChange with
      | none => .null
      | some change => change.toJson),
    ("output_dir", .text s.outputDir),
    ("report_format", .text (formatName s.format))]

/-- The settings that a JSON text holds, whether they make sense or not. -/
def parse (text : String) : Except Json.Fault Settings := Json.parse shape.read text

end Settings

end Motewatch
