import Motewatch.Report
import Motewatch.Json.Record
import Motewatch.Json.Writer

/-!
# Reports as JSON

## Main definitions

* `Report.toJson`, `FlatReport.toJson` — the JSON objects for reports.
* `Report.render` — the text of a report in either layout.
* `Report.parse`, `FlatReport.parse` — the reports that JSON texts hold.
-/

namespace Motewatch

/-! ## Writing -/

/-- The JSON object for the reports on the links of a node. -/
def linksToJson (links : Catalog (Catalog Json.Value)) : Json.Value :=
  .object (links.entries.map fun e => (e.1, .object e.2.entries))

/-- The JSON object for the counts of a node. -/
def NodeTally.toJson (n : NodeTally) : Json.Value :=
  .object [
    ("nodeId", .int n.id),
    ("txCount", .int n.transmitted),
    ("rxCount", .int n.received),
    ("timeoutCount", .int n.timeouts),
    ("neighborLinkStats", linksToJson n.links)]

/-- The JSON object for a report. -/
def Report.toJson (r : Report) : Json.Value :=
  .object [
    ("firstScheduleEventTime", match r.firstSchedule with
      | none => .null
      | some n => .int n),
    ("perNodeStats", .array (r.nodes.map NodeTally.toJson)),
    ("scheduleInstallationDurationSeconds", .double r.duration),
    ("speedLimit", .double r.speed),
    ("totalNodes", .int r.total),
    ("completedNodes", .int r.completed),
    ("timedOut", .bool r.timedOut)]

/-- The JSON array for counts. -/
def countsToJson (counts : List Nat) : Json.Value := .array (counts.map fun (n : Nat) => .int n)

/-- The JSON object for a flat report. -/
def FlatReport.toJson (r : FlatReport) : Json.Value :=
  .object [
    ("firstScheduleMsgTime", .int r.firstSchedule),
    ("tx", countsToJson r.transmitted),
    ("rx", countsToJson r.received),
    ("timeouts", countsToJson r.timeouts),
    ("scheduleInstallationTime", .double r.duration),
    ("speedLimit", .double r.speed)]

/-- The text of a report, with a line for each item. -/
def Report.render (r : Report) : Report.Format → String
  | .full => r.toJson.indentedText
  | .flat => r.flatten.toJson.indentedText

/-! ## Reading -/

/-- The reports on the links of a node lie four levels deep in a report. -/
def linksReader : Json.Reader (Catalog (Catalog Json.Value)) :=
  Json.catalog (Json.catalog (Json.value (Json.maxDepth - 5)))

/-- The counts of a node as a JSON record. -/
def NodeTally.shape : Json.Shape NodeTally where
  fields := [
    .of "nodeId" true Json.natural fun n k => { n with id := k },
    .of "txCount" true Json.natural fun n k => { n with transmitted := k },
    .of "rxCount" true Json.natural fun n k => { n with received := k },
    .of "timeoutCount" true Json.natural fun n k => { n with timeouts := k },
    .of "neighborLinkStats" true linksReader fun n links => { n with links := links }]
  start := .fresh 0
  mayBeShort := false

/-- A report as a JSON record. -/
def Report.shape : Json.Shape Report where
  fields := [
    .of "firstScheduleEventTime" false (Json.optional Json.natural)
      fun r t => { r with firstSchedule := t },
    .of "perNodeStats" true (Json.array NodeTally.shape.read) fun r ns => { r with nodes := ns },
    .of "scheduleInstallationDurationSeconds" true Json.double fun r x => { r with duration := x },
    .of "speedLimit" true Json.double fun r x => { r with speed := x },
    .of "totalNodes" true Json.natural fun r k => { r with total := k },
    .of "completedNodes" true Json.natural fun r k => { r with completed := k },
    .of "timedOut" true Json.flag fun r b => { r with timedOut := b }]
  start := ⟨none, [], 0, 0, 0, 0, false⟩
  mayBeShort := false

/-- A flat report as a JSON record. -/
def FlatReport.shape : Json.Shape FlatReport where
  fields := [
    .of "firstScheduleMsgTime" true Json.natural fun r t => { r with firstSchedule := t },
    .of "tx" true (Json.array Json.natural) fun r ns => { r with transmitted := ns },
    .of "rx" true (Json.array Json.natural) fun r ns => { r with received := ns },
    .of "timeouts" true (Json.array Json.natural) fun r ns => { r with timeouts := ns },
    .of "scheduleInstallationTime" true Json.double fun r x => { r with duration := x },
    .of "speedLimit" true Json.double fun r x => { r with speed := x }]
  start := ⟨0, [], [], [], 0, 0⟩
  mayBeShort := false

/-- The report that a JSON text holds. -/
def Report.parse (s : String) : Except Json.Fault Report := Json.parse shape.read s

/-- The flat report that a JSON text holds. -/
def FlatReport.parse (s : String) : Except Json.Fault FlatReport := Json.parse shape.read s

end Motewatch
