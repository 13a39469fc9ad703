import Motewatch.Event
import Motewatch.Report.Json
import Motewatch.Storage.Tree

/-!
# Output of a run

A run writes two files, which are opened when it begins: the raw log, with a line for each event,
and the report, which is written when the run is summed up.

## Main definitions

* `rawLogPath`, `reportPath` — where the files lie.
* `Output`, `Output.create` — the two files, and opening them.
* `Output.append` — logs an event.
* `Output.finish` — writes the report and what is left of the log.
* `Output.release` — gives the files up.
-/

namespace Motewatch
open Storage (Device Sink Buffered Tree)

/-- The path of a file in a directory. -/
def joinPath (dir name : String) : String :=
  if dir = "" ∨ dir.toList.getLast? = some '/' then dir ++ name else dir ++ "/" ++ name

/-- Where the raw log of a run lies. -/
def rawLogPath (dir stamp : String) : String := joinPath dir ("simulation" ++ stamp ++ ".log")

/-- Where the report of a run lies. -/
def reportPath (dir stamp : String) : String :=
  joinPath dir ("simulation-stats" ++ stamp ++ ".json")

/-- The files of a run. -/
structure Output where
  log : Buffered
  report : Sink
  format : Report.Format
  logPlace : List String
  reportPlace : List String

namespace Output

/-- Opens both files, the raw log first, in a directory that is made if need be. If the report
cannot be opened, the raw log stays behind empty. -/
def create (t : Tree) (dir stamp : String) (format : Report.Format) :
    Tree × Except Storage.Fault Output :=
  match t.makeDirectories dir with
  | .error fault => (t, .error fault)
  | .ok t =>
    match t.openNew (rawLogPath dir stamp) with
    | .error fault => (t, .error fault)
    | .ok (t, logDevice, logPlace) =>
      match t.openNew (reportPath dir stamp) with
      | .error fault => (t, .error fault)
      | .ok (t, reportDevice, reportPlace) =>
        (t, .ok ⟨.fresh logDevice, .fresh reportDevice, format, logPlace, reportPlace⟩)

/-- Logs an event: its line, then the end of the line. -/
def append (o : Output) (e : Event) : Output × Option Storage.Fault :=
  match o.log.write e.rawLine with
  | (log, some fault) => ({ o with log := log }, some fault)
  | (log, none) =>
    match log.write "\n" with
    | (log, fault?) => ({ o with log := log }, fault?)

/-- Gives the files up. What is left of the log is written out if that is possible. -/
def release (o : Output) : Output := { o with log := o.log.flush.1 }

/-- Writes the report, makes sure of it, then writes what is left of the log, and gives the files
up. -/
def finish (o : Output) (r : Report) : Output × Option Storage.Fault :=
  match o.report.write (r.render o.format ++ "\n") with
  | (report, some fault) => ({ o with report := report }.release, some fault)
  | (report, none) =>
    match report.sync with
    | (report, some fault) => ({ o with report := report }.release, some fault)
    | (report, none) =>
      match o.log.flush with
      | (log, fault?) => ({ o with report := report, log := log }, fault?)

/-- The tree with the files as they are. -/
def keepIn (o : Output) (t : Tree) : Tree :=
  (t.keep o.logPlace o.log.sink).keep o.reportPlace o.report

end Output

end Motewatch
