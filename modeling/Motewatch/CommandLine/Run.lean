import Motewatch.CommandLine.Arguments
import Motewatch.Replay

/-!
# The program

The program replays a trace from a file and writes the raw log and the report. The settings are read
and checked first, then the trace; only then are files written.

## Main definitions

* `Arguments.settings` — the settings in force.
* `prepare` — the settings and the events of the trace.
* `perform` — replays the trace in a directory tree.
* `Ending`, `invoke` — how the program ends for given arguments.
-/

namespace Motewatch.CommandLine
open Storage (Tree)

/-- The settings that a text holds, if they make sense. -/
def settingsOfText (text : String) : Except Fault Settings :=
  match Settings.parse text with
  | .error cause => .error (.json cause)
  | .ok s => (Settings.Fault.lift s.validate).map fun _ => s

/-- The settings in force: those of the settings file, which have to make sense by themselves, with
the values given on the command line in their place. -/
def Arguments.settings (a : Arguments) (fileText : Option String) : Except Fault Settings := do
  let base ← match fileText with
    | none => .ok Settings.standard
    | some text => settingsOfText text
  Settings.Fault.lift (a.override base).validate
  .ok (a.override base)

/-- The events that the text of a trace holds. -/
def eventsOfText (text : String) : Except Fault (List Event) :=
  match Trace.read text with
  | .error cause => .error (.trace cause)
  | .ok events => .ok events

/-- The text of a file. -/
def readFile (t : Tree) (path : String) : Except Fault String :=
  match t.readText path with
  | .error cause => .error (.storage cause)
  | .ok text => .ok text

/-- The text of the settings file, if there is one. -/
def readSettingsFile (a : Arguments) (t : Tree) : Except Fault (Option String) :=
  match a.settingsFile with
  | none => .ok none
  | some path => (readFile t path).map some

/-- The settings in force and the events of the trace. -/
def prepare (a : Arguments) (t : Tree) : Except Fault (Settings × List Event) := do
  let fileText ← readSettingsFile a t
  let settings ← a.settings fileText
  let text ← readFile t a.trace
  let events ← eventsOfText text
  .ok (settings, events)

/-- Replays the trace and writes the files. The clock names the files of a run that is given no
name. -/
def perform (a : Arguments) (clock : String) (t : Tree) : Except Fault Replay.Outcome × Tree :=
  match prepare a t with
  | .error fault => (.error fault, t)
  | .ok (settings, events) =>
    match Output.create t settings.outputDir (a.runId.getD clock) settings.format with
    | (t, .error cause) => (.error (.storage cause), t)
    | (t, .ok output) =>
      match Replay.run settings events (some output) with
      | (result, some output) => (result, output.keepIn t)
      | (result, none) => (result, t)

/-! ## How the program ends -/

/-- The summary of a replay. -/
def summary (o : Replay.Outcome) (r : Report) : String :=
  s!"done @ {o.finishedAt.display}, passed={o.control.passed}, timed_out={r.timedOut}, " ++
  s!"completed={r.completed}/{r.total}, tx={r.totalTransmitted}, rx={r.totalReceived}, " ++
  s!"timeouts={r.totalTimeouts}, schedule_installation_s=" ++
  String.ofList (Decimal.writeFixed 6 r.duration)

/-- How the program ends. -/
inductive Ending
  | done (summary : String)
  | failed (fault : Fault)
  | noReport
  | usage

/-- What is given back to the shell. -/
def Ending.exitCode : Ending → Nat
  | done _ => 0
  | failed _ => 1
  | noReport => 1
  | usage => 2

/-- The ending of a replay. -/
def Ending.ofResult : Except Fault Replay.Outcome → Ending
  | .error fault => .failed fault
  | .ok o =>
    match o.report with
    | none => .noReport
    | some r => .done (summary o r)

/-- The program: how it ends for given arguments, and the tree it leaves. -/
def invoke (arguments : List String) (clock : String) (t : Tree) : Ending × Tree :=
  match Arguments.parse? arguments with
  | none => (.usage, t)
  | some a =>
    let (result, t) := perform a clock t
    (.ofResult result, t)

end Motewatch.CommandLine
