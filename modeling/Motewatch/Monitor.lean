import Motewatch.Output
import Motewatch.Settings
import Motewatch.Tally

/-!
# Monitors

A monitor watches one run. While the run is monitored, each event is logged and then taken into the
tally. When the run is over, the report is written and the simulation is asked to send a message
back after a while; when that message comes, the test has passed. The simulation ends every run at
some time, whether it is over or not.

## Main definitions

* `Monitor` — a monitor and its phase.
* `Monitor.start` — begins to watch a run.
* `Monitor.onEvent`, `Monitor.onMessage`, `Monitor.onTimeout` — what the simulation reports.
* `Turn` — what a report of the simulation led to.
-/

namespace Motewatch

/-- How far a monitor has come: it takes in events, waits for its message, or has passed. -/
inductive Phase
  | monitoring
  | settling
  | passed
  deriving DecidableEq

/-- A monitor. -/
structure Monitor where
  rules : Rules
  tally : Tally
  /-- The files of the run while they are open. -/
  output : Option Output
  /-- The files of the run after they have been given up. -/
  released : Option Output
  phase : Phase
  report : Option Report

/-- What a report of the simulation led to. After a fault the monitor may be used on. -/
structure Turn where
  monitor : Monitor
  signals : List Signal
  fault : Option Fault

/-- The message that the simulation is asked to send back. -/
def sleepMessage : String := "sleep"

/-- How long the simulation waits with the message: five seconds at the speed of real time, else two
seconds of real time. -/
def sleepDelay (speed : Float) : Instant :=
  if speed == 1 then .ofMillis 5000
  else .ofMicros (Decimal.roundedWord (2000 * speed * 1000))

namespace Monitor

/-- Begins to watch a run and asks for its speed. -/
def start (rules : Rules) (total : Nat) (speed : Float) (output : Option Output) :
    Except Settings.Fault (Monitor × List Signal) := do
  let tally ← Tally.start total speed
  .ok (⟨rules, tally, output, none, .monitoring, none⟩, [.speed speed])

/-- Begins to watch a run with the given settings. -/
def ofSettings (s : Settings) (total : Nat) (output : Option Output) :
    Except Settings.Fault (Monitor × List Signal) :=
  start ⟨s.markers, s.speedChange⟩ total s.speed output

/-- Keeps the report, writes it, and gives the files up. -/
def conclude (m : Monitor) (r : Report) : Monitor × Option Fault :=
  match m.output with
  | none => ({ m with report := some r }, none)
  | some o =>
    match o.finish r with
    | (o, fault?) =>
      ({ m with report := some r, output := none, released := some o }, fault?.map .storage)

/-- Logs an event, if there is a log. -/
def log (m : Monitor) (e : Event) : Monitor × Option Fault :=
  match m.output with
  | none => (m, none)
  | some o =>
    match o.append e with
    | (o, fault?) => ({ m with output := some o }, fault?.map .storage)

/-- Takes an event into the tally; the event that ends the run leads to the report and to the
request for a message. -/
def takeIn (m : Monitor) (e : Event) : Turn :=
  match m.rules.handle m.tally e with
  | ⟨tally, signals, .error fault⟩ => ⟨{ m with tally := tally }, signals, some fault⟩
  | ⟨tally, signals, .ok none⟩ => ⟨{ m with tally := tally }, signals, none⟩
  | ⟨tally, signals, .ok (some report)⟩ =>
    match conclude { m with tally := tally } report with
    | (m, some fault) => ⟨m, signals, some fault⟩
    | (m, none) =>
      ⟨{ m with phase := .settling }, signals ++ [.message (sleepDelay m.tally.speed) sleepMessage],
        none⟩

/-- A node has printed a line. It is logged before anything else happens. -/
def onEvent (m : Monitor) (e : Event) : Turn :=
  match m.phase with
  | .monitoring =>
    match m.log e with
    | (m, some fault) => ⟨m, [], some fault⟩
    | (m, none) => m.takeIn e
  | _ => ⟨m, [], none⟩

/-- The simulation sends a message. -/
def onMessage (m : Monitor) (text : String) : Turn :=
  if m.phase = .settling ∧ text = sleepMessage then ⟨{ m with phase := .passed }, [.passed], none⟩
  else ⟨m, [], none⟩

/-- The simulation ends the run. A run that is not over yet is summed up as it is. -/
def onTimeout (m : Monitor) (now : Instant) : Turn :=
  match m.phase with
  | .passed => ⟨m, [], none⟩
  | .settling => ⟨{ m with phase := .passed }, [.passed], none⟩
  | .monitoring =>
    match m.tally.finalizeEarly now with
    | ⟨tally, signals, .error fault⟩ => ⟨{ m with tally := tally }, signals, some fault⟩
    | ⟨tally, signals, .ok report⟩ =>
      match conclude { m with tally := tally } report with
      | (m, some fault) => ⟨m, signals, some fault⟩
      | (m, none) => ⟨{ m with phase := .passed }, signals ++ [.passed], none⟩

/-- The files of the run once nobody uses the monitor any more. -/
def files (m : Monitor) : Option Output :=
  match m.output with
  | some o => some o.release
  | none => m.released

end Monitor

end Motewatch
