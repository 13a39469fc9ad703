import Motewatch.Monitor
import Motewatch.Simulation.Run

/-!
# Replays

A replay is a simulation in which the events of a trace happen again. A monitor watches it. The
simulation ends the run when its time is up, and sends back the messages that the monitor asks for.

## Main definitions

* `Happening` — what happens in a replay.
* `Control` — the signals that the monitor has given.
* `World`, `behaviour` — the monitor in the simulation.
* `Replay.run` — replays events.
-/

namespace Motewatch.Replay
open Simulation (Simulator Behaviour Command)

/-- What happens in a replay. -/
inductive Happening
  /-- A node prints a line. -/
  | line (e : Event)
  /-- A message comes back to the monitor. -/
  | message (text : String)
  /-- The time of the run is up. -/
  | timeout

/-- The signals that the monitor has given. -/
structure Control where
  speeds : List Float
  /-- The messages asked for, with the times at which they come back. -/
  messages : List (Instant × String)
  /-- When the test passed. -/
  passedAt : Option Instant

/-- Nothing has been asked for. -/
def Control.silent : Control := ⟨[], [], none⟩

/-- Whether the test has passed. -/
def Control.passed (c : Control) : Bool := c.passedAt.isSome

/-- Takes down a signal that is given at a time. -/
def Control.note (now : Instant) (c : Control) : Signal → Control
  | .speed x => { c with speeds := c.speeds ++ [x] }
  | .message delay text => { c with messages := c.messages ++ [(now.add delay, text)] }
  | .passed => { c with passedAt := some (c.passedAt.getD now) }

/-- What a signal that is given at a time asks of the simulation. -/
def commands (now : Instant) : Signal → List (Command Happening)
  | .speed _ => []
  | .message delay text => [.enter (now.add delay) (.message text)]
  | .passed => [.halt]

/-- The monitor in the simulation. -/
structure World where
  monitor : Monitor
  control : Control
  /-- Whether the time of the run was up before the simulation was halted. -/
  timedOut : Bool
  fault : Option Fault

/-- What the monitor makes of what happens. -/
def turn (now : Instant) (m : Monitor) : Happening → Turn
  | .line e => m.onEvent e
  | .message text => m.onMessage text
  | .timeout => m.onTimeout now

/-- The monitor is told what happens, and its signals are followed. A fault halts the simulation. -/
def behaviour : Behaviour Happening World where
  execute s h w :=
    let t := turn s.now w.monitor h
    let w := { w with
      monitor := t.monitor
      control := t.signals.foldl (Control.note s.now) w.control
      timedOut := w.timedOut || (h matches .timeout) }
    match t.fault with
    | none => (w, t.signals.flatMap (commands s.now))
    | some fault => ({ w with fault := some fault }, t.signals.flatMap (commands s.now) ++ [.halt])
  afterEvent _ w := (w, [])

/-- What came of a replay. -/
structure Outcome where
  report : Option Report
  control : Control
  /-- Whether the time of the run was up before the simulation was halted. -/
  timedOut : Bool
  total : Nat
  /-- How many events were taken in. -/
  seen : Nat
  finishedAt : Instant

/-- The number of nodes: as it is set, else the largest number of a node among the events. -/
def nodeCount (s : Settings) (events : List Event) : Except Settings.Fault Nat :=
  match s.totalNodes.or (Trace.maxNode? events) with
  | some n => .ok n
  | none => .error .unknownNodes

/-- The simulation before its first event: the events of the trace in order, and the time limit. -/
def simulator (s : Settings) (events : List Event) : Simulator Happening :=
  Simulator.fresh.enterAll (events.map (fun e => (e.time, .line e)) ++ [(s.timeout, .timeout)])

/-- The monitor before the first event. -/
def world (s : Settings) (events : List Event) (output : Option Output) :
    Except Settings.Fault World := do
  let total ← nodeCount s events
  let (monitor, signals) ← Monitor.ofSettings s total output
  .ok ⟨monitor, signals.foldl (Control.note .zero) .silent, false, none⟩

/-- Replays events. The files are handed back given up. At most one message is asked for, so that no
more than two things happen beside the events. -/
def run (s : Settings) (events : List Event) (output : Option Output) :
    Except Fault Outcome × Option Output :=
  match world s events output with
  | .error cause => (.error (.settings cause), output.map Output.release)
  | .ok w =>
    let (sim, w) := (simulator s events).run behaviour (events.length + 2) w
    match w.fault with
    | some fault => (.error fault, w.monitor.files)
    | none =>
      (.ok ⟨w.monitor.report, w.control, w.timedOut, w.monitor.tally.total, w.monitor.tally.seen,
        sim.now⟩, w.monitor.files)

end Motewatch.Replay
