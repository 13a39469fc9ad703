import Motewatch.Simulation.Run

/-!
# Scripted events

Events whose effects are written down beforehand. A script is finite, so a simulation of scripted
events ends by itself.

## Main definitions

* `Scripted`, `Action` — an event and what it does.
* `Stage` — a world that keeps a record of what happens and acts after given numbers of events.
* `Stage.behaviour`, `Stage.run` — the simulation of scripted events.
-/

namespace Motewatch.Simulation

mutual

/-- An event that does the given things, under a number by which it is known. -/
inductive Scripted
  | mk (id : Nat) (actions : List Action)

/-- What an event does. -/
inductive Action
  /-- Enter an event at a time. -/
  | enter (time : Instant) (event : Scripted)
  /-- Enter an event after a delay. -/
  | enterAfter (delay : Instant) (event : Scripted)
  | halt

end

mutual

/-- How many events the actions of an event can enter, in the end. -/
def Scripted.weight : Scripted → Nat
  | .mk _ actions => weightOf actions

/-- How many events an action can enter, in the end. -/
def Action.weight : Action → Nat
  | .enter _ event => event.weight + 1
  | .enterAfter _ event => event.weight + 1
  | .halt => 0

/-- How many events some actions can enter, in the end. -/
def weightOf : List Action → Nat
  | [] => 0
  | a :: rest => a.weight + weightOf rest

end

/-- The command for an action at the time that the clock shows. -/
def Action.command (now : Instant) : Action → Command Scripted
  | .enter time event => .enter time event
  | .enterAfter delay event => .enter (now.add delay) event
  | .halt => .halt

/-- What is noted of an event: its number, its time, and how many events were to come after it. -/
structure Note where
  id : Nat
  now : Instant
  pending : Nat
  deriving DecidableEq

/-- A world that notes each event, counts the events, and acts after given numbers of them. -/
structure Stage where
  notes : List Note
  ticks : Nat
  onTick : List (Nat × List Action)

namespace Stage

/-- The actions after a number of events. -/
def actionsAt (w : Stage) (tick : Nat) : List Action := (w.onTick.lookup tick).getD []

/-- Events are noted and then act. -/
def behaviour : Behaviour Scripted Stage where
  execute s event w := match event with
    | .mk id actions =>
      ({ w with notes := w.notes ++ [⟨id, s.now, s.pending⟩] }, actions.map (·.command s.now))
  afterEvent s w :=
    ({ w with ticks := w.ticks + 1 }, (w.actionsAt (w.ticks + 1)).map (·.command s.now))

/-- More events than can still happen. -/
def limit (s : Simulator Scripted) (w : Stage) : Nat :=
  (s.agenda.entries.map fun e => e.event.weight + 1).foldr (· + ·) 0 +
    (w.onTick.map fun t => weightOf t.2).foldr (· + ·) 0 + 1

/-- Takes events until the simulation is halted or there is none. -/
def run (s : Simulator Scripted) (w : Stage) : Simulator Scripted × Stage :=
  s.run behaviour (limit s w) w

end Stage

end Motewatch.Simulation
