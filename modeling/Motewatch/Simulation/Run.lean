import Motewatch.Simulation.Agenda

/-!
# Running a simulation

A simulation takes the next event off its agenda, sets its clock to the time of the event, and lets
the event act; then the world may act, too. Both act by giving commands: to enter another event, or
to halt. A halted simulation takes no more events and keeps its agenda.

## Main definitions

* `Simulator` — the clock and the agenda.
* `Command`, `Behaviour` — what events and the world may do.
* `step`, `run` — one event, and events until there is none or the simulation is halted.
-/

namespace Motewatch.Simulation

/-- The clock of a simulation, its agenda, and whether it has been halted. -/
structure Simulator (ε : Type) where
  now : Instant
  agenda : Agenda ε
  halted : Bool

/-- What may be asked of a simulation. -/
inductive Command (ε : Type)
  | enter (time : Instant) (event : ε)
  | halt

/-- How events and the world act in a simulation with a state `ω` of the world. Both see the
simulation as it is before they act. -/
structure Behaviour (ε ω : Type) where
  /-- What an event does. -/
  execute : Simulator ε → ε → ω → ω × List (Command ε)
  /-- What the world does after each event. -/
  afterEvent : Simulator ε → ω → ω × List (Command ε)

namespace Simulator
variable {ε ω : Type}

/-- A simulation before its first event. -/
def fresh : Simulator ε := ⟨.zero, .empty, false⟩

/-- How many events are to come. -/
def pending (s : Simulator ε) : Nat := s.agenda.size

/-- Enters an event. -/
def enter (s : Simulator ε) (time : Instant) (event : ε) : Simulator ε :=
  { s with agenda := s.agenda.enter time event }

/-- Enters events one after the other. -/
def enterAll (s : Simulator ε) (events : List (Instant × ε)) : Simulator ε :=
  { s with agenda := s.agenda.enterAll events }

/-- Carries out a command. -/
def obey (s : Simulator ε) : Command ε → Simulator ε
  | .enter time event => s.enter time event
  | .halt => { s with halted := true }

/-- Carries out commands in order. -/
def obeyAll (s : Simulator ε) (commands : List (Command ε)) : Simulator ε :=
  commands.foldl obey s

/-- Takes the next event, if the simulation is not halted and there is one. -/
def step (b : Behaviour ε ω) (s : Simulator ε) (w : ω) : Option (Simulator ε × ω) :=
  if s.halted then none
  else
    match s.agenda.entries with
    | [] => none
    | e :: rest =>
      let s := { s with now := e.time, agenda := { s.agenda with entries := rest } }
      let (w, commands) := b.execute s e.event w
      let s := s.obeyAll commands
      let (w, commands) := b.afterEvent s w
      some (s.obeyAll commands, w)

/-- Takes events until the simulation is halted or there is none, and at most `limit` of them. -/
def run (b : Behaviour ε ω) : Nat → Simulator ε → ω → Simulator ε × ω
  | 0, s, w => (s, w)
  | limit + 1, s, w =>
    match s.step b w with
    | none => (s, w)
    | some (s, w) => s.run b limit w

end Simulator

end Motewatch.Simulation
