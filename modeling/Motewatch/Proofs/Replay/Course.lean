import Motewatch.Proofs.Monitor.Stranding
import Motewatch.Proofs.Simulation.Queue
import Motewatch.Replay

/-!
# The course of a replay

What happens in a replay looks at nothing but the clock, so that a replay can be followed on a
timeline. At first the lines that are due by the time limit stand in the queue, in the order of their
times, then the time limit, and then the other lines. The only thing that is ever added is the
message that the monitor asks for when the run is over, so that a replay comes to its end.

## Main definitions

* `Trace.upTo`, `Trace.beyond` — the lines up to the time limit and behind it.
* `Trace.Interleaves` — traces with the same lines at each time.
* `act` — what something that happens does to the world.
* `begun` — the timeline of a replay that begins.
* `stepsLeft` — how many things can still happen.

## Main results

* `run_eq_act` — a replay is a run on its timeline.
* `run_of_interleaves` — how lines of different times are interleaved makes no difference.
* `step_run_simulator` — a replay comes to its end.
* `fault_run_of_works` — on working devices a replay meets no fault.
-/

namespace Motewatch

namespace Trace

/-- The events up to a time, in the order of their times. Events of one time stay in their order. -/
def upTo (limit : Instant) (events : List Event) : List Event :=
  sortBy (·.time.micros) (events.filter (·.time ≤ limit))

/-- The events behind a time, in the order of their times. -/
def beyond (limit : Instant) (events : List Event) : List Event :=
  sortBy (·.time.micros) (events.filter (limit < ·.time))

theorem length_upTo_add_length_beyond (limit : Instant) (events : List Event) :
    (upTo limit events).length + (beyond limit events).length = events.length := by
  rw [upTo, beyond, (sortBy_perm ..).length_eq, (sortBy_perm ..).length_eq]
  simp only [Instant.lt_iff_not_le, decide_not]
  exact (List.length_eq_length_filter_add _).symm

/-- The traces have the same lines at each time, in the same order: they differ at most in how lines
of different times are interleaved. -/
def Interleaves (events' events : List Event) : Prop :=
  ∀ time : Instant, events'.filter (·.time = time) = events.filter (·.time = time)

namespace Interleaves
variable {events' events : List Event}

theorem filter_micros (h : Interleaves events' events) (k : Nat) :
    events'.filter (·.time.micros = k) = events.filter (·.time.micros = k) := by
  by_cases hk : k < wordLimit
  · have htime : ∀ e : Event, decide (e.time = ⟨k, hk⟩) = decide (e.time.micros = k) := by
      intro e
      exact decide_eq_decide.2 ⟨fun heq => by rw [heq], fun heq => Instant.ext heq⟩
    simpa only [htime] using h ⟨k, hk⟩
  · have hnone : ∀ e : Event, decide (e.time.micros = k) = false := by
      intro e
      have := e.time.micros_lt
      exact decide_eq_false (by omega)
    simp [hnone]

/-- Parts that are chosen by the time of an event have the same order. -/
theorem sortBy_filter (h : Interleaves events' events) (p : Event → Bool) :
    sortBy (·.time.micros) (events'.filter p) = sortBy (·.time.micros) (events.filter p) := by
  refine sortBy_congr _ fun k => ?_
  have hcomm : ∀ l : List Event, (l.filter p).filter (·.time.micros = k) =
      (l.filter (·.time.micros = k)).filter p := by
    intro l
    rw [List.filter_filter, List.filter_filter]
    exact List.filter_congr fun e _ => Bool.and_comm _ _
  rw [hcomm, hcomm, h.filter_micros]

theorem perm (h : Interleaves events' events) : events'.Perm events := by
  have heq := sortBy_congr (fun e : Event => e.time.micros) h.filter_micros
  exact (sortBy_perm _ events').symm.trans (heq ▸ sortBy_perm _ events)

theorem maxNode? (h : Interleaves events' events) : maxNode? events' = maxNode? events := by
  have hperm := h.perm.map (·.node.number)
  refine Option.ext fun n => ?_
  simp only [Trace.maxNode?, List.max?_eq_some_iff, hperm.mem_iff]

end Interleaves

end Trace

namespace Replay
open Simulation (Simulator Command Timeline Agenda)

variable {now : Instant} {h : Happening} {w : World}

/-! ## What happens -/

/-- What the monitor is told of what happens. -/
def call (now : Instant) : Happening → Call
  | .line e => .event e
  | .message text => .message text
  | .timeout => .timeout now

/-- The world after the monitor has answered. -/
def heed (now : Instant) (h : Happening) (w : World) (t : Turn) : World where
  monitor := t.monitor
  control := t.signals.foldl (Control.note now) w.control
  timedOut := w.timedOut || (h matches .timeout)
  fault := t.fault.or w.fault

/-- What something that happens does to the world, and what it asks of the simulation. -/
def act (now : Instant) (h : Happening) (w : World) : World × List (Command Happening) :=
  let t := w.monitor.answer (call now h)
  (heed now h w t, t.signals.flatMap (commands now) ++ if t.fault.isSome then [.halt] else [])

theorem turn_eq_answer (now : Instant) (m : Monitor) (h : Happening) :
    turn now m h = m.answer (call now h) := by
  cases h <;> rfl

/-- What happens looks at nothing but the clock. -/
theorem behaviour_byClock : behaviour.ByClock act := by
  refine ⟨fun s h w => ?_, fun _ _ => rfl⟩
  simp only [behaviour, act, heed, turn_eq_answer]
  cases (w.monitor.answer (call s.now h)).fault <;> cases h <;> simp

/-- An event of a trace happens at its time. -/
def arrival (e : Event) : Instant × Happening := (e.time, .line e)

/-- The timeline of a replay that begins: the lines up to the time limit come before it. -/
def begun (s : Settings) (events : List Event) : Timeline Happening where
  now := .zero
  queue := (Trace.upTo s.timeout events).map arrival ++
    (s.timeout, .timeout) :: (Trace.beyond s.timeout events).map arrival
  halted := false

theorem timeline_simulator (s : Settings) (events : List Event) :
    (simulator s events).timeline = begun s events := by
  have hqueue : (simulator s events).agenda.queue = (begun s events).queue := by
    refine (Agenda.queue_enterAll_empty _).trans ?_
    rw [sortBy_append_singleton]
    change sortBy _ ((events.map arrival).filter _) ++
      _ :: sortBy _ ((events.map arrival).filter _) = _
    rw [List.filter_map, List.filter_map, sortBy_map, sortBy_map]
    rfl
  simp only [Simulator.timeline, hqueue]
  rfl

/-- **A replay is a run on its timeline.** -/
theorem run_eq_act (s : Settings) (events : List Event) (limit : Nat) (w : World) :
    (((simulator s events).run behaviour limit w).1.timeline,
      ((simulator s events).run behaviour limit w).2) = (begun s events).run act limit w := by
  have hstamped : (simulator s events).agenda.Stamped := Agenda.stamped_enterAll_empty _
  rw [← timeline_simulator]
  exact (Simulator.timeline_run behaviour_byClock hstamped limit w).1

/-- What came of a replay that met no fault. -/
def outcome (l : Timeline Happening) (w : World) : Outcome where
  report := w.monitor.report
  control := w.control
  timedOut := w.timedOut
  total := w.monitor.tally.total
  seen := w.monitor.tally.seen
  finishedAt := l.now

/-- What came of a replay, read off its timeline. -/
theorem run_eq (s : Settings) (events : List Event) (output : Option Output) :
    run s events output = match world s events output with
      | .error cause => (.error (.settings cause), output.map Output.release)
      | .ok w =>
        let last := (begun s events).run act (events.length + 2) w
        (match last.2.fault with
          | some fault => .error fault
          | none => .ok (outcome last.1 last.2), last.2.monitor.files) := by
  unfold run
  cases world s events output with
  | error cause => rfl
  | ok w =>
      simp only [← run_eq_act s events (events.length + 2) w]
      cases ((simulator s events).run behaviour (events.length + 2) w).2.fault <;> rfl

/-- **How lines of different times are interleaved makes no difference.** -/
theorem run_of_interleaves {events' events : List Event} (h : Trace.Interleaves events' events)
    (s : Settings) (output : Option Output) : run s events' output = run s events output := by
  have hbegun : begun s events' = begun s events := by
    simp only [begun, Trace.upTo, Trace.beyond, h.sortBy_filter]
  have hworld : world s events' output = world s events output := by
    simp only [world, nodeCount, h.maxNode?]
  rw [run_eq, run_eq, hworld, hbegun, h.perm.length_eq]

/-! ## How a replay comes to its end -/

/-- An able monitor stays able, and no fault comes up. -/
theorem fault_run_of_works (hworks : w.fault = none ∧ w.monitor.Able) (limit : Nat)
    (l : Timeline Happening) :
    (l.run act limit w).2.fault = none ∧ (l.run act limit w).2.monitor.Able := by
  refine Timeline.run_keeps (P := fun w : World => w.fault = none ∧ w.monitor.Able)
    (fun now h w hw => ?_) hworks limit l
  obtain ⟨hnone, hable⟩ := hw
  obtain ⟨hfault, hable⟩ := hable.reply (Monitor.reply_answer w.monitor (call now h))
  exact ⟨by simp [act, heed, hfault, hnone], hable⟩

/-- How many messages may still be asked for. -/
def requestsLeft : Phase → Nat
  | .monitoring => 1
  | .settling => 0
  | .passed => 0

/-- How many things can still happen: what stands in the queue, and what may be asked for. -/
def stepsLeft (l : Timeline Happening) (w : World) : Nat :=
  l.queue.length + requestsLeft w.monitor.phase

/-- A monitor asks for a message only when it leaves the first phase. -/
theorem length_requests_reply {m : Monitor} {c : Call} {t : Turn} (hreply : m.Reply c t) :
    (requests t.signals).length + requestsLeft t.monitor.phase ≤ requestsLeft m.phase := by
  cases hreply with
  | ignored => simp
  | counted _ _ hr => simp [requests_of_speeds fun s => Rules.signals_record hr]
  | ended hp => simp [hp, requestsLeft]
  | closed hp => simp [hp, requestsLeft]
  | passed _ hp => simp [hp, requestsLeft]
  | _ => simp

/-- The signals that the monitor gives add the messages that they ask for to the queue. -/
theorem length_queue_obeyAll (now : Instant) (l : Timeline Happening) (signals : List Signal)
    (halts : Bool) :
    (l.obeyAll (signals.flatMap (commands now) ++ if halts then [.halt] else [])).queue.length =
      l.queue.length + (requests signals).length := by
  induction signals generalizing l with
  | nil => cases halts <;> rfl
  | cons signal rest ih =>
      cases signal with
      | speed x => exact ih l
      | message delay text =>
          have hrest := ih (l.obey (.enter (now.add delay) (.message text)))
          rw [Timeline.obey, Simulation.length_enqueue] at hrest
          have hcons : (requests (.message delay text :: rest)).length =
              (requests rest).length + 1 := rfl
          rw [hcons]
          exact hrest.trans (by omega)
      | passed => exact ih (l.obey .halt)

/-- With everything that happens, less can still happen. -/
theorem stepsLeft_step {l l' : Timeline Happening} {w w' : World}
    (hstep : l.step act w = some (l', w')) : stepsLeft l' w' < stepsLeft l w := by
  unfold Timeline.step at hstep
  split at hstep
  · contradiction
  · split at hstep
    · contradiction
    · rename_i time event rest hqueue
      obtain ⟨rfl, rfl⟩ := Prod.mk.inj (Option.some.inj hstep)
      have hadded := length_requests_reply (Monitor.reply_answer w.monitor (call time event))
      simp only [stepsLeft, act, length_queue_obeyAll, heed, hqueue, List.length_cons]
      omega

/-- **A replay has come to its end** after two things more than it has events, if not before. -/
theorem step_run_simulator (s : Settings) (events : List Event) (w : World) :
    let last := (simulator s events).run behaviour (events.length + 2) w
    last.1.step behaviour last.2 = none := by
  intro last
  have hleft : stepsLeft (begun s events) w ≤ events.length + 2 := by
    have hlength := Trace.length_upTo_add_length_beyond s.timeout events
    have hasked : requestsLeft w.monitor.phase ≤ 1 := by cases w.monitor.phase <;> decide
    simp only [stepsLeft, begun, List.length_append, List.length_map, List.length_cons]
    omega
  have hend := Timeline.step_run (fun _ _ _ _ => stepsLeft_step) hleft
  have hstamped : last.1.agenda.Stamped :=
    (Simulator.timeline_run behaviour_byClock (Agenda.stamped_enterAll_empty _) _ w).2
  rw [← run_eq_act] at hend
  have hstep := (Simulator.timeline_step behaviour_byClock hstamped last.2).1
  exact Option.map_eq_none_iff.1 (hstep.trans hend)

end Replay

end Motewatch
