import Mathlib.Algebra.Group.Nat.Defs
import Motewatch.CommandLine.Run
import Motewatch.Proofs.Replay.Sum
import Motewatch.Proofs.Tally.Statistics

/-!
# How a replay ends

A replay ends when the test passes. If no line ends the run, that is when its time is up. Otherwise
the monitor has asked for its message with the line that ended the run, and the message and the time
limit race each other: the test passes with the first of them. The time limit stands in the queue
from the beginning, so that it comes first if both have the same time, and the lines between are
ignored.

## Main definitions

* `GoesOn` — the run of a world goes on.
* `Awaits` — the run of a world has ended, and its message is still to come.
* `Ended` — how a replay has ended.

## Main results

* `GoesOn.run_lines` — lines that do not end the run are taken in one after the other.
* `Awaits.run_race` — the race of the message with the time limit.
* `run_ends` — how every replay ends.
-/

namespace Motewatch

namespace Markers
variable {m : Markers} {total : Nat} {events : List Event}

/-- If all nodes complete, the events of the run are those up to the one with which the last node
does. -/
theorem exists_last_consumed (htotal : 1 ≤ total)
    (hcovers : m.covers total (m.consumed total events)) :
    ∃ before last rest, events = before ++ last :: rest ∧
      m.consumed total events = before ++ [last] ∧
      ∀ j ≤ before.length, ¬m.covers total (before.take j) := by
  obtain ⟨k, hk, hconsumed, hbefore, -⟩ := m.exists_consumed_eq total events
  rw [hconsumed] at hcovers
  obtain ⟨k, rfl⟩ : ∃ i, k = i + 1 := by
    refine Nat.exists_eq_succ_of_ne_zero fun hzero => ?_
    rw [hzero, List.take_zero] at hcovers
    exact not_covers_nil htotal hcovers
  refine ⟨events.take k, events[k], events.drop (k + 1), ?_, ?_, fun j hj => ?_⟩
  · rw [List.getElem_cons_drop, List.take_append_drop]
  · rw [hconsumed, List.take_append_getElem]
  · have hjk : j ≤ k := by
      rw [List.length_take] at hj
      omega
    rw [List.take_take, Nat.min_eq_left hjk]
    exact hbefore j (Nat.lt_succ_of_le hjk)

/-- If not all nodes complete, all events are events of the run. -/
theorem consumed_eq_of_not_covers (hnot : ¬m.covers total (m.consumed total events)) :
    m.consumed total events = events ∧ ∀ j ≤ events.length, ¬m.covers total (events.take j) := by
  obtain ⟨k, hk, hconsumed, hbefore, hall⟩ := m.exists_consumed_eq total events
  rw [hconsumed] at hnot
  obtain rfl : k = events.length := by
    by_contra hne
    exact hnot (hall (by omega))
  refine ⟨by rw [hconsumed, List.take_length], fun j hj => ?_⟩
  rcases Nat.lt_or_eq_of_le hj with hlt | rfl
  · exact hbefore j hlt
  · exact hnot

end Markers

namespace Replay
open Simulation (Timeline enqueue)

variable {rules : Rules} {t : Tally} {w : World} {l : Timeline Happening} {e : Event}
variable {report : Report} {m limit : Instant}

/-! ## While the run goes on -/

/-- Speeds change nothing about messages and nothing about whether the test has passed. -/
theorem note_of_speeds (now : Instant) (c : Control) {signals : List Signal}
    (h : ∀ s ∈ signals, ∃ x, s = .speed x) :
    (signals.foldl (Control.note now) c).messages = c.messages ∧
      (signals.foldl (Control.note now) c).passedAt = c.passedAt := by
  induction signals generalizing c with
  | nil => exact ⟨rfl, rfl⟩
  | cons signal rest ih =>
      obtain ⟨x, rfl⟩ := h signal (List.mem_cons_self ..)
      exact ih (Control.note now c (.speed x)) fun s hs => h s (List.mem_cons_of_mem _ hs)

/-- The run goes on: nothing has come of it yet. -/
structure GoesOn (rules : Rules) (t : Tally) (w : World) : Prop where
  phase : w.monitor.phase = .monitoring
  rules_eq : w.monitor.rules = rules
  tally_eq : w.monitor.tally = t
  able : w.monitor.Able
  fault : w.fault = none
  messages : w.control.messages = []
  passedAt : w.control.passedAt = none
  timedOut : w.timedOut = false

/-- The run has ended with a report, and the message is to come at a time. -/
structure Awaits (m : Instant) (report : Report) (w : World) : Prop where
  phase : w.monitor.phase = .settling
  report_eq : w.monitor.report = some report
  fault : w.fault = none
  messages : w.control.messages = [(m, sleepMessage)]
  passedAt : w.control.passedAt = none
  timedOut : w.timedOut = false

/-- The test has passed at a time, which is the last one of the replay. -/
structure Ended (finish : Instant) (messages : List (Instant × String)) (timedOut : Bool)
    (report : Report) (l : Timeline Happening) (w : World) : Prop where
  now : l.now = finish
  passedAt : w.control.passedAt = some finish
  messages_eq : w.control.messages = messages
  timedOut_eq : w.timedOut = timedOut
  report_eq : w.monitor.report = some report
  fault : w.fault = none

/-- When the test passes, the replay has come to its end. -/
theorem run_pass {time : Instant} {h : Happening} {behind : List (Instant × Happening)}
    (hhalted : l.halted = false) (hqueue : l.queue = (time, h) :: behind)
    (hfault : (w.monitor.answer (call time h)).fault = none)
    (hsignals : (w.monitor.answer (call time h)).signals = [.passed])
    (hreport : (w.monitor.answer (call time h)).monitor.report = some report)
    (hnone : w.fault = none) (hpassedAt : w.control.passedAt = none) (steps : Nat) :
    let last := l.run act (steps + 1) w
    Ended time w.control.messages (act time h w).1.timedOut report last.1 last.2 := by
  intro last
  have hcommands : (act time h w).2 = [.halt] := by simp [act, hfault, hsignals, commands]
  have hlast : last = ({ now := time, queue := behind, halted := true }, (act time h w).1) := by
    refine (Timeline.run_succ hhalted hqueue steps w).trans ?_
    rw [hcommands]
    exact Timeline.run_of_halted rfl steps _
  rw [hlast]
  refine ⟨rfl, ?_, ?_, rfl, hreport, ?_⟩
  · simp [act, heed, hsignals, Control.note, hpassedAt]
  · simp [act, heed, hsignals, Control.note]
  · simp [act, heed, hfault, hnone]

namespace GoesOn
variable (h : GoesOn rules t w)
include h

theorem isOpen : t.isSealed = false := by
  cases hs : t.isSealed with
  | false => rfl
  | true => exact absurd ⟨h.phase, h.tally_eq ▸ hs⟩ h.able.unstranded

theorem answer_fault (c : Call) :
    (w.monitor.answer c).fault = none ∧ (w.monitor.answer c).monitor.Able :=
  h.able.reply (Monitor.reply_answer w.monitor c)

/-- What a line leads to while the run goes on is what the tally makes of it. -/
theorem answer_line (e : Event) :
    ∃ r, rules.record t e = .ok r ∧
      (w.monitor.answer (.event e)).monitor.rules = rules ∧
      (w.monitor.answer (.event e)).monitor.tally = r.tally ∧
      match r.report with
      | none => (w.monitor.answer (.event e)).monitor.phase = .monitoring ∧
          (w.monitor.answer (.event e)).signals = r.signals
      | some report => (w.monitor.answer (.event e)).monitor.phase = .settling ∧
          (w.monitor.answer (.event e)).monitor.report = some report ∧
          (w.monitor.answer (.event e)).signals =
            [.message (sleepDelay r.tally.speed) sleepMessage] := by
  have hopen : w.monitor.tally.isSealed = false := h.tally_eq ▸ h.isOpen
  rcases Monitor.answer_event_of_open h.phase hopen e with
    ⟨cause, hcause⟩ | ⟨r, hr, -, hrules, htally, hnext⟩
  · rw [(h.answer_fault _).1] at hcause
    contradiction
  · rw [h.rules_eq, h.tally_eq] at hr
    exact ⟨r, hr, hrules.trans h.rules_eq, htally, hnext⟩

/-- A line that does not end the run is taken in, and the run goes on. -/
theorem act_line {r : Recorded} (hr : rules.record t e = .ok r) (hnone : r.report = none) :
    (act e.time (.line e) w).2 = [] ∧ GoesOn rules r.tally (act e.time (.line e) w).1 := by
  obtain ⟨r', hr', hrules, htally, hnext⟩ := h.answer_line e
  obtain rfl := Except.ok.inj (hr.symm.trans hr')
  rw [hnone] at hnext
  obtain ⟨hphase, hsignals⟩ := hnext
  obtain ⟨hfault, hable⟩ := h.answer_fault (.event e)
  have hspeeds : ∀ s ∈ r.signals, ∃ x, s = .speed x := fun s => Rules.signals_record hr
  obtain ⟨hmessages, hpassedAt⟩ := note_of_speeds e.time w.control hspeeds
  constructor
  · simp [act, call, hfault, hsignals, commands_of_speeds e.time hspeeds]
  · refine ⟨hphase, hrules, htally, hable, ?_, ?_, ?_, ?_⟩
    · simp [act, call, heed, hfault, h.fault]
    · simp [act, call, heed, hsignals, hmessages, h.messages]
    · simp [act, call, heed, hsignals, hpassedAt, h.passedAt]
    · simp [act, heed, h.timedOut]

/-- The line that ends the run leads to the report and to the request for the message. -/
theorem act_last {r : Recorded} (hr : rules.record t e = .ok r) (hsome : r.report = some report) :
    (act e.time (.line e) w).2 =
        [.enter (e.time.add (sleepDelay report.speed)) (.message sleepMessage)] ∧
      Awaits (e.time.add (sleepDelay report.speed)) report (act e.time (.line e) w).1 := by
  obtain ⟨r', hr', -, -, hnext⟩ := h.answer_line e
  obtain rfl := Except.ok.inj (hr.symm.trans hr')
  rw [hsome] at hnext
  obtain ⟨hphase, hreport, hsignals⟩ := hnext
  obtain ⟨hfault, -⟩ := h.answer_fault (.event e)
  rw [Rules.speed_record hr hsome]
  constructor
  · simp [act, call, hfault, hsignals, commands]
  · refine ⟨hphase, hreport, ?_, ?_, ?_, ?_⟩
    · simp [act, call, heed, hfault, h.fault]
    · simp [act, call, heed, hsignals, Control.note, h.messages]
    · simp [act, call, heed, hsignals, Control.note, h.passedAt]
    · simp [act, heed, h.timedOut]

/-- **Lines that do not end the run are taken in one after the other**, and the run goes on behind
them. -/
theorem run_lines {lines : List Event} {behind : List (Instant × Happening)}
    (hopen : (rules.advanceAll t lines).isSealed = false) (hhalted : l.halted = false)
    (hqueue : l.queue = lines.map arrival ++ behind) (steps : Nat) :
    ∃ now w', l.run act (lines.length + steps) w = Timeline.run act steps ⟨now, behind, false⟩ w' ∧
      GoesOn rules (rules.advanceAll t lines) w' := by
  induction lines generalizing l t w with
  | nil =>
      obtain ⟨now, queue, halted⟩ := l
      obtain rfl : queue = behind := hqueue
      obtain rfl : halted = false := hhalted
      exact ⟨now, w, by rw [List.length_nil, Nat.zero_add], h⟩
  | cons e rest ih =>
      have hr := Rules.record_of_open rules e h.isOpen
      have hadvance : rules.advance t e =
          (t.tick.take rules.speedChange e (rules.kindFor t e)).tally :=
        Rules.advance_of_record hr
      rw [Rules.advanceAll_cons, hadvance] at hopen ⊢
      have hnone : (t.tick.take rules.speedChange e (rules.kindFor t e)).report = none := by
        have hsealed := Rules.isSealed_record hr
        cases hreport : (t.tick.take rules.speedChange e (rules.kindFor t e)).report with
        | none => rfl
        | some report =>
          rw [hreport] at hsealed
          rw [Rules.advanceAll_of_sealed rules hsealed, hsealed] at hopen
          contradiction
      obtain ⟨hcommands, hgoes⟩ := h.act_line hr hnone
      have hlength : (e :: rest).length + steps = rest.length + steps + 1 := by
        rw [List.length_cons]
        omega
      rw [hlength, Timeline.run_succ hhalted hqueue, hcommands]
      exact ih hgoes hopen hhalted rfl

/-- If the time is up before the run ends, the replay ends with it. -/
theorem run_limit {behind : List (Instant × Happening)} (hhalted : l.halted = false)
    (hqueue : l.queue = (limit, .timeout) :: behind) (steps : Nat) :
    let last := l.run act (steps + 1) w
    Ended limit [] true (t.report limit true) last.1 last.2 := by
  intro last
  have hopen : w.monitor.tally.isSealed = false := h.tally_eq ▸ h.isOpen
  rcases Monitor.answer_timeout_of_open h.phase hopen limit with
    ⟨cause, hcause⟩ | ⟨hfault, -, hreport, -, hsignals⟩
  · rw [(h.answer_fault _).1] at hcause
    contradiction
  · rw [h.tally_eq] at hreport
    have hlate : (act limit .timeout w).1.timedOut = true := by simp [act, heed]
    have hended := run_pass hhalted hqueue hfault hsignals hreport h.fault h.passedAt steps
    rwa [h.messages, hlate] at hended

end GoesOn

/-! ## The race of the message with the time limit -/

namespace Awaits
variable (h : Awaits m report w)
include h

/-- Lines are ignored when the run has ended. -/
theorem act_line (now : Instant) (e : Event) : act now (.line e) w = (w, []) := by
  have hne : w.monitor.phase ≠ .monitoring := by simp [h.phase]
  have hanswer : w.monitor.answer (.event e) = ⟨w.monitor, [], none⟩ :=
    Monitor.onEvent_of_ne hne e
  simp [act, call, heed, hanswer]

/-- The message passes the test. -/
theorem run_message {behind : List (Instant × Happening)} (hhalted : l.halted = false)
    (hqueue : l.queue = (m, .message sleepMessage) :: behind) (steps : Nat) :
    let last := l.run act (steps + 1) w
    Ended m [(m, sleepMessage)] false report last.1 last.2 := by
  have hanswer : w.monitor.answer (.message sleepMessage) =
      ⟨{ w.monitor with phase := .passed }, [.passed], none⟩ := by
    simp [Monitor.answer, Monitor.onMessage, h.phase]
  have hreport : (w.monitor.answer (.message sleepMessage)).monitor.report = some report := by
    rw [hanswer, h.report_eq]
  have hended := run_pass hhalted hqueue (by rw [call, hanswer]) (by rw [call, hanswer]) hreport
    h.fault h.passedAt steps
  have hearly : (act m (.message sleepMessage) w).1.timedOut = false := by
    simp [act, heed, h.timedOut]
  rwa [h.messages, hearly] at hended

/-- The time limit passes the test as well. -/
theorem run_limit {behind : List (Instant × Happening)} (hhalted : l.halted = false)
    (hqueue : l.queue = (limit, .timeout) :: behind) (steps : Nat) :
    let last := l.run act (steps + 1) w
    Ended limit [(m, sleepMessage)] true report last.1 last.2 := by
  have hanswer : w.monitor.answer (.timeout limit) =
      ⟨{ w.monitor with phase := .passed }, [.passed], none⟩ := by
    simp [Monitor.answer, Monitor.onTimeout, h.phase]
  have hreport : (w.monitor.answer (.timeout limit)).monitor.report = some report := by
    rw [hanswer, h.report_eq]
  have hended := run_pass hhalted hqueue (by rw [call, hanswer]) (by rw [call, hanswer]) hreport
    h.fault h.passedAt steps
  have hlate : (act limit .timeout w).1.timedOut = true := by simp [act, heed]
  rwa [h.messages, hlate] at hended

/-- **The race of the message with the time limit.** The message comes behind whatever is not later,
so that it loses if both have the same time. -/
theorem run_race {lines : List Event} {later : List (Instant × Happening)} {steps : Nat}
    (hhalted : l.halted = false)
    (hqueue : l.queue =
      enqueue m (.message sleepMessage) (lines.map arrival ++ (limit, .timeout) :: later))
    (hlines : ∀ e ∈ lines, e.time ≤ limit) (hsteps : lines.length < steps) :
    let last := l.run act steps w
    Ended (if limit ≤ m then limit else m) [(m, sleepMessage)] (decide (limit ≤ m)) report
      last.1 last.2 := by
  obtain ⟨steps, rfl⟩ : ∃ k, steps = k + 1 := ⟨steps - 1, by omega⟩
  induction lines generalizing l steps with
  | nil =>
      rw [List.map_nil, List.nil_append, Simulation.enqueue_cons] at hqueue
      by_cases hfirst : limit ≤ m
      · simp only [hfirst, if_true, decide_true] at hqueue ⊢
        exact h.run_limit hhalted hqueue steps
      · simp only [hfirst, if_false, decide_false] at hqueue ⊢
        exact h.run_message hhalted hqueue steps
  | cons e rest ih =>
      rw [List.map_cons, List.cons_append, Simulation.enqueue_cons, arrival] at hqueue
      by_cases hfirst : e.time ≤ m
      · rw [if_pos hfirst] at hqueue
        obtain ⟨steps, rfl⟩ : ∃ k, steps = k + 1 := ⟨steps - 1, by
          rw [List.length_cons] at hsteps
          omega⟩
        rw [Timeline.run_succ hhalted hqueue, h.act_line]
        exact ih (l := { l with now := e.time, queue := _ }) hhalted rfl
          (fun e he => hlines e (List.mem_cons_of_mem _ he)) steps (Nat.lt_of_succ_lt_succ hsteps)
      · rw [if_neg hfirst] at hqueue
        have hlate : ¬limit ≤ m := by
          have hle := hlines e (List.mem_cons_self ..)
          rw [Instant.le_def] at hle hfirst ⊢
          omega
        simp only [hlate, if_false, decide_false]
        exact h.run_message hhalted hqueue steps

end Awaits

/-! ## Whole replays -/

theorem time_le_of_mem_upTo {events : List Event} (he : e ∈ Trace.upTo limit events) :
    e.time ≤ limit := by
  have hmem := (sortBy_perm ..).mem_iff.1 he
  simpa using List.of_mem_filter hmem

/-- A replay begins with a new monitor, and nothing has come of it yet. -/
theorem world_eq_ok {s : Settings} {events : List Event} {output : Option Output}
    (h : world s events output = .ok w) :
    ∃ total t, nodeCount s events = .ok total ∧ Tally.start total s.speed = .ok t ∧
      w = ⟨⟨⟨s.markers, s.speedChange⟩, t, output, none, .monitoring, none⟩,
        ⟨[s.speed], [], none⟩, false, none⟩ := by
  unfold world at h
  cases htotal : nodeCount s events with
  | error fault => simp [htotal, bind, Except.bind] at h
  | ok total =>
    cases hstart : Monitor.ofSettings s total output with
    | error fault => simp [htotal, hstart, bind, Except.bind] at h
    | ok begun =>
      obtain ⟨t, ht, hmonitor, hsignals⟩ := Monitor.start_eq_ok hstart
      simp only [htotal, hstart, bind, Except.bind, hmonitor, hsignals, Except.ok.injEq] at h
      exact ⟨total, t, rfl, ht, h.symm⟩

/-- Whatever is replayed, a replay that meets no fault has a report. -/
theorem isSome_report_of_run {s : Settings} {events : List Event} {output : Option Output}
    {outcome : Outcome} (h : (run s events output).1 = .ok outcome) :
    outcome.report.isSome = true := by
  cases hworld : world s events output with
  | error cause =>
      rw [run_eq, hworld] at h
      contradiction
  | ok w =>
      obtain ⟨total, t, -, ht, rfl⟩ := world_eq_ok hworld
      have hopen := (Tally.isNew_of_start ht).isOpen
      obtain ⟨r, hsum, hsome⟩ := Rules.exists_sumUp ⟨s.markers, s.speedChange⟩ s.timeout
        (Trace.upTo s.timeout events) hopen
      rcases run_shows hworld rfl hopen rfl hsum with ⟨cause, hcause⟩ | ⟨outcome', hok, hreport, -⟩
      · rw [h] at hcause
        contradiction
      · obtain rfl := Except.ok.inj (h.symm.trans hok)
        rw [hreport, hsome]

/-- The program never finds itself without a report after a replay. -/
theorem invoke_ne_noReport (arguments : List String) (clock : String) (tree : Storage.Tree) :
    (CommandLine.invoke arguments clock tree).1 ≠ .noReport := by
  have hreplayed : ∀ a outcome, (CommandLine.perform a clock tree).1 = .ok outcome →
      outcome.report.isSome = true := by
    intro a outcome h
    unfold CommandLine.perform at h
    split at h
    · contradiction
    · split at h
      · contradiction
      · split at h <;> rename_i hrun <;> exact isSome_report_of_run (by rw [hrun]; exact h)
  unfold CommandLine.invoke
  split
  · simp
  · rename_i a _
    have hreport := hreplayed a
    generalize CommandLine.perform a clock tree = performed at hreport
    obtain ⟨_ | outcome, _⟩ := performed
    · simp [CommandLine.Ending.ofResult]
    · obtain ⟨report, hsome⟩ := Option.isSome_iff_exists.1 (hreport outcome rfl)
      simp [CommandLine.Ending.ofResult, hsome]

section
variable {s : Settings} {events : List Event} {output : Option Output} {total : Nat}

/-- What came of a replay that has ended. -/
theorem exists_outcome_of_ended {finish : Instant} {messages : List (Instant × String)}
    {timedOut : Bool} (hworld : world s events output = .ok w)
    (hended : let last := (begun s events).run act (events.length + 2) w
      Ended finish messages timedOut report last.1 last.2) :
    ∃ outcome, (run s events output).1 = .ok outcome ∧ outcome.report = some report ∧
      outcome.control.passedAt = some finish ∧ outcome.control.messages = messages ∧
      outcome.finishedAt = finish ∧ outcome.timedOut = timedOut := by
  rw [run_eq, hworld]
  refine ⟨outcome _ _, by simp only [hended.fault], hended.report_eq, hended.passedAt,
    hended.messages_eq, hended.now, hended.timedOut_eq⟩

/-- **If a line ends the run**, the replay ends with the message or with the time limit, whichever
comes first. -/
theorem ended_of_covers {start : Tally} (h : GoesOn rules start w)
    (hstart : Tally.start total s.speed = .ok start)
    (hcovers : rules.markers.covers total
      (rules.markers.consumed total (Trace.upTo s.timeout events))) :
    ∃ line report, (rules.markers.consumed total (Trace.upTo s.timeout events)).getLast? =
        some line ∧ line.time ≤ s.timeout ∧ report.timedOut = false ∧
      let m := line.time.add (sleepDelay report.speed)
      let last := (begun s events).run act (events.length + 2) w
      Ended (if s.timeout ≤ m then s.timeout else m) [(m, sleepMessage)]
        (decide (s.timeout ≤ m)) report last.1 last.2 := by
  obtain ⟨before, line, rest, hdue, hconsumed, hmissing⟩ :=
    Markers.exists_last_consumed (Tally.one_le_of_start hstart) hcovers
  have hlength := Trace.length_upTo_add_length_beyond s.timeout events
  have htimes : ∀ e ∈ before ++ line :: rest, e.time ≤ s.timeout := by
    rw [← hdue]
    exact fun e => time_le_of_mem_upTo
  rw [hdue, List.length_append, List.length_cons] at hlength
  rw [hconsumed] at hcovers ⊢
  have hopen : (rules.advanceAll start before).isSealed = false :=
    Rules.isOpen_advanceAll hstart hmissing
  have hqueue : (begun s events).queue = before.map arrival ++ arrival line ::
      (rest.map arrival ++ (s.timeout, .timeout) ::
        (Trace.beyond s.timeout events).map arrival) := by
    simp [begun, hdue]
  obtain ⟨r, hr, hreport⟩ := Rules.exists_record_advanceAll hstart hmissing line
  obtain ⟨report, hsome⟩ := Option.isSome_iff_exists.1 (hreport.2 hcovers)
  refine ⟨line, report, by simp, htimes line (by simp), ?_, ?_⟩
  · rw [(Rules.report_record hr hsome).1]
    rfl
  · obtain ⟨steps, hsteps⟩ : ∃ k, events.length + 2 = before.length + (k + 1) :=
      ⟨events.length + 1 - before.length, by omega⟩
    obtain ⟨now, w', hlines, hgoes⟩ := h.run_lines (l := begun s events) hopen rfl hqueue (steps + 1)
    obtain ⟨hcommands, hawaits⟩ := hgoes.act_last hr hsome
    rw [hsteps, hlines, Timeline.run_succ rfl rfl, hcommands]
    exact hawaits.run_race rfl rfl (fun e he => htimes e (by simp [he])) (by omega)

/-- **If no line ends the run**, the replay ends when its time is up. -/
theorem ended_of_not_covers {start : Tally} (h : GoesOn rules start w)
    (hstart : Tally.start total s.speed = .ok start)
    (hnot : ¬rules.markers.covers total
      (rules.markers.consumed total (Trace.upTo s.timeout events))) :
    ∃ report, report.timedOut = true ∧
      let last := (begun s events).run act (events.length + 2) w
      Ended s.timeout [] true report last.1 last.2 := by
  obtain ⟨-, hmissing⟩ := Markers.consumed_eq_of_not_covers hnot
  have hlength := Trace.length_upTo_add_length_beyond s.timeout events
  have hopen : (rules.advanceAll start (Trace.upTo s.timeout events)).isSealed = false :=
    Rules.isOpen_advanceAll hstart hmissing
  obtain ⟨steps, hsteps⟩ : ∃ k, events.length + 2 = (Trace.upTo s.timeout events).length + (k + 1) :=
    ⟨events.length + 1 - (Trace.upTo s.timeout events).length, by omega⟩
  obtain ⟨now, w', hlines, hgoes⟩ := h.run_lines (l := begun s events) hopen rfl rfl (steps + 1)
  rw [hsteps, hlines]
  exact ⟨_, rfl, hgoes.run_limit rfl rfl steps⟩

/-- **How every replay ends.** On working devices, with settings that are not refused and known nodes,
every replay comes to an end after at most two things more than there are events, with a report, and
the test has passed with the last thing that happened. If the lines up to the time limit complete the
run, then the message is due a delay after the last one of them, at the latest at the end of time;
the replay ends with the message or the time limit, whichever comes first, where the time limit comes
first if both have the same time, and the report is complete. Otherwise no message is asked for, the
replay ends with the time limit, and the report says so. The program never misses a report. -/
theorem run_ends (hs : s.validate = .ok ()) (hnodes : NodesKnown s events)
    (hworks : ∀ o ∈ output, o.Works) :
    ∃ total outcome report, nodeCount s events = .ok total ∧
      (run s events output).1 = .ok outcome ∧ outcome.report = some report ∧
      outcome.control.passedAt = some outcome.finishedAt ∧
      (∀ w, let last := (simulator s events).run behaviour (events.length + 2) w
        last.1.step behaviour last.2 = none) ∧
      (∀ arguments clock tree, (CommandLine.invoke arguments clock tree).1 ≠ .noReport) ∧
      let consumed := s.markers.consumed total (Trace.upTo s.timeout events)
      (s.markers.covers total consumed → ∃ last m, consumed.getLast? = some last ∧
        last.time ≤ s.timeout ∧
        m.micros = min (last.time.micros + (sleepDelay report.speed).micros) (2 ^ 64 - 1) ∧
        outcome.control.messages = [(m, "sleep")] ∧
        outcome.finishedAt.micros = min m.micros s.timeout.micros ∧
        (outcome.timedOut = true ↔ s.timeout ≤ m) ∧ report.timedOut = false) ∧
      (¬s.markers.covers total consumed → outcome.control.messages = [] ∧
        outcome.finishedAt = s.timeout ∧ outcome.timedOut = true ∧ report.timedOut = true) := by
  obtain ⟨total, start, htotal, hstart, hworld⟩ := exists_world hs hnodes output
  have hopen := (Tally.isNew_of_start hstart).isOpen
  have hgoes : GoesOn ⟨s.markers, s.speedChange⟩ start
      ⟨⟨⟨s.markers, s.speedChange⟩, start, output, none, .monitoring, none⟩,
        ⟨[s.speed], [], none⟩, false, none⟩ :=
    ⟨rfl, rfl, rfl, ⟨hworks, by simp [Monitor.Stranded, hopen]⟩, rfl, rfl, rfl, rfl⟩
  have hstep := step_run_simulator s events
  by_cases hcovers : s.markers.covers total
      (s.markers.consumed total (Trace.upTo s.timeout events))
  · obtain ⟨line, report, hline, hle, htimedOut, hended⟩ :=
      ended_of_covers hgoes hstart hcovers
    obtain ⟨outcome, hok, hreport, hpassedAt, hmessages, hfinish, hlate⟩ :=
      exists_outcome_of_ended hworld hended
    refine ⟨total, outcome, report, htotal, hok, hreport, by rw [hpassedAt, hfinish], hstep,
      invoke_ne_noReport, fun _ => ⟨line, _, hline, hle, rfl, hmessages, ?_, ?_, htimedOut⟩,
      fun hnot => absurd hcovers hnot⟩
    · rw [hfinish]
      split <;> rename_i hfirst <;> rw [Instant.le_def] at hfirst <;> omega
    · rw [hlate, decide_eq_true_eq]
  · obtain ⟨report, htimedOut, hended⟩ := ended_of_not_covers hgoes hstart hcovers
    obtain ⟨outcome, hok, hreport, hpassedAt, hmessages, hfinish, hlate⟩ :=
      exists_outcome_of_ended hworld hended
    exact ⟨total, outcome, report, htotal, hok, hreport, by rw [hpassedAt, hfinish], hstep,
      invoke_ne_noReport, fun hcovers' => absurd hcovers' hcovers,
      fun _ => ⟨hmessages, hfinish, hlate, htimedOut⟩⟩

/-- The only node completes five seconds before the time limit, which then still comes first if the
message takes no less than that. -/
theorem run_ends_one_node :
    let e : Event := ⟨⟨1⟩, .ofMicros 17995000000, "pkt->type = complete"⟩
    let output : Output := ⟨.fresh .working, .fresh .working, .full, [], []⟩
    ∃ outcome report m, (run .standard [e] (some output)).1 = .ok outcome ∧
      outcome.report = some report ∧ report.timedOut = false ∧
      outcome.control.messages = [(m, "sleep")] ∧
      m.micros = min (17995000000 + (sleepDelay report.speed).micros) (2 ^ 64 - 1) ∧
      (outcome.timedOut = true ↔ Settings.standard.timeout ≤ m) := by
  intro e output
  have hnodes : NodesKnown .standard [e] := Or.inr ⟨by simp, by simp [e]⟩
  have hworks : ∀ o ∈ some output, o.Works := by
    rintro o ⟨⟩
    exact ⟨rfl, rfl⟩
  obtain ⟨total, outcome, report, htotal, hok, hreport, -, -, -, hcomplete, -⟩ :=
    run_ends (s := .standard) rfl hnodes hworks
  obtain rfl : 1 = total := Except.ok.inj htotal
  have hdue : Trace.upTo Settings.standard.timeout [e] = [e] := by
    have hkept : [e].filter (·.time ≤ Settings.standard.timeout) = [e] := by decide +kernel
    rw [Trace.upTo, hkept]
    simp [sortBy]
  have hconsumed : Settings.standard.markers.consumed 1 [e] = [e] := by decide +kernel
  rw [hdue, hconsumed] at hcomplete
  obtain ⟨last, m, hlast, -, hm, hmessages, -, hlate, htimedOut⟩ := hcomplete (by decide +kernel)
  obtain rfl := Option.some.inj hlast
  exact ⟨outcome, report, m, hok, hreport, htimedOut, hmessages, hm, hlate⟩

end

end Replay

end Motewatch
