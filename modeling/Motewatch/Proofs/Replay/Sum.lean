import Motewatch.Proofs.Replay.Course
import Motewatch.Proofs.Settings.Validation
import Motewatch.Proofs.Tally.Speed

/-!
# Replays as plain sums

A simulation, with its agenda, its messages and its time limit, is a long way round to something
simple: the lines up to the time limit are taken into the tally, in the order of their times, until
one of them ends the run; and if none does, the run is summed up as it is when its time is up.

## Main definitions

* `Shows` — the world shows what a run came to.

## Main results

* `Shows.run` — once the run is over, nothing changes what the world shows.
* `shows_run_due` — the lines of the queue lead to what they sum up to.
* `run_sums_up` — a replay is a plain sum.
-/

namespace Motewatch

namespace Replay
open Simulation (Simulator Command Timeline)

/-- The speeds that are asked for are taken down in order. -/
theorem speeds_note (now : Instant) (c : Control) (signals : List Signal) :
    (signals.foldl (Control.note now) c).speeds = c.speeds ++ speeds signals := by
  induction signals generalizing c with
  | nil => simp
  | cons signal rest ih =>
      rw [List.foldl_cons, ih]
      cases signal with
      | speed x => simp [Control.note, speeds, Signal.speed?]
      | message delay text => rfl
      | passed => rfl

/-- Nothing is asked of the simulation for a speed. -/
theorem commands_of_speeds (now : Instant) {signals : List Signal}
    (h : ∀ s ∈ signals, ∃ x, s = .speed x) : signals.flatMap (commands now) = [] := by
  rw [List.flatMap_eq_nil_iff]
  intro s hs
  obtain ⟨x, rfl⟩ := h s hs
  rfl

/-- The world shows what a run came to that began with the given speeds. -/
structure Shows (w : World) (before : List Float) (r : Recorded) : Prop where
  fault : w.fault = none
  report : w.monitor.report = r.report
  tally : w.monitor.tally = r.tally
  speeds : w.control.speeds = before ++ speeds r.signals

variable {now : Instant} {h : Happening} {w : World} {l : Timeline Happening} {r : Recorded}
variable {before : List Float}

theorem speeds_act (now : Instant) (h : Happening) (w : World) :
    (act now h w).1.control.speeds =
      w.control.speeds ++ speeds (w.monitor.answer (call now h)).signals :=
  speeds_note now w.control _

/-- A monitor that has left the first phase only waits. -/
theorem idle_reply {m : Monitor} {c : Call} {t : Turn} (hreply : m.Reply c t)
    (hp : m.phase ≠ .monitoring) :
    t.fault = none ∧ t.monitor.report = m.report ∧ t.monitor.tally = m.tally ∧
      speeds t.signals = [] ∧ t.monitor.phase ≠ .monitoring := by
  cases hreply with
  | ignored => exact ⟨rfl, rfl, rfl, rfl, hp⟩
  | passed => exact ⟨rfl, rfl, rfl, rfl, by simp⟩
  | _ => contradiction

theorem Shows.act (hw : Shows w before r) (hp : w.monitor.phase ≠ .monitoring) :
    Shows (act now h w).1 before r ∧ (act now h w).1.monitor.phase ≠ .monitoring := by
  obtain ⟨hfault, hreport, htally, hspeeds, hphase⟩ :=
    idle_reply (Monitor.reply_answer w.monitor (call now h)) hp
  refine ⟨⟨?_, ?_, ?_, ?_⟩, hphase⟩
  · simp [Replay.act, heed, hfault, hw.fault]
  · exact hreport.trans hw.report
  · exact htally.trans hw.tally
  · simp [Replay.act, heed, speeds_note, hspeeds, hw.speeds]

/-- **Once the run is over, nothing changes what the world shows.** -/
theorem Shows.run (hw : Shows w before r) (hp : w.monitor.phase ≠ .monitoring) (limit : Nat)
    (l : Timeline Happening) : Shows (l.run Replay.act limit w).2 before r :=
  (Timeline.run_keeps (P := fun w : World => Shows w before r ∧ w.monitor.phase ≠ .monitoring)
    (fun _ _ _ hw => hw.1.act hw.2) ⟨hw, hp⟩ limit l).1

/-- A fault halts the simulation. -/
theorem fault_run_of_fault {fault : Fault}
    (hfault : (w.monitor.answer (call now h)).fault = some fault) (limit : Nat)
    (l : Timeline Happening) :
    ((l.obeyAll (act now h w).2).run act limit (act now h w).1).2.fault = some fault := by
  have hhalted : (l.obeyAll (act now h w).2).halted = true := by
    simp [act, hfault, Timeline.obeyAll, Timeline.obey]
  rw [Timeline.run_of_halted hhalted]
  simp [act, heed, hfault]

section
variable (hp : w.monitor.phase = .monitoring) (hopen : w.monitor.tally.isSealed = false)
variable (hfault : w.fault = none)
include hp hopen hfault

/-- While the run goes on, the world follows what the tally makes of a line, unless a file cannot be
written. Only the line that ends the run asks anything of the simulation. -/
theorem act_line_of_open (e : Event) :
    (∃ cause, (w.monitor.answer (.event e)).fault = some (.storage cause)) ∨
      ∃ r, w.monitor.rules.record w.monitor.tally e = .ok r ∧
        (act e.time (.line e) w).1.monitor.rules = w.monitor.rules ∧
        (act e.time (.line e) w).1.fault = none ∧
        (act e.time (.line e) w).1.monitor.tally = r.tally ∧
        (act e.time (.line e) w).1.control.speeds = w.control.speeds ++ speeds r.signals ∧
        match r.report with
        | none => (act e.time (.line e) w).1.monitor.phase = .monitoring ∧
            (act e.time (.line e) w).2 = []
        | some report => (act e.time (.line e) w).1.monitor.phase = .settling ∧
            (act e.time (.line e) w).1.monitor.report = some report := by
  rcases Monitor.answer_event_of_open hp hopen e with
    hcause | ⟨r, hr, hnone, hrules, htally, hanswer⟩
  · exact Or.inl hcause
  · have hworld : (act e.time (.line e) w).1.fault = none := by
      simp [act, call, heed, hnone, hfault]
    refine Or.inr ⟨r, hr, hrules, hworld, htally, ?_, ?_⟩
    · rw [speeds_act, call]
      cases hreport : r.report with
      | none =>
          rw [hreport] at hanswer
          rw [hanswer.2]
      | some report =>
          rw [hreport] at hanswer
          rw [hanswer.2.2, speeds_message, (Rules.report_record hr hreport).2, speeds_nil]
    · cases hreport : r.report with
      | none =>
          rw [hreport] at hanswer
          refine ⟨hanswer.1, ?_⟩
          have hquiet := commands_of_speeds e.time fun s => Rules.signals_record hr
          simp [act, call, hnone, hanswer.2, hquiet]
      | some report =>
          rw [hreport] at hanswer
          exact ⟨hanswer.1, hanswer.2.1⟩

/-- While the run goes on, the time limit sums it up, unless a file cannot be written. -/
theorem act_timeout_of_open (limit : Instant) :
    (∃ cause, (w.monitor.answer (.timeout limit)).fault = some (.storage cause)) ∨
      (Shows (act limit .timeout w).1 w.control.speeds
          ⟨w.monitor.tally.close, [], some (w.monitor.tally.report limit true)⟩ ∧
        (act limit .timeout w).1.monitor.phase = .passed) := by
  rcases Monitor.answer_timeout_of_open hp hopen limit with
    hcause | ⟨hnone, htally, hreport, hphase, hsignals⟩
  · exact Or.inl hcause
  · refine Or.inr ⟨⟨?_, hreport, htally, ?_⟩, hphase⟩
    · simp [act, call, heed, hnone, hfault]
    · rw [speeds_act, call, hsignals, speeds_passed, speeds_nil]

end

/-- **The lines of the queue lead to what they sum up to**, unless a file cannot be written. -/
theorem shows_run_due {due : List Event} {limit : Instant} {later : List (Instant × Happening)}
    {steps : Nat} (hp : w.monitor.phase = .monitoring) (hopen : w.monitor.tally.isSealed = false)
    (hfault : w.fault = none) (hhalted : l.halted = false)
    (hqueue : l.queue = due.map arrival ++ (limit, .timeout) :: later)
    (hsum : w.monitor.rules.sumUp limit w.monitor.tally due = .ok r) (hsteps : due.length < steps) :
    (∃ cause, (l.run act steps w).2.fault = some (.storage cause)) ∨
      Shows (l.run act steps w).2 w.control.speeds r := by
  induction due generalizing l w r steps with
  | nil =>
      obtain ⟨steps, rfl⟩ : ∃ k, steps = k + 1 := ⟨steps - 1, by omega⟩
      rw [Timeline.run_succ hhalted hqueue]
      rw [Rules.sumUp_nil _ _ hopen] at hsum
      obtain rfl := Except.ok.inj hsum
      rcases act_timeout_of_open hp hopen hfault limit with ⟨cause, hcause⟩ | ⟨hshows, hphase⟩
      · exact Or.inl ⟨cause, fault_run_of_fault hcause _ _⟩
      · exact Or.inr (hshows.run (by rw [hphase]; decide) _ _)
  | cons e rest ih =>
      obtain ⟨steps, rfl⟩ : ∃ k, steps = k + 1 := ⟨steps - 1, by omega⟩
      rw [Timeline.run_succ hhalted hqueue]
      rcases act_line_of_open hp hopen hfault e with
        ⟨cause, hcause⟩ | ⟨r', hr, hrules, hworld, htally, hspeeds, hnext⟩
      · exact Or.inl ⟨cause, fault_run_of_fault hcause _ _⟩
      · have hsealed := Rules.isSealed_record hr
        cases hreport : r'.report with
        | none =>
            rw [hreport] at hnext hsealed
            obtain ⟨hphase, hcommands⟩ := hnext
            obtain ⟨last, hlast, -⟩ := Rules.exists_sumUp w.monitor.rules limit rest hsealed
            rw [Rules.sumUp_of_none hr hreport hlast] at hsum
            obtain rfl := Except.ok.inj hsum
            have hless : rest.length < steps := Nat.lt_of_succ_lt_succ hsteps
            have hlines := ih (w := (act e.time (.line e) w).1)
              (l := { l with now := e.time, queue := rest.map arrival ++ (limit, .timeout) :: later })
              hphase (by rw [htally, hsealed]; rfl) hworld hhalted rfl
              (by rw [hrules, htally, hlast]) hless
            rw [hcommands]
            refine hlines.imp_right fun hshows => ?_
            refine ⟨hshows.fault, hshows.report, hshows.tally, hshows.speeds.trans ?_⟩
            rw [hspeeds, speeds_append, List.append_assoc]
        | some report =>
            rw [hreport] at hnext
            obtain ⟨hphase, hkept⟩ := hnext
            rw [Rules.sumUp_of_some hr (by rw [hreport]; rfl)] at hsum
            obtain rfl := Except.ok.inj hsum
            have hshows : Shows (act e.time (.line e) w).1 w.control.speeds r' :=
              ⟨hworld, hkept.trans hreport.symm, htally, hspeeds⟩
            exact Or.inr (hshows.run (by rw [hphase]; decide) _ _)

/-! ## Whole replays -/

/-- Settings that are not refused have a speed, and not zero nodes. -/
theorem of_validate {s : Settings} (hs : s.validate = .ok ()) :
    s.totalNodes ≠ some 0 ∧ isSpeed s.speed = true := by
  obtain ⟨hnodes, hspeed, -⟩ := (Settings.validate_eq_ok_iff s).1 hs
  exact ⟨hnodes, hspeed⟩

/-- The nodes of a run are known, and there is at least one. -/
def NodesKnown (s : Settings) (events : List Event) : Prop :=
  s.totalNodes.isSome = true ∨ (events ≠ [] ∧ ∀ e ∈ events, 1 ≤ e.node.number)

theorem exists_nodeCount {s : Settings} {events : List Event} (hs : s.totalNodes ≠ some 0)
    (hnodes : NodesKnown s events) : ∃ total, nodeCount s events = .ok total ∧ 1 ≤ total := by
  rw [nodeCount]
  cases hset : s.totalNodes with
  | some total =>
      refine ⟨total, rfl, ?_⟩
      have : total ≠ 0 := fun h => hs (by rw [hset, h])
      omega
  | none =>
      obtain ⟨hne, hnumbers⟩ := hnodes.resolve_left (by simp [hset])
      have hnumbers' : events.map (·.node.number) ≠ [] := by simpa using hne
      obtain ⟨total, htotal⟩ := Option.isSome_iff_exists.1 (List.isSome_max?_of_ne_nil hnumbers')
      refine ⟨total, by simp [Trace.maxNode?, htotal], ?_⟩
      obtain ⟨e, he, rfl⟩ := List.mem_map.1 (List.max?_mem htotal)
      exact hnumbers e he

/-- A replay begins with a monitor that has taken in nothing and has asked for the speed. -/
theorem exists_world {s : Settings} {events : List Event} (hs : s.validate = .ok ())
    (hnodes : NodesKnown s events) (output : Option Output) :
    ∃ total t, nodeCount s events = .ok total ∧ Tally.start total s.speed = .ok t ∧
      world s events output = .ok ⟨⟨⟨s.markers, s.speedChange⟩, t, output, none, .monitoring, none⟩,
        ⟨[s.speed], [], none⟩, false, none⟩ := by
  obtain ⟨hzero, hspeed⟩ := of_validate hs
  obtain ⟨total, htotal, hpos⟩ := exists_nodeCount hzero hnodes
  obtain ⟨t, ht⟩ := Tally.exists_start_iff.2 ⟨hpos, hspeed⟩
  refine ⟨total, t, htotal, ht, ?_⟩
  have hstart : Monitor.ofSettings s total output =
      .ok (⟨⟨s.markers, s.speedChange⟩, t, output, none, .monitoring, none⟩, [.speed s.speed]) := by
    simp [Monitor.ofSettings, Monitor.start, ht, bind, Except.bind]
  simp [world, htotal, hstart, bind, Except.bind, Control.note, Control.silent]

/-- A replay shows what its lines sum up to, unless a file cannot be written. -/
theorem run_shows {s : Settings} {events : List Event} {output : Option Output}
    (hworld : world s events output = .ok w) (hp : w.monitor.phase = .monitoring)
    (hopen : w.monitor.tally.isSealed = false) (hfault : w.fault = none)
    (hsum : w.monitor.rules.sumUp s.timeout w.monitor.tally (Trace.upTo s.timeout events) = .ok r) :
    (∃ cause, (run s events output).1 = .error (.storage cause)) ∨
      ∃ outcome, (run s events output).1 = .ok outcome ∧ outcome.report = r.report ∧
        outcome.seen = r.tally.seen ∧
        outcome.control.speeds = w.control.speeds ++ speeds r.signals := by
  have hlength := Trace.length_upTo_add_length_beyond s.timeout events
  have hlines := shows_run_due (l := begun s events) hp hopen hfault rfl rfl hsum
    (show (Trace.upTo s.timeout events).length < events.length + 2 by omega)
  rw [run_eq, hworld]
  rcases hlines with ⟨cause, hcause⟩ | hshows
  · exact Or.inl ⟨cause, by simp only [hcause]⟩
  · refine Or.inr ⟨outcome _ _, by simp only [hshows.fault]; rfl, hshows.report, ?_, hshows.speeds⟩
    exact congrArg Tally.seen hshows.tally

/-- **A replay is a plain sum.** For all settings that are not refused and every trace, as long as the
nodes are known: the report, the number of events and the speeds of a replay are those of the lines
up to the time limit, taken in one after the other in the order of their times until one of them ends
the run, and summed up as they are if none does. Only a file that cannot be written keeps a replay
from that, and on working devices there is none. How lines of different times are interleaved makes
no difference, and the replay comes to its end. -/
theorem run_sums_up {s : Settings} {events : List Event} (hs : s.validate = .ok ())
    (hnodes : NodesKnown s events) (output : Option Output) :
    ∃ total t r, nodeCount s events = .ok total ∧ Tally.start total s.speed = .ok t ∧
      Rules.sumUp ⟨s.markers, s.speedChange⟩ s.timeout t (Trace.upTo s.timeout events) = .ok r ∧
      r.report.isSome = true ∧
      (∀ outcome, (run s events output).1 = .ok outcome → outcome.report = r.report ∧
        outcome.seen = r.tally.seen ∧ outcome.control.speeds = s.speed :: speeds r.signals) ∧
      (∀ fault, (run s events output).1 = .error fault → ∃ cause, fault = .storage cause) ∧
      ((∀ o ∈ output, o.Works) → ∃ outcome, (run s events output).1 = .ok outcome) ∧
      (∀ events', Trace.Interleaves events' events → run s events' output = run s events output) ∧
      ∀ w, let last := (simulator s events).run behaviour (events.length + 2) w
        last.1.step behaviour last.2 = none := by
  obtain ⟨total, t, htotal, ht, hworld⟩ := exists_world hs hnodes output
  have hopen := (Tally.isNew_of_start ht).isOpen
  obtain ⟨r, hsum, hreport⟩ := Rules.exists_sumUp ⟨s.markers, s.speedChange⟩ s.timeout
    (Trace.upTo s.timeout events) hopen
  have hcases := run_shows hworld rfl hopen rfl hsum
  refine ⟨total, t, r, htotal, ht, hsum, hreport, ?_, ?_, ?_, ?_, step_run_simulator s events⟩
  · intro outcome hok
    rcases hcases with ⟨cause, hcause⟩ | ⟨outcome', hok', hfacts⟩
    · rw [hok] at hcause
      contradiction
    · obtain rfl := Except.ok.inj (hok.symm.trans hok')
      exact hfacts
  · intro fault herror
    rcases hcases with ⟨cause, hcause⟩ | ⟨outcome', hok', -⟩
    · exact ⟨cause, Except.error.inj (herror.symm.trans hcause)⟩
    · rw [herror] at hok'
      contradiction
  · intro hworks
    have hable := fault_run_of_works (w := ⟨⟨⟨s.markers, s.speedChange⟩, t, output, none,
      .monitoring, none⟩, ⟨[s.speed], [], none⟩, false, none⟩)
      ⟨rfl, hworks, by simp [Monitor.Stranded, hopen]⟩ (events.length + 2) (begun s events)
    rw [run_eq, hworld]
    exact ⟨outcome _ _, by simp only [hable.1]; rfl⟩
  · intro events' h
    exact run_of_interleaves h s output

/-- The run ends with a completion at the time limit itself. A line behind the limit is not taken in,
though it stands first in the trace. -/
theorem run_sums_up_two_nodes :
    let first : Event := ⟨⟨1⟩, .ofMicros 5, "pkt->type = complete"⟩
    let last : Event := ⟨⟨2⟩, .ofMicros 18000000000, "pkt->type = complete"⟩
    let late : Event := ⟨⟨1⟩, .ofMicros 18000000001, "Received"⟩
    let output : Output := ⟨.fresh .working, .fresh .working, .full, [], []⟩
    ∃ outcome, (run .standard [late, last, first] (some output)).1 = .ok outcome ∧
      outcome.seen = 2 ∧ outcome.report.map (·.timedOut) = some false := by
  intro first last late output
  have hnodes : NodesKnown .standard [late, last, first] :=
    Or.inr ⟨by simp, by simp [first, last, late]⟩
  obtain ⟨total, t, r, htotal, ht, hsum, -, hfacts, -, hok, -⟩ :=
    run_sums_up (s := .standard) rfl hnodes (some output)
  obtain ⟨outcome, houtcome⟩ := hok (by rintro o ⟨⟩; exact ⟨rfl, rfl⟩)
  obtain ⟨hreport, hseen, -⟩ := hfacts outcome houtcome
  obtain rfl : 2 = total := Except.ok.inj htotal
  obtain rfl := Except.ok.inj ht
  have hkept : [late, last, first].filter (·.time ≤ Settings.standard.timeout) = [last, first] := by
    decide +kernel
  have hdue : Trace.upTo Settings.standard.timeout [late, last, first] = [first, last] := by
    have hbefore : [last].filter (·.time.micros ≤ first.time.micros) = [] := by decide +kernel
    have hbehind : [last].filter (first.time.micros < ·.time.micros) = [last] := by decide +kernel
    rw [Trace.upTo, hkept]
    refine (sortBy_append_singleton (·.time.micros) [last] first).trans ?_
    rw [hbefore, hbehind]
    simp [sortBy]
  rw [hdue] at hsum
  have hvalue := congrArg
    (fun sum => sum.toOption.map fun r => (r.tally.seen, r.report.map (·.timedOut))) hsum
  have hr : some (r.tally.seen, r.report.map (·.timedOut)) = some (2, some false) :=
    hvalue.symm.trans (by decide +kernel)
  obtain ⟨hr, htimed⟩ := Prod.mk.inj (Option.some.inj hr)
  exact ⟨outcome, houtcome, hseen.trans hr, by rw [hreport, htimed]⟩

end Replay

end Motewatch
