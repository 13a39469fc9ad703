import Motewatch.Proofs.Output.Written
import Motewatch.Proofs.Replay.Sum
import Motewatch.Proofs.Tally.Statistics

/-!
# The files of a replay

A write may fail wherever a line is logged and where the report is written, be it in the middle of a
run, with the line that ends it or when its time is up. The fault then has to find its way through
the monitor and the simulation to whoever replays the trace, and the files are given up on the way.
In the end a replay does the same to its files as logging the events of the run and writing the
report one after the other, and it meets the same fault.

## Main definitions

* `Monitor.Writes` — the run goes on, and the files are open.
* `Closes`, `Wrote` — what a call, and then a replay, has done to the files.

## Main results

* `run_due` — a replay writes out its lines.
* `run_files` — what the files of a replay hold, and which faults it meets.
-/

namespace Motewatch

/-! ## What calls do to the files -/

/-- With the call, the files are given up for good: they are as after writing out something, and the
call meets the fault of that. If there is none, the run is over and the report is kept. -/
structure Closes (t : Turn) (result : Output × Option Storage.Fault) (report : Report) : Prop where
  files : t.monitor.files = some result.1
  fault : t.fault = result.2.map .storage
  isOver : result.2 = none → t.monitor.report = some report ∧ t.monitor.phase ≠ .monitoring

namespace Monitor
variable {m : Monitor} {o : Output} {e : Event} {r : Recorded} {report : Report}

/-- The run goes on, and the files are open. -/
structure Writes (m : Monitor) (o : Output) : Prop where
  phase : m.phase = .monitoring
  isOpen : m.tally.isSealed = false
  output : m.output = some o

namespace Writes
variable (h : m.Writes o)
include h

theorem log_eq (e : Event) :
    m.log e = ({ m with output := some (o.append e).1 }, (o.append e).2.map .storage) := by
  rw [log, h.output]

/-- The files are given up when the report is written, and the phase moves on if it can be. -/
theorem closes_settle (t : Tally) (r : Report) :
    (∀ signals fault, (m.settle t r).2 = some fault →
      Closes ⟨(m.settle t r).1, signals, some fault⟩ (o.finish r) r) ∧
    ∀ signals phase, phase ≠ .monitoring → (m.settle t r).2 = none →
      Closes ⟨{ (m.settle t r).1 with phase := phase }, signals, none⟩ (o.finish r) r := by
  have hfiles : (m.settle t r).1.files = some (o.finish r).1 := by
    rw [settle_fst, files, h.output]
    rfl
  have hwrite : (m.settle t r).2 = (o.finish r).2.map .storage := by
    rw [settle_snd, h.output]
    rfl
  constructor
  · intro signals fault hfault
    rw [hwrite] at hfault
    exact ⟨hfiles, hfault.symm, fun hnone => by simp [hnone] at hfault⟩
  · intro signals phase hphase hnone
    rw [hwrite] at hnone
    exact ⟨hfiles, hnone.symm, fun _ => ⟨report_settle m t r, hphase⟩⟩

/-- A line that cannot be logged is the last one. -/
theorem closes_unlogged {cause : Storage.Fault} (happend : (o.append e).2 = some cause)
    (rest : List Event) (report : Report) :
    Closes (m.answer (.event e)) (o.writeOut (e :: rest) report) report := by
  have hanswer : m.answer (.event e) =
      ⟨{ m with output := some (o.append e).1 }, [], some (.storage cause)⟩ := by
    rw [answer, onEvent_of_eq h.phase, h.log_eq, happend]
    rfl
  rw [hanswer, Output.writeOut_cons_of_some happend]
  exact ⟨rfl, rfl, fun hnone => by contradiction⟩

/-- A line that is logged is taken in. -/
theorem answer_of_logged (happend : (o.append e).2 = none) :
    m.answer (.event e) = takeIn { m with output := some (o.append e).1 } e := by
  rw [answer, onEvent_of_eq h.phase, h.log_eq, happend]
  rfl

/-- A line that does not end the run is logged and counted, and the run goes on. -/
theorem answer_of_quiet (happend : (o.append e).2 = none)
    (hr : m.rules.record m.tally e = .ok r) (hnone : r.report = none) :
    m.answer (.event e) =
      ⟨{ m with output := some (o.append e).1, tally := r.tally }, r.signals, none⟩ := by
  obtain ⟨tally, signals, report?⟩ := r
  obtain rfl : report? = none := hnone
  rw [h.answer_of_logged happend]
  exact takeIn_of_quiet (m := { m with output := some (o.append e).1 }) hr

/-- The line that ends the run is logged, and then the report is written. -/
theorem closes_ended (happend : (o.append e).2 = none)
    (hr : m.rules.record m.tally e = .ok r) (hsome : r.report = some report) :
    Closes (m.answer (.event e)) (o.writeOut [e] report) report := by
  obtain ⟨tally, signals, report?⟩ := r
  obtain rfl : report? = some report := hsome
  have hlogged : Writes { m with output := some (o.append e).1 } (o.append e).1 :=
    ⟨h.phase, h.isOpen, rfl⟩
  have htake := takeIn_of_report (m := { m with output := some (o.append e).1 }) hr
  obtain ⟨hunwritten, hwritten⟩ := hlogged.closes_settle tally report
  rw [h.answer_of_logged happend, Output.writeOut_cons_of_none happend, Output.writeOut_nil, htake]
  cases hwrite : (settle { m with output := some (o.append e).1 } tally report).2 with
  | some fault => exact hunwritten signals fault hwrite
  | none => exact hwritten _ .settling (by decide) hwrite

/-- When the time of the run is up, the report is written. -/
theorem closes_limit (limit : Instant) :
    Closes (m.answer (.timeout limit)) (o.writeOut [] (m.tally.report limit true))
      (m.tally.report limit true) := by
  obtain ⟨hunwritten, hwritten⟩ := h.closes_settle m.tally.close (m.tally.report limit true)
  rw [answer, onTimeout_of_open h.phase h.isOpen, Output.writeOut_nil]
  cases hwrite : (m.settle m.tally.close (m.tally.report limit true)).2 with
  | some fault => exact hunwritten [] fault hwrite
  | none => exact hwritten [.passed] .passed (by decide) hwrite

end Writes

end Monitor

/-! ## What a replay does to its files -/

namespace Replay
open Simulation (Timeline)

variable {now : Instant} {happening : Happening} {w : World} {l : Timeline Happening}
variable {o : Output} {report : Report} {result : Output × Option Storage.Fault}

/-- The replay has written out something and met the fault of that, if there is one. -/
structure Wrote (w : World) (result : Output × Option Storage.Fault) (report : Report) : Prop where
  files : w.monitor.files = some result.1
  fault : w.fault = result.2.map .storage
  report_eq : result.2 = none → w.monitor.report = some report

/-- Once the run is over, no call touches the files. -/
theorem files_of_over {m : Monitor} {c : Call} {t : Turn} (hreply : m.Reply c t)
    (hp : m.phase ≠ .monitoring) : t.monitor.files = m.files := by
  cases hreply with
  | ignored => rfl
  | passed => rfl
  | _ => contradiction

theorem Wrote.run (h : Wrote w result report) (hp : w.monitor.phase ≠ .monitoring) (steps : Nat)
    (l : Timeline Happening) : Wrote (l.run act steps w).2 result report := by
  refine (Timeline.run_keeps
    (P := fun w : World => Wrote w result report ∧ w.monitor.phase ≠ .monitoring)
    (fun now happening w hw => ?_) ⟨h, hp⟩ steps l).1
  obtain ⟨h, hp⟩ := hw
  have hreply := Monitor.reply_answer w.monitor (call now happening)
  obtain ⟨hfault, hreport, -, -, hphase⟩ := idle_reply hreply hp
  refine ⟨⟨(files_of_over hreply hp).trans h.files, ?_, ?_⟩, hphase⟩
  · simp [act, heed, hfault, h.fault]
  · intro hnone
    exact hreport.trans (h.report_eq hnone)

/-- A call with which the files are given up decides what the replay does to them: a fault halts it,
and otherwise the run is over. -/
theorem wrote_of_closes (now : Instant) (happening : Happening) (hnone : w.fault = none)
    (h : Closes (w.monitor.answer (call now happening)) result report) (steps : Nat)
    (l : Timeline Happening) :
    Wrote ((l.obeyAll (act now happening w).2).run act steps (act now happening w).1).2
      result report := by
  have hwrote : Wrote (act now happening w).1 result report := by
    refine ⟨h.files, ?_, fun hresult => (h.isOver hresult).1⟩
    simp [act, heed, hnone, h.fault]
  -- A fault halts the simulation, so that nothing happens any more; without one something may still
  -- happen, but the run is over.
  cases hcause : result.2 with
  | none => exact hwrote.run (h.isOver hcause).2 steps _
  | some cause =>
    have hfault := h.fault
    rw [hcause] at hfault
    have hhalted : (l.obeyAll (act now happening w).2).halted = true := by
      simp [act, hfault, Timeline.obeyAll, Timeline.obey]
    rw [Timeline.run_of_halted hhalted]
    exact hwrote

/-- A line that does not end the run asks nothing of the simulation. -/
theorem act_quiet {e : Event} {r : Recorded} (h : w.monitor.Writes o) (hnone : w.fault = none)
    (happend : (o.append e).2 = none) (hr : w.monitor.rules.record w.monitor.tally e = .ok r)
    (hquiet : r.report = none) :
    (act e.time (.line e) w).2 = [] ∧
      (act e.time (.line e) w).1.monitor =
        { w.monitor with output := some (o.append e).1, tally := r.tally } ∧
      (act e.time (.line e) w).1.fault = none := by
  have hanswer := h.answer_of_quiet happend hr hquiet
  have hcommands := commands_of_speeds e.time fun s => Rules.signals_record hr
  refine ⟨?_, ?_, ?_⟩
  · simp [act, call, hanswer, hcommands]
  · simp [act, call, heed, hanswer]
  · simp [act, call, heed, hanswer, hnone]

/-- **A replay writes out its lines.** The lines that are taken in are logged up to the first one
that cannot be, and after them the report is written. -/
theorem run_due {due : List Event} {limit : Instant} {later : List (Instant × Happening)}
    {steps : Nat} {r : Recorded} (h : w.monitor.Writes o) (hnone : w.fault = none)
    (hhalted : l.halted = false)
    (hqueue : l.queue = due.map arrival ++ (limit, .timeout) :: later)
    (hsum : w.monitor.rules.sumUp limit w.monitor.tally due = .ok r)
    (hreport : r.report = some report) (hsteps : due.length < steps) :
    Wrote (l.run act steps w).2
      (o.writeOut (w.monitor.rules.taken w.monitor.tally due) report) report := by
  -- Each line leaves other files open, namely those with its line logged, so that the files have to
  -- be arbitrary along with the world.
  induction due generalizing l w r steps o with
  | nil =>
      obtain ⟨steps, rfl⟩ : ∃ k, steps = k + 1 := ⟨steps - 1, by omega⟩
      rw [Rules.sumUp_nil _ _ h.isOpen] at hsum
      obtain rfl := Except.ok.inj hsum
      obtain rfl := Option.some.inj hreport
      rw [Timeline.run_succ hhalted hqueue, Rules.taken]
      exact wrote_of_closes limit .timeout hnone (h.closes_limit limit) steps _
  | cons e rest ih =>
      obtain ⟨steps, rfl⟩ : ∃ k, steps = k + 1 := ⟨steps - 1, by omega⟩
      have hr := Rules.record_of_open w.monitor.rules e h.isOpen
      generalize w.monitor.tally.tick.take w.monitor.rules.speedChange e _ = r' at hr
      rw [Timeline.run_succ hhalted hqueue, Rules.taken_cons hr]
      cases happend : (o.append e).2 with
      | some cause =>
        exact wrote_of_closes e.time (.line e) hnone (h.closes_unlogged happend _ report) steps _
      | none =>
        have hsealed := Rules.isSealed_record hr
        cases hreport' : r'.report with
        | some report' =>
          rw [Rules.sumUp_of_some hr (by rw [hreport']; rfl)] at hsum
          obtain rfl := Except.ok.inj hsum
          obtain rfl : report' = report := Option.some.inj (hreport'.symm.trans hreport)
          rw [hreport', Option.isSome_some] at hsealed
          rw [Rules.taken_of_sealed _ hsealed]
          exact wrote_of_closes e.time (.line e) hnone (h.closes_ended happend hr hreport') steps _
        | none =>
          rw [hreport', Option.isSome_none] at hsealed
          obtain ⟨last, hlast, -⟩ := Rules.exists_sumUp w.monitor.rules limit rest hsealed
          rw [Rules.sumUp_of_none hr hreport' hlast] at hsum
          obtain rfl := Except.ok.inj hsum
          obtain ⟨hcommands, hnext, hnone'⟩ := act_quiet h hnone happend hr hreport'
          have hwrites : (act e.time (.line e) w).1.monitor.Writes (o.append e).1 := by
            rw [hnext]
            exact ⟨h.phase, hsealed, rfl⟩
          have hrest := ih (w := (act e.time (.line e) w).1) (r := last)
            (l := { l with now := e.time, queue := rest.map arrival ++ (limit, .timeout) :: later })
            hwrites hnone' hhalted rfl (by rw [hnext]; exact hlast) hreport
            (Nat.lt_of_succ_lt_succ hsteps)
          rw [hnext] at hrest
          rw [hcommands, Output.writeOut_cons_of_none happend]
          exact hrest

/-! ## Whole replays -/

section
variable {s : Settings} {events : List Event}

theorem upTo_ne_nil_iff {limit : Instant} :
    Trace.upTo limit events ≠ [] ↔ ∃ e ∈ events, e.time ≤ limit := by
  have hperm := sortBy_perm (·.time.micros) (events.filter (·.time ≤ limit))
  rw [Trace.upTo, Ne, ← List.length_eq_zero_iff, hperm.length_eq, List.length_eq_zero_iff]
  simp

/-- A replay hands back what its lines came to in the files, and it meets the fault of that. -/
theorem run_wrote {r : Recorded} (hworld : world s events (some o) = .ok w)
    (h : w.monitor.Writes o) (hnone : w.fault = none)
    (hsum : w.monitor.rules.sumUp s.timeout w.monitor.tally (Trace.upTo s.timeout events) = .ok r)
    (hreport : r.report = some report) :
    let written :=
      o.writeOut (w.monitor.rules.taken w.monitor.tally (Trace.upTo s.timeout events)) report
    (run s events (some o)).2 = some written.1 ∧
      ((written.2 = some .noSpace ∧ (run s events (some o)).1 = .error (.storage .noSpace)) ∨
        (written.2 = none ∧ ∃ outcome, (run s events (some o)).1 = .ok outcome ∧
          outcome.report = some report)) := by
  intro written
  have hlength := Trace.length_upTo_add_length_beyond s.timeout events
  have hwrote : Wrote ((begun s events).run act (events.length + 2) w).2 written report :=
    run_due h hnone rfl rfl hsum hreport (by omega)
  have hfault := hwrote.fault
  rw [run_eq, hworld]
  refine ⟨hwrote.files, ?_⟩
  cases hcause : written.2 with
  | some cause =>
    obtain rfl := Output.writeOut_snd hcause
    rw [hcause] at hfault
    exact .inl ⟨rfl, by simp only [hfault, Option.map_some]⟩
  | none =>
    rw [hcause] at hfault
    refine .inr ⟨rfl, outcome ((begun s events).run act (events.length + 2) w).1 _, ?_,
      hwrote.report_eq hcause⟩
    simp only [hfault, Option.map_none]

/-- **What the files of a replay hold, and which faults it meets.** For settings that are not refused
and known nodes, the replay comes to a report as it would without files. A report on the full device
makes the replay fail, and then a log that works holds all lines of the run. A log on the full device
makes it fail exactly if there is a line for it, and then the report is there as a whole, or, if a
line could not even be kept back, it is not begun. So the files of a replay that does not fail are
complete, and what can make it fail is that there is no space left. -/
theorem run_files (hs : s.validate = .ok ()) (hnodes : NodesKnown s events) (hfresh : o.IsFresh) :
    ∃ total t r report files, nodeCount s events = .ok total ∧ Tally.start total s.speed = .ok t ∧
      Rules.sumUp ⟨s.markers, s.speedChange⟩ s.timeout t (Trace.upTo s.timeout events) = .ok r ∧
      r.report = some report ∧ (run s events (some o)).2 = some files ∧
      let lines := s.markers.consumed total (Trace.upTo s.timeout events)
      let result := (run s events (some o)).1
      (o.report.device = .full → result = .error (.storage .noSpace) ∧
        (o.log.sink.device = .working → files.log.sink.written = logText lines)) ∧
      (o.report.device = .working → o.log.sink.device = .full →
        (result = .error (.storage .noSpace) ↔ ∃ e ∈ events, e.time ≤ s.timeout) ∧
        ((o.logAll lines).2 ≠ none → files.report.written = "") ∧
        ((o.logAll lines).2 = none →
          files.report.written = report.render o.format ++ "\n")) ∧
      (∀ outcome, result = .ok outcome → outcome.report = some report ∧
        files.log.sink.written = logText lines ∧
        files.report.written = report.render o.format ++ "\n") ∧
      ∀ fault, result = .error fault → fault = .storage .noSpace := by
  obtain ⟨total, t, htotal, ht, hworld⟩ := exists_world hs hnodes (some o)
  have hopen := (Tally.isNew_of_start ht).isOpen
  obtain ⟨r, hsum, hsome⟩ := Rules.exists_sumUp ⟨s.markers, s.speedChange⟩ s.timeout
    (Trace.upTo s.timeout events) hopen
  obtain ⟨report, hreport⟩ := Option.isSome_iff_exists.1 hsome
  obtain ⟨hfiles, hresult⟩ := run_wrote hworld ⟨rfl, hopen, rfl⟩ rfl hsum hreport
  have hlines : s.markers.consumed total (Trace.upTo s.timeout events) ≠ [] ↔
      ∃ e ∈ events, e.time ≤ s.timeout := by
    rw [← upTo_ne_nil_iff, ← Rules.taken_eq_consumed ⟨s.markers, s.speedChange⟩ ht, Ne,
      Rules.taken_eq_nil_iff hopen]
  refine ⟨total, t, r, report, _, htotal, ht, hsum, hreport, hfiles, ?_⟩
  dsimp only at hresult ⊢
  rw [Rules.taken_eq_consumed ⟨s.markers, s.speedChange⟩ ht] at hresult ⊢
  generalize s.markers.consumed total (Trace.upTo s.timeout events) = lines at hresult hlines ⊢
  refine ⟨fun hfull => ?_, fun hworking hfull => ?_, fun outcome hok => ?_, fun fault herror => ?_⟩
  · obtain ⟨hmissed, hlog⟩ := Output.writeOut_of_full_report hfresh hfull lines report
    rcases hresult with ⟨-, herror⟩ | ⟨hnone, -⟩
    · exact ⟨herror, hlog⟩
    · rw [hmissed] at hnone
      contradiction
  · obtain ⟨hmissed, hnothing, hwhole⟩ :=
      Output.writeOut_of_full_log hfresh hworking hfull lines report
    refine ⟨?_, hnothing, hwhole⟩
    rw [← hlines, ← hmissed]
    rcases hresult with ⟨hsome, herror⟩ | ⟨hnone, outcome, hok, -⟩
    · simp [hsome, herror]
    · simp [hnone, hok]
  · rcases hresult with ⟨-, herror⟩ | ⟨hnone, outcome', hok', hreport'⟩
    · rw [hok] at herror
      contradiction
    · obtain rfl := Except.ok.inj (hok.symm.trans hok')
      exact ⟨hreport', Output.writeOut_of_complete hfresh hnone⟩
  · rcases hresult with ⟨-, herror'⟩ | ⟨-, outcome, hok, -⟩
    · exact Except.error.inj (herror.symm.trans herror')
    · rw [herror] at hok
      contradiction

/-- The log lies on the full device, and the only node completes. The line is kept back until the
end, so that the report is there as a whole, and yet the replay fails. -/
theorem run_files_full_log :
    let e : Event := ⟨⟨1⟩, .ofMicros 5, "pkt->type = complete"⟩
    let o : Output := ⟨.fresh .full, .fresh .working, .full, [], []⟩
    Settings.standard.validate = .ok () ∧ NodesKnown .standard [e] ∧ o.IsFresh ∧
      ∃ t r report files, Tally.start 1 1 = .ok t ∧
        Rules.sumUp ⟨.standard, none⟩ Settings.standard.timeout t [e] = .ok r ∧
        r.report = some report ∧ (run .standard [e] (some o)).2 = some files ∧
        (run .standard [e] (some o)).1 = .error (.storage .noSpace) ∧
        files.report.written = report.render .full ++ "\n" := by
  intro e o
  have hnodes : NodesKnown .standard [e] := Or.inr ⟨by simp, by simp [e]⟩
  have hfresh : o.IsFresh := ⟨rfl, rfl, rfl⟩
  obtain ⟨total, t, r, report, files, htotal, ht, hsum, hreport, hfiles, -, hfullLog, -, -⟩ :=
    run_files (s := .standard) rfl hnodes hfresh
  obtain rfl : 1 = total := Except.ok.inj htotal
  have hdue : Trace.upTo Settings.standard.timeout [e] = [e] := by
    have hkept : [e].filter (·.time ≤ Settings.standard.timeout) = [e] := by decide +kernel
    rw [Trace.upTo, hkept]
    simp [sortBy]
  have hlines : Settings.standard.markers.consumed 1 [e] = [e] := by decide +kernel
  rw [hdue] at hsum
  obtain ⟨hfails, -, hwhole⟩ := hfullLog rfl rfl
  have hkept : (o.logAll [e]).2 = none := by decide +kernel
  rw [hdue, hlines] at hwhole
  exact ⟨rfl, hnodes, hfresh, t, r, report, files, ht, hsum, hreport, hfiles,
    hfails.2 ⟨e, List.mem_singleton_self e, by decide +kernel⟩, hwhole hkept⟩

end

end Replay

end Motewatch
