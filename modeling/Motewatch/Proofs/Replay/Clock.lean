import Motewatch.Proofs.Replay.Ending
import Motewatch.Proofs.Simulation.Clock

/-!
# The clock of a replay

A replay enters nothing for a time that has passed: a message is asked for after a delay, and
waiting does not take time backwards, also at the end of its range. So its clock only runs forwards,
and as a line is printed at its own time, the first schedule update comes no later than whatever
ends the run. The time that a report tells is therefore a true difference.

A report is made in one round only, since the tally is sealed with it and stays as it is from then
on.

## Main definitions

* `Call.time?` — the time that a call tells.
* `IsOnTime` — lines and the time limit come at their times.
* `SumsUpAt` — a report sums up a run that ended at a time.

## Main results

* `Monitor.Reply.report_eq` — a report sums up the tally at the time of its call.
* `Replay.isForward_of_course` — a replay enters nothing for a time that has passed.
* `Replay.exists_closing`, `Replay.exists_sumsUpAt` — the round in which the report was made, and
  the time that it tells.
* `Replay.clock_runs_forwards` — simulated time never runs backwards.
-/

namespace Motewatch

/-! ## What a call does to the tally -/

/-- The time that a call tells. -/
def Call.time? : Call → Option Instant
  | .event e => some e.time
  | .message _ => none
  | .timeout now => some now

namespace Monitor.Reply
variable {m : Monitor} {c : Call} {t : Turn} (hreply : m.Reply c t)
include hreply

/-- A sealed tally stays as it is, and so does the report. -/
theorem of_sealed (hs : m.tally.isSealed = true) :
    t.monitor.tally = m.tally ∧ t.monitor.report = m.report := by
  cases hreply with
  | ignored => exact ⟨rfl, rfl⟩
  | unlogged => exact ⟨tally_log .., report_log ..⟩
  | late => exact ⟨tally_log .., report_log ..⟩
  | counted _ _ hr => simp [Rules.record_isOpen hr] at hs
  | endedUnwritten _ _ hr => simp [Rules.record_isOpen hr] at hs
  | ended _ _ hr => simp [Rules.record_isOpen hr] at hs
  | overdue => exact ⟨rfl, rfl⟩
  | closedUnwritten _ hopen => simp [hopen] at hs
  | closed _ hopen => simp [hopen] at hs
  | passed => exact ⟨rfl, rfl⟩

/-- The time of the first schedule update is that of an event. -/
theorem firstSchedule_eq :
    t.monitor.tally.firstSchedule = m.tally.firstSchedule ∨
      ∃ e, c = .event e ∧ t.monitor.tally.firstSchedule = some e.time := by
  have hrecord {e : Event} {r : Recorded} (hr : m.rules.record m.tally e = .ok r) :
      r.tally.firstSchedule = m.tally.firstSchedule ∨ r.tally.firstSchedule = some e.time := by
    rw [Rules.record_eq_ok hr, Tally.take_firstSchedule]
    split
    · exact .inr rfl
    · exact .inl rfl
  cases hreply with
  | counted _ _ hr => exact (hrecord hr).imp id fun h => ⟨_, rfl, h⟩
  | endedUnwritten _ _ hr =>
    rw [tally_settle]
    exact (hrecord hr).imp id fun h => ⟨_, rfl, h⟩
  | ended _ _ hr =>
    simp only [tally_settle]
    exact (hrecord hr).imp id fun h => ⟨_, rfl, h⟩
  | unlogged => exact .inl (by rw [tally_log])
  | late => exact .inl (by rw [tally_log])
  | closedUnwritten => exact .inl (by rw [tally_settle]; rfl)
  | closed => exact .inl (by simp only [tally_settle]; rfl)
  | _ => exact .inl rfl

/-- **A report sums up the tally at the time of its call**, and the tally is sealed with it. -/
theorem report_eq {report : Report} (hnone : m.report = none)
    (hreport : t.monitor.report = some report) :
    t.monitor.tally.isSealed = true ∧ ∃ now timedOut, c.time? = some now ∧
      report = t.monitor.tally.report now timedOut := by
  cases hreply with
  | endedUnwritten _ _ hr hsome =>
    obtain rfl := Option.some.inj ((report_settle ..).symm.trans hreport)
    rw [tally_settle, Rules.isSealed_record hr, hsome]
    exact ⟨rfl, _, false, rfl, (Rules.report_record hr hsome).1⟩
  | ended _ _ hr hsome =>
    obtain rfl := Option.some.inj ((report_settle ..).symm.trans hreport)
    simp only [tally_settle, Rules.isSealed_record hr, hsome]
    exact ⟨rfl, _, false, rfl, (Rules.report_record hr hsome).1⟩
  | closedUnwritten =>
    obtain rfl := Option.some.inj ((report_settle ..).symm.trans hreport)
    rw [tally_settle]
    exact ⟨rfl, _, true, rfl, rfl⟩
  | closed =>
    obtain rfl := Option.some.inj ((report_settle ..).symm.trans hreport)
    simp only [tally_settle]
    exact ⟨rfl, _, true, rfl, rfl⟩
  | unlogged => simp [hnone] at hreport
  | late => simp [hnone] at hreport
  | counted => simp [hnone] at hreport
  | _ => exact absurd (hnone.symm.trans hreport) (by simp)

end Monitor.Reply

namespace Replay
open Simulation (Simulator Behaviour Command Round Course RunsForward entered mem_entered)

variable {s s' : Simulator Happening} {w w' : World} {r : Round Happening}
variable {rounds : List (Round Happening)} {settings : Settings} {events : List Event}

/-! ## What is entered -/

/-- All that is asked for is a message, for a time that has not passed. -/
theorem mem_entered_act {now : Instant} {h : Happening} {call : Instant × Happening}
    (hcall : call ∈ entered (act now h w).2) :
    now ≤ call.1 ∧ ∃ text, call.2 = .message text := by
  rcases List.mem_append.1 (mem_entered.1 hcall) with hmem | hmem
  · obtain ⟨signal, -, hsignal⟩ := List.mem_flatMap.1 hmem
    cases signal with
    | message delay text =>
      obtain ⟨htime, htext⟩ := Command.enter.inj (List.mem_singleton.1 hsignal)
      exact ⟨htime ▸ Instant.le_add now delay, text, htext⟩
    | speed x => cases hsignal
    | passed => simp [commands] at hsignal
  · split at hmem
    · simp at hmem
    · cases hmem

/-- **A replay enters nothing for a time that has passed.** -/
theorem isForward_of_course (h : Course behaviour s w rounds s' w') :
    ∀ r ∈ rounds, r.IsForward := by
  refine h.isForward (fun s e w call hcall => ?_) fun s w call hcall => ?_
  · rw [behaviour_byClock.execute] at hcall
    exact (mem_entered_act hcall).1
  · rw [behaviour_byClock.afterEvent] at hcall
    cases hcall

/-- What a round makes of the world, and what is asked for in it. -/
theorem eq_act_of_leads (h : r.Leads behaviour s w s' w') :
    (w', r.commands) = act r.taken.time r.taken.event w := by
  obtain ⟨between, hexecute, hafter⟩ := h.acts
  rw [behaviour_byClock.execute] at hexecute
  rw [behaviour_byClock.afterEvent] at hafter
  obtain ⟨rfl, hworld⟩ := Prod.mk.inj hafter
  rw [Round.commands, ← hworld, List.append_nil]
  exact hexecute.symm

theorem exists_act_of_course (h : Course behaviour s w rounds s' w') :
    ∀ r ∈ rounds, ∃ w, r.commands = (act r.taken.time r.taken.event w).2 := by
  induction h with
  | nil => simp
  | cons hfirst _ ih =>
    exact List.forall_mem_cons.2 ⟨⟨_, congrArg Prod.snd (eq_act_of_leads hfirst)⟩, ih⟩

/-- In each round the monitor is called once. -/
theorem reply_of_leads (h : r.Leads behaviour s w s' w') :
    ∃ t, w.monitor.Reply (call r.taken.time r.taken.event) t ∧ w'.monitor = t.monitor := by
  have hworld := congrArg (fun acted => acted.1.monitor) (eq_act_of_leads h)
  exact ⟨_, Monitor.reply_answer _ _, hworld⟩

/-! ## Lines and the time limit -/

/-- The events of a trace with their times, and the time limit. -/
def announced (settings : Settings) (events : List Event) : List (Instant × Happening) :=
  events.map arrival ++ [(settings.timeout, .timeout)]

/-- What is on its way in a replay before it begins. -/
theorem simulator_eq (settings : Settings) (events : List Event) :
    simulator settings events =
      Simulator.fresh.obeyAll ((announced settings events).map fun call => .enter call.1 call.2) :=
  Simulator.enterAll_eq_obeyAll _

theorem isAhead_simulator (settings : Settings) (events : List Event) :
    (simulator settings events).IsAhead := by
  rw [simulator_eq]
  exact Simulator.isAhead_before _

theorem accounts_simulator (settings : Settings) (events : List Event) :
    (simulator settings events).Accounts (announced settings events) [] := by
  have haccounts := Simulator.accounts_fresh.obeyAll
    ((announced settings events).map fun call => Command.enter call.1 call.2)
  rwa [← simulator_eq, List.nil_append, Simulation.entered_map_enter] at haccounts

/-- A line is printed at its own time, and the time limit comes when it is set. -/
def IsOnTime (settings : Settings) (r : Round Happening) : Prop :=
  (∀ e, r.taken.event = .line e → r.taken.time = e.time) ∧
    (r.taken.event = .timeout → r.taken.time = settings.timeout)

theorem isOnTime_of_mem_announced
    (h : (r.taken.time, r.taken.event) ∈ announced settings events) : IsOnTime settings r := by
  rcases List.mem_append.1 h with h | h
  · obtain ⟨e, -, heq⟩ := List.mem_map.1 h
    obtain ⟨htime, hevent⟩ := Prod.mk.inj heq
    constructor
    · intro e' he'
      obtain rfl := Happening.line.inj (hevent.trans he')
      exact htime.symm
    · intro htimeout
      cases hevent.trans htimeout
  · obtain ⟨htime, hevent⟩ := Prod.mk.inj (List.mem_singleton.1 h)
    exact ⟨fun e he => (by cases hevent.symm.trans he), fun _ => htime⟩

/-- **Lines and the time limit come at their times.** -/
theorem isOnTime_of_course (h : Course behaviour (simulator settings events) w rounds s' w') :
    ∀ r ∈ rounds, IsOnTime settings r := by
  intro r hr
  have hmem := h.mem_calls (accounts_simulator settings events) r hr
  rcases List.mem_append.1 hmem with hcall | hcall
  · exact isOnTime_of_mem_announced hcall
  · -- What is entered later on is neither a line nor the time limit.
    obtain ⟨r', hr', hcommand⟩ := List.mem_flatMap.1 (mem_entered.1 hcall)
    obtain ⟨w, hact⟩ := exists_act_of_course h r' hr'
    obtain ⟨-, text, htext⟩ := mem_entered_act (mem_entered.2 (hact ▸ hcommand))
    exact ⟨fun e he => (by cases htext.symm.trans he), fun he => (by cases htext.symm.trans he)⟩

/-! ## The first schedule update -/

/-- A line tells the time at which it is printed, and the time limit that at which it comes. -/
theorem time_of_call (hr : IsOnTime settings r) {now : Instant}
    (h : (call r.taken.time r.taken.event).time? = some now) : now = r.taken.time := by
  cases hevent : r.taken.event with
  | line e =>
    rw [hevent] at h
    rw [hr.1 e hevent]
    exact (Option.some.inj h).symm
  | message text =>
    rw [hevent] at h
    contradiction
  | timeout =>
    rw [hevent] at h
    exact (Option.some.inj h).symm

theorem firstSchedule_le_of_leads (h : r.Leads behaviour s w s' w') (hs : s.IsAhead)
    (hr : IsOnTime settings r) (hw : ∀ t ∈ w.monitor.tally.firstSchedule, t ≤ s.now) :
    ∀ t ∈ w'.monitor.tally.firstSchedule, t ≤ s'.now := by
  obtain ⟨turn, hreply, hmonitor⟩ := reply_of_leads h
  intro t ht
  rw [hmonitor] at ht
  rcases hreply.firstSchedule_eq with heq | ⟨e, hcall, heq⟩
  · rw [heq] at ht
    exact Nat.le_trans (hw t ht) (h.now_le hs)
  · rw [heq] at ht
    obtain rfl := Option.some.inj ht
    have htime := time_of_call hr (congrArg Call.time? hcall)
    rw [h.now_eq, htime]
    exact Nat.le_refl _

/-- **The first schedule update is never later than the clock.** -/
theorem firstSchedule_le (h : Course behaviour s w rounds s' w') (hs : s.IsAhead)
    (hr : ∀ r ∈ rounds, IsOnTime settings r)
    (hw : ∀ t ∈ w.monitor.tally.firstSchedule, t ≤ s.now) :
    ∀ t ∈ w'.monitor.tally.firstSchedule, t ≤ s'.now := by
  have hforward := isForward_of_course h
  induction h with
  | nil => exact hw
  | cons hfirst hcourse ih =>
    obtain ⟨hr, hrest⟩ := List.forall_mem_cons.1 hr
    obtain ⟨hround, hforward⟩ := List.forall_mem_cons.1 hforward
    exact ih (hfirst.isAhead hround) hrest (firstSchedule_le_of_leads hfirst hs hr hw) hforward

/-! ## The report -/

/-- Once the tally is sealed, it stays as it is, and so does the report. -/
theorem keeps_sealed (h : Course behaviour s w rounds s' w')
    (hsealed : w.monitor.tally.isSealed = true) :
    w'.monitor.tally = w.monitor.tally ∧ w'.monitor.report = w.monitor.report := by
  induction h with
  | nil => exact ⟨rfl, rfl⟩
  | cons hfirst _ ih =>
    obtain ⟨turn, hreply, hmonitor⟩ := reply_of_leads hfirst
    obtain ⟨htally, hreport⟩ := hreply.of_sealed hsealed
    rw [← hmonitor] at htally hreport
    obtain ⟨htally', hreport'⟩ := ih (by rwa [htally])
    exact ⟨htally'.trans htally, hreport'.trans hreport⟩

/-- **The round in which the report was made.** It sums up the tally at the time of the round. -/
theorem exists_closing (h : Course behaviour s w rounds s' w')
    (hr : ∀ r ∈ rounds, IsOnTime settings r) (hnone : w.monitor.report = none) {report : Report}
    (hreport : w'.monitor.report = some report) :
    ∃ done r rest s₁ w₁ s₂ w₂ timedOut, rounds = done ++ r :: rest ∧
      Course behaviour s w done s₁ w₁ ∧ r.Leads behaviour s₁ w₁ s₂ w₂ ∧
      Course behaviour s₂ w₂ rest s' w' ∧
      w₁.monitor.report = none ∧ w₂.monitor.report = some report ∧
      w'.monitor.tally = w₂.monitor.tally ∧
      report = w₂.monitor.tally.report r.taken.time timedOut := by
  induction h with
  | nil => simp [hnone] at hreport
  | @cons s s₁ s' w w₁ w' r rounds hfirst hcourse ih =>
    obtain ⟨hr, hrest⟩ := List.forall_mem_cons.1 hr
    cases hmade : w₁.monitor.report with
    | none =>
      obtain ⟨done, r', rest, s₂, w₂, s₃, w₃, timedOut, rfl, hdone, hclosing⟩ :=
        ih hrest hmade hreport
      exact ⟨r :: done, r', rest, s₂, w₂, s₃, w₃, timedOut, rfl, .cons hfirst hdone, hclosing⟩
    | some made =>
      obtain ⟨turn, hreply, hmonitor⟩ := reply_of_leads hfirst
      obtain ⟨hsealed, now, timedOut, htime, heq⟩ :=
        hreply.report_eq hnone (hmonitor ▸ hmade)
      rw [← hmonitor] at hsealed heq
      obtain ⟨htally, hkept⟩ := keeps_sealed hcourse hsealed
      obtain rfl : made = report := Option.some.inj (by rw [← hmade, ← hkept, hreport])
      obtain rfl := time_of_call hr htime
      exact ⟨[], r, rounds, s, w, s₁, w₁, timedOut, rfl, .nil s w, hfirst, hcourse, hnone, hmade,
        htally, heq⟩

/-- The report sums up a run that ended at a time. The time that it tells is a true difference, as
the run did not end before the first schedule update, or before the start if there was none. -/
structure SumsUpAt (report : Report) (first : Option Instant) (closing : Instant) : Prop where
  firstSchedule : report.firstSchedule = first.map (·.micros)
  duration : report.duration = installationSeconds first closing report.speed
  first_le : first.getD .zero ≤ closing
  since : (first.getD .zero).micros + closing.since (first.getD .zero) = closing.micros

theorem sumsUpAt_report {t : Tally} {closing : Instant}
    (hfirst : ∀ first ∈ t.firstSchedule, first ≤ closing) (timedOut : Bool) :
    SumsUpAt (t.report closing timedOut) t.firstSchedule closing := by
  have hle : t.firstSchedule.getD .zero ≤ closing := by
    cases hschedule : t.firstSchedule with
    | none => exact Nat.zero_le _
    | some first => exact hfirst first hschedule
  exact ⟨rfl, rfl, hle, Nat.add_sub_cancel' hle⟩

/-- **The report tells a true difference of times**: that of the round in which it was made and
that of the first schedule update. -/
theorem exists_sumsUpAt (h : Course behaviour s w rounds s' w') (hs : s.IsAhead)
    (hr : ∀ r ∈ rounds, IsOnTime settings r) (hnone : w.monitor.report = none)
    (hfirst : ∀ t ∈ w.monitor.tally.firstSchedule, t ≤ s.now) {report : Report}
    (hreport : w'.monitor.report = some report) :
    ∃ done r rest s₁ w₁ s₂ w₂, rounds = done ++ r :: rest ∧
      Course behaviour s w done s₁ w₁ ∧ r.Leads behaviour s₁ w₁ s₂ w₂ ∧
      Course behaviour s₂ w₂ rest s' w' ∧
      w₁.monitor.report = none ∧ w₂.monitor.report = some report ∧
      r.taken.time ≤ s'.now ∧ SumsUpAt report w'.monitor.tally.firstSchedule r.taken.time := by
  obtain ⟨done, r, rest, s₁, w₁, s₂, w₂, timedOut, rfl, hdone, hleads, hrest, hbefore, hmade,
    htally, heq⟩ := exists_closing h hr hnone hreport
  rw [List.forall_mem_append, List.forall_mem_cons] at hr
  obtain ⟨honTimeBefore, honTimeThen, -⟩ := hr
  have hforward := isForward_of_course h
  rw [List.forall_mem_append, List.forall_mem_cons] at hforward
  obtain ⟨hforwardBefore, hforwardThen, hforwardAfter⟩ := hforward
  have hahead₁ := hdone.isAhead hs hforwardBefore
  have hfirst₁ := firstSchedule_le hdone hs honTimeBefore hfirst
  have hfirst₂ := firstSchedule_le_of_leads hleads hahead₁ honTimeThen hfirst₁
  have hlast := (hrest.now_le (hleads.isAhead hforwardThen) hforwardAfter).1
  rw [hleads.now_eq] at hfirst₂ hlast
  refine ⟨done, r, rest, s₁, w₁, s₂, w₂, rfl, hdone, hleads, hrest, hbefore, hmade, hlast, ?_⟩
  rw [htally, heq]
  exact sumsUpAt_report hfirst₂ timedOut

/-- What came of a replay is what its simulation came to. -/
theorem outcome_eq_of_run {output : Option Output} (hworld : world settings events output = .ok w)
    {outcome : Outcome} (houtcome : (run settings events output).1 = .ok outcome) :
    let last := (simulator settings events).run behaviour (events.length + 2) w
    outcome.report = last.2.monitor.report ∧ outcome.finishedAt = last.1.now := by
  rw [run, hworld] at houtcome
  simp only at houtcome
  split at houtcome
  · contradiction
  · obtain rfl := Except.ok.inj houtcome
    exact ⟨rfl, rfl⟩

/-- **Simulated time never runs backwards.** In a simulation that enters nothing for a time that has
passed, once it runs, the clock only runs forwards and nothing is ever to come before the time that
it shows. A replay is such a simulation: it comes to its end, its lines, its message and its time
limit come in the order of their times, and the first schedule update is never later than the clock,
nor than the round in which the report is made, so that the report tells a true difference of times.
Whatever a simulation has entered, once it has come to its end it stays there. -/
theorem clock_runs_forwards :
    (∀ (ε ω : Type) (b : Behaviour ε ω) (before : List (Command ε)) (w : ω) (limit : Nat),
      let s := Simulator.fresh.obeyAll before
      let last := s.run b limit w
      (∃ rounds, Course b s w rounds last.1 last.2) ∧
      ∀ rounds, Course b s w rounds last.1 last.2 → (∀ r ∈ rounds, r.IsForward) →
        RunsForward b s w rounds last.1 last.2) ∧
    (∀ (settings : Settings) (events : List Event) (output : Option Output) (w : World),
      world settings events output = .ok w →
      let s := simulator settings events
      let last := s.run behaviour (events.length + 2) w
      let first := last.2.monitor.tally.firstSchedule
      last.1.step behaviour last.2 = none ∧
      (∀ outcome, (run settings events output).1 = .ok outcome →
        outcome.report = last.2.monitor.report ∧ outcome.finishedAt = last.1.now) ∧
      ∃ rounds, Course behaviour s w rounds last.1 last.2 ∧
        RunsForward behaviour s w rounds last.1 last.2 ∧
        (∀ r ∈ rounds, IsOnTime settings r) ∧
        (∀ t ∈ first, t ≤ last.1.now) ∧
        ∀ report, last.2.monitor.report = some report →
          ∃ done r rest s₁ w₁ s₂ w₂, rounds = done ++ r :: rest ∧
            Course behaviour s w done s₁ w₁ ∧ r.Leads behaviour s₁ w₁ s₂ w₂ ∧
            Course behaviour s₂ w₂ rest last.1 last.2 ∧
            w₁.monitor.report = none ∧ w₂.monitor.report = some report ∧
            r.taken.time ≤ last.1.now ∧ SumsUpAt report first r.taken.time) ∧
    ∀ (ε ω ω' : Type) (b : Behaviour ε ω) (s : Simulator ε) (w : ω) (limit : Nat),
      let last := s.run b limit w
      last.1.halted = true ∨ last.1.agenda.entries = [] →
      ∀ (b' : Behaviour ε ω') (limit' : Nat) (w' : ω'), last.1.run b' limit' w' = (last.1, w') := by
  refine ⟨fun ε ω b before w limit => ?_, fun settings events output w hworld => ?_,
    fun ε ω ω' b s w limit hended b' limit' w' => Simulator.run_of_ended hended b' limit' w'⟩
  · obtain ⟨rounds, hcourse, -⟩ :=
      Simulator.exists_course (Simulator.accounts_fresh.obeyAll before) b limit w
    exact ⟨⟨rounds, hcourse⟩, fun rounds hcourse hforward =>
      hcourse.runsForward (Simulator.isAhead_before before) hforward⟩
  · obtain ⟨rounds, hcourse, -⟩ :=
      Simulator.exists_course (accounts_simulator settings events) behaviour (events.length + 2) w
    obtain ⟨total, t, -, hstart, hw⟩ := world_eq_ok hworld
    have hnone : w.monitor.report = none := by rw [hw]
    have hfirst : ∀ t ∈ w.monitor.tally.firstSchedule, t ≤ (simulator settings events).now := by
      simp [hw, (Tally.isNew_of_start hstart).first]
    have hahead := isAhead_simulator settings events
    have honTime := isOnTime_of_course hcourse
    have hforward := hcourse.runsForward hahead (isForward_of_course hcourse)
    exact ⟨step_run_simulator settings events w, fun _ => outcome_eq_of_run hworld, rounds, hcourse,
      hforward, honTime, firstSchedule_le hcourse hahead honTime hfirst,
      fun _ => exists_sumsUpAt hcourse hahead honTime hnone hfirst⟩

/-- A trace in which the completion of the only node stands before its schedule update, which has
the earlier time. -/
def sampleTrace : List Event :=
  [⟨⟨1⟩, .ofMicros 5, "pkt->type = complete"⟩, ⟨⟨1⟩, .ofMicros 3, "schedule_updater_pkt"⟩]

theorem begun_sampleTrace : begun .standard sampleTrace =
    ⟨.zero, sampleTrace.reverse.map arrival ++ [(Settings.standard.timeout, .timeout)], false⟩ := by
  have hdue : sampleTrace.filter (·.time ≤ Settings.standard.timeout) = sampleTrace := by
    decide +kernel
  have hlate : sampleTrace.filter (Settings.standard.timeout < ·.time) = [] := by decide +kernel
  have hsorted : sortBy (·.time.micros) sampleTrace = sampleTrace.reverse :=
    (sortBy_append_singleton _ [_] _).trans (by simp [sampleTrace, sortBy, wordLimit])
  rw [begun, Trace.upTo, Trace.beyond, hdue, hlate, hsorted]
  simp [sortBy]

/-- The replay of this trace makes a report, with the schedule update as the first one. -/
theorem reported_sampleTrace (hworld : world .standard sampleTrace none = .ok w) :
    let last := ((simulator .standard sampleTrace).run behaviour 4 w).2
    last.monitor.report.isSome = true ∧ last.monitor.tally.firstSchedule = some (.ofMicros 3) := by
  have hvalue : (world .standard sampleTrace none).toOption.map (fun w =>
      let last := (Simulation.Timeline.run act 4 ⟨.zero, sampleTrace.reverse.map arrival ++
        [(Settings.standard.timeout, .timeout)], false⟩ w).2
      (last.monitor.report.isSome, last.monitor.tally.firstSchedule)) =
      some (true, some (.ofMicros 3)) := by decide +kernel
  have hrun := congrArg Prod.snd (run_eq_act .standard sampleTrace 4 w)
  rw [begun_sampleTrace] at hrun
  rw [hworld, Except.toOption, Option.map_some, ← hrun] at hvalue
  exact Prod.mk.inj (Option.some.inj hvalue)

/-- A simulation in which an event enters another one, and the replay of the trace above. -/
theorem clock_runs_forwards_sample :
    let b : Behaviour String Unit := ⟨fun s e _ =>
      ((), if e = "a" then [.enter (s.now.add (.ofMicros 1)) "c"] else []), fun _ _ => ((), [])⟩
    let s := (Simulator.fresh : Simulator String).obeyAll
      [.enter (.ofMicros 5) "b", .enter (.ofMicros 3) "a"]
    let last := s.run b 3 ()
    (∃ rounds, (∀ r ∈ rounds, r.IsForward) ∧ RunsForward b s () rounds last.1 last.2) ∧
    (∃ w report closing, world .standard sampleTrace none = .ok w ∧
      ((simulator .standard sampleTrace).run behaviour 4 w).2.monitor.report = some report ∧
      SumsUpAt report (some (.ofMicros 3)) closing) ∧
    last.1.agenda.entries = [] ∧ last.1.run b 1 () = (last.1, ()) := by
  intro b s last
  obtain ⟨hforward, hreplay, hended⟩ := clock_runs_forwards
  have hempty : last.1.agenda.entries = [] := rfl
  refine ⟨?_, ?_, hempty, hended _ _ _ b s () 3 (.inr hempty) b 1 ()⟩
  · obtain ⟨⟨rounds, hcourse⟩, hruns⟩ :=
      hforward _ _ b [.enter (.ofMicros 5) "b", .enter (.ofMicros 3) "a"] () 3
    have hrounds : ∀ r ∈ rounds, r.IsForward := by
      refine hcourse.isForward (fun s e w call hcall => ?_) (fun s w call hcall => ?_)
      · have hcommand := mem_entered.1 hcall
        simp only [b] at hcommand
        split at hcommand
        · rw [(Command.enter.inj (List.mem_singleton.1 hcommand)).1]
          exact Instant.le_add _ _
        · cases hcommand
      · cases hcall
    exact ⟨rounds, hrounds, hruns rounds hcourse hrounds⟩
  · obtain ⟨w, hworld⟩ : ∃ w, world .standard sampleTrace none = .ok w := ⟨_, rfl⟩
    obtain ⟨hmade, hfirst⟩ := reported_sampleTrace hworld
    obtain ⟨report, hreport⟩ := Option.isSome_iff_exists.1 hmade
    obtain ⟨-, -, rounds, -, -, -, -, hclosing⟩ := hreplay _ _ _ w hworld
    obtain ⟨done, r, rest, s₁, w₁, s₂, w₂, -, -, -, -, -, -, -, hsums⟩ := hclosing report hreport
    rw [← hfirst]
    exact ⟨w, report, r.taken.time, hworld, hreport, hsums⟩

end Replay

end Motewatch
