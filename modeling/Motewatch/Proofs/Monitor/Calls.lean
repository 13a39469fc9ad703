import Motewatch.Monitor
import Motewatch.Proofs.Tally.Steps

/-!
# Calls of a monitor

A simulation may call a monitor in any order and with anything, and go on calling it after a fault.
What can come of a single call is said here once, case by case; what holds over a whole life of a
monitor follows from that.

## Main definitions

* `Call`, `Monitor.answer` — what a simulation reports, and what that leads to.
* `Monitor.after`, `Monitor.signals` — the monitor after calls, and the signals it gives meanwhile.
* `Monitor.Reply` — the cases of a single call.

## Main results

* `Monitor.reply_answer` — every call is one of the cases.
* `Monitor.answer_event_of_open`, `Monitor.answer_timeout_of_open` — what a call leads to while the
  run goes on.
-/

namespace Motewatch

/-- What a simulation reports to a monitor. -/
inductive Call
  | event (e : Event)
  | message (text : String)
  | timeout (now : Instant)

namespace Monitor
variable {m : Monitor} {e : Event} {r : Report} {c : Call}

/-- What a call leads to. -/
def answer (m : Monitor) : Call → Turn
  | .event e => m.onEvent e
  | .message text => m.onMessage text
  | .timeout now => m.onTimeout now

/-- The monitor after calls. -/
def after (m : Monitor) (calls : List Call) : Monitor :=
  calls.foldl (fun m c => (m.answer c).monitor) m

/-- The signals that a monitor gives on calls. -/
def signals (m : Monitor) : List Call → List Signal
  | [] => []
  | c :: rest => (m.answer c).signals ++ (m.answer c).monitor.signals rest

@[simp] theorem after_nil (m : Monitor) : m.after [] = m := rfl

@[simp] theorem after_cons (m : Monitor) (c : Call) (rest : List Call) :
    m.after (c :: rest) = (m.answer c).monitor.after rest := rfl

theorem after_append (m : Monitor) (calls more : List Call) :
    m.after (calls ++ more) = (m.after calls).after more := by
  simp [after]

theorem signals_append (m : Monitor) (calls more : List Call) :
    m.signals (calls ++ more) = m.signals calls ++ (m.after calls).signals more := by
  induction calls generalizing m with
  | nil => rfl
  | cons c rest ih => simp [signals, ih]

/-- One more call. -/
theorem after_snoc (m : Monitor) (calls : List Call) (c : Call) :
    m.after (calls ++ [c]) = ((m.after calls).answer c).monitor := by
  rw [after_append, after_cons, after_nil]

theorem signals_snoc (m : Monitor) (calls : List Call) (c : Call) :
    m.signals (calls ++ [c]) = m.signals calls ++ ((m.after calls).answer c).signals := by
  simp [signals_append, signals]

/-- A monitor begins with a new tally, in the first phase, and asks for the speed of its run. -/
theorem start_eq_ok {rules : Rules} {total : Nat} {speed : Float} {output : Option Output}
    {first : List Signal} (h : start rules total speed output = .ok (m, first)) :
    ∃ t, Tally.start total speed = .ok t ∧
      m = ⟨rules, t, output, none, .monitoring, none⟩ ∧ first = [.speed speed] := by
  unfold start at h
  cases ht : Tally.start total speed with
  | error fault =>
    rw [ht] at h
    contradiction
  | ok t =>
    rw [ht] at h
    obtain ⟨rfl, rfl⟩ := Prod.mk.inj (Except.ok.inj h)
    exact ⟨t, rfl, rfl, rfl⟩

/-! ## Logging -/

/-- Logging an event changes nothing but the files. -/
theorem log_fst (m : Monitor) (e : Event) :
    (m.log e).1 = { m with output := m.output.map fun o => (o.append e).1 } := by
  cases m
  rename_i output _ _ _
  cases output <;> rfl

theorem log_snd (m : Monitor) (e : Event) :
    (m.log e).2 = m.output.bind fun o => (o.append e).2.map .storage := by
  rw [log]
  cases m.output <;> rfl

@[simp] theorem rules_log (m : Monitor) (e : Event) : (m.log e).1.rules = m.rules := by
  rw [log_fst]
@[simp] theorem tally_log (m : Monitor) (e : Event) : (m.log e).1.tally = m.tally := by
  rw [log_fst]
@[simp] theorem phase_log (m : Monitor) (e : Event) : (m.log e).1.phase = m.phase := by
  rw [log_fst]
@[simp] theorem report_log (m : Monitor) (e : Event) : (m.log e).1.report = m.report := by
  rw [log_fst]

/-- All that can go wrong with logging is that a file cannot be written. -/
theorem exists_storage_of_log {e : Event} {fault : Fault} (h : (m.log e).2 = some fault) :
    ∃ cause, fault = .storage cause := by
  rw [log_snd, Option.bind_eq_some_iff] at h
  obtain ⟨o, -, happend⟩ := h
  obtain ⟨cause, -, rfl⟩ := Option.map_eq_some_iff.1 happend
  exact ⟨cause, rfl⟩

/-! ## Writing the report -/

/-- Keeps a sealed tally and its report, and writes the report. -/
def settle (m : Monitor) (t : Tally) (r : Report) : Monitor × Option Fault :=
  conclude { m with tally := t } r

/-- Whether or not it can be written, the report is kept and the files are given up. -/
theorem settle_fst (m : Monitor) (t : Tally) (r : Report) :
    (m.settle t r).1 = { m with
      tally := t
      report := some r
      output := none
      released := (m.output.map fun o => (o.finish r).1).or m.released } := by
  cases m
  rename_i output _ _ _
  cases output <;> rfl

theorem settle_snd (m : Monitor) (t : Tally) (r : Report) :
    (m.settle t r).2 = m.output.bind fun o => (o.finish r).2.map .storage := by
  rw [settle, conclude]
  cases m.output <;> rfl

@[simp] theorem rules_settle (m : Monitor) (t : Tally) (r : Report) :
    (m.settle t r).1.rules = m.rules := by rw [settle_fst]
@[simp] theorem tally_settle (m : Monitor) (t : Tally) (r : Report) :
    (m.settle t r).1.tally = t := by rw [settle_fst]
@[simp] theorem phase_settle (m : Monitor) (t : Tally) (r : Report) :
    (m.settle t r).1.phase = m.phase := by rw [settle_fst]
@[simp] theorem report_settle (m : Monitor) (t : Tally) (r : Report) :
    (m.settle t r).1.report = some r := by rw [settle_fst]
@[simp] theorem output_settle (m : Monitor) (t : Tally) (r : Report) :
    (m.settle t r).1.output = none := by rw [settle_fst]

/-- All that can go wrong with the report is that a file cannot be written. -/
theorem exists_storage_of_settle {t : Tally} {fault : Fault}
    (h : (m.settle t r).2 = some fault) : ∃ cause, fault = .storage cause := by
  rw [settle_snd, Option.bind_eq_some_iff] at h
  obtain ⟨o, -, hfinish⟩ := h
  obtain ⟨cause, -, rfl⟩ := Option.map_eq_some_iff.1 hfinish
  exact ⟨cause, rfl⟩

/-! ## The cases of a call -/

/-- The monitor has nothing to do on a call: the run is over for it, or it does not wait for the
message. -/
def Ignores (m : Monitor) : Call → Prop
  | .event _ => m.phase ≠ .monitoring
  | .message text => ¬(m.phase = .settling ∧ text = sleepMessage)
  | .timeout _ => m.phase = .passed

/-- What a call can lead to. Wherever a run ends, its report is kept before it is written. -/
inductive Reply (m : Monitor) : Call → Turn → Prop
  | ignored (c : Call) (h : m.Ignores c) : Reply m c ⟨m, [], none⟩
  /-- The event cannot be logged, and so it is not counted. -/
  | unlogged {e : Event} {fault : Fault} (hp : m.phase = .monitoring)
      (hlog : (m.log e).2 = some fault) : Reply m (.event e) ⟨(m.log e).1, [], some fault⟩
  /-- The run has ended before, but its report was not written. -/
  | late {e : Event} (hp : m.phase = .monitoring) (hlog : (m.log e).2 = none)
      (hs : m.tally.isSealed = true) : Reply m (.event e) ⟨(m.log e).1, [], some .runOver⟩
  /-- The event is counted and the run goes on. -/
  | counted {e : Event} {r : Recorded} (hp : m.phase = .monitoring) (hlog : (m.log e).2 = none)
      (hr : m.rules.record m.tally e = .ok r) (hnone : r.report = none) :
      Reply m (.event e) ⟨{ (m.log e).1 with tally := r.tally }, r.signals, none⟩
  /-- The event ends the run, but the report cannot be written. -/
  | endedUnwritten {e : Event} {r : Recorded} {report : Report} {fault : Fault}
      (hp : m.phase = .monitoring) (hlog : (m.log e).2 = none)
      (hr : m.rules.record m.tally e = .ok r) (hsome : r.report = some report)
      (hwrite : ((m.log e).1.settle r.tally report).2 = some fault) :
      Reply m (.event e) ⟨((m.log e).1.settle r.tally report).1, [], some fault⟩
  /-- The event ends the run, and the message is asked for. -/
  | ended {e : Event} {r : Recorded} {report : Report} (hp : m.phase = .monitoring)
      (hlog : (m.log e).2 = none) (hr : m.rules.record m.tally e = .ok r)
      (hsome : r.report = some report)
      (hwrite : ((m.log e).1.settle r.tally report).2 = none) :
      Reply m (.event e) ⟨{ ((m.log e).1.settle r.tally report).1 with phase := .settling },
        [.message (sleepDelay r.tally.speed) sleepMessage], none⟩
  /-- The time is up for a run that has ended before, but whose report was not written. -/
  | overdue {now : Instant} (hp : m.phase = .monitoring) (hs : m.tally.isSealed = true) :
      Reply m (.timeout now) ⟨m, [], some .alreadySealed⟩
  /-- The time is up, but the report cannot be written. -/
  | closedUnwritten {now : Instant} {fault : Fault} (hp : m.phase = .monitoring)
      (hs : m.tally.isSealed = false)
      (hwrite : (m.settle m.tally.close (m.tally.report now true)).2 = some fault) :
      Reply m (.timeout now)
        ⟨(m.settle m.tally.close (m.tally.report now true)).1, [], some fault⟩
  /-- The time is up, and the test passes. -/
  | closed {now : Instant} (hp : m.phase = .monitoring) (hs : m.tally.isSealed = false)
      (hwrite : (m.settle m.tally.close (m.tally.report now true)).2 = none) :
      Reply m (.timeout now)
        ⟨{ (m.settle m.tally.close (m.tally.report now true)).1 with phase := .passed }, [.passed],
          none⟩
  /-- The awaited message comes, or the time is up meanwhile: the test passes. -/
  | passed (c : Call) (hp : m.phase = .settling) (h : ¬m.Ignores c) :
      Reply m c ⟨{ m with phase := .passed }, [.passed], none⟩

theorem takeIn_of_error {fault : Fault} (h : m.rules.record m.tally e = .error fault) :
    m.takeIn e = ⟨m, [], some fault⟩ := by
  rw [takeIn, Rules.handle_of_error h]

theorem takeIn_of_quiet {t : Tally} {signals : List Signal}
    (h : m.rules.record m.tally e = .ok ⟨t, signals, none⟩) :
    m.takeIn e = ⟨{ m with tally := t }, signals, none⟩ := by
  rw [takeIn, Rules.handle_of_ok h, Recorded.response]

theorem takeIn_of_report {t : Tally} {signals : List Signal}
    (h : m.rules.record m.tally e = .ok ⟨t, signals, some r⟩) :
    m.takeIn e = match (m.settle t r).2 with
      | some fault => ⟨(m.settle t r).1, signals, some fault⟩
      | none => ⟨{ (m.settle t r).1 with phase := .settling },
          signals ++ [.message (sleepDelay t.speed) sleepMessage], none⟩ := by
  have hsettle : conclude { m with tally := t } r = ((m.settle t r).1, (m.settle t r).2) := rfl
  rw [takeIn, Rules.handle_of_ok h, Recorded.response]
  simp only [hsettle]
  cases (m.settle t r).2 with
  | some fault => rfl
  | none => simp only [tally_settle]

/-- An event that can be logged leads to what the tally makes of it. -/
theorem reply_takeIn (hp : m.phase = .monitoring) (hlog : (m.log e).2 = none) :
    Reply m (.event e) ((m.log e).1.takeIn e) := by
  cases hr : m.rules.record m.tally e with
  | error fault =>
    cases hs : m.tally.isSealed with
    | true =>
      obtain rfl : fault = .runOver :=
        Except.error.inj (hr.symm.trans (Rules.record_of_sealed m.rules e hs))
      rw [takeIn_of_error (by simpa using hr)]
      exact .late hp hlog hs
    | false =>
      rw [Rules.record_of_open m.rules e hs] at hr
      contradiction
  | ok r =>
    obtain ⟨t, signals, report?⟩ := r
    cases report? with
    | none =>
      rw [takeIn_of_quiet (by simpa using hr)]
      exact .counted hp hlog hr rfl
    | some report =>
      obtain rfl : signals = [] := (Rules.report_record hr rfl).2
      rw [takeIn_of_report (by simpa using hr)]
      cases hwrite : ((m.log e).1.settle t report).2 with
      | some fault => exact .endedUnwritten hp hlog hr rfl hwrite
      | none => exact .ended hp hlog hr rfl hwrite

theorem onEvent_of_ne (hp : m.phase ≠ .monitoring) (e : Event) : m.onEvent e = ⟨m, [], none⟩ := by
  unfold onEvent
  split
  · contradiction
  · rfl

theorem onEvent_of_eq (hp : m.phase = .monitoring) (e : Event) :
    m.onEvent e = match (m.log e).2 with
      | some fault => ⟨(m.log e).1, [], some fault⟩
      | none => (m.log e).1.takeIn e := by
  unfold onEvent
  rw [hp]
  generalize m.log e = logged
  obtain ⟨m', fault?⟩ := logged
  cases fault? <;> rfl

theorem onTimeout_of_sealed (hp : m.phase = .monitoring) (hs : m.tally.isSealed = true)
    (now : Instant) : m.onTimeout now = ⟨m, [], some .alreadySealed⟩ := by
  have hearly : m.tally.finalizeEarly now = ⟨m.tally, [], .error .alreadySealed⟩ := by
    rw [Tally.finalizeEarly, if_pos hs]
  unfold onTimeout
  split
  · simp_all
  · simp_all
  · simp only [hearly]

theorem onTimeout_of_open (hp : m.phase = .monitoring) (hs : m.tally.isSealed = false)
    (now : Instant) :
    m.onTimeout now = match (m.settle m.tally.close (m.tally.report now true)).2 with
      | some fault => ⟨(m.settle m.tally.close (m.tally.report now true)).1, [], some fault⟩
      | none => ⟨{ (m.settle m.tally.close (m.tally.report now true)).1 with phase := .passed },
          [.passed], none⟩ := by
  have hearly : m.tally.finalizeEarly now =
      ⟨m.tally.close, [], .ok (m.tally.report now true)⟩ := by
    simp [Tally.finalizeEarly, hs]
  have hsettle : conclude { m with tally := m.tally.close } (m.tally.report now true) =
      ((m.settle m.tally.close (m.tally.report now true)).1,
        (m.settle m.tally.close (m.tally.report now true)).2) := rfl
  unfold onTimeout
  split
  · simp_all
  · simp_all
  · simp only [hearly, hsettle]
    cases (m.settle m.tally.close (m.tally.report now true)).2 <;> rfl

/-- **Every call is one of the cases.** -/
theorem reply_answer (m : Monitor) (c : Call) : Reply m c (m.answer c) := by
  cases c with
  | event e =>
    rw [answer]
    by_cases hp : m.phase = .monitoring
    · rw [onEvent_of_eq hp]
      cases hlog : (m.log e).2 with
      | some fault => exact .unlogged hp hlog
      | none => exact reply_takeIn hp hlog
    · rw [onEvent_of_ne hp]
      exact .ignored _ hp
  | message text =>
    rw [answer, onMessage]
    by_cases hawaited : m.phase = .settling ∧ text = sleepMessage
    · rw [if_pos hawaited]
      exact .passed _ hawaited.1 (not_not_intro hawaited)
    · rw [if_neg hawaited]
      exact .ignored _ hawaited
  | timeout now =>
    rw [answer]
    cases hp : m.phase with
    | monitoring =>
      cases hs : m.tally.isSealed with
      | true =>
        rw [onTimeout_of_sealed hp hs]
        exact .overdue hp hs
      | false =>
        rw [onTimeout_of_open hp hs]
        cases hwrite : (m.settle m.tally.close (m.tally.report now true)).2 with
        | some fault => exact .closedUnwritten hp hs hwrite
        | none => exact .closed hp hs hwrite
    | settling =>
      rw [onTimeout, hp]
      exact .passed _ hp (by simp [Ignores, hp])
    | passed =>
      rw [onTimeout, hp]
      exact .ignored _ hp

/-! ## Runs that go on -/

section
variable (hp : m.phase = .monitoring) (hs : m.tally.isSealed = false)
include hp hs

/-- While a run goes on, an event leads to what the tally makes of it, unless a file cannot be
written. -/
theorem answer_event_of_open (e : Event) :
    (∃ cause, (m.answer (.event e)).fault = some (.storage cause)) ∨
      ∃ r, m.rules.record m.tally e = .ok r ∧ (m.answer (.event e)).fault = none ∧
        (m.answer (.event e)).monitor.rules = m.rules ∧
        (m.answer (.event e)).monitor.tally = r.tally ∧
        match r.report with
        | none => (m.answer (.event e)).monitor.phase = .monitoring ∧
            (m.answer (.event e)).signals = r.signals
        | some report => (m.answer (.event e)).monitor.phase = .settling ∧
            (m.answer (.event e)).monitor.report = some report ∧
            (m.answer (.event e)).signals =
              [.message (sleepDelay r.tally.speed) sleepMessage] := by
  have hreply := reply_answer m (.event e)
  generalize m.answer (.event e) = t at hreply
  cases hreply with
  | ignored _ h => exact absurd hp h
  | unlogged _ hlog =>
    obtain ⟨cause, rfl⟩ := exists_storage_of_log hlog
    exact .inl ⟨cause, rfl⟩
  | late _ _ hsealed => simp [hsealed] at hs
  | counted _ _ hr hnone =>
    refine .inr ⟨_, hr, rfl, by simp, rfl, ?_⟩
    rw [hnone]
    exact ⟨by simp [hp], rfl⟩
  | endedUnwritten _ _ _ _ hwrite =>
    obtain ⟨cause, rfl⟩ := exists_storage_of_settle hwrite
    exact .inl ⟨cause, rfl⟩
  | ended _ _ hr hsome =>
    refine .inr ⟨_, hr, rfl, by simp, by simp, ?_⟩
    rw [hsome]
    exact ⟨rfl, by simp, rfl⟩
  | passed _ hsettling => simp [hp] at hsettling

/-- While a run goes on, the time limit sums it up, unless a file cannot be written. -/
theorem answer_timeout_of_open (now : Instant) :
    (∃ cause, (m.answer (.timeout now)).fault = some (.storage cause)) ∨
      ((m.answer (.timeout now)).fault = none ∧
        (m.answer (.timeout now)).monitor.tally = m.tally.close ∧
        (m.answer (.timeout now)).monitor.report = some (m.tally.report now true) ∧
        (m.answer (.timeout now)).monitor.phase = .passed ∧
        (m.answer (.timeout now)).signals = [.passed]) := by
  have hreply := reply_answer m (.timeout now)
  generalize m.answer (.timeout now) = t at hreply
  cases hreply with
  | ignored _ h => simp [Ignores, hp] at h
  | overdue _ hsealed => simp [hsealed] at hs
  | closedUnwritten _ _ hwrite =>
    obtain ⟨cause, rfl⟩ := exists_storage_of_settle hwrite
    exact .inl ⟨cause, rfl⟩
  | closed => exact .inr ⟨rfl, by simp, by simp, rfl, rfl⟩
  | passed _ hsettling => simp [hp] at hsettling

end

end Monitor

end Motewatch
