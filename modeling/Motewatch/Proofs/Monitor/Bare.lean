import Motewatch.Proofs.Monitor.Calls
import Motewatch.Proofs.Output.Written

/-!
# Monitors without files

A monitor writes to its files and learns nothing from them but whether they could be written. So a
monitor with files and one without go the same way for as long as nothing goes wrong with the files:
to forget the files before a call comes to the same as to forget them afterwards.

The first call on which a file cannot be written is where the two part, in one of two ways. An event
that cannot be logged has not come for the monitor. A report that cannot be written has come: it is
kept, the tally is sealed, and only the phase stays behind.

## Main definitions

* `Monitor.bare`, `Turn.bare` — a monitor, and what a call led to, without the files.
* `Turn.isUnwritten` — a file could not be written.
* `Monitor.turns` — what calls lead to, one after the other.

## Main results

* `Monitor.Reply.answer_bare` — a call does not depend on the files if they can be written.
* `Monitor.bare_answer_of_unlogged`, `Monitor.Reply.bare_of_unwritten` — where a monitor with files
  and one without part.
* `Monitor.start_bare` — files have no influence on a run.
-/

namespace Motewatch

/-- The fault lies in a file. -/
def Fault.isStorage : Fault → Bool
  | .storage _ => true
  | _ => false

/-- The monitor without its files. -/
def Monitor.bare (m : Monitor) : Monitor := { m with output := none, released := none }

/-- What a call led to, without the files. -/
def Turn.bare (t : Turn) : Turn := { t with monitor := t.monitor.bare }

/-- A file could not be written. -/
def Turn.isUnwritten (t : Turn) : Bool := t.fault.any Fault.isStorage

namespace Monitor
variable {m : Monitor} {e : Event} {c : Call} {t : Turn}

@[simp] theorem phase_bare (m : Monitor) : m.bare.phase = m.phase := rfl

/-! ## Single steps -/

@[simp] theorem bare_log (m : Monitor) (e : Event) : (m.log e).1.bare = m.bare := by
  rw [log_fst]
  rfl

theorem bare_settle (m : Monitor) (tally : Tally) (r : Report) :
    (m.settle tally r).1.bare = (m.bare.settle tally r).1 := by
  rw [settle_fst, settle_fst]
  rfl

/-- The report of an event that was logged is kept as if there were no log. -/
theorem bare_settle_log (m : Monitor) (e : Event) (tally : Tally) (r : Report) :
    ((m.log e).1.settle tally r).1.bare = (m.bare.settle tally r).1 := by
  rw [bare_settle, bare_log]

theorem answer_of_ignores (h : m.Ignores c) : m.answer c = ⟨m, [], none⟩ := by
  cases c with
  | event e => exact onEvent_of_ne h e
  | message text => exact if_neg h
  | timeout now =>
    rw [Ignores] at h
    rw [answer, onTimeout, h]

theorem answer_of_settling (hp : m.phase = .settling) (h : ¬m.Ignores c) :
    m.answer c = ⟨{ m with phase := .passed }, [.passed], none⟩ := by
  cases c with
  | event e => exact absurd (by simp [Ignores, hp]) h
  | message text => exact if_pos (Decidable.not_not.1 h)
  | timeout now => rw [answer, onTimeout, hp]

/-! ## Calls without files -/

section
variable (hp : m.phase = .monitoring)
include hp

/-- Without files there is nothing to log to, and an event is taken in at once. -/
theorem answer_event_bare (e : Event) : m.bare.answer (.event e) = m.bare.takeIn e :=
  onEvent_of_eq (m := m.bare) hp e

theorem answer_event_bare_of_quiet {r : Recorded} (hr : m.rules.record m.tally e = .ok r)
    (hnone : r.report = none) :
    m.bare.answer (.event e) = ⟨{ m.bare with tally := r.tally }, r.signals, none⟩ := by
  obtain ⟨tally, signals, report?⟩ := r
  obtain rfl : report? = none := hnone
  exact (answer_event_bare hp e).trans (takeIn_of_quiet hr)

theorem answer_event_bare_of_report {r : Recorded} {report : Report}
    (hr : m.rules.record m.tally e = .ok r) (hsome : r.report = some report) :
    m.bare.answer (.event e) =
      ⟨{ (m.bare.settle r.tally report).1 with phase := .settling },
        [.message (sleepDelay r.tally.speed) sleepMessage], none⟩ := by
  obtain ⟨tally, signals, report?⟩ := r
  obtain rfl : report? = some report := hsome
  obtain rfl : signals = [] := (Rules.report_record hr rfl).2
  exact (answer_event_bare hp e).trans (takeIn_of_report (m := m.bare) hr)

theorem answer_timeout_bare (hs : m.tally.isSealed = false) (now : Instant) :
    m.bare.answer (.timeout now) =
      ⟨{ (m.bare.settle m.tally.close (m.tally.report now true)).1 with phase := .passed },
        [.passed], none⟩ :=
  onTimeout_of_open (m := m.bare) hp hs now

end

/-! ## With files and without -/

/-- **A call does not depend on the files** if they can be written. -/
theorem Reply.answer_bare (h : Reply m c t) (hwritten : t.isUnwritten = false) :
    m.bare.answer c = t.bare := by
  cases h with
  | ignored _ hignores => exact answer_of_ignores (m := m.bare) hignores
  | unlogged _ hlog =>
      obtain ⟨cause, rfl⟩ := exists_storage_of_log hlog
      contradiction
  | @late e hp _ hs =>
      have htake := takeIn_of_error (m := m.bare) (Rules.record_of_sealed m.rules e hs)
      rw [answer_event_bare hp, htake, Turn.bare, bare_log]
  | counted hp _ hr hnone =>
      rw [answer_event_bare_of_quiet hp hr hnone, Turn.bare, log_fst]
      rfl
  | endedUnwritten _ _ _ _ hwrite =>
      obtain ⟨cause, rfl⟩ := exists_storage_of_settle hwrite
      contradiction
  | ended hp _ hr hsome =>
      rw [answer_event_bare_of_report hp hr hsome, ← bare_settle_log]
      rfl
  | overdue hp hs => exact onTimeout_of_sealed (m := m.bare) hp hs _
  | closedUnwritten _ _ hwrite =>
      obtain ⟨cause, rfl⟩ := exists_storage_of_settle hwrite
      contradiction
  | closed hp hs =>
      rw [answer_timeout_bare hp hs, ← bare_settle]
      rfl
  | passed _ hp hignores => exact answer_of_settling (m := m.bare) hp hignores

/-- An event that cannot be logged has not come, as far as anything but the files is concerned. -/
theorem bare_answer_of_unlogged (hp : m.phase = .monitoring) {fault : Fault}
    (hlog : (m.log e).2 = some fault) :
    (m.answer (.event e)).bare = ⟨m.bare, [], some fault⟩ := by
  rw [answer, onEvent_of_eq hp, hlog, Turn.bare, bare_log]

/-- If the report cannot be written, the monitor is left as without files, but for its phase and the
signals that it would have given. -/
theorem Reply.bare_of_unwritten (h : Reply m c t) (hunwritten : t.isUnwritten = true)
    (hlogged : ∀ e, c = .event e → (m.log e).2 = none) :
    t.bare = ⟨{ (m.bare.answer c).monitor with phase := .monitoring }, [], t.fault⟩ := by
  cases h with
  | unlogged _ hlog =>
      rw [hlogged _ rfl] at hlog
      contradiction
  | @endedUnwritten e r report _ hp _ hr hsome =>
      have hphase : ((m.log e).1.settle r.tally report).1.bare.phase = .monitoring := by simp [hp]
      rw [answer_event_bare_of_report hp hr hsome, ← bare_settle_log m e, ← hphase]
      rfl
  | @closedUnwritten now _ hp hs =>
      have hphase : (m.settle m.tally.close (m.tally.report now true)).1.bare.phase =
          .monitoring := by simp [hp]
      rw [answer_timeout_bare hp hs, ← bare_settle, ← hphase]
      rfl
  | _ => contradiction

/-! ## Whole lives -/

/-- What calls lead to, one after the other. -/
def turns (m : Monitor) : List Call → List Turn
  | [] => []
  | c :: rest => m.answer c :: (m.answer c).monitor.turns rest

/-- Up to the first call on which a file cannot be written, files play no part. -/
theorem turns_bare (m : Monitor) (calls : List Call) :
    ((m.turns calls).takeWhile (!·.isUnwritten)).map Turn.bare <+: m.bare.turns calls := by
  induction calls generalizing m with
  | nil => exact List.prefix_refl []
  | cons c rest ih =>
    cases hu : (m.answer c).isUnwritten with
    | true => simp [turns, hu]
    | false =>
      rw [turns, turns, (reply_answer m c).answer_bare hu,
        List.takeWhile_cons_of_pos (by rw [hu]; rfl), List.map_cons]
      exact (List.prefix_cons_inj _).2 (ih (m.answer c).monitor)

/-- A monitor starts with files and without in the same way. -/
theorem start_none (rules : Rules) (total : Nat) (speed : Float) (o : Output) :
    start rules total speed none =
      (start rules total speed (some o)).map fun s => (s.1.bare, s.2) := by
  unfold start
  cases Tally.start total speed <;> rfl

section
variable (rules : Rules) (total : Nat) (speed : Float) (o : Output)

/-- **Files have no influence on a run.** A monitor that is given files, whatever these are and
whether or not they can be written, starts as one that is given none, and the two then do the same on
every call, up to the first one on which a file cannot be written: they are left with the same tally,
phase and report, give the same signals, and come to the same faults. An event that cannot be logged
changes nothing of all this. If it is the report that cannot be written, all is as without files but
for the phase, which stays, and the signals, which are not given. -/
theorem start_bare :
    start rules total speed none =
      (start rules total speed (some o)).map (fun s => (s.1.bare, s.2)) ∧
    ∀ m first, start rules total speed (some o) = .ok (m, first) → ∀ calls : List Call,
      ((m.turns calls).takeWhile (!·.isUnwritten)).map Turn.bare <+: m.bare.turns calls ∧
      let now := m.after calls
      (∀ e fault, now.phase = .monitoring → (now.log e).2 = some fault →
        (now.answer (.event e)).bare = ⟨now.bare, [], some fault⟩) ∧
      (∀ c, (now.answer c).isUnwritten = true →
        (∀ e, c = .event e → (now.log e).2 = none) →
        (now.answer c).bare = ⟨{ (now.bare.answer c).monitor with phase := .monitoring }, [],
          (now.answer c).fault⟩) := by
  refine ⟨start_none rules total speed o, fun m first _ calls => ⟨turns_bare m calls, ?_, ?_⟩⟩
  · exact fun e fault hp hlog => bare_answer_of_unlogged hp hlog
  · exact fun c hunwritten hlogged => (reply_answer _ c).bare_of_unwritten hunwritten hlogged

end

/-- Both files lie on the full device, and the buffer of the log has no place left: a message that
comes too early is ignored as without files, an event is not taken in, and the time limit leaves the
phase where it is. -/
theorem start_bare_full_device :
    let calls : List Call := [.message sleepMessage]
    let e : Event := ⟨⟨1⟩, .ofMicros 6, "Received"⟩
    ∃ o m first, o.log.sink.device = .full ∧ o.report.device = .full ∧
      o.log.pending.utf8ByteSize = Storage.Buffered.capacity ∧
      start ⟨.standard, none⟩ 1 1 (some o) = .ok (m, first) ∧
      ((m.turns calls).takeWhile (!·.isUnwritten)).length = 1 ∧
      ((m.turns calls).takeWhile (!·.isUnwritten)).map Turn.bare <+: m.bare.turns calls ∧
      ((m.after calls).answer (.event e)).bare =
        ⟨(m.after calls).bare, [], some (.storage .noSpace)⟩ ∧
      ((m.after calls).answer (.timeout (.ofMicros 9))).bare.monitor.phase = .monitoring := by
  intro calls e
  have hdots (n : Nat) : (String.ofList (List.replicate n '.')).utf8ByteSize = n := by
    induction n with
    | zero => rfl
    | succ n ih =>
      have hdot : (String.ofList ['.']).utf8ByteSize = 1 := rfl
      rw [List.replicate_succ, ← List.singleton_append, String.ofList_append,
        String.utf8ByteSize_append, ih, hdot, Nat.add_comm]
  -- The text is too long to be computed with: all that counts is its size.
  obtain ⟨text, hsize⟩ : ∃ text : String, text.utf8ByteSize = Storage.Buffered.capacity :=
    ⟨_, hdots _⟩
  let o : Output := ⟨⟨.fresh .full, text⟩, .fresh .full, .full, [], []⟩
  have happend : (o.append e).2 = some .noSpace := by
    have hne : text ≠ "" := fun hempty => by simp [hempty, Storage.Buffered.capacity] at hsize
    have hline : 0 < e.rawLine.utf8ByteSize := by decide
    have hwrite : o.log.write e.rawLine = (o.log, some .noSpace) := by
      rw [Storage.Buffered.write, if_neg (by simp only [o]; omega),
        Storage.Buffered.flush_of_full rfl hne]
    rw [Output.append, hwrite]
  have h : start ⟨.standard, none⟩ 1 1 (some o) = .ok (_, _) := rfl
  obtain ⟨-, hbare⟩ := start_bare ⟨.standard, none⟩ 1 1 o
  obtain ⟨hturns, hunlogged, hunwritten⟩ := hbare _ _ h calls
  refine ⟨o, _, _, rfl, rfl, hsize, h, rfl, hturns, ?_, ?_⟩
  · refine hunlogged e _ rfl ((log_snd _ e).trans ?_)
    exact congrArg (Option.map Fault.storage) happend
  · rw [hunwritten (.timeout (.ofMicros 9)) rfl fun _ h => by cases h]

end Monitor

end Motewatch
