import Motewatch.Proofs.Monitor.Stranding
import Motewatch.Proofs.Output.Written

/-!
# The files of a monitor

A monitor logs every event that comes while the run is monitored, the one that ends the run included,
and writes its report when the phase moves on. The lines of the log may all be kept back until then,
or until the monitor is given up. On working devices this makes no difference in the end: the files
hold the run, whatever the simulation calls and whenever the monitor is given up.

## Main definitions

* `Monitor.heard` — the events that come while the run is monitored.
* `reportText` — the text of a report file.
* `Monitor.Keeps` — what the files hold as long as the monitor has them, and afterwards.

## Main results

* `Monitor.Keeps.reply` — a call adds its event to what the files hold, if it is one to be logged.
* `Monitor.start_files` — the files of a monitor are exactly its run.
-/

namespace Motewatch
open Storage (Tree)

/-- The text of a report file: the report and the end of its last line, or nothing. -/
def reportText (format : Report.Format) : Option Report → String
  | none => ""
  | some r => r.render format ++ "\n"

namespace Monitor
variable {m : Monitor} {c : Call} {t : Turn} {o : Output} {events : List Event}

/-! ## Events that are logged -/

/-- The event of a call that comes while the run is monitored. -/
def hears (m : Monitor) : Call → List Event
  | .event e => if m.phase = .monitoring then [e] else []
  | .message _ => []
  | .timeout _ => []

/-- The events of calls that come while the run is monitored, in order. -/
def heard (m : Monitor) : List Call → List Event
  | [] => []
  | c :: rest => m.hears c ++ (m.answer c).monitor.heard rest

theorem heard_append (m : Monitor) (calls more : List Call) :
    m.heard (calls ++ more) = m.heard calls ++ (m.after calls).heard more := by
  induction calls generalizing m with
  | nil => rfl
  | cons c rest ih => simp [heard, ih]

theorem heard_snoc (m : Monitor) (calls : List Call) (c : Call) :
    m.heard (calls ++ [c]) = m.heard calls ++ (m.after calls).hears c := by
  simp [heard_append, heard]

theorem hears_event (hp : m.phase = .monitoring) (e : Event) : m.hears (.event e) = [e] :=
  if_pos hp

theorem hears_of_ne (hp : m.phase ≠ .monitoring) (c : Call) : m.hears c = [] := by
  cases c with
  | event e => exact if_neg hp
  | message text => rfl
  | timeout now => rfl

theorem hears_of_ignores (h : m.Ignores c) : m.hears c = [] := by
  cases c with
  | event e => exact if_neg h
  | message text => rfl
  | timeout now => rfl

/-! ## What the files hold -/

/-- The files, opened as `o`, hold the lines of the events. As long as the run is monitored they are
open, with lines kept back and no report; once the phase has moved on they are closed and complete. -/
inductive Keeps (o : Output) (events : List Event) (m : Monitor) : Prop
  | opened (now : Output) (hp : m.phase = .monitoring) (hreport : m.report = none)
      (hout : m.output = some now) (hcontinues : o.Continues now)
      (hlog : now.log.contents = logText events) (hempty : now.report.written = "")
  | closed (now : Output) (r : Report) (hp : m.phase ≠ .monitoring) (hreport : m.report = some r)
      (hout : m.output = none) (hreleased : m.released = some now)
      (hcontinues : o.Continues now) (hlog : now.log.sink.written = logText events)
      (hwritten : now.report.written = r.render o.format ++ "\n")

namespace Keeps

/-- While the run is monitored, the files are open. -/
theorem exists_output (h : m.Keeps o events) (hp : m.phase = .monitoring) :
    ∃ now, m.output = some now ∧ m.report = none ∧ o.Continues now ∧
      now.log.contents = logText events ∧ now.report.written = "" := by
  cases h with
  | opened now _ hreport hout hcontinues hlog hempty =>
      exact ⟨now, hout, hreport, hcontinues, hlog, hempty⟩
  | closed _ _ hne => contradiction

/-- Logging an event adds its line. -/
theorem log (h : m.Keeps o events) (hp : m.phase = .monitoring) {e : Event}
    (hlog : (m.log e).2 = none) : (m.log e).1.Keeps o (events ++ [e]) := by
  obtain ⟨now, hout, hreport, hcontinues, hlines, hempty⟩ := h.exists_output hp
  rw [log_snd, hout, Option.bind_some, Option.map_eq_none_iff] at hlog
  refine .opened (now.append e).1 ?_ ?_ ?_ ?_ ?_ ?_
  · rw [phase_log, hp]
  · rw [report_log, hreport]
  · rw [log_fst, hout]
    rfl
  · exact hcontinues.trans (Output.continues_append now e)
  · rw [Output.contents_append hlog, hlines, logText_append]
    simp [logText_cons]
  · rw [Output.report_append, hempty]

/-- Writing the report completes the files. -/
theorem settle (h : m.Keeps o events) (hp : m.phase = .monitoring) {tally : Tally} {r : Report}
    (hwrite : (m.settle tally r).2 = none) {phase : Phase} (hphase : phase ≠ .monitoring) :
    Keeps o events { (m.settle tally r).1 with phase := phase } := by
  obtain ⟨now, hout, -, hcontinues, hlines, hempty⟩ := h.exists_output hp
  rw [settle_snd, hout, Option.bind_some, Option.map_eq_none_iff] at hwrite
  obtain ⟨hlog, hreport⟩ := Output.written_finish hwrite
  refine .closed (now.finish r).1 r hphase ?_ ?_ ?_ ?_ ?_ ?_
  · exact report_settle m tally r
  · exact output_settle m tally r
  · rw [settle_fst, hout]
    rfl
  · exact hcontinues.trans (Output.continues_finish now r)
  · rw [hlog, hlines]
  · rw [hreport, hempty, hcontinues.format, String.empty_append]

/-- **A call adds its event to what the files hold**, if it is one to be logged, and the files are
complete when the phase moves on. -/
theorem reply (h : m.Keeps o events) (hable : m.Able) (hreply : Reply m c t) :
    t.monitor.Keeps o (events ++ m.hears c) := by
  -- The monitor is able, which rules out all calls with a fault.
  cases hreply with
  | ignored _ hignores =>
      rw [hears_of_ignores hignores, List.append_nil]
      exact h
  | unlogged _ hlog =>
      rw [(hable.log _).1] at hlog
      contradiction
  | late hp _ hs => exact absurd ⟨hp, hs⟩ hable.unstranded
  | @counted e _ hp hlog =>
      rw [hears_event hp]
      have hp' := (phase_log m e).trans hp
      obtain ⟨now, hout, hreport, hcontinues, hlines, hempty⟩ := (h.log hp hlog).exists_output hp'
      exact .opened now hp' hreport hout hcontinues hlines hempty
  | endedUnwritten _ _ _ _ hwrite =>
      rw [Able.settle (hable.log _).2] at hwrite
      contradiction
  | ended hp hlog _ _ hwrite =>
      rw [hears_event hp]
      exact (h.log hp hlog).settle ((phase_log m _).trans hp) hwrite (by simp)
  | overdue hp hs => exact absurd ⟨hp, hs⟩ hable.unstranded
  | closedUnwritten _ _ hwrite =>
      rw [Able.settle hable.works] at hwrite
      contradiction
  | closed hp _ hwrite =>
      rw [hears, List.append_nil]
      exact h.settle hp hwrite (by simp)
  | passed _ hp =>
      have hne : m.phase ≠ .monitoring := by simp [hp]
      rw [hears_of_ne hne, List.append_nil]
      cases h with
      | opened _ hmonitoring => contradiction
      | closed now r _ hreport hout hreleased hcontinues hlog hwritten =>
        exact .closed now r (by simp) hreport hout hreleased hcontinues hlog hwritten

/-- **What the files hold when the monitor is given up.** -/
theorem files (h : m.Keeps o events) (hworks : o.Works) :
    ∃ now, m.files = some now ∧ o.Continues now ∧ now.log.sink.written = logText events ∧
      now.report.written = reportText o.format m.report := by
  cases h with
  | opened now _ hreport hout hcontinues hlog hempty =>
      refine ⟨now.release, ?_, hcontinues.trans (Output.continues_release now), ?_, ?_⟩
      · rw [Monitor.files, hout]
      · rw [Output.written_release (hcontinues.works hworks).log, hlog]
      · rw [hreport]
        exact hempty
  | closed now r _ hreport hout hreleased hcontinues hlog hwritten =>
      refine ⟨now, ?_, hcontinues, hlog, ?_⟩
      · rw [Monitor.files, hout, hreleased]
      · rw [hreport, hwritten, reportText]

end Keeps

/-! ## Whole lives -/

section
variable {rules : Rules} {total : Nat} {speed : Float} {first : List Signal}

theorem keeps_after (h : start rules total speed (some o) = .ok (m, first)) (hworks : o.Works)
    (hfresh : o.IsFresh) (calls : List Call) : (m.after calls).Keeps o (m.heard calls) := by
  induction calls using List.reverseRecOn with
  | nil =>
      obtain ⟨tally, -, rfl, -⟩ := start_eq_ok h
      exact .opened o rfl rfl rfl (.refl o) hfresh.contents_log hfresh.report
  | append_singleton calls c ih =>
      have hable : (m.after calls).Able := able_after h (by simpa using hworks) calls
      rw [after_snoc, heard_snoc]
      exact ih.reply hable (reply_answer _ c)

/-- **The files of a monitor are exactly its run.** Whatever is called, and wherever in its run the
monitor is given up: the raw log is a line for each event that came while the run was monitored, in
order, and the report file is the report with the end of its last line, or empty if there is none.
That is what is found under the paths of the files, too. -/
theorem start_files {t t' : Tree} {dir stamp : String} {format : Report.Format}
    (hcreate : Output.create t dir stamp format = (t', .ok o)) (hworks : o.Works)
    (h : start rules total speed (some o) = .ok (m, first)) (calls : List Call) :
    ∃ files, (m.after calls).files = some files ∧
      files.log.sink.written = logText (m.heard calls) ∧
      files.report.written = reportText format (m.after calls).report ∧
      (files.keepIn t').read (rawLogPath dir stamp) = .ok (logText (m.heard calls)).toUTF8 ∧
      (files.keepIn t').read (reportPath dir stamp) =
        .ok (reportText format (m.after calls).report).toUTF8 := by
  obtain ⟨-, -, -, -, -, hfresh, hformat⟩ := Output.exists_opened_of_create hcreate
  obtain ⟨files, hfiles, hcontinues, hlog, hreport⟩ :=
    (keeps_after h hworks hfresh calls).files hworks
  obtain ⟨hreadLog, hreadReport⟩ := Output.read_keepIn hcreate hcontinues
  have hstill := hcontinues.works hworks
  rw [hformat] at hreport
  refine ⟨files, hfiles, hlog, hreport, ?_, ?_⟩
  · rw [hreadLog hstill.log, hlog]
  · rw [hreadReport hstill.report, hreport]

/-- A run of one node: the event after the one that ends the run is in none of the files. -/
theorem start_files_one_node :
    let o : Output := ⟨.fresh .working, .fresh .working, .full, ["simulationx.log"],
      ["simulation-statsx.json"]⟩
    let calls : List Call := [.event ⟨⟨1⟩, .ofMicros 5, "pkt->type = complete"⟩,
      .event ⟨⟨1⟩, .ofMicros 6, "Received"⟩, .message sleepMessage]
    ∃ t m first files, Output.create .empty "" "x" .full = (t, .ok o) ∧ o.Works ∧
      start ⟨.standard, none⟩ 1 1 (some o) = .ok (m, first) ∧
      (m.after calls).files = some files ∧ (m.after calls).report.isSome = true ∧
      (files.keepIn t).read (rawLogPath "" "x") = .ok "1:pkt->type = complete\n".toUTF8 := by
  intro o calls
  have hcreate : Output.create .empty "" "x" .full = (_, .ok o) := rfl
  have hworks : o.Works := ⟨rfl, rfl⟩
  have h : start ⟨.standard, none⟩ 1 1 (some o) = .ok (_, _) := rfl
  obtain ⟨files, hfiles, -, -, hlog, -⟩ := start_files hcreate hworks h calls
  refine ⟨_, _, _, files, hcreate, hworks, h, hfiles, ?_, ?_⟩
  · decide +kernel
  · rw [hlog]
    decide +kernel

end

end Monitor

end Motewatch
