import Motewatch.Proofs.Output
import Motewatch.Proofs.Storage.Tree

/-!
# What the files of a run hold

A log line goes to the buffer of the raw log first and to the file at some time later, and a device
may turn out to be full at any of these writes. Here it is said what the files hold after all that:
the log lines in order, nothing between them and nothing left out, and the report or nothing of it.

## Main definitions

* `Device.Becomes` — what may have become of a device.
* `logText` — the text of a raw log.
* `Output.Continues` — the same files later on.
* `Output.logAll`, `Output.writeOut` — logs events in order, and then writes the report.

## Main results

* `Output.contents_logAll` — the log holds its lines, kept back or not.
* `Output.written_release`, `Output.written_finish` — what the files hold once they are given up.
* `Output.writeOut_of_complete`, `Output.writeOut_of_full_report`, `Output.writeOut_of_full_log` —
  what they hold after a whole run, on working devices and on full ones.
* `Output.read_keepIn` — the files are found in the tree with what they hold.
-/

namespace Motewatch
open Storage (Device Sink Buffered Tree)

/-! ## Buffers -/

namespace Storage

/-- What may have become of a device: one that works goes on working, and a full one stays full. -/
structure Device.Becomes (d d' : Device) : Prop where
  working : d = .working → d' = .working
  full : d = .full → d' = .full

namespace Device.Becomes
variable {d d' d'' : Device}

theorem refl (d : Device) : d.Becomes d := ⟨id, id⟩

theorem trans (h : d.Becomes d') (h' : d'.Becomes d'') : d.Becomes d'' :=
  ⟨h'.working ∘ h.working, h'.full ∘ h.full⟩

/-- A device that grants a request is not full. -/
theorem of_grant (h : d.grant? = some d') : d.Becomes d' := by
  constructor
  · rintro rfl
    exact (Option.some.inj h).symm
  · rintro rfl
    contradiction

end Device.Becomes

namespace Sink
variable {s : Sink} {text : String} {fault : Fault}

/-- A text is written as a whole or not at all, and all that can go wrong is that there is no space
left. -/
theorem write_cases (s : Sink) (text : String) :
    (∃ device, s.device.Becomes device ∧
      s.write text = (⟨device, s.written ++ text⟩, none)) ∨ s.write text = (s, some .noSpace) := by
  cases hgrant : s.device.grant? with
  | some device => exact .inl ⟨device, .of_grant hgrant, by simp only [write, hgrant]⟩
  | none => exact .inr (by simp only [write, hgrant])

/-- To make sure of what was written changes nothing about it. -/
theorem sync_cases (s : Sink) :
    (∃ device, s.device.Becomes device ∧ s.sync = (⟨device, s.written⟩, none)) ∨
      s.sync = (s, some .noSpace) := by
  cases hgrant : s.device.grant? with
  | some device => exact .inl ⟨device, .of_grant hgrant, by simp only [sync, hgrant]⟩
  | none => exact .inr (by simp only [sync, hgrant])

theorem becomes_write (s : Sink) (text : String) : s.device.Becomes (s.write text).1.device := by
  obtain ⟨device, hbecomes, heq⟩ | heq := write_cases s text
  · rw [heq]
    exact hbecomes
  · rw [heq]
    exact .refl _

theorem write_of_full (h : s.device = .full) (text : String) :
    s.write text = (s, some .noSpace) := by
  rw [write, h]
  rfl

theorem write_snd (h : (s.write text).2 = some fault) : fault = .noSpace := by
  obtain ⟨device, -, heq⟩ | heq := write_cases s text
  · rw [heq] at h
    contradiction
  · rw [heq] at h
    exact (Option.some.inj h).symm

end Sink

namespace Buffered
variable {b : Buffered} {text : String} {fault : Fault}

theorem flush_of_pending (h : b.pending = "") : b.flush = (b, none) := by
  rw [flush, if_pos h]

theorem flush_of_full (h : b.sink.device = .full) (hpending : b.pending ≠ "") :
    b.flush = (b, some .noSpace) := by
  rw [flush, if_neg hpending, Sink.write_of_full h]

theorem becomes_flush (b : Buffered) : b.sink.device.Becomes b.flush.1.sink.device := by
  rw [flush]
  split
  · exact .refl _
  · have hwrite := Sink.becomes_write b.sink b.pending
    generalize b.sink.write b.pending = result at hwrite
    obtain ⟨sink, _ | fault⟩ := result
    · exact hwrite
    · exact .refl _

theorem becomes_place (b : Buffered) (text : String) :
    b.sink.device.Becomes (b.place text).1.sink.device := by
  rw [place]
  split
  · exact .refl _
  · exact Sink.becomes_write b.sink text

theorem becomes_write (b : Buffered) (text : String) :
    b.sink.device.Becomes (b.write text).1.sink.device := by
  rw [write]
  split
  · exact becomes_place b text
  · have hflush := becomes_flush b
    generalize b.flush = result at hflush
    obtain ⟨flushed, _ | fault⟩ := result
    · exact hflush.trans (becomes_place flushed text)
    · exact hflush

theorem flush_snd (h : b.flush.2 = some fault) : fault = .noSpace := by
  rw [flush] at h
  split at h
  · contradiction
  · have hwrite : (b.sink.write b.pending).2 = some fault → fault = .noSpace := Sink.write_snd
    generalize b.sink.write b.pending = result at h hwrite
    obtain ⟨sink, _ | fault⟩ := result
    · contradiction
    · exact hwrite h

theorem place_snd (h : (b.place text).2 = some fault) : fault = .noSpace := by
  rw [place] at h
  split at h
  · contradiction
  · exact Sink.write_snd h

theorem write_snd (h : (b.write text).2 = some fault) : fault = .noSpace := by
  rw [write] at h
  split at h
  · exact place_snd h
  · have hflush : b.flush.2 = some fault → fault = .noSpace := flush_snd
    generalize b.flush = result at h hflush
    obtain ⟨flushed, _ | fault⟩ := result
    · exact place_snd h
    · exact hflush h

/-- Once the buffer is written out, the file holds all that was written. -/
theorem written_flush (h : b.flush.2 = none) : b.flush.1.sink.written = b.contents := by
  rw [← contents_flush b, contents, pending_flush h, String.append_empty]

/-- Nothing comes to a full device. -/
theorem written_write_of_full (h : b.sink.device = .full) (text : String) :
    (b.write text).1.sink.written = b.sink.written := by
  have hplace : (b.place text).1.sink.written = b.sink.written := by
    rw [place]
    split
    · rfl
    · rw [Sink.write_of_full h]
  rw [write]
  split
  · exact hplace
  · by_cases hpending : b.pending = ""
    · rw [flush_of_pending hpending]
      exact hplace
    · rw [flush_of_full h hpending]

end Buffered

end Storage

/-! ## The files of a run -/

/-- The text of a raw log: a line for each event. -/
def logText (events : List Event) : String := String.join (events.map (·.rawLine ++ "\n"))

@[simp] theorem logText_nil : logText [] = "" := rfl

theorem logText_cons (e : Event) (rest : List Event) :
    logText (e :: rest) = e.rawLine ++ "\n" ++ logText rest := by
  simp [logText]

theorem logText_append (events more : List Event) :
    logText (events ++ more) = logText events ++ logText more := by
  simp [logText]

/-- No line of a raw log is empty. -/
theorem logText_ne_empty {events : List Event} (h : events ≠ []) : logText events ≠ "" := by
  cases events with
  | nil => contradiction
  | cons e rest =>
    rw [logText_cons]
    intro hempty
    have hlist := congrArg String.toList hempty
    simp at hlist

namespace Output
variable {o o' : Output} {e : Event} {events : List Event} {r : Report}

/-- The files are the same ones, whatever has been written to them meanwhile. -/
structure Continues (o o' : Output) : Prop where
  format : o'.format = o.format
  logPlace : o'.logPlace = o.logPlace
  reportPlace : o'.reportPlace = o.reportPlace
  logDevice : o.log.sink.device.Becomes o'.log.sink.device
  reportDevice : o.report.device.Becomes o'.report.device

theorem Continues.refl (o : Output) : o.Continues o := ⟨rfl, rfl, rfl, .refl _, .refl _⟩

theorem Continues.trans {o'' : Output} (h : o.Continues o') (h' : o'.Continues o'') :
    o.Continues o'' where
  format := h'.format.trans h.format
  logPlace := h'.logPlace.trans h.logPlace
  reportPlace := h'.reportPlace.trans h.reportPlace
  logDevice := h.logDevice.trans h'.logDevice
  reportDevice := h.reportDevice.trans h'.reportDevice

theorem Continues.works (h : o.Continues o') (hworks : o.Works) : o'.Works :=
  ⟨h.logDevice.working hworks.log, h.reportDevice.working hworks.report⟩

/-- Nothing has been written to the files. -/
structure IsFresh (o : Output) : Prop where
  log : o.log.sink.written = ""
  pending : o.log.pending = ""
  report : o.report.written = ""

theorem IsFresh.contents_log (h : o.IsFresh) : o.log.contents = "" := by
  rw [Buffered.contents, h.log, h.pending, String.append_empty]

/-! ### Logging -/

theorem continues_append (o : Output) (e : Event) : o.Continues (o.append e).1 := by
  have hline := Buffered.becomes_write o.log e.rawLine
  have hend := Buffered.becomes_write (o.log.write e.rawLine).1 "\n"
  rw [append_eq]
  split
  · exact ⟨rfl, rfl, rfl, hline, .refl _⟩
  · refine ⟨rfl, rfl, rfl, ?_, .refl _⟩
    dsimp only
    exact hline.trans hend

theorem append_snd {fault : Storage.Fault} (h : (o.append e).2 = some fault) :
    fault = .noSpace := by
  rw [append_eq] at h
  split at h
  · rename_i hline
    obtain rfl := Option.some.inj h
    exact Buffered.write_snd hline
  · dsimp only at h
    exact Buffered.write_snd h

/-- An event that is logged without a fault comes behind those before it. -/
theorem contents_append (h : (o.append e).2 = none) :
    (o.append e).1.log.contents = o.log.contents ++ (e.rawLine ++ "\n") := by
  rw [append_eq] at h ⊢
  split at h
  · contradiction
  · rename_i hline
    dsimp only at h ⊢
    rw [Buffered.contents_write h, Buffered.contents_write hline, String.append_assoc]

/-- Nothing comes to a log on the full device. -/
theorem written_append_of_full (h : o.log.sink.device = .full) (e : Event) :
    (o.append e).1.log.sink.written = o.log.sink.written := by
  have hline := Buffered.written_write_of_full h e.rawLine
  have hdevice := (Buffered.becomes_write o.log e.rawLine).full h
  rw [append_eq]
  split
  · dsimp only
    exact hline
  · dsimp only
    rw [Buffered.written_write_of_full hdevice, hline]

/-- Logs events one after the other, up to the first one that cannot be logged. -/
def logAll (o : Output) : List Event → Output × Option Storage.Fault
  | [] => (o, none)
  | e :: rest =>
    match o.append e with
    | (o, some fault) => (o, some fault)
    | (o, none) => o.logAll rest

theorem logAll_of_some {fault : Storage.Fault} (h : (o.append e).2 = some fault)
    (rest : List Event) : o.logAll (e :: rest) = ((o.append e).1, some fault) := by
  rw [logAll]
  generalize o.append e = result at h
  obtain ⟨o', _ | fault'⟩ := result
  · contradiction
  · rw [show some fault' = some fault from h]

theorem logAll_of_none (h : (o.append e).2 = none) (rest : List Event) :
    o.logAll (e :: rest) = (o.append e).1.logAll rest := by
  rw [logAll]
  generalize o.append e = result at h
  obtain ⟨o', _ | fault⟩ := result
  · rfl
  · contradiction

theorem continues_logAll (o : Output) (events : List Event) :
    o.Continues (o.logAll events).1 ∧ (o.logAll events).1.report = o.report := by
  induction events generalizing o with
  | nil => exact ⟨Continues.refl o, rfl⟩
  | cons e rest ih =>
      cases h : (o.append e).2 with
      | some fault =>
        rw [logAll_of_some h]
        dsimp only
        exact ⟨continues_append o e, report_append o e⟩
      | none =>
        obtain ⟨hcontinues, hreport⟩ := ih (o.append e).1
        rw [logAll_of_none h]
        exact ⟨(continues_append o e).trans hcontinues, hreport.trans (report_append o e)⟩

theorem logAll_snd {fault : Storage.Fault} (h : (o.logAll events).2 = some fault) :
    fault = .noSpace := by
  induction events generalizing o with
  | nil => contradiction
  | cons e rest ih =>
      cases happend : (o.append e).2 with
      | some cause =>
        rw [logAll_of_some happend] at h
        obtain rfl := Option.some.inj h
        exact append_snd happend
      | none =>
        rw [logAll_of_none happend] at h
        exact ih h

/-- **The log holds its lines in order**, be they kept back or not. -/
theorem contents_logAll (h : (o.logAll events).2 = none) :
    (o.logAll events).1.log.contents = o.log.contents ++ logText events := by
  induction events generalizing o with
  | nil => simp [logAll]
  | cons e rest ih =>
      cases happend : (o.append e).2 with
      | some fault =>
        rw [logAll_of_some happend] at h
        contradiction
      | none =>
        rw [logAll_of_none happend] at h ⊢
        rw [ih h, contents_append happend, logText_cons, String.append_assoc]

theorem written_logAll_of_full (h : o.log.sink.device = .full) (events : List Event) :
    (o.logAll events).1.log.sink.written = o.log.sink.written := by
  induction events generalizing o with
  | nil => rfl
  | cons e rest ih =>
      cases happend : (o.append e).2 with
      | some fault =>
        rw [logAll_of_some happend]
        dsimp only
        exact written_append_of_full h e
      | none =>
        rw [logAll_of_none happend, ih ((continues_append o e).logDevice.full h)]
        exact written_append_of_full h e

theorem logAll_of_working (h : o.log.sink.device = .working) (events : List Event) :
    (o.logAll events).2 = none := by
  induction events generalizing o with
  | nil => rfl
  | cons e rest ih =>
      rw [logAll_of_none (append_of_working h e).1]
      exact ih (append_of_working h e).2

/-! ### Giving the files up -/

theorem continues_release (o : Output) : o.Continues o.release :=
  ⟨rfl, rfl, rfl, Buffered.becomes_flush o.log, .refl _⟩

/-- Files to which nothing was written are given up as they are. -/
theorem IsFresh.release_eq (h : o.IsFresh) : o.release = o := by
  rw [release, Buffered.flush_of_pending h.pending]

/-- A log on a working device holds all its lines when the files are given up. -/
theorem written_release (h : o.log.sink.device = .working) :
    o.release.log.sink.written = o.log.contents :=
  Buffered.written_flush (Buffered.flush_of_working h).1

/-- A report that cannot be written is not begun. -/
theorem finish_of_full (h : o.report.device = .full) (r : Report) :
    o.finish r = (o.release, some .noSpace) := by
  rw [finish, Sink.write_of_full h]

/-- **The report is there as a whole before the log is written out**, or the files are given up
without that. -/
theorem finish_cases (o : Output) (r : Report) :
    (∃ report, o.report.device.Becomes report.device ∧
      o.finish r = ({ o with report := report }.release, some .noSpace)) ∨
    ∃ report, o.report.device.Becomes report.device ∧
      report.written = o.report.written ++ (r.render o.format ++ "\n") ∧
      o.finish r = ({ o with report := report, log := o.log.flush.1 }, o.log.flush.2) := by
  obtain ⟨device, hbecomes, hwrite⟩ | hwrite :=
    Sink.write_cases o.report (r.render o.format ++ "\n")
  · obtain ⟨device', hbecomes', hsync⟩ | hsync :=
      Sink.sync_cases ⟨device, o.report.written ++ (r.render o.format ++ "\n")⟩
    · refine .inr ⟨⟨device', _⟩, hbecomes.trans hbecomes', rfl, ?_⟩
      simp only [finish, hwrite, hsync]
    · refine .inl ⟨⟨device, o.report.written ++ (r.render o.format ++ "\n")⟩, hbecomes, ?_⟩
      simp only [finish, hwrite, hsync]
  · refine .inl ⟨o.report, .refl _, ?_⟩
    simp only [finish, hwrite]

theorem continues_finish (o : Output) (r : Report) : o.Continues (o.finish r).1 := by
  have hlog := Buffered.becomes_flush o.log
  rcases finish_cases o r with ⟨report, hbecomes, heq⟩ | ⟨report, hbecomes, -, heq⟩
  all_goals
    rw [heq]
    exact ⟨rfl, rfl, rfl, hlog, hbecomes⟩

/-- All that can go wrong with the report is that there is no space left. -/
theorem finish_snd {fault : Storage.Fault} (h : (o.finish r).2 = some fault) :
    fault = .noSpace := by
  rcases finish_cases o r with ⟨report, -, heq⟩ | ⟨report, -, -, heq⟩
  · rw [heq] at h
    exact (Option.some.inj h).symm
  · rw [heq] at h
    exact Buffered.flush_snd h

/-- What files without faults hold once the report is written. -/
theorem written_finish (h : (o.finish r).2 = none) :
    (o.finish r).1.log.sink.written = o.log.contents ∧
      (o.finish r).1.report.written = o.report.written ++ (r.render o.format ++ "\n") := by
  rcases finish_cases o r with ⟨report, -, heq⟩ | ⟨report, -, hwritten, heq⟩
  · rw [heq] at h
    contradiction
  · rw [heq] at h ⊢
    exact ⟨Buffered.written_flush h, hwritten⟩

/-! ### Whole runs -/

/-- Logs the events of a run and writes its report. The files are given up in any case. -/
def writeOut (o : Output) (events : List Event) (r : Report) : Output × Option Storage.Fault :=
  match o.logAll events with
  | (o, some fault) => (o.release, some fault)
  | (o, none) => o.finish r

theorem writeOut_of_some {fault : Storage.Fault} (h : (o.logAll events).2 = some fault)
    (r : Report) : o.writeOut events r = ((o.logAll events).1.release, some fault) := by
  rw [writeOut]
  generalize o.logAll events = result at h
  obtain ⟨o', _ | fault'⟩ := result
  · contradiction
  · rw [show some fault' = some fault from h]

theorem writeOut_of_none (h : (o.logAll events).2 = none) (r : Report) :
    o.writeOut events r = (o.logAll events).1.finish r := by
  rw [writeOut]
  generalize o.logAll events = result at h
  obtain ⟨o', _ | fault⟩ := result
  · rfl
  · contradiction

theorem writeOut_nil (o : Output) (r : Report) : o.writeOut [] r = o.finish r := rfl

theorem writeOut_cons_of_some {fault : Storage.Fault} (h : (o.append e).2 = some fault)
    (rest : List Event) (r : Report) :
    o.writeOut (e :: rest) r = ((o.append e).1.release, some fault) := by
  rw [writeOut, logAll_of_some h]

theorem writeOut_cons_of_none (h : (o.append e).2 = none) (rest : List Event) (r : Report) :
    o.writeOut (e :: rest) r = (o.append e).1.writeOut rest r := by
  rw [writeOut, writeOut, logAll_of_none h]

theorem writeOut_snd {fault : Storage.Fault} (h : (o.writeOut events r).2 = some fault) :
    fault = .noSpace := by
  cases hlog : (o.logAll events).2 with
  | some cause =>
    rw [writeOut_of_some hlog] at h
    obtain rfl := Option.some.inj h
    exact logAll_snd hlog
  | none =>
    rw [writeOut_of_none hlog] at h
    exact finish_snd h

/-- **What is written without a fault is there as a whole**: a line for each event, and the report. -/
theorem writeOut_of_complete (ho : o.IsFresh) (h : (o.writeOut events r).2 = none) :
    (o.writeOut events r).1.log.sink.written = logText events ∧
      (o.writeOut events r).1.report.written = r.render o.format ++ "\n" := by
  obtain ⟨hcontinues, hreport⟩ := continues_logAll o events
  cases hlog : (o.logAll events).2 with
  | some fault =>
    rw [writeOut_of_some hlog] at h
    contradiction
  | none =>
    rw [writeOut_of_none hlog] at h ⊢
    obtain ⟨hlines, hwritten⟩ := written_finish h
    rw [hlines, hwritten, contents_logAll hlog, ho.contents_log, hreport, ho.report,
      hcontinues.format, String.empty_append, String.empty_append]
    exact ⟨rfl, rfl⟩

/-- **A report on the full device is always missed**, and a log that works is there as a whole. -/
theorem writeOut_of_full_report (ho : o.IsFresh) (h : o.report.device = .full)
    (events : List Event) (r : Report) :
    (o.writeOut events r).2 = some .noSpace ∧
      (o.log.sink.device = .working →
        (o.writeOut events r).1.log.sink.written = logText events) := by
  obtain ⟨hcontinues, hreport⟩ := continues_logAll o events
  cases hlog : (o.logAll events).2 with
  | some fault =>
    obtain rfl := logAll_snd hlog
    rw [writeOut_of_some hlog]
    refine ⟨rfl, fun hworking => ?_⟩
    rw [logAll_of_working hworking] at hlog
    contradiction
  | none =>
    rw [writeOut_of_none hlog, finish_of_full (hcontinues.reportDevice.full h)]
    refine ⟨rfl, fun hworking => ?_⟩
    rw [written_release (hcontinues.logDevice.working hworking), contents_logAll hlog,
      ho.contents_log, String.empty_append]

/-- **A log on the full device is missed as soon as there is a line for it**, and then the report is
there as a whole or not at all: it is not begun if a line could not even be kept back, and it is
complete if all lines were kept back until the end. -/
theorem writeOut_of_full_log (ho : o.IsFresh) (hreport : o.report.device = .working)
    (hlog : o.log.sink.device = .full) (events : List Event) (r : Report) :
    ((o.writeOut events r).2 = some .noSpace ↔ events ≠ []) ∧
      ((o.logAll events).2 ≠ none → (o.writeOut events r).1.report.written = "") ∧
      ((o.logAll events).2 = none →
        (o.writeOut events r).1.report.written = r.render o.format ++ "\n") := by
  obtain ⟨hcontinues, hkept⟩ := continues_logAll o events
  have hdevice := hcontinues.reportDevice.working hreport
  cases hfault : (o.logAll events).2 with
  | some fault =>
    obtain rfl := logAll_snd hfault
    rw [writeOut_of_some hfault]
    refine ⟨⟨fun _ => ?_, fun _ => rfl⟩, fun _ => ?_, fun h => by contradiction⟩
    · rintro rfl
      contradiction
    · exact (congrArg Sink.written hkept).trans ho.report
  | none =>
    rw [writeOut_of_none hfault, finish_of_working hdevice]
    refine ⟨?_, fun h => absurd rfl h, fun _ => ?_⟩
    · -- What is kept back in the end are all lines, as nothing has come to the device.
      have hpending : (o.logAll events).1.log.pending = logText events := by
        have hcontents := contents_logAll hfault
        rw [Buffered.contents, written_logAll_of_full hlog, ho.log, ho.contents_log] at hcontents
        simpa using hcontents
      constructor
      · rintro hflush rfl
        rw [Buffered.flush_of_pending hpending] at hflush
        contradiction
      · intro hne
        have hlines : (o.logAll events).1.log.pending ≠ "" := hpending ▸ logText_ne_empty hne
        rw [Buffered.flush_of_full (hcontinues.logDevice.full hlog) hlines]
    · dsimp only
      rw [hkept, ho.report, hcontinues.format, String.empty_append]

/-! ### The files in the tree -/

theorem joinPath_append (dir name ending : String) :
    joinPath dir (name ++ ending) = joinPath dir name ++ ending := by
  rw [joinPath, joinPath]
  split <;> simp only [String.append_assoc]

variable {t t' : Tree} {dir stamp : String} {format : Report.Format}

/-- Opening the files of a run opens the log and then the report, and nothing is written yet. -/
theorem exists_opened_of_create (h : create t dir stamp format = (t', .ok o)) :
    ∃ t₁ t₂, t.makeDirectories dir = .ok t₁ ∧
      Tree.Opened t₁ (rawLogPath dir stamp) t₂ o.log.sink.device o.logPlace ∧
      Tree.Opened t₂ (reportPath dir stamp) t' o.report.device o.reportPlace ∧
      o.IsFresh ∧ o.format = format := by
  unfold create at h
  split at h
  · simp at h
  · rename_i t₁ hdirectories
    split at h
    · simp at h
    · rename_i t₂ logDevice logPlace hlog
      split at h
      · simp at h
      · rename_i t₃ reportDevice reportPlace hreport
        obtain ⟨rfl, rfl⟩ := by simpa only [Prod.mk.injEq, Except.ok.injEq] using h
        exact ⟨t₁, t₂, hdirectories, Tree.opened_of_openNew hlog, Tree.opened_of_openNew hreport,
          ⟨rfl, rfl, rfl⟩, rfl⟩

/-- The two files of a run never share a place, whatever its name. -/
theorem logPlace_ne_reportPlace (h : create t dir stamp format = (t', .ok o)) :
    o.logPlace ≠ o.reportPlace := by
  obtain ⟨t₁, t₂, -, hlog, hreport, -⟩ := exists_opened_of_create h
  rw [rawLogPath, joinPath_append] at hlog
  rw [reportPath, joinPath_append] at hreport
  obtain ⟨logName, hlogName⟩ := hlog.exists_name (by decide) (by decide)
  obtain ⟨reportName, hreportName⟩ := hreport.exists_name (by decide) (by decide)
  intro hplaces
  rw [hplaces, hreportName] at hlogName
  have hlast := congrArg (fun name : String => name.toList.getLast?) (Option.some.inj hlogName)
  simp [String.toList_append] at hlast

/-- **The files are found in the tree with what they hold**, each under its path. -/
theorem read_keepIn (h : create t dir stamp format = (t', .ok o)) (hcontinues : o.Continues o') :
    (o'.log.sink.device = .working →
      (o'.keepIn t').read (rawLogPath dir stamp) = .ok o'.log.sink.written.toUTF8) ∧
    (o'.report.device = .working →
      (o'.keepIn t').read (reportPath dir stamp) = .ok o'.report.written.toUTF8) := by
  -- Neither file is put where the other one is, and neither is put in place of a directory, so that
  -- the paths lead where they led when the files were opened.
  have hne := logPlace_ne_reportPlace h
  obtain ⟨t₁, t₂, -, hlog, hreport, -⟩ := exists_opened_of_create h
  have hlogFree : t'.entry? o.logPlace ≠ some .directory := by
    rw [hreport.entry?_of_ne hne, hlog.entry?_eq]
    exact Tree.newEntry_ne_directory _
  have hreportFree : Tree.entry? (t'.keep o.logPlace o'.log.sink) o.reportPlace ≠ some .directory := by
    rw [Tree.entry?_keep_of_ne hlogFree _ hne.symm, hreport.entry?_eq]
    exact Tree.newEntry_ne_directory _
  have hext := (Tree.extends_keep hlogFree o'.log.sink).trans
    (Tree.extends_keep hreportFree o'.report)
  rw [keepIn, hcontinues.logPlace, hcontinues.reportPlace]
  constructor
  · intro hworking
    refine hlog.read (hlog.grows.trans (hreport.grows.trans hext)) ?_
    rw [Tree.entry?_keep_of_ne hreportFree _ hne, Tree.entry?_keep_self hlogFree hworking]
  · intro hworking
    exact hreport.read (hreport.grows.trans hext) (Tree.entry?_keep_self hreportFree hworking)

end Output

end Motewatch
