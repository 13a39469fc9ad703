import Motewatch.Output

/-!
# Files on working devices

As long as both files of a run lie on working devices, nothing that the run writes can fail. Whether
a device works does not depend on what is written to it.

## Main definitions

* `Output.Works` — both files lie on working devices.

## Main results

* `Output.Works.append` — an event is logged without a fault.
* `Output.Works.finish` — the report is written without a fault.
-/

namespace Motewatch

namespace Storage

namespace Sink
variable {s : Sink}

theorem write_of_working (h : s.device = .working) (text : String) :
    s.write text = ({ s with written := s.written ++ text }, none) := by
  rw [write, h]
  rfl

/-- A working device keeps what was written. -/
theorem sync_of_working (h : s.device = .working) : s.sync = (s, none) := by
  obtain ⟨device, written⟩ := s
  obtain rfl : device = .working := h
  rfl

end Sink

namespace Buffered
variable {b : Buffered}

/-- On a working device everything that is kept back can be written out. -/
theorem flush_of_working (h : b.sink.device = .working) :
    b.flush.2 = none ∧ b.flush.1.sink.device = .working := by
  rw [flush]
  split
  · exact ⟨rfl, h⟩
  · rw [Sink.write_of_working h]
    exact ⟨rfl, h⟩

theorem place_of_working (h : b.sink.device = .working) (text : String) :
    (b.place text).2 = none ∧ (b.place text).1.sink.device = .working := by
  rw [place]
  split
  · exact ⟨rfl, h⟩
  · rw [Sink.write_of_working h]
    exact ⟨rfl, h⟩

/-- On a working device no write fails. -/
theorem write_of_working (h : b.sink.device = .working) (text : String) :
    (b.write text).2 = none ∧ (b.write text).1.sink.device = .working := by
  rw [write]
  split
  · exact place_of_working h text
  · obtain ⟨hfault, hdevice⟩ := flush_of_working h
    generalize b.flush = result at hfault hdevice
    obtain ⟨flushed, fault?⟩ := result
    obtain rfl : fault? = none := hfault
    exact place_of_working hdevice text

end Buffered

end Storage

namespace Output
variable {o : Output}

/-- Logging an event writes its line and the end of the line to the log, and nothing else. -/
theorem append_eq (o : Output) (e : Event) :
    o.append e = match (o.log.write e.rawLine).2 with
      | some fault => ({ o with log := (o.log.write e.rawLine).1 }, some fault)
      | none => ({ o with log := ((o.log.write e.rawLine).1.write "\n").1 },
          ((o.log.write e.rawLine).1.write "\n").2) := by
  rw [append]
  generalize o.log.write e.rawLine = result
  obtain ⟨log, _ | fault⟩ := result <;> rfl

theorem report_append (o : Output) (e : Event) : (o.append e).1.report = o.report := by
  rw [append_eq]
  split <;> rfl

/-- On a working device an event is logged without a fault, and the device works on. -/
theorem append_of_working (h : o.log.sink.device = .working) (e : Event) :
    (o.append e).2 = none ∧ (o.append e).1.log.sink.device = .working := by
  obtain ⟨hline, hdevice⟩ := Storage.Buffered.write_of_working h e.rawLine
  rw [append_eq, hline]
  dsimp only
  exact Storage.Buffered.write_of_working hdevice "\n"

/-- A report that can be written is there as a whole before the log is. -/
theorem finish_of_working (h : o.report.device = .working) (r : Report) :
    o.finish r = ({ o with
        report := { o.report with written := o.report.written ++ (r.render o.format ++ "\n") }
        log := o.log.flush.1 }, o.log.flush.2) := by
  have hsync := Storage.Sink.sync_of_working
    (s := { o.report with written := o.report.written ++ (r.render o.format ++ "\n") }) h
  rw [finish, Storage.Sink.write_of_working h]
  simp only [hsync]

/-- Both files lie on working devices. -/
structure Works (o : Output) : Prop where
  log : o.log.sink.device = .working
  report : o.report.device = .working

/-- An event is logged without a fault, and the devices work on. -/
theorem Works.append (h : o.Works) (e : Event) :
    (o.append e).2 = none ∧ (o.append e).1.Works := by
  obtain ⟨hfault, hdevice⟩ := append_of_working h.log e
  have hreport : (o.append e).1.report.device = .working := by rw [report_append, h.report]
  exact ⟨hfault, hdevice, hreport⟩

/-- The report is written without a fault. -/
theorem Works.finish (h : o.Works) (r : Report) : (o.finish r).2 = none := by
  rw [finish_of_working h.report]
  exact (Storage.Buffered.flush_of_working h.log).1

end Output

end Motewatch
