import Motewatch.CommandLine.Run
import Motewatch.Proofs.Except
import Motewatch.Proofs.Output.Written
import Motewatch.Proofs.Replay.Sum
import Motewatch.Proofs.Trace.Grammar
import Motewatch.Proofs.Trace.Joined

/-!
# Rejected input

The program checks its settings and its trace before it opens a file, so that a run that is rejected
leaves everything as it was. One check comes too late for that: a run for which no settings say how
many nodes there are, and whose trace has no events to tell, is rejected by the replay only. By then
the files of the run have been opened, and what they held before is gone.

## Main definitions

* `Fault.isRejection` — the fault lies in what the program was given.

## Main results

* `of_prepare` — what has been checked before a file is opened.
* `failed_cases` — how a run can fail.
* `invoke_rejected` — which rejected runs leave the tree as it was.
* `invoke_empty_trace` — a rejected run that empties a file.
-/

namespace Motewatch

/-- The fault lies in what the program was given, and not in the files or in the run. -/
def Fault.isRejection : Fault → Bool
  | .json _ => true
  | .settings _ => true
  | .trace _ => true
  | _ => false

/-! ## Traces -/

namespace Trace

/-- Every event of a trace is one of a node, and nodes are counted from one. -/
theorem one_le_of_read {text : String} {events : List Event} (h : read text = .ok events) :
    ∀ e ∈ events, 1 ≤ e.node.number := by
  intro e he
  obtain ⟨line, -, hline⟩ := exists_line_of_mem_read h he
  obtain ⟨_, _, _, _, -, -, -, hnode, -⟩ := exists_fields_of_readLine hline
  have hnumber : IsNode e.node _ := nodeNumber_eq_ok_iff.1 hnode
  exact hnumber.one_le

end Trace

/-! ## Settings -/

namespace Settings

theorem checkSpeed_ne_unknownNodes (field : String) (x : Float) :
    checkSpeed field x ≠ .error .unknownNodes := by
  unfold checkSpeed
  split <;> simp

theorem checkMarkers_ne_unknownNodes (markers : List (String × String)) :
    checkMarkers markers ≠ .error .unknownNodes := by
  induction markers with
  | nil => simp [checkMarkers]
  | cons marker rest ih =>
      rw [checkMarkers]
      split
      · simp
      · exact ih

/-- Settings by themselves are not refused for what they do not say about nodes. -/
theorem validate_ne_unknownNodes (s : Settings) : s.validate ≠ .error .unknownNodes := by
  have hchange : checkChange s.speedChange ≠ .error .unknownNodes := by
    unfold checkChange
    split
    · simp
    · exact checkSpeed_ne_unknownNodes _ _
  have hmarkers : checkAllMarkers s.markers ≠ .error .unknownNodes := by
    refine bind_ne_error (checkMarkers_ne_unknownNodes _) fun _ => ?_
    split
    · simp
    · simp [pure, Except.pure]
  rw [validate_eq]
  split
  · simp
  · refine bind_ne_error (checkSpeed_ne_unknownNodes _ _) fun _ => ?_
    exact bind_ne_error hchange fun _ => hmarkers

end Settings

/-! ## Replays -/

namespace Replay
variable {s : Settings} {events : List Event} {output : Option Output}

/-- Without events, nothing tells how many nodes there are. -/
theorem run_of_unknown (hnone : s.totalNodes = none) (o : Output) :
    run s [] (some o) = (.error (.settings .unknownNodes), some o.release) := by
  have hworld : world s [] (some o) = .error .unknownNodes := by
    simp [world, nodeCount, hnone, Trace.maxNode?, bind, Except.bind]
  rw [run_eq, hworld]
  rfl

/-- With settings and events that have been checked, and a number of nodes that is known, all that
can go wrong with a replay is that a file cannot be written. -/
theorem exists_storage_of_run (hs : s.validate = .ok ())
    (hnumbers : ∀ e ∈ events, 1 ≤ e.node.number) (hknown : ¬(s.totalNodes = none ∧ events = []))
    {fault : Fault} (h : (run s events output).1 = .error fault) :
    ∃ cause, fault = .storage cause := by
  have hnodes : NodesKnown s events := by
    cases hset : s.totalNodes with
    | some total => exact .inl (by rw [hset]; rfl)
    | none => exact .inr ⟨fun hempty => hknown ⟨hset, hempty⟩, hnumbers⟩
  obtain ⟨_, _, _, -, -, -, -, -, hfaults, -⟩ := run_sums_up hs hnodes output
  exact hfaults fault h

end Replay

/-! ## What is checked first -/

theorem Settings.Fault.lift_eq_ok {α : Type} {x : Except Settings.Fault α} {a : α} :
    Settings.Fault.lift x = .ok a ↔ x = .ok a := by
  cases x <;> simp [lift]

theorem Settings.Fault.lift_ne_error {α : Type} {x : Except Settings.Fault α}
    {cause : Settings.Fault} (h : x ≠ .error cause) : lift x ≠ .error (.settings cause) := by
  cases x with
  | error fault => simpa [lift] using h
  | ok a => simp [lift]

namespace CommandLine
open Storage (Tree)

variable {a : Arguments} {t t' : Tree} {s : Settings} {events : List Event} {fault : Fault}

/-- The settings of the settings file, if there is one. -/
def fileSettings : Option String → Except Fault Settings
  | none => .ok .standard
  | some text => settingsOfText text

/-- The settings in force are checked with the values from the command line in their place. -/
theorem settings_eq (a : Arguments) (fileText : Option String) :
    a.settings fileText = fileSettings fileText >>= fun base =>
      Settings.Fault.lift (a.override base).validate >>= fun _ => .ok (a.override base) := by
  cases fileText <;> rfl

/-- What has been checked before a file is opened: the settings make sense, and the events are those
of nodes. -/
theorem of_prepare (h : prepare a t = .ok (s, events)) :
    s.validate = .ok () ∧ ∀ e ∈ events, 1 ≤ e.node.number := by
  obtain ⟨fileText, -, h⟩ := bind_eq_ok.1 h
  obtain ⟨settings, hsettings, h⟩ := bind_eq_ok.1 h
  obtain ⟨text, -, h⟩ := bind_eq_ok.1 h
  obtain ⟨events', hevents, h⟩ := bind_eq_ok.1 h
  obtain ⟨rfl, rfl⟩ := Prod.mk.inj (Except.ok.inj h)
  constructor
  · rw [settings_eq] at hsettings
    obtain ⟨base, -, hsettings⟩ := bind_eq_ok.1 hsettings
    obtain ⟨_, hvalid, hsettings⟩ := bind_eq_ok.1 hsettings
    obtain rfl := Except.ok.inj hsettings
    exact Settings.Fault.lift_eq_ok.1 hvalid
  · unfold eventsOfText at hevents
    split at hevents
    · contradiction
    · rename_i hread
      obtain rfl := Except.ok.inj hevents
      exact Trace.one_le_of_read hread

theorem readFile_ne_settings (t : Tree) (path : String) (cause : Settings.Fault) :
    readFile t path ≠ .error (.settings cause) := by
  unfold readFile
  split <;> simp

theorem settingsOfText_ne_unknownNodes (text : String) :
    settingsOfText text ≠ .error (.settings .unknownNodes) := by
  unfold settingsOfText
  split
  · simp
  · exact map_ne_error (Settings.Fault.lift_ne_error (Settings.validate_ne_unknownNodes _))

/-- Whether the number of nodes is known is not checked before files are opened. -/
theorem prepare_ne_unknownNodes (a : Arguments) (t : Tree) :
    prepare a t ≠ .error (.settings .unknownNodes) := by
  have hfile : readSettingsFile a t ≠ .error (.settings .unknownNodes) := by
    unfold readSettingsFile
    split
    · simp
    · exact map_ne_error (readFile_ne_settings t _ .unknownNodes)
  have hsettings : ∀ fileText, a.settings fileText ≠ .error (.settings .unknownNodes) := by
    intro fileText
    rw [settings_eq]
    refine bind_ne_error ?_ fun base => ?_
    · unfold fileSettings
      split
      · simp
      · exact settingsOfText_ne_unknownNodes _
    · refine bind_ne_error (Settings.Fault.lift_ne_error ?_) fun _ => by simp
      exact Settings.validate_ne_unknownNodes _
  have hevents : ∀ text, eventsOfText text ≠ .error (.settings .unknownNodes) := by
    intro text
    unfold eventsOfText
    split <;> simp
  refine bind_ne_error hfile fun fileText => ?_
  refine bind_ne_error (hsettings fileText) fun settings => ?_
  refine bind_ne_error (readFile_ne_settings t a.trace .unknownNodes) fun text => ?_
  exact bind_ne_error (hevents text) fun events => by simp

/-! ## How the program ends -/

theorem ofResult_eq_failed_iff {result : Except Fault Replay.Outcome} :
    Ending.ofResult result = .failed fault ↔ result = .error fault := by
  cases result with
  | error cause => simp [Ending.ofResult]
  | ok outcome => cases h : outcome.report <;> simp [Ending.ofResult, h]

section
variable {arguments : List String} {clock : String}
variable (hparse : Arguments.parse? arguments = some a)
include hparse

/-- If the settings or the trace cannot be read or are refused, no file is opened. -/
theorem invoke_of_unprepared (h : prepare a t = .error fault) :
    invoke arguments clock t = (.failed fault, t) := by
  simp [invoke, hparse, perform, h, Ending.ofResult]

variable (h : prepare a t = .ok (s, events))
include h

theorem invoke_of_uncreated {cause : Storage.Fault}
    (hcreate : Output.create t s.outputDir (a.runId.getD clock) s.format = (t', .error cause)) :
    invoke arguments clock t = (.failed (.storage cause), t') := by
  simp [invoke, hparse, perform, h, hcreate, Ending.ofResult]

theorem invoke_of_created {o : Output}
    (hcreate : Output.create t s.outputDir (a.runId.getD clock) s.format = (t', .ok o)) :
    invoke arguments clock t = (.ofResult (Replay.run s events (some o)).1,
      ((Replay.run s events (some o)).2.map (·.keepIn t')).getD t') := by
  generalize hrun : Replay.run s events (some o) = run
  obtain ⟨result, _ | o'⟩ := run <;> simp [invoke, hparse, perform, h, hcreate, hrun]

/-- Without events and without a number of nodes, the files are given up as they were opened. -/
theorem invoke_of_unknown {o : Output} (hevents : events = []) (hnone : s.totalNodes = none)
    (hcreate : Output.create t s.outputDir (a.runId.getD clock) s.format = (t', .ok o)) :
    invoke arguments clock t = (.failed (.settings .unknownNodes), o.keepIn t') := by
  subst hevents
  obtain ⟨-, -, -, -, -, hfresh, -⟩ := Output.exists_opened_of_create hcreate
  rw [invoke_of_created hparse h hcreate, Replay.run_of_unknown hnone, hfresh.release_eq]
  rfl

end

/-- How a run can fail: before a file is opened, because of a file, or because nothing tells how many
nodes there are. -/
theorem failed_cases {arguments : List String} {clock : String}
    (hparse : Arguments.parse? arguments = some a)
    (hfailed : (invoke arguments clock t).1 = .failed fault) :
    prepare a t = .error fault ∨ (∃ cause, fault = .storage cause) ∨
      (fault = .settings .unknownNodes ∧ ∃ s t' o, prepare a t = .ok (s, []) ∧
        s.totalNodes = none ∧
        Output.create t s.outputDir (a.runId.getD clock) s.format = (t', .ok o)) := by
  cases h : prepare a t with
  | error cause =>
    rw [invoke_of_unprepared hparse h] at hfailed
    exact .inl (congrArg Except.error (Ending.failed.inj hfailed))
  | ok prepared =>
    obtain ⟨s, events⟩ := prepared
    obtain ⟨hs, hnumbers⟩ := of_prepare h
    rcases hcreate : Output.create t s.outputDir (a.runId.getD clock) s.format with ⟨t', cause | o⟩
    · rw [invoke_of_uncreated hparse h hcreate] at hfailed
      exact .inr (.inl ⟨cause, (Ending.failed.inj hfailed).symm⟩)
    · by_cases hknown : s.totalNodes = none ∧ events = []
      · obtain ⟨hnone, rfl⟩ := hknown
        rw [invoke_of_unknown hparse h rfl hnone hcreate] at hfailed
        exact .inr (.inr ⟨(Ending.failed.inj hfailed).symm, s, t', o, rfl, hnone, hcreate⟩)
      · rw [invoke_of_created hparse h hcreate] at hfailed
        have hrun := ofResult_eq_failed_iff.1 hfailed
        exact .inr (.inl (Replay.exists_storage_of_run hs hnumbers hknown hrun))

/-- **Which rejected runs leave the tree as it was.** If the settings file or the trace cannot be read,
or if the settings or the trace are refused, then no file has been opened and no directory made. The
one exception is a run without events and without a number of nodes: it fails for that exactly if its
files could be opened, and then both are there, and empty whatever they held before. -/
theorem invoke_rejected {arguments : List String} (hparse : Arguments.parse? arguments = some a)
    (clock : String) (t : Tree) :
    let run := invoke arguments clock t
    let stamp := a.runId.getD clock
    (∀ fault, prepare a t = .error fault → run = (.failed fault, t)) ∧
    (∀ fault, run.1 = .failed fault → fault.isRejection = true →
      fault ≠ .settings .unknownNodes → run.2 = t) ∧
    (run.1 = .failed (.settings .unknownNodes) ↔ ∃ s t' o, prepare a t = .ok (s, []) ∧
      s.totalNodes = none ∧ Output.create t s.outputDir stamp s.format = (t', .ok o)) ∧
    ∀ s t' o, prepare a t = .ok (s, []) → s.totalNodes = none →
      Output.create t s.outputDir stamp s.format = (t', .ok o) →
      (o.log.sink.device = .working →
        run.2.read (rawLogPath s.outputDir stamp) = .ok .empty) ∧
      (o.report.device = .working →
        run.2.read (reportPath s.outputDir stamp) = .ok .empty) := by
  intro run stamp
  refine ⟨fun fault h => invoke_of_unprepared hparse h, ?_, ⟨?_, ?_⟩, ?_⟩
  · intro fault hfailed hrejection hne
    rcases failed_cases hparse hfailed with h | ⟨cause, rfl⟩ | ⟨rfl, -⟩
    · exact congrArg Prod.snd (invoke_of_unprepared hparse h)
    · contradiction
    · contradiction
  · intro hfailed
    rcases failed_cases hparse hfailed with h | ⟨cause, hcause⟩ | ⟨-, hopened⟩
    · exact absurd h (prepare_ne_unknownNodes a t)
    · contradiction
    · exact hopened
  · rintro ⟨s, t', o, h, hnone, hcreate⟩
    exact congrArg Prod.fst (invoke_of_unknown hparse h rfl hnone hcreate)
  · intro s t' o h hnone hcreate
    have hrun : run.2 = o.keepIn t' :=
      congrArg Prod.snd (invoke_of_unknown hparse h rfl hnone hcreate)
    obtain ⟨-, -, -, -, -, hfresh, -⟩ := Output.exists_opened_of_create hcreate
    obtain ⟨hlog, hreport⟩ := Output.read_keepIn hcreate (Output.Continues.refl o)
    rw [hrun]
    constructor
    · intro hworking
      rw [hlog hworking, hfresh.log]
      rfl
    · intro hworking
      rw [hreport hworking, hfresh.report]
      rfl

/-- A run without nodes is refused with its settings, and a report that is there stays. -/
theorem invoke_rejected_no_nodes :
    let t : Tree := ⟨[(["simulation-statsx.json"], .file "\x7b\x7d\n".toUTF8)], []⟩
    let arguments := ["--trace", "t.log", "--nodes", "0", "--run-id", "x"]
    (Arguments.parse? arguments).isSome = true ∧
      invoke arguments "0" t = (.failed (.settings .noNodes), t) := by
  intro t arguments
  have hparse : Arguments.parse? arguments = some _ := rfl
  exact ⟨by rw [hparse]; rfl, (invoke_rejected hparse "0" t).1 _ rfl⟩

/-- A run with an empty trace is refused, but a report that was there is emptied, and a raw log is
made. -/
theorem invoke_empty_trace :
    let before := "\x7b\x7d\n".toUTF8
    let t : Tree := ⟨[(["t.log"], .file .empty), (["simulation-statsx.json"], .file before)], []⟩
    let run := invoke ["--trace", "t.log", "--run-id", "x"] "0" t
    run.1 = .failed (.settings .unknownNodes) ∧
      t.read "simulation-statsx.json" = .ok before ∧ before ≠ .empty ∧
      run.2.read "simulation-statsx.json" = .ok .empty ∧
      t.read "simulationx.log" = .error .notFound ∧
      run.2.read "simulationx.log" = .ok .empty := by
  intro before t run
  exact ⟨rfl, rfl, by decide +kernel, rfl, rfl, rfl⟩

end CommandLine

end Motewatch
