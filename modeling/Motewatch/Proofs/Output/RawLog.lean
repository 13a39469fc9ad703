import Motewatch.Proofs.Output.Written
import Motewatch.Proofs.Trace.Grammar
import Motewatch.Proofs.Trace.Joined

/-!
# The raw log is unambiguous

A raw log has a line for each event, and in each line the number of the node ends at the first colon.
A number holds no colon, so the message behind it may hold any; and it may look like a line itself,
or be empty. So the nodes and messages of all events can be read off the log, in their order, as long
as no message holds a line feed, and no event of a trace has such a message.

## Main definitions

* `rawLines` — the lines of a raw log.
* `readRawLine?`, `readRawLog?` — the nodes and messages in a raw log.

## Main results

* `Trace.notMem_of_read` — no message of a trace holds a line feed.
* `rawLines_logText` — a raw log has a line for each event.
* `readRawLog?_logText` — the nodes and messages of all events are read off a raw log.
* `logText_unambiguous` — events with the same raw log have the same nodes and messages.
-/

namespace Motewatch
open Text (cutAt cutAt_eq_some_iff digits notMem_digits valueOf valueOf_digits)

/-! ## Messages of traces -/

namespace Text

/-- The parts of a text between separators hold none. -/
theorem notMem_of_mem_splitOn {c : Char} {s part : List Char} (h : part ∈ s.splitOn c) :
    c ∉ part := by
  induction s generalizing part with
  | nil =>
      obtain rfl := List.mem_singleton.1 h
      exact List.not_mem_nil
  | cons d rest ih =>
      rw [List.splitOn_cons_eq_if_modifyHead] at h
      by_cases hd : d = c
      · rw [if_pos (beq_iff_eq.2 hd)] at h
        rcases List.mem_cons.1 h with rfl | hrest
        · exact List.not_mem_nil
        · exact ih hrest
      · rw [if_neg (by simpa using hd)] at h
        cases hparts : rest.splitOn c with
        | nil =>
          rw [hparts] at h
          contradiction
        | cons first parts =>
          rw [hparts, List.modifyHead_cons] at h
          rw [hparts] at ih
          rcases List.mem_cons.1 h with rfl | hmem
          · have hfirst := ih List.mem_cons_self
            simp [hfirst, Ne.symm hd]
          · exact ih (List.mem_cons_of_mem _ hmem)

/-- What is cut off at a separator was there before. -/
theorem mem_of_mem_cutAt {c d : Char} {s a : List Char} {b : Option (List Char)}
    (h : cutAt c s = (a, b)) (hd : d ∈ b.getD []) : d ∈ s := by
  cases b with
  | none => contradiction
  | some b =>
    obtain ⟨-, rfl⟩ := cutAt_eq_some_iff.1 h
    exact List.mem_append_right _ (List.mem_cons_of_mem _ hd)

end Text

namespace Trace

/-- The message of a line is part of the line. -/
theorem mem_of_mem_message {line : List Char} {e : Event} (h : readLine line = .ok e) {c : Char}
    (hc : c ∈ e.message.toList) : c ∈ line := by
  obtain ⟨a, b, rest, message?, hline, hrest, -, -, hmessage⟩ := exists_fields_of_readLine h
  rw [hmessage, String.toList_ofList] at hc
  have hmem : c ∈ rest := Text.mem_of_mem_cutAt hrest hc
  exact Text.mem_of_mem_cutAt hline hmem

theorem mem_of_mem_dropReturns {line : List Char} {c : Char} (h : c ∈ dropReturns line) :
    c ∈ line := by
  obtain ⟨returns, hline, -⟩ := Text.exists_append_of_dropEnd (· = '\r') line
  rw [hline]
  exact List.mem_append_left _ h

/-- **No message of a trace holds a line feed.** -/
theorem notMem_of_read {text : String} {events : List Event} (h : read text = .ok events) :
    ∀ e ∈ events, '\n' ∉ e.message.toList := by
  intro e he hfeed
  obtain ⟨line, hmem, hline⟩ := exists_line_of_mem_read h he
  apply Text.notMem_of_mem_splitOn hmem
  exact mem_of_mem_dropReturns (mem_of_mem_message hline hfeed)

end Trace

/-! ## Lines of raw logs -/

/-- The node whose number a text is, if it is made of digits. -/
def NodeId.ofText? (s : List Char) : Option NodeId :=
  if s ≠ [] ∧ s.all Char.isDigit then some ⟨valueOf s⟩ else none

/-- The node in front of the first colon of a line, and the message behind it. -/
def readRawLine? (line : List Char) : Option (NodeId × String) :=
  match cutAt ':' line with
  | (_, none) => none
  | (number, some message) => (NodeId.ofText? number).map fun n => (n, String.ofList message)

/-- The lines of a raw log, each of which ends in a line feed. -/
def rawLines (log : String) : List (List Char) := (log.toList.splitOn '\n').dropLast

/-- The nodes and messages in the lines of a raw log. -/
def readRawLog? (log : String) : Option (List (NodeId × String)) :=
  (rawLines log).mapM readRawLine?

theorem NodeId.ofText?_digits (n : NodeId) : NodeId.ofText? (digits n.number) = some n := by
  have hall : (digits n.number).all Char.isDigit = true :=
    List.all_eq_true.2 fun _ hc => Text.isDigit_of_mem_digits hc
  rw [NodeId.ofText?, if_pos ⟨Text.digits_ne_nil _, hall⟩, valueOf_digits]

theorem Event.toList_rawLine (e : Event) :
    e.rawLine.toList = digits e.node.number ++ ':' :: e.message.toList := by
  simp [Event.rawLine, NodeId.display]

/-- A line is cut where its number ends: a number holds no colon. -/
theorem cutAt_rawLine (e : Event) :
    cutAt ':' e.rawLine.toList = (digits e.node.number, some e.message.toList) :=
  cutAt_eq_some_iff.2 ⟨notMem_digits (by decide) _, e.toList_rawLine⟩

/-- **The node and the message of an event are read off its line**, whatever the message holds. -/
theorem readRawLine?_rawLine (e : Event) :
    readRawLine? e.rawLine.toList = some (e.node, e.message) := by
  rw [readRawLine?, cutAt_rawLine]
  simp [NodeId.ofText?_digits]

theorem notMem_rawLine {e : Event} (h : '\n' ∉ e.message.toList) : '\n' ∉ e.rawLine.toList := by
  rw [e.toList_rawLine]
  have hnumber : '\n' ∉ digits e.node.number := notMem_digits (by decide) _
  simp [hnumber, h]

/-! ## Whole raw logs -/

variable {events events' : List Event}

/-- The line feeds of a raw log are those at the ends of its lines. -/
theorem splitOn_logText (h : ∀ e ∈ events, '\n' ∉ e.message.toList) :
    (logText events).toList.splitOn '\n' = events.map (·.rawLine.toList) ++ [[]] := by
  induction events with
  | nil => rfl
  | cons e rest ih =>
      obtain ⟨he, hrest⟩ := List.forall_mem_cons.1 h
      have htext : (logText (e :: rest)).toList =
          e.rawLine.toList ++ '\n' :: (logText rest).toList := by
        simp [logText_cons]
      rw [htext, List.splitOn_append_cons_self_of_not_mem (notMem_rawLine he), ih hrest]
      rfl

/-- **A raw log has a line for each event.** -/
theorem rawLines_logText (h : ∀ e ∈ events, '\n' ∉ e.message.toList) :
    rawLines (logText events) = events.map (·.rawLine.toList) := by
  rw [rawLines, splitOn_logText h, List.dropLast_concat]

/-- **The nodes and messages of all events are read off a raw log.** -/
theorem readRawLog?_logText (h : ∀ e ∈ events, '\n' ∉ e.message.toList) :
    readRawLog? (logText events) = some (events.map fun e => (e.node, e.message)) := by
  rw [readRawLog?, rawLines_logText h]
  clear h
  induction events with
  | nil => rfl
  | cons e rest ih =>
      rw [List.map_cons, List.mapM_cons, readRawLine?_rawLine, ih]
      rfl

/-- Events of which the nodes and messages are the same one by one. -/
def SameLines (events events' : List Event) : Prop :=
  events.length = events'.length ∧ ∀ i (h : i < events.length) (h' : i < events'.length),
    events[i].node = events'[i].node ∧ events[i].message = events'[i].message

theorem sameLines_of_map_eq
    (h : events.map (fun e => (e.node, e.message)) = events'.map fun e => (e.node, e.message)) :
    SameLines events events' := by
  have hlength : events.length = events'.length := by simpa using congrArg List.length h
  refine ⟨hlength, ?_⟩
  intro i hi hi'
  have hline := List.getElem_of_eq h (by simpa using hi)
  simpa using hline

/-- **The raw log is unambiguous.** The log of a run, as long as it can be written, is made of the
lines of its events, each with a line feed behind it. If no message holds a line feed, which is so
for all events of a trace, then cutting the log at its line feeds and each line at its first colon
gives the nodes and messages of all events, in their order and whatever the messages hold; and
events with the same log are as many, and have the same nodes and messages one by one. -/
theorem logText_unambiguous :
    (∀ text events, Trace.read text = .ok events → ∀ e ∈ events, '\n' ∉ e.message.toList) ∧
    (∀ (o : Output) events, o.IsFresh → (o.logAll events).2 = none →
      (o.logAll events).1.log.contents = logText events) ∧
    (∀ events, (∀ e ∈ events, '\n' ∉ e.message.toList) →
      (rawLines (logText events)).map (cutAt ':') =
          events.map (fun e => (digits e.node.number, some e.message.toList)) ∧
        readRawLog? (logText events) = some (events.map fun e => (e.node, e.message))) ∧
    ∀ events events', (∀ e ∈ events, '\n' ∉ e.message.toList) →
      (∀ e ∈ events', '\n' ∉ e.message.toList) → logText events = logText events' →
      SameLines events events' := by
  refine ⟨fun text events => Trace.notMem_of_read, ?_, ?_, ?_⟩
  · intro o events hfresh hlogged
    rw [Output.contents_logAll hlogged, hfresh.contents_log, String.empty_append]
  · intro events h
    refine ⟨?_, readRawLog?_logText h⟩
    rw [rawLines_logText h, List.map_map]
    apply List.map_congr_left
    intro e _
    exact cutAt_rawLine e
  · intro events events' h h' hlog
    apply sameLines_of_map_eq
    apply Option.some.inj
    rw [← readRawLog?_logText h, ← readRawLog?_logText h', hlog]

/-- The messages of a trace that begin like lines of a log, or are empty: they are read off the log
with their nodes, and events at other times that have the same log have the same lines. -/
theorem logText_unambiguous_colons :
    ∃ events, Trace.read "3\tID:1\t2:b\n4\tID:12\t:\r\n5\tID:2\n" = .ok events ∧
      logText events = "1:2:b\n12::\n2:\n" ∧
      readRawLog? (logText events) = some [(⟨1⟩, "2:b"), (⟨12⟩, ":"), (⟨2⟩, "")] ∧
      SameLines events
        [⟨⟨1⟩, .zero, "2:b"⟩, ⟨⟨12⟩, .zero, ":"⟩, ⟨⟨2⟩, .zero, ""⟩] := by
  let events : List Event :=
    [⟨⟨1⟩, .ofMicros 3, "2:b"⟩, ⟨⟨12⟩, .ofMicros 4, ":"⟩, ⟨⟨2⟩, .ofMicros 5, ""⟩]
  obtain ⟨hread, -, hrecover, hsame⟩ := logText_unambiguous
  have htrace : Trace.read "3\tID:1\t2:b\n4\tID:12\t:\r\n5\tID:2\n" = .ok events := by
    decide +kernel
  have hfeed := hread _ _ htrace
  refine ⟨events, htrace, by decide +kernel, (hrecover events hfeed).2, ?_⟩
  exact hsame _ _ hfeed (by decide) (by decide +kernel)

end Motewatch
