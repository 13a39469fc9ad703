import Motewatch.Event
import Motewatch.Fault
import Motewatch.LinkReport
import Motewatch.Markers
import Motewatch.Report
import Motewatch.Signal
import Motewatch.SpeedChange

/-!
# Tallies

A tally is what is known of a run so far. It takes in one event after the other until all nodes have
completed, or until it is closed before that; then it is sealed and summed up in a report. A sealed
tally takes in nothing.

An operation that fails leaves a tally behind all the same, and may have sent signals before.

## Main definitions

* `Tally` — what is known of a run.
* `Rules` — what the messages of a run mean.
* `Response` — what an operation on a tally comes to, be it that it fails.
* `Rules.handle` — takes in an event.
* `Tally.finalize`, `Tally.finalizeEarly` — sum up.
* `Rules.record`, `Tally.finish`, `Tally.finishEarly` — what these operations lead to if they succeed.
-/

namespace Motewatch

/-- What is known of a run. -/
structure Tally where
  /-- The nodes that have completed, in increasing order. -/
  completed : List Nat
  /-- The time of the first schedule update. -/
  firstSchedule : Option Instant
  speed : Float
  total : Nat
  nodes : Array NodeTally
  isSealed : Bool
  speedChanged : Bool
  /-- How many events have been taken in. -/
  seen : Nat

/-- What the messages of a run mean. -/
structure Rules where
  markers : Markers
  speedChange : Option SpeedChange

/-- Puts a number into a list of increasing ones. -/
def insertIncreasing (n : Nat) : List Nat → List Nat
  | [] => [n]
  | m :: rest => if n < m then n :: m :: rest else if n = m then m :: rest
    else m :: insertIncreasing n rest

theorem mem_insertIncreasing {n m : Nat} {ns : List Nat} :
    m ∈ insertIncreasing n ns ↔ m = n ∨ m ∈ ns := by
  induction ns with
  | nil => simp [insertIncreasing]
  | cons k rest ih => grind [insertIncreasing]

theorem pairwise_insertIncreasing (n : Nat) {ns : List Nat} (h : ns.Pairwise (· < ·)) :
    (insertIncreasing n ns).Pairwise (· < ·) := by
  induction ns with
  | nil => simp [insertIncreasing]
  | cons k rest ih =>
    rw [List.pairwise_cons] at h
    have hrest := ih h.2
    grind [insertIncreasing, mem_insertIncreasing, List.pairwise_cons]

/-- The real time between the first schedule update and the end of the run, in seconds. Without a
schedule update the time is counted from the start. -/
def installationSeconds (first : Option Instant) (now : Instant) (speed : Float) : Float :=
  (now.since (first.getD .zero)).toUInt64.toFloat / 1000000 / speed

namespace Tally

/-- The tally of a run that begins. -/
def start (total : Nat) (speed : Float) : Except Settings.Fault Tally :=
  if total = 0 then .error .noNodes
  else if !isSpeed speed then .error (.badSpeed "speed_limit" speed)
  else .ok {
    completed := []
    firstSchedule := none
    speed := speed
    total := total
    nodes := Array.ofFn fun i : Fin total => NodeTally.fresh (i + 1)
    isSealed := false
    speedChanged := false
    seen := 0 }

/-- The counts of a node, if it is one of the nodes of the run. -/
def node? (t : Tally) (n : NodeId) : Option NodeTally := n.index?.bind fun i => t.nodes[i]?

/-- Changes the counts of a node. Numbers that no node of the run has change nothing. -/
def updateNode (t : Tally) (n : NodeId) (f : NodeTally → NodeTally) : Tally :=
  match n.index? with
  | none => t
  | some i => { t with nodes := t.nodes.modify i f }

/-- Whether the number is that of a node of the run. -/
def has (t : Tally) (n : NodeId) : Bool := 1 ≤ n.number && n.number ≤ t.total

/-- Whether all nodes have completed. -/
def allCompleted (t : Tally) : Bool := t.completed.length == t.total

/-- The summary of what is known. -/
def report (t : Tally) (now : Instant) (timedOut : Bool) : Report where
  firstSchedule := t.firstSchedule.map (·.micros)
  nodes := t.nodes.toList
  duration := installationSeconds t.firstSchedule now t.speed
  speed := t.speed
  total := t.total
  completed := t.completed.length
  timedOut := timedOut

/-- The tally after it has been summed up. -/
def close (t : Tally) : Tally := { t with isSealed := true }

end Tally

/-! ## Operations -/

/-- What an operation on a tally comes to: the tally that it leaves behind and the signals that it
sends, whether it fails or not. After a fault the tally may be used on. -/
structure Response (α : Type) where
  tally : Tally
  signals : List Signal
  result : Except Fault α

namespace Response
variable {α β : Type}

/-- Changes what an operation returns. -/
def map (f : α → β) (r : Response α) : Response β := ⟨r.tally, r.signals, r.result.map f⟩

/-- What an operation leads to if it succeeds, and else the fault alone. -/
def onSuccess (r : Response α) (f : Tally → List Signal → α → β) : Except Fault β :=
  r.result.map (f r.tally r.signals)

end Response

namespace Tally

/-- Sums up a run in which all nodes have completed. -/
def finalize (t : Tally) (now : Instant) : Response Report :=
  if t.isSealed then ⟨t, [], .error .alreadySealed⟩
  else if !t.allCompleted then ⟨t, [], .error (.incomplete t.completed.length t.total)⟩
  else ⟨t.close, [], .ok (t.report now false)⟩

/-- Sums up a run as it is. -/
def finalizeEarly (t : Tally) (now : Instant) : Response Report :=
  if t.isSealed then ⟨t, [], .error .alreadySealed⟩
  else ⟨t.close, [], .ok (t.report now true)⟩

/-- The sealed tally and the report of a run in which all nodes have completed. -/
def finish (t : Tally) (now : Instant) : Except Fault (Tally × Report) :=
  (t.finalize now).onSuccess fun t _ report => (t, report)

/-- The sealed tally and the report of a run as it is. -/
def finishEarly (t : Tally) (now : Instant) : Except Fault (Tally × Report) :=
  (t.finalizeEarly now).onSuccess fun t _ report => (t, report)

end Tally

/-! ## Taking in events -/

/-- What an event led to. -/
structure Recorded where
  tally : Tally
  signals : List Signal
  /-- The summary of the run, if the event was the last one. -/
  report : Option Report

/-- The event led to nothing beyond the tally. -/
def Recorded.quiet (t : Tally) : Recorded := ⟨t, [], none⟩

/-- The response to an event that is taken in. -/
def Recorded.response (r : Recorded) : Response (Option Report) := ⟨r.tally, r.signals, .ok r.report⟩

namespace Tally

/-- A node completes. The run is over when it is the last one. -/
def complete (t : Tally) (e : Event) : Recorded :=
  if t.has e.node && !t.completed.contains e.node.number then
    let t := { t with completed := insertIncreasing e.node.number t.completed }
    if t.allCompleted then ⟨t.close, [], some (t.report e.time false)⟩ else .quiet t
  else .quiet t

/-- Whether a change of the topology triggers the change of speed. -/
def triggers (t : Tally) (change : SpeedChange) (e : Event) : Bool :=
  match change.trigger with
  | .lastNode => e.node.number == t.total
  | .linkCount => linkCount? e.message == some (t.total - 1)

/-- The topology changes, which may trigger the change of speed once. -/
def changeTopology (t : Tally) (change? : Option SpeedChange) (e : Event) : Recorded :=
  match change? with
  | none => .quiet t
  | some change =>
    if !t.speedChanged && t.triggers change e then
      ⟨{ t with speedChanged := true, speed := change.speed }, [.speed change.speed], none⟩
    else .quiet t

/-- A node reports on a link. A message without a report changes nothing. -/
def reportLink (t : Tally) (e : Event) : Tally :=
  match linkReport? e.message with
  | none => t
  | some link =>
    t.updateNode e.node fun n => { n with links := n.links.put link.neighbor link.fields }

/-- What an event of a kind leads to. -/
def take (t : Tally) (change? : Option SpeedChange) (e : Event) : Kind → Recorded
  | .completion => t.complete e
  | .scheduleUpdate => .quiet { t with firstSchedule := some e.time }
  | .receive => .quiet (t.updateNode e.node fun n => { n with received := n.received + 1 })
  | .transmit => .quiet (t.updateNode e.node fun n => { n with transmitted := n.transmitted + 1 })
  | .timeout => .quiet (t.updateNode e.node fun n => { n with timeouts := n.timeouts + 1 })
  | .topology => t.changeTopology change? e
  | .neighborLink => .quiet (t.reportLink e)
  | .unmatched => .quiet t

end Tally

/-- Takes in an event. The report is that of the run, if the event was the last one. -/
def Rules.handle (rules : Rules) (t : Tally) (e : Event) : Response (Option Report) :=
  if t.isSealed then ⟨t, [], .error .runOver⟩
  else
    Recorded.response <| { t with seen := t.seen + 1 }.take rules.speedChange e
      (rules.markers.classify e.message t.firstSchedule.isSome)

/-- What an event that is taken in leads to. -/
def Rules.record (rules : Rules) (t : Tally) (e : Event) : Except Fault Recorded :=
  (rules.handle t e).onSuccess Recorded.mk

end Motewatch
