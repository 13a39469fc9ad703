import Mathlib.Algebra.BigOperators.Group.List.Basic
import Mathlib.Algebra.GroupWithZero.Nat
import Mathlib.Algebra.Order.BigOperators.Group.List
import Mathlib.Algebra.Order.Group.Nat
import Mathlib.Data.List.OfFn
import Motewatch.Proofs.Tally.Reports

/-!
# Every event is accounted for at most once

All that a tally holds comes from its events: each of them adds one to one count of one node at most,
or files one report on a link, or completes one node, or is the first schedule update, or changes
the speed. So all that is held together is never more than the events that have been taken in, and as
long as their number fits a word, no count and no sum of counts is too large for one.

## Main definitions

* `NodeTally.accounted`, `Tally.accounted` — how much a tally holds of a node, and of the run.
* `Rules.eventsTaken` — the events among operations that are taken in.
* `NodeTally.FitsWords` — no count of a node is too large for a word.

## Main results

* `Tally.accounted_take_le` — an event adds one at most to what is held.
* `Rules.accounted_proceedAll_le` — no more is held than events were taken in.
* `Rules.proceedAll_accounted` — the same of all reports, and that their sums are right.
-/

namespace Motewatch

/-! ## Lists in which one thing is put -/

theorem length_putEntry_le {α : Type} (key : String) (a : α) (entries : List (String × α)) :
    (putEntry key a entries).length ≤ entries.length + 1 := by
  induction entries with
  | nil => exact Nat.le_refl 1
  | cons head rest ih =>
      obtain ⟨k, b⟩ := head
      rw [putEntry]
      split
      · exact Nat.le_refl _
      · split
        · exact Nat.le_succ _
        · exact Nat.succ_le_succ ih

theorem Catalog.size_put_le {α : Type} (c : Catalog α) (key : String) (a : α) :
    (c.put key a).size ≤ c.size + 1 :=
  length_putEntry_le key a c.entries

theorem length_insertIncreasing_le (n : Nat) (ns : List Nat) :
    (insertIncreasing n ns).length ≤ ns.length + 1 := by
  induction ns with
  | nil => exact Nat.le_refl 1
  | cons m rest ih =>
      rw [insertIncreasing]
      split
      · exact Nat.le_refl _
      · split
        · exact Nat.le_succ _
        · exact Nat.succ_le_succ ih

/-- A change that adds one at most to a single item adds one at most to the sum over all. -/
theorem sum_map_modify_le {α : Type} {weight : α → Nat} {f : α → α}
    (hf : ∀ a, weight (f a) ≤ weight a + 1) (items : List α) (i : Nat) :
    ((items.modify i f).map weight).sum ≤ (items.map weight).sum + 1 := by
  induction items generalizing i with
  | nil => simp
  | cons a rest ih =>
      cases i with
      | zero =>
        have ha := hf a
        simp only [List.modify_zero_cons, List.map_cons, List.sum_cons]
        omega
      | succ i =>
        have hrest := ih i
        simp only [List.modify_succ_cons, List.map_cons, List.sum_cons]
        omega

/-! ## What is accounted for -/

/-- How much is held of a node: the messages that were counted, and the links with a report. -/
def NodeTally.accounted (c : NodeTally) : Nat :=
  c.transmitted + c.received + c.timeouts + c.links.size

namespace Tally

/-- How much is held of a run: what is held of its nodes, the nodes that have completed, the first
schedule update, and the change of speed. -/
def accounted (t : Tally) : Nat :=
  (t.nodes.toList.map NodeTally.accounted).sum + t.completed.length +
    t.firstSchedule.isSome.toNat + t.speedChanged.toNat

theorem accounted_start {total : Nat} {speed : Float} {t : Tally}
    (h : start total speed = .ok t) : t.accounted = 0 := by
  obtain ⟨hpos, hspeed⟩ := exists_start_iff.1 ⟨t, h⟩
  have hzero : total ≠ 0 := by omega
  rw [start, if_neg hzero, hspeed] at h
  obtain rfl := Except.ok.inj h
  have hnodes : ∀ i : Fin total, (NodeTally.fresh (i + 1)).accounted = 0 := fun i => rfl
  simp [accounted, List.map_ofFn, Function.comp_def, hnodes]

/-- A change of one node that adds one at most there adds one at most to the whole. -/
theorem accounted_updateNode_le {f : NodeTally → NodeTally}
    (hf : ∀ c, (f c).accounted ≤ c.accounted + 1) (t : Tally) (n : NodeId) :
    (t.updateNode n f).accounted ≤ t.accounted + 1 := by
  rw [updateNode]
  split
  · exact Nat.le_succ _
  · rename_i i _
    have hsum := sum_map_modify_le hf t.nodes.toList i
    simp only [accounted, Array.toList_modify]
    omega

theorem accounted_complete_le (t : Tally) (e : Event) :
    (t.complete e).tally.accounted ≤ t.accounted + 1 := by
  have hput := length_insertIncreasing_le e.node.number t.completed
  rw [complete]
  split
  · dsimp only
    split
    · simp only [accounted, close]
      omega
    · simp only [accounted, Recorded.quiet]
      omega
  · exact Nat.le_succ _

theorem accounted_changeTopology_le (t : Tally) (change? : Option SpeedChange) (e : Event) :
    (t.changeTopology change? e).tally.accounted ≤ t.accounted + 1 := by
  unfold changeTopology
  split
  · exact Nat.le_succ _
  · split
    · simp only [accounted, Bool.toNat_true]
      omega
    · exact Nat.le_succ _

theorem accounted_reportLink_le (t : Tally) (e : Event) :
    (t.reportLink e).accounted ≤ t.accounted + 1 := by
  rw [reportLink]
  split
  · exact Nat.le_succ _
  · rename_i link _
    apply accounted_updateNode_le
    intro c
    have hput := c.links.size_put_le link.neighbor link.fields
    simp only [NodeTally.accounted]
    omega

/-- **An event adds one at most to what is held.** -/
theorem accounted_take_le (t : Tally) (change? : Option SpeedChange) (e : Event) (k : Kind) :
    (t.take change? e k).tally.accounted ≤ t.accounted + 1 := by
  cases k with
  | completion => exact accounted_complete_le t e
  | topology => exact accounted_changeTopology_le t change? e
  | neighborLink => exact accounted_reportLink_le t e
  | unmatched => exact Nat.le_succ _
  | scheduleUpdate =>
      simp only [take, Recorded.quiet, accounted, Option.isSome_some, Bool.toNat_true]
      omega
  | receive | transmit | timeout =>
      apply accounted_updateNode_le
      intro c
      simp only [NodeTally.accounted]
      omega

end Tally

/-! ## The events among operations -/

/-- The event that an operation brings, if it brings one. -/
def Operation.event? : Operation → Option Event
  | .record e => some e
  | .finish _ => none
  | .finishEarly _ => none

namespace Rules
variable {total : Nat} {speed : Float} {start : Tally}

/-- The event that an operation makes a tally take in, if it is not refused. -/
def eventTaken? (rules : Rules) (t : Tally) (o : Operation) : Option Event :=
  match rules.perform t o with
  | .ok _ => o.event?
  | .error _ => none

/-- The events that are taken in when operations come one after the other. -/
def eventsTaken (rules : Rules) (t : Tally) : List Operation → List Event
  | [] => []
  | o :: rest => (rules.eventTaken? t o).toList ++ rules.eventsTaken (rules.proceed t o) rest

theorem eventsTaken_snoc (rules : Rules) (t : Tally) (operations : List Operation)
    (o : Operation) :
    rules.eventsTaken t (operations ++ [o]) = rules.eventsTaken t operations ++
      (rules.eventTaken? (rules.proceedAll t operations) o).toList := by
  induction operations generalizing t with
  | nil => simp [eventsTaken]
  | cons first rest ih =>
      rw [List.cons_append, eventsTaken, ih, eventsTaken, List.append_assoc]
      rfl

/-- **An operation is seen exactly if it brings an event that is taken in**, and adds no more than
that to what is held. -/
theorem proceed_accounts (rules : Rules) (t : Tally) (o : Operation) :
    (rules.proceed t o).seen = t.seen + (rules.eventTaken? t o).toList.length ∧
      (rules.proceed t o).accounted ≤ t.accounted + (rules.eventTaken? t o).toList.length := by
  cases hperform : rules.perform t o with
  | error fault =>
      have hnone : rules.eventTaken? t o = none := by rw [eventTaken?, hperform]
      rw [(of_refused hperform).1, hnone]
      exact ⟨rfl, Nat.le_refl _⟩
  | ok r =>
      have htaken : rules.eventTaken? t o = o.event? := by rw [eventTaken?, hperform]
      rw [proceed_of_ok hperform, htaken]
      rcases (perform_eq_ok hperform).2 with ⟨e, rfl, rfl⟩ | ⟨now, rfl, -, rfl⟩ | ⟨now, rfl, rfl⟩
      · constructor
        · exact Tally.seen_take t.tick rules.speedChange e _
        · exact Tally.accounted_take_le t.tick rules.speedChange e _
      · exact ⟨rfl, Nat.le_refl _⟩
      · exact ⟨rfl, Nat.le_refl _⟩

/-- **No more is held than events were taken in**, and so many have been seen. -/
theorem accounted_proceedAll_le (rules : Rules) (h : Tally.start total speed = .ok start)
    (operations : List Operation) :
    (rules.proceedAll start operations).seen = (rules.eventsTaken start operations).length ∧
      (rules.proceedAll start operations).accounted ≤
        (rules.eventsTaken start operations).length := by
  induction operations using List.reverseRecOn with
  | nil => exact ⟨(Tally.isNew_of_start h).seen, Nat.le_of_eq (Tally.accounted_start h)⟩
  | append_singleton operations o ih =>
      obtain ⟨hseen, hheld⟩ := ih
      obtain ⟨hseen', hheld'⟩ := rules.proceed_accounts (rules.proceedAll start operations) o
      rw [proceedAll_snoc, eventsTaken_snoc, List.length_append]
      omega

end Rules

/-! ## Counts in words -/

/-- No count of a node is too large for a word. -/
structure NodeTally.FitsWords (c : NodeTally) : Prop where
  transmitted : c.transmitted < wordLimit
  received : c.received < wordLimit
  timeouts : c.timeouts < wordLimit

theorem NodeTally.fitsWords_of_accounted {c : NodeTally} (h : c.accounted < wordLimit) :
    c.FitsWords := by
  rw [accounted] at h
  constructor <;> omega

/-- A sum that fits a word is the sum in words. -/
theorem wordSum_eq_sum {words : List Nat} (h : words.sum < wordLimit) :
    wordSum words = words.sum := by
  rw [List.sum_eq_foldr] at h ⊢
  exact Nat.mod_eq_of_lt h

/-- What is held of nodes is what their counts sum up to, and their links. -/
theorem sum_accounted (nodes : List NodeTally) :
    (nodes.map NodeTally.accounted).sum =
      (nodes.map (·.transmitted)).sum + (nodes.map (·.received)).sum +
        (nodes.map (·.timeouts)).sum + (nodes.map (·.links.size)).sum := by
  simp only [← List.sum_map_add]
  rfl

/-- The sums of a report are right, and together no larger than what is held of its nodes. -/
theorem Report.totals_of_accounted {r : Report} {n : Nat}
    (h : (r.nodes.map NodeTally.accounted).sum ≤ n) (hn : n < wordLimit) :
    r.totalTransmitted = (r.nodes.map (·.transmitted)).sum ∧
      r.totalReceived = (r.nodes.map (·.received)).sum ∧
      r.totalTimeouts = (r.nodes.map (·.timeouts)).sum ∧
      r.totalTransmitted + r.totalReceived + r.totalTimeouts ≤ n := by
  rw [sum_accounted] at h
  have htransmitted : r.totalTransmitted = (r.nodes.map (·.transmitted)).sum :=
    wordSum_eq_sum (by omega)
  have hreceived : r.totalReceived = (r.nodes.map (·.received)).sum := wordSum_eq_sum (by omega)
  have htimeouts : r.totalTimeouts = (r.nodes.map (·.timeouts)).sum := wordSum_eq_sum (by omega)
  refine ⟨htransmitted, hreceived, htimeouts, ?_⟩
  omega

namespace Rules
variable {total : Nat} {speed : Float} {start : Tally}

/-- **Every event is accounted for at most once.** After operations of any kind: what is held of all
nodes, with the nodes that have completed, the first schedule update and the change of speed, is no
more than the events that have been seen, and these are the events that were taken in. So as long as
their number fits a word, no count of a node is too large for one, before the run is summed up and in
every report; the sums of a report over all nodes are right, and together they are no more than the
events. -/
theorem proceedAll_accounted (rules : Rules) (h : Tally.start total speed = .ok start)
    (operations : List Operation) :
    let t := rules.proceedAll start operations
    let taken := rules.eventsTaken start operations
    (t.nodes.toList.map fun c => c.transmitted + c.received + c.timeouts + c.links.size).sum +
        t.completed.length + t.firstSchedule.isSome.toNat + t.speedChanged.toNat ≤ t.seen ∧
    t.seen = taken.length ∧
    (taken.length < wordLimit →
      (∀ c ∈ t.nodes.toList, c.FitsWords) ∧
      ∀ report ∈ rules.reports start operations,
        (∀ c ∈ report.nodes, c.FitsWords) ∧
        report.totalTransmitted = (report.nodes.map (·.transmitted)).sum ∧
        report.totalReceived = (report.nodes.map (·.received)).sum ∧
        report.totalTimeouts = (report.nodes.map (·.timeouts)).sum ∧
        report.totalTransmitted + report.totalReceived + report.totalTimeouts ≤ taken.length) := by
  intro t taken
  have hseen : t.seen = taken.length := (accounted_proceedAll_le rules h operations).1
  have hheld : t.accounted ≤ taken.length := (accounted_proceedAll_le rules h operations).2
  have hnodes : (t.nodes.toList.map NodeTally.accounted).sum ≤ taken.length := by
    rw [Tally.accounted] at hheld
    omega
  refine ⟨?_, hseen, ?_⟩
  · rw [hseen]
    exact hheld
  · intro hfew
    have hfits : ∀ c ∈ t.nodes.toList, c.FitsWords := by
      intro c hc
      have hle := List.le_sum_of_mem (List.mem_map_of_mem (f := NodeTally.accounted) hc)
      apply NodeTally.fitsWords_of_accounted
      omega
    refine ⟨hfits, ?_⟩
    intro report hreport
    have htells := (reported_proceedAll rules h operations).tells hreport
    rw [htells.nodes]
    refine ⟨hfits, ?_⟩
    rw [← htells.nodes] at hnodes ⊢
    exact report.totals_of_accounted hnodes hfew

/-- Two nodes, of which one sends and reports on a link twice; an update of the schedule that is the
first one, and a message that changes the speed; the report of the last completion counts one message
of eight events. -/
theorem proceedAll_accounted_two_nodes :
    let rules : Rules := ⟨.standard, some ⟨4, .lastNode⟩⟩
    let operations : List Operation := [
      .record ⟨⟨1⟩, .ofMicros 1, "schedule_updater_pkt"⟩,
      .record ⟨⟨1⟩, .ofMicros 2, "Sending"⟩,
      .record ⟨⟨1⟩, .ofMicros 3, "\x7b\"neighbor\": 2, \"tx\": 1\x7d"⟩,
      .record ⟨⟨1⟩, .ofMicros 4, "\x7b\"neighbor\": 2, \"tx\": 2\x7d"⟩,
      .finish (.ofMicros 5),
      .record ⟨⟨2⟩, .ofMicros 6, "Switching parent"⟩,
      .record ⟨⟨3⟩, .ofMicros 7, "Received"⟩,
      .record ⟨⟨2⟩, .ofMicros 8, "pkt->type = complete"⟩,
      .record ⟨⟨1⟩, .ofMicros 9, "pkt->type = complete"⟩,
      .record ⟨⟨1⟩, .ofMicros 10, "Sending"⟩]
    ∃ start, Tally.start 2 1 = .ok start ∧
      (rules.proceedAll start operations).seen = 8 ∧
      ∃ report ∈ rules.reports start operations,
        report.totalTransmitted = 1 ∧
        report.totalTransmitted + report.totalReceived + report.totalTimeouts ≤ 8 := by
  intro rules operations
  let start : Tally :=
    ⟨[], none, 1, 2, Array.ofFn fun i : Fin 2 => NodeTally.fresh (i + 1), false, false, 0⟩
  have hstart : Tally.start 2 1 = .ok start := rfl
  have htaken : (rules.eventsTaken start operations).length = 8 := by decide +kernel
  obtain ⟨-, hseen, hreports⟩ := proceedAll_accounted rules hstart operations
  rw [htaken] at hseen hreports
  have hsome : (rules.reports start operations).map (·.totalTransmitted) = [1] := by decide +kernel
  obtain ⟨report, hmem, hsent⟩ : ∃ report ∈ rules.reports start operations,
      report.totalTransmitted = 1 := List.mem_map.1 (hsome ▸ List.mem_singleton_self 1)
  obtain ⟨-, -, -, -, hsum⟩ := (hreports (by decide)).2 report hmem
  exact ⟨start, hstart, hseen, report, hmem, hsent, hsum⟩

end Rules

end Motewatch
