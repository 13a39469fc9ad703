import Mathlib.Data.List.Induction
import Motewatch.Proofs.Tally.Statistics

/-!
# Tallies under all operations

A tally may be given events and asked to sum up in any order, also after it has refused something.
Whatever it is asked, it keeps the counts of exactly its nodes, in the order of their numbers, and as
long as it is open there is a node that has not completed. So an open tally can only be summed up
early, and a report says that the run was ended early exactly if it lacks a node.

## Main definitions

* `Tally.Sound` — the invariant.

## Main results

* `Tally.Sound.perform` — every operation keeps the invariant.
* `Tally.Sound.finish_eq` — no operation but an early one sums up an open tally.
* `Rules.proceedAll_sound` — what holds after all operations, and what their reports say.
-/

namespace Motewatch

namespace Tally
variable {rules : Rules} {t : Tally} {total : Nat} {speed : Float}

/-! ## The numbers of the nodes -/

/-- The numbers of the nodes whose counts are kept. -/
def ids (t : Tally) : List Nat := t.nodes.toList.map (·.id)

theorem ids_start (h : start total speed = .ok t) : t.ids = List.range' 1 total := by
  obtain ⟨hpos, hspeed⟩ := exists_start_iff.1 ⟨t, h⟩
  have hzero : total ≠ 0 := by omega
  rw [start, if_neg hzero, hspeed] at h
  obtain rfl := Except.ok.inj h
  refine List.ext_getElem (by simp [ids]) fun i hi hi' => ?_
  simp [ids, NodeTally.fresh, Nat.add_comm]

theorem ids_updateNode (t : Tally) (n : NodeId) {f : NodeTally → NodeTally}
    (hf : ∀ c, (f c).id = c.id) : (t.updateNode n f).ids = t.ids := by
  rw [updateNode]
  split
  · rfl
  · refine List.ext_getElem (by simp [ids]) fun i hi hi' => ?_
    simp only [ids, List.getElem_map, Array.getElem_toList, Array.getElem_modify]
    split
    · exact hf _
    · rfl

theorem ids_reportLink (t : Tally) (e : Event) : (t.reportLink e).ids = t.ids := by
  rw [reportLink]
  split
  · rfl
  · exact ids_updateNode _ _ fun _ => rfl

/-- No event changes which nodes there are. -/
theorem ids_take (t : Tally) (change? : Option SpeedChange) (e : Event) (k : Kind) :
    (t.take change? e k).tally.ids = t.ids := by
  cases k with
  | completion =>
      obtain ⟨_, _, heq⟩ := exists_complete_eq t e
      rw [take, heq]
      rfl
  | topology =>
      obtain ⟨_, _, heq, -⟩ := exists_changeTopology_eq t change? e
      rw [take, heq]
      rfl
  | receive => exact ids_updateNode _ _ fun _ => rfl
  | transmit => exact ids_updateNode _ _ fun _ => rfl
  | timeout => exact ids_updateNode _ _ fun _ => rfl
  | neighborLink => exact ids_reportLink t e
  | scheduleUpdate => rfl
  | unmatched => rfl

/-! ## The invariant -/

/-- A tally keeps the counts of all its nodes in order, has completed none but its nodes, and not all
of them while it is open. -/
structure Sound (total : Nat) (t : Tally) : Prop where
  total_eq : t.total = total
  ids_eq : t.ids = List.range' 1 total
  increasing : t.completed.Pairwise (· < ·)
  bounds : ∀ n ∈ t.completed, 1 ≤ n ∧ n ≤ total
  missing : t.isSealed = false → t.completed.length < total

theorem sound_start (h : start total speed = .ok t) : Sound total t := by
  have hnew := isNew_of_start h
  have hpos := one_le_of_start h
  refine ⟨hnew.total_eq, ids_start h, ?_, ?_, ?_⟩
  · simp [hnew.completed]
  · simp [hnew.completed]
  · intro _
    rw [hnew.completed]
    exact hpos

namespace Sound
variable (h : Sound total t)
include h

theorem take (hopen : t.isSealed = false) (change? : Option SpeedChange) (e : Event) (k : Kind) :
    Sound total (t.take change? e k).tally := by
  have hincreasing : (t.take change? e k).tally.completed.Pairwise (· < ·) :=
    pairwise_completed_take h.increasing
  have hbounds : ∀ n ∈ (t.take change? e k).tally.completed, 1 ≤ n ∧ n ≤ total := by
    intro n hn
    rcases mem_completed_take.1 hn with hn | ⟨-, hhas, rfl⟩
    · exact h.bounds n hn
    · rwa [has_iff, h.total_eq] at hhas
  refine ⟨?_, ?_, hincreasing, hbounds, fun hstill => ?_⟩
  · rw [take_total, h.total_eq]
  · rw [ids_take, h.ids_eq]
  · rw [take_isSealed hopen] at hstill
    -- As there is no report, the last node has not completed with this event, nor before it.
    have hlt := h.missing hopen
    refine Nat.lt_of_le_of_ne (length_le_of_increasing hincreasing hbounds) fun hall => ?_
    have hevery := (length_eq_iff_of_increasing hincreasing hbounds).1 hall
    have hbefore : t.completed.length = total := by
      refine (length_eq_iff_of_increasing h.increasing h.bounds).2 fun n hn hpos => ?_
      rcases mem_completed_take.1 (hevery n hn hpos) with hmem | ⟨hk, hhas, rfl⟩
      · exact hmem
      · by_contra hnew
        have hsome := take_report_isSome.2 ⟨hk, hhas, hnew, hall.trans h.total_eq.symm⟩
        rw [hsome] at hstill
        contradiction
    omega

theorem tick : Sound total t.tick := ⟨h.total_eq, h.ids_eq, h.increasing, h.bounds, h.missing⟩

theorem close : Sound total t.close :=
  ⟨h.total_eq, h.ids_eq, h.increasing, h.bounds, fun hopen => by simp [Tally.close] at hopen⟩

/-- **Every operation keeps the invariant.** -/
theorem perform {o : Operation} {r : Recorded} (hr : rules.perform t o = .ok r) :
    Sound total r.tally := by
  obtain ⟨hopen, ⟨e, -, rfl⟩ | ⟨now, -, -, rfl⟩ | ⟨now, -, rfl⟩⟩ := Rules.perform_eq_ok hr
  · exact h.tick.take hopen _ _ _
  · exact h.close
  · exact h.close

theorem proceed (rules : Rules) (o : Operation) : Sound total (rules.proceed t o) := by
  cases hperform : rules.perform t o with
  | ok r =>
    rw [Rules.proceed_of_ok hperform]
    exact h.perform hperform
  | error fault =>
    rw [(Rules.of_refused hperform).1]
    exact h

theorem size_eq : t.nodes.size = total := by
  have hlength := congrArg List.length h.ids_eq
  simpa [ids] using hlength

theorem id_eq (i : Nat) (hi : i < t.nodes.size) : t.nodes[i].id = i + 1 := by
  have hi' : i < t.ids.length := by simpa [ids] using hi
  have hid : t.ids[i] = i + 1 := by
    simp [h.ids_eq, Nat.add_comm]
  simpa [ids] using hid

/-- Exactly the nodes of the run have counts, each under its own number. -/
theorem node?_eq_some {n : NodeId} {c : NodeTally} (hc : t.node? n = some c) :
    c.id = n.number := by
  obtain ⟨number⟩ := n
  by_cases hzero : number = 0
  · simp [node?, NodeId.index?, hzero] at hc
  · simp only [node?, NodeId.index?, hzero, if_false, Option.bind_some] at hc
    obtain ⟨hi, rfl⟩ := Array.getElem?_eq_some_iff.1 hc
    rw [h.id_eq]
    exact Nat.succ_pred hzero

theorem isSome_node?_iff (n : NodeId) :
    (t.node? n).isSome = true ↔ 1 ≤ n.number ∧ n.number ≤ total := by
  obtain ⟨number⟩ := n
  by_cases hzero : number = 0
  · simp [node?, NodeId.index?, hzero]
  · simp only [node?, NodeId.index?, hzero, if_false, Option.bind_some, isSome_getElem?,
      h.size_eq]
    omega

/-- No operation but an early one sums up an open tally: there is always a node missing. -/
theorem finish_eq (now : Instant) :
    t.finish now = .error
      (if t.isSealed then .alreadySealed else .incomplete t.completed.length total) := by
  rw [finish, finalize]
  cases hs : t.isSealed with
  | true => rfl
  | false =>
    have hlt := h.missing hs
    have hnot : t.allCompleted = false := by
      rw [allCompleted, h.total_eq, beq_eq_false_iff_ne]
      omega
    simp [hnot, h.total_eq, Response.onSuccess, Except.map]

/-- **A report says that its run was ended early exactly if it lacks a node**, and it lists the nodes
in the order of their numbers. -/
theorem report {o : Operation} {r : Recorded} {report : Report}
    (hr : rules.perform t o = .ok r) (hreport : r.report = some report) :
    (report.timedOut = true ↔ report.completed < report.total) ∧ report.total = total ∧
      report.nodes.map (·.id) = List.range' 1 total := by
  have hsound := h.perform hr
  obtain ⟨hopen, ⟨e, -, rfl⟩ | ⟨now, -, hall, rfl⟩ | ⟨now, -, rfl⟩⟩ := Rules.perform_eq_ok hr
  · have hsome := congrArg Option.isSome hreport
    obtain ⟨-, -, -, hlength⟩ := take_report_isSome.1 hsome
    obtain ⟨rfl, -⟩ := take_report hreport
    rw [total_tick] at hlength
    refine ⟨?_, hsound.total_eq, hsound.ids_eq⟩
    simp only [Tally.report, take_total, total_tick, hlength]
    simp
  · have hlt := h.missing hopen
    rw [h.total_eq] at hall
    omega
  · obtain rfl := Option.some.inj hreport
    have hlt := h.missing hopen
    rw [← h.total_eq] at hlt
    exact ⟨⟨fun _ => hlt, fun _ => rfl⟩, h.total_eq, h.ids_eq⟩

end Sound

end Tally

/-! ## All operations -/

namespace Rules
variable {rules : Rules} {total : Nat} {speed : Float} {start : Tally}

theorem sound_proceedAll (rules : Rules) (h : Tally.start total speed = .ok start)
    (operations : List Operation) : Tally.Sound total (rules.proceedAll start operations) := by
  induction operations using List.reverseRecOn with
  | nil => exact Tally.sound_start h
  | append_singleton operations o ih =>
      rw [proceedAll_snoc]
      exact ih.proceed rules o

/-- **What a tally is and what its reports say, whatever it is asked.** After operations of any kind:
the number of nodes is as it was, and positive; the counts of exactly these nodes are kept, in order
and each under the number of its node; only nodes of the run have completed, and while the tally is
open there is one that has not. So it is never summed up but early, which is always possible while
it is open. Every report that an operation leads to says that the run was ended early exactly if fewer
nodes than there are have completed, and lists all nodes in order. -/
theorem proceedAll_sound (rules : Rules) (h : Tally.start total speed = .ok start)
    (operations : List Operation) :
    let t := rules.proceedAll start operations
    1 ≤ total ∧ t.total = total ∧ t.nodes.size = total ∧
    (∀ i (hi : i < t.nodes.size), t.nodes[i].id = i + 1) ∧
    (∀ n, (t.node? n).isSome = true ↔ 1 ≤ n.number ∧ n.number ≤ total) ∧
    (∀ n c, t.node? n = some c → c.id = n.number) ∧
    t.completed.Pairwise (· < ·) ∧ (∀ n ∈ t.completed, 1 ≤ n ∧ n ≤ total) ∧
    (t.isSealed = false → t.completed.length < total) ∧
    (∀ now, t.finish now = .error
      (if t.isSealed then .alreadySealed else .incomplete t.completed.length total)) ∧
    (t.isSealed = false → ∀ now,
      ∃ r, rules.perform t (.finishEarly now) = .ok r ∧ r.report.isSome = true) ∧
    ∀ o r report, rules.perform t o = .ok r → r.report = some report →
      (report.timedOut = true ↔ report.completed < report.total) ∧ report.total = total ∧
        report.nodes.map (·.id) = List.range' 1 total := by
  have hsound := sound_proceedAll rules h operations
  exact ⟨Tally.one_le_of_start h, hsound.total_eq, hsound.size_eq, hsound.id_eq,
    hsound.isSome_node?_iff, fun _ _ => hsound.node?_eq_some, hsound.increasing, hsound.bounds,
    hsound.missing, hsound.finish_eq,
    fun hopen now => ⟨_, perform_finishEarly rules hopen now, rfl⟩, fun _ _ _ => hsound.report⟩

/-- Two nodes, of which one completes twice, and a completion of a node that is none of the run: the
run cannot be summed up as complete, and the report of its early end lacks a node. -/
theorem proceedAll_sound_two_nodes :
    let rules : Rules := ⟨.standard, none⟩
    let operations : List Operation := [
      .record ⟨⟨2⟩, .ofMicros 5, "pkt->type = complete"⟩,
      .finish (.ofMicros 6),
      .record ⟨⟨2⟩, .ofMicros 7, "pkt->type = complete"⟩,
      .record ⟨⟨0⟩, .ofMicros 8, "pkt->type = complete"⟩,
      .record ⟨⟨3⟩, .ofMicros 8, "pkt->type = complete"⟩]
    ∃ start, Tally.start 2 1 = .ok start ∧
      (rules.proceedAll start operations).finish (.ofMicros 9) = .error (.incomplete 1 2) ∧
      ∃ r report, rules.perform (rules.proceedAll start operations) (.finishEarly (.ofMicros 9)) =
          .ok r ∧ r.report = some report ∧
        (report.timedOut = true ↔ report.completed < report.total) ∧
        report.nodes.map (·.id) = [1, 2] := by
  intro rules operations
  have hstart : Tally.start 2 1 = .ok _ := rfl
  obtain ⟨-, -, -, -, -, -, -, -, -, hfinish, hearly, hreport⟩ :=
    proceedAll_sound rules hstart operations
  obtain ⟨r, hr, hsome⟩ := hearly (by decide +kernel) (.ofMicros 9)
  obtain ⟨report, hr'⟩ := Option.isSome_iff_exists.1 hsome
  obtain ⟨htimedOut, -, hids⟩ := hreport _ r report hr hr'
  refine ⟨_, hstart, (hfinish _).trans (congrArg Except.error ?_), r, report, hr, hr',
    htimedOut, hids⟩
  decide +kernel

end Rules

end Motewatch
