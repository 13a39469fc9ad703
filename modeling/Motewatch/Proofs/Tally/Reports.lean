import Motewatch.Proofs.Tally.Operations

/-!
# The one report of a tally

Whatever a tally is asked, it is summed up at most once. Until then it refuses nothing but to be
summed up as complete; from then on it refuses everything, and what it refuses leaves it as it is.
So its report says for ever what the tally holds.

## Main definitions

* `Rules.reports` — the reports that operations lead to.
* `Report.Tells` — a report says what a tally holds.
* `Tally.Reported` — the invariant.

## Main results

* `Rules.exists_perform_of_open` — what an open tally does not refuse.
* `Tally.Reported.proceed` — every operation keeps the invariant.
* `Rules.proceedAll_reports` — there is one report at most, and it is final.
-/

namespace Motewatch

/-- A report says what a tally holds. -/
structure Report.Tells (r : Report) (t : Tally) : Prop where
  first : r.firstSchedule = t.firstSchedule.map (·.micros)
  nodes : r.nodes = t.nodes.toList
  speed : r.speed = t.speed
  total : r.total = t.total
  completed : r.completed = t.completed.length

theorem Tally.tells_report (t : Tally) (now : Instant) (timedOut : Bool) :
    (t.report now timedOut).Tells t :=
  ⟨rfl, rfl, rfl, rfl, rfl⟩

/-- Sealing a tally changes nothing that a report says. -/
theorem Report.Tells.close {r : Report} {t : Tally} (h : r.Tells t) : r.Tells t.close :=
  ⟨h.first, h.nodes, h.speed, h.total, h.completed⟩

/-! ## One operation -/

namespace Rules
variable {rules : Rules} {t : Tally} {o : Operation} {r : Recorded} {report : Report}

/-- The reports that operations lead to. -/
def reports (rules : Rules) (t : Tally) : List Operation → List Report
  | [] => []
  | o :: rest => (rules.reportOn? t o).toList ++ rules.reports (rules.proceed t o) rest

theorem reports_snoc (rules : Rules) (t : Tally) (operations : List Operation) (o : Operation) :
    rules.reports t (operations ++ [o]) =
      rules.reports t operations ++ (rules.reportOn? (rules.proceedAll t operations) o).toList := by
  induction operations generalizing t with
  | nil => simp [reports]
  | cons first rest ih =>
      rw [List.cons_append, reports, ih, reports, List.append_assoc]
      rfl

/-- An open tally takes in every event, and can be summed up as it is. -/
theorem exists_perform_of_open (rules : Rules) (h : t.isSealed = false) :
    (∀ e, ∃ r, rules.perform t (.record e) = .ok r) ∧
      ∀ now, ∃ r, rules.perform t (.finishEarly now) = .ok r ∧ r.report.isSome = true := by
  constructor
  · intro e
    exact ⟨_, record_of_open rules e h⟩
  · intro now
    exact ⟨_, perform_finishEarly rules h now, rfl⟩

/-- An operation seals a tally exactly if it leads to a report. -/
theorem isSealed_perform (h : rules.perform t o = .ok r) :
    r.tally.isSealed = r.report.isSome := by
  obtain ⟨hopen, ⟨e, -, rfl⟩ | ⟨now, -, -, rfl⟩ | ⟨now, -, rfl⟩⟩ := perform_eq_ok h
  · exact Tally.take_isSealed (t := t.tick) hopen
  · rfl
  · rfl

/-- A report says what the tally holds that the operation leaves behind. -/
theorem tells_perform (h : rules.perform t o = .ok r) (hreport : r.report = some report) :
    report.Tells r.tally := by
  obtain ⟨-, ⟨e, -, rfl⟩ | ⟨now, -, -, rfl⟩ | ⟨now, -, rfl⟩⟩ := perform_eq_ok h
  · rw [(Tally.take_report hreport).1]
    exact Tally.tells_report _ _ _
  · obtain rfl := Option.some.inj hreport
    exact (Tally.tells_report t now false).close
  · obtain rfl := Option.some.inj hreport
    exact (Tally.tells_report t now true).close

end Rules

/-! ## The invariant -/

/-- The reports that a tally has led to: none while it is open, and when it is sealed a single one,
which says what the tally holds. -/
inductive Tally.Reported (t : Tally) : List Report → Prop
  | unsealed (h : t.isSealed = false) : Reported t []
  | summedUp {report : Report} (h : t.isSealed = true) (htells : report.Tells t) :
      Reported t [report]

namespace Tally.Reported
variable {t : Tally} {reports : List Report}

/-- **Every operation keeps the invariant**, with the report that it leads to. -/
theorem proceed (h : Reported t reports) (rules : Rules) (o : Operation) :
    Reported (rules.proceed t o) (reports ++ (rules.reportOn? t o).toList) := by
  cases hperform : rules.perform t o with
  | error fault =>
    obtain ⟨hsame, -, hnone⟩ := Rules.of_refused hperform
    rw [hsame, hnone]
    simpa using h
  | ok r =>
    rw [Rules.proceed_of_ok hperform, Rules.reportOn?_of_ok hperform]
    cases h with
    | summedUp hsealed =>
      rw [Rules.perform_of_sealed rules hsealed o] at hperform
      contradiction
    | unsealed =>
      have hsealed := Rules.isSealed_perform hperform
      cases hreport : r.report with
      | none =>
        rw [hreport] at hsealed
        exact .unsealed hsealed
      | some report =>
        rw [hreport] at hsealed
        exact .summedUp hsealed (Rules.tells_perform hperform hreport)

theorem length_le_one (h : Reported t reports) : reports.length ≤ 1 := by
  cases h with
  | unsealed => exact Nat.zero_le 1
  | summedUp => exact Nat.le_refl 1

theorem isSealed_eq_false_iff (h : Reported t reports) : t.isSealed = false ↔ reports = [] := by
  cases h with
  | unsealed h => simp [h]
  | summedUp h => simp [h]

theorem tells (h : Reported t reports) {report : Report} (hmem : report ∈ reports) :
    report.Tells t := by
  cases h with
  | unsealed => contradiction
  | summedUp _ htells =>
    obtain rfl := List.mem_singleton.1 hmem
    exact htells

end Tally.Reported

/-! ## All operations -/

namespace Rules
variable {total : Nat} {speed : Float} {start : Tally}

/-- The invariant holds from the start, whatever is asked. -/
theorem reported_proceedAll (rules : Rules) (h : Tally.start total speed = .ok start)
    (operations : List Operation) :
    Tally.Reported (rules.proceedAll start operations) (rules.reports start operations) := by
  induction operations using List.reverseRecOn with
  | nil => exact .unsealed (Tally.isNew_of_start h).isOpen
  | append_singleton operations o ih =>
      rw [proceedAll_snoc, reports_snoc]
      exact ih.proceed rules o

/-- A report that has been made is there for ever. -/
theorem mem_reports_append {rules : Rules} {report : Report} {operations : List Operation}
    (h : report ∈ rules.reports start operations) (more : List Operation) :
    report ∈ rules.reports start (operations ++ more) := by
  induction more using List.reverseRecOn with
  | nil => simpa using h
  | append_singleton more o ih =>
      rw [← List.append_assoc, reports_snoc]
      exact List.mem_append_left _ ih

/-- **There is one report at most, and it is final.** Whatever a tally is asked, and in whatever
order: at most one operation leads to a report. As long as none has, every event is taken in, the
tally can be summed up as it is, and it cannot be summed up as complete, which is refused with the
numbers of nodes that have completed and that there are. Once one has, everything is refused. What
is refused changes nothing and asks for nothing; and the report says what the tally holds now and
whatever is asked later. -/
theorem proceedAll_reports (rules : Rules) (h : Tally.start total speed = .ok start)
    (operations : List Operation) :
    let t := rules.proceedAll start operations
    let reports := rules.reports start operations
    reports.length ≤ 1 ∧
    (reports = [] →
      (∀ e, ∃ r, rules.perform t (.record e) = .ok r) ∧
      (∀ now, ∃ r, rules.perform t (.finishEarly now) = .ok r ∧ r.report.isSome = true) ∧
      ∀ now, rules.perform t (.finish now) =
        .error (.incomplete t.completed.length t.total)) ∧
    (reports ≠ [] →
      (∀ e, rules.perform t (.record e) = .error .runOver) ∧
      (∀ now, rules.perform t (.finish now) = .error .alreadySealed) ∧
      ∀ now, rules.perform t (.finishEarly now) = .error .alreadySealed) ∧
    (∀ o fault, rules.perform t o = .error fault →
      rules.proceed t o = t ∧ rules.signalsOn t o = []) ∧
    ∀ report ∈ reports, ∀ more, report.Tells (rules.proceedAll start (operations ++ more)) := by
  intro t reports
  have hreported : Tally.Reported t reports := reported_proceedAll rules h operations
  have hsound := sound_proceedAll rules h operations
  refine ⟨hreported.length_le_one, ?_, ?_, ?_, ?_⟩
  · intro hnone
    have hopen : t.isSealed = false := hreported.isSealed_eq_false_iff.2 hnone
    obtain ⟨hrecord, hearly⟩ := exists_perform_of_open rules hopen
    refine ⟨hrecord, hearly, ?_⟩
    intro now
    rw [perform_finish, hsound.finish_eq now, hopen, hsound.total_eq]
    rfl
  · intro hsome
    have hsealed : t.isSealed = true := by
      by_contra hnot
      exact hsome (hreported.isSealed_eq_false_iff.1 (eq_false_of_ne_true hnot))
    have hrefused := perform_of_sealed rules hsealed
    exact ⟨fun e => hrefused _, fun now => hrefused _, fun now => hrefused _⟩
  · intro o fault hfault
    obtain ⟨hsame, hquiet, -⟩ := of_refused hfault
    exact ⟨hsame, hquiet⟩
  · intro report hmem more
    exact (reported_proceedAll rules h (operations ++ more)).tells (mem_reports_append hmem more)

/-- Two nodes, of which one completes; then there is a message whose report on a link cannot be
read, the run is summed up early, and the other node comes too late. -/
theorem proceedAll_reports_two_nodes :
    let rules : Rules := ⟨.standard, none⟩
    let operations : List Operation := [
      .record ⟨⟨1⟩, .ofMicros 5, "pkt->type = complete"⟩,
      .finish (.ofMicros 6),
      .record ⟨⟨2⟩, .ofMicros 7, "neighbor \x7b\"tx\": \x7d"⟩]
    let late : Operation := .record ⟨⟨2⟩, .ofMicros 9, "pkt->type = complete"⟩
    ∃ start, Tally.start 2 1 = .ok start ∧
      rules.perform (rules.proceedAll start operations) (.finish (.ofMicros 8)) =
        .error (.incomplete 1 2) ∧
      rules.perform (rules.proceedAll start (operations ++ [.finishEarly (.ofMicros 8)])) late =
        .error .runOver ∧
      ∃ report ∈ rules.reports start (operations ++ [.finishEarly (.ofMicros 8)]),
        report.Tells (rules.proceedAll start (operations ++ [.finishEarly (.ofMicros 8)] ++
          [late])) := by
  intro rules operations late
  let start : Tally :=
    ⟨[], none, 1, 2, Array.ofFn fun i : Fin 2 => NodeTally.fresh (i + 1), false, false, 0⟩
  have hstart : Tally.start 2 1 = .ok start := rfl
  obtain ⟨-, hbefore, -⟩ := proceedAll_reports rules hstart operations
  obtain ⟨-, -, hafter, -, htells⟩ :=
    proceedAll_reports rules hstart (operations ++ [.finishEarly (.ofMicros 8)])
  have hnone : (rules.reports start operations).length = 0 := by decide +kernel
  have hsome : (rules.reports start (operations ++ [.finishEarly (.ofMicros 8)])).length ≠ 0 := by
    decide +kernel
  obtain ⟨report, hmem⟩ := List.exists_mem_of_length_pos (Nat.pos_of_ne_zero hsome)
  refine ⟨start, hstart, ?_, ?_, report, hmem, htells report hmem _⟩
  · refine ((hbefore (List.eq_nil_of_length_eq_zero hnone)).2.2 _).trans (congrArg Except.error ?_)
    decide +kernel
  · exact (hafter (List.ne_nil_of_length_pos (Nat.pos_of_ne_zero hsome))).1 _

end Rules

end Motewatch
