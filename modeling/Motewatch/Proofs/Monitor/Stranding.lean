import Mathlib.Data.List.Induction
import Motewatch.Proofs.Monitor.Protocol
import Motewatch.Proofs.Output

/-!
# Monitors that lose their report

A run that ends is sealed before its report is written, and the phase moves on only after that. If
the report cannot be written, the monitor is stranded between the two: it takes its run for one that
goes on, but its tally takes in nothing and cannot be summed up a second time. The time limit, which
is to end a run whatever its phase, then ends it no more.

## Main definitions

* `Monitor.Stranded` — the run has ended, but the phase has not moved on.
* `Monitor.LosesReport`, `Monitor.LosesReportIn` — how a monitor comes to be stranded.
* `Monitor.Able` — nothing stands in the way of the monitor.

## Main results

* `Monitor.Reply.stranded_iff` — a call strands a monitor exactly if it loses the report.
* `Monitor.Able.reply` — on working devices no call leads to a fault.
* `Monitor.start_stranded_iff` — what a stranded monitor does, and what every other one does.
* `Monitor.start_stranded_full_device` — a full device strands a monitor.
-/

namespace Motewatch

namespace Monitor
variable {m : Monitor} {c : Call} {t : Turn}

/-- The run has ended, but the monitor still monitors it. -/
def Stranded (m : Monitor) : Prop := m.phase = .monitoring ∧ m.tally.isSealed = true

/-- The run ends with the call, but not all of its files can be written. -/
def LosesReport (m : Monitor) (c : Call) : Prop :=
  m.tally.isSealed = false ∧ (m.answer c).monitor.tally.isSealed = true ∧
    ∃ fault, (m.answer c).fault = some (.storage fault)

/-- One of the calls loses the report. -/
def LosesReportIn (m : Monitor) (calls : List Call) : Prop :=
  ∃ earlier c, earlier ++ [c] <+: calls ∧ (m.after earlier).LosesReport c

theorem losesReportIn_snoc (m : Monitor) (calls : List Call) (c : Call) :
    m.LosesReportIn (calls ++ [c]) ↔ m.LosesReportIn calls ∨ (m.after calls).LosesReport c := by
  constructor
  · rintro ⟨earlier, last, hprefix, hloses⟩
    rcases List.prefix_concat_iff.1 hprefix with heq | hprefix
    · obtain ⟨rfl, rfl⟩ := List.append_singleton_inj.1 heq
      exact Or.inr hloses
    · exact Or.inl ⟨earlier, last, hprefix, hloses⟩
  · rintro (⟨earlier, last, hprefix, hloses⟩ | hloses)
    · exact ⟨earlier, last, hprefix.trans (List.prefix_append _ _), hloses⟩
    · exact ⟨calls, c, List.prefix_refl _, hloses⟩

/-! ## How monitors are stranded -/

/-- **A call strands a monitor exactly if it loses the report**, and no call frees a stranded one. -/
theorem Reply.stranded_iff (h : Reply m c t) :
    t.monitor.Stranded ↔ m.Stranded ∨
      (m.tally.isSealed = false ∧ t.monitor.tally.isSealed = true ∧
        ∃ fault, t.fault = some (.storage fault)) := by
  unfold Stranded
  cases h with
  | ignored => simp
  | unlogged hp => cases hs : m.tally.isSealed <;> simp [hp, hs]
  | late hp _ hs => simp [hp, hs]
  | counted hp _ hr hnone =>
      have hopen := Rules.record_isOpen hr
      have hstill := Rules.isSealed_record hr
      simp [hnone] at hstill
      simp [hopen, hstill]
  | endedUnwritten hp _ hr hsome hwrite =>
      have hopen := Rules.record_isOpen hr
      have hsealed := Rules.isSealed_record hr
      obtain ⟨cause, rfl⟩ := exists_storage_of_settle hwrite
      simp [hp, hopen, hsealed, hsome]
  | ended hp _ hr => simp [Rules.record_isOpen hr]
  | overdue hp hs => simp [hp, hs]
  | closedUnwritten hp hs hwrite =>
      obtain ⟨cause, rfl⟩ := exists_storage_of_settle hwrite
      simp [hp, hs, Tally.close]
  | closed hp hs => simp [hs]
  | passed _ hp => simp [hp]

/-- A monitor that is not stranded refuses no call: what can go wrong are its files. -/
theorem Reply.exists_storage (h : Reply m c t) (hfree : ¬m.Stranded) {fault : Fault}
    (hfault : t.fault = some fault) : ∃ cause, fault = .storage cause := by
  cases h with
  | unlogged _ hlog =>
      obtain rfl := Option.some.inj hfault
      exact exists_storage_of_log hlog
  | late hp _ hs => exact absurd ⟨hp, hs⟩ hfree
  | endedUnwritten _ _ _ _ hwrite =>
      obtain rfl := Option.some.inj hfault
      exact exists_storage_of_settle hwrite
  | overdue hp hs => exact absurd ⟨hp, hs⟩ hfree
  | closedUnwritten _ _ hwrite =>
      obtain rfl := Option.some.inj hfault
      exact exists_storage_of_settle hwrite
  | _ => contradiction

/-- As soon as the run has ended, the monitor has no open files. -/
theorem Reply.output_eq_none (h : Reply m c t)
    (hout : m.tally.isSealed = true → m.output = none) (hs : t.monitor.tally.isSealed = true) :
    t.monitor.output = none := by
  cases h with
  | ignored => exact hout hs
  | unlogged => simp [log_fst, hout (by simpa using hs)]
  | late _ _ hsealed => simp [log_fst, hout hsealed]
  | counted _ _ hr hnone =>
      rw [Rules.isSealed_record hr, hnone] at hs
      contradiction
  | endedUnwritten => exact output_settle _ _ _
  | ended => exact output_settle _ _ _
  | overdue => exact hout hs
  | closedUnwritten => exact output_settle _ _ _
  | closed => exact output_settle _ _ _
  | passed => exact hout hs

/-! ## What a stranded monitor does -/

/-- A stranded monitor refuses every event. -/
theorem onEvent_of_stranded (h : m.Stranded) (hout : m.output = none) (e : Event) :
    m.onEvent e = ⟨m, [], some .runOver⟩ := by
  obtain ⟨hp, hs⟩ := h
  have hlog : m.log e = (m, none) := by rw [log, hout]
  rw [onEvent_of_eq hp, hlog]
  exact takeIn_of_error (Rules.record_of_sealed m.rules e hs)

/-- The time limit ends the run of every monitor that is not stranded and has not passed. -/
theorem onTimeout_of_free (hfree : ¬m.Stranded) (hp : m.phase ≠ .passed) (now : Instant)
    (hwrite : ∀ o ∈ m.output, (o.finish (m.tally.report now true)).2 = none) :
    (m.onTimeout now).signals = [.passed] ∧ (m.onTimeout now).monitor.phase = .passed := by
  cases hphase : m.phase with
  | monitoring =>
      have hopen : m.tally.isSealed = false := by
        cases hs : m.tally.isSealed
        · rfl
        · exact absurd ⟨hphase, hs⟩ hfree
      have hnone : (m.settle m.tally.close (m.tally.report now true)).2 = none := by
        rw [settle_snd, Option.bind_eq_none_iff]
        intro o ho
        rw [hwrite o ho, Option.map_none]
      rw [onTimeout_of_open hphase hopen, hnone]
      exact ⟨rfl, rfl⟩
  | settling =>
      rw [onTimeout, hphase]
      exact ⟨rfl, rfl⟩
  | passed => contradiction

/-! ## Working devices -/

/-- Nothing stands in the way of the monitor: its files can be written, and it is not stranded. -/
structure Able (m : Monitor) : Prop where
  works : ∀ o ∈ m.output, o.Works
  unstranded : ¬m.Stranded

namespace Able

theorem log (h : m.Able) (e : Event) :
    (m.log e).2 = none ∧ ∀ o ∈ (m.log e).1.output, o.Works := by
  rw [log_fst, log_snd]
  cases hout : m.output with
  | none => simp
  | some o =>
    obtain ⟨hfault, hworks⟩ := (h.works o hout).append e
    simp [hfault, hworks]

theorem settle {tally : Tally} {r : Report} (hworks : ∀ o ∈ m.output, o.Works) :
    (m.settle tally r).2 = none := by
  rw [settle_snd]
  cases hout : m.output with
  | none => rfl
  | some o => simp [(hworks o hout).finish r]

/-- **On working devices no call leads to a fault**, and the monitor is as able as before. -/
theorem reply (h : m.Able) (hreply : Reply m c t) : t.fault = none ∧ t.monitor.Able := by
  have hfault : t.fault = none := by
    cases hreply with
    | unlogged _ hlog => simp [(h.log _).1] at hlog
    | late hp _ hs => exact absurd ⟨hp, hs⟩ h.unstranded
    | endedUnwritten _ _ _ _ hwrite => simp [settle (h.log _).2] at hwrite
    | overdue hp hs => exact absurd ⟨hp, hs⟩ h.unstranded
    | closedUnwritten _ _ hwrite => simp [settle h.works] at hwrite
    | _ => rfl
  refine ⟨hfault, ?_, ?_⟩
  · cases hreply with
    | ignored => exact h.works
    | counted => exact (h.log _).2
    | ended => simp
    | closed => simp
    | passed => exact h.works
    | _ => contradiction
  · rw [hreply.stranded_iff, hfault]
    simp [h.unstranded]

end Able

/-! ## Whole lives -/

section
variable {rules : Rules} {total : Nat} {speed : Float} {output : Option Output}
variable {first : List Signal}

theorem output_after (h : start rules total speed output = .ok (m, first)) (calls : List Call)
    (hs : (m.after calls).tally.isSealed = true) : (m.after calls).output = none := by
  induction calls using List.reverseRecOn with
  | nil =>
      obtain ⟨tally, htally, rfl, -⟩ := start_eq_ok h
      simp [(Tally.isNew_of_start htally).isOpen] at hs
  | append_singleton calls c ih =>
      rw [after_snoc] at hs ⊢
      exact (reply_answer _ c).output_eq_none ih hs

/-- A monitor is stranded exactly if it has lost its report. -/
theorem stranded_after (h : start rules total speed output = .ok (m, first)) (calls : List Call) :
    (m.after calls).Stranded ↔ m.LosesReportIn calls := by
  induction calls using List.reverseRecOn with
  | nil =>
      obtain ⟨tally, htally, rfl, -⟩ := start_eq_ok h
      simp [Stranded, LosesReportIn, (Tally.isNew_of_start htally).isOpen]
  | append_singleton calls c ih =>
      rw [after_snoc, (reply_answer _ c).stranded_iff, ih, losesReportIn_snoc]
      rfl

/-- With files on working devices, or with none, a monitor stays able. -/
theorem able_after (h : start rules total speed output = .ok (m, first))
    (hworks : ∀ o ∈ output, o.Works) (calls : List Call) : (m.after calls).Able := by
  induction calls using List.reverseRecOn with
  | nil =>
      obtain ⟨tally, htally, rfl, -⟩ := start_eq_ok h
      exact ⟨hworks, by simp [Stranded, (Tally.isNew_of_start htally).isOpen]⟩
  | append_singleton calls c ih =>
      rw [after_snoc]
      exact (ih.reply (reply_answer _ c)).2

/-- **What a lost report does to a monitor.** After calls of any kind, also after faults: the phase
of a monitor and its tally agree on whether the run goes on, exactly if no call has lost the report.
Exactly then, too, no event is refused, no time limit is refused, and a time limit whose own writes
do not fail ends a run that has not passed. On working devices no report is ever lost. -/
theorem start_stranded_iff (h : start rules total speed output = .ok (m, first))
    (calls : List Call) :
    let now := m.after calls
    ((now.phase = .monitoring ↔ now.tally.isSealed = false) ↔ ¬m.LosesReportIn calls) ∧
    (∀ e, (now.onEvent e).fault = some .runOver ↔ m.LosesReportIn calls) ∧
    (∀ time, (now.onTimeout time).fault = some .alreadySealed ↔ m.LosesReportIn calls) ∧
    (∀ time, now.phase ≠ .passed →
      (∀ o ∈ now.output, (o.finish (now.tally.report time true)).2 = none) →
      (((now.onTimeout time).signals = [.passed] ∧
        (now.onTimeout time).monitor.phase = .passed) ↔ ¬m.LosesReportIn calls)) ∧
    ((∀ o ∈ output, o.Works) → ¬m.LosesReportIn calls) := by
  intro now
  rw [← stranded_after h calls]
  have hsealed : now.phase ≠ .monitoring → now.tally.isSealed = true :=
    (coherent_after h calls).isSealed
  have hout : now.tally.isSealed = true → now.output = none := output_after h calls
  refine ⟨?_, ?_, ?_, ?_, ?_⟩
  · by_cases hp : now.phase = .monitoring
    · simp [Stranded, now, hp]
    · simp [Stranded, now, hp, hsealed hp]
  · intro e
    constructor
    · intro hfault
      by_contra hfree
      obtain ⟨cause, hcause⟩ := (reply_answer now (.event e)).exists_storage hfree hfault
      contradiction
    · intro hstranded
      rw [onEvent_of_stranded hstranded (hout hstranded.2)]
  · intro time
    constructor
    · intro hfault
      by_contra hfree
      obtain ⟨cause, hcause⟩ := (reply_answer now (.timeout time)).exists_storage hfree hfault
      contradiction
    · intro hstranded
      rw [onTimeout_of_sealed hstranded.1 hstranded.2]
  · intro time hp hwrite
    constructor
    · rintro ⟨hpassed, -⟩ hstranded
      rw [onTimeout_of_sealed hstranded.1 hstranded.2] at hpassed
      contradiction
    · exact fun hfree => onTimeout_of_free hfree hp time hwrite
  · exact fun hworks => (able_after h hworks calls).unstranded

/-- On working devices the time limit ends a run whose node never completes. -/
theorem start_stranded_iff_working :
    let output : Output := ⟨.fresh .working, .fresh .working, .full, [], []⟩
    let calls : List Call := [.event ⟨⟨1⟩, .ofMicros 7, "Received"⟩]
    ∃ m first, start ⟨.standard, none⟩ 1 1 (some output) = .ok (m, first) ∧
      ((m.after calls).onTimeout (.ofMicros 9)).signals = [.passed] ∧
      ((m.after calls).onTimeout (.ofMicros 9)).monitor.phase = .passed := by
  intro output calls
  have h : start ⟨.standard, none⟩ 1 1 (some output) = .ok (_, _) := rfl
  have hworks : ∀ o ∈ some output, o.Works := by
    rintro o ⟨⟩
    exact ⟨rfl, rfl⟩
  obtain ⟨-, -, -, hends, hkeeps⟩ := start_stranded_iff h calls
  have hable := able_after h hworks calls
  refine ⟨_, _, h, (hends (.ofMicros 9) (by decide +kernel) ?_).2 (hkeeps hworks)⟩
  exact fun o ho => (hable.works o ho).finish _

/-- A report that meets a full device is lost: the only node completes, and yet neither another
event nor the time limit, which has nothing left to write, ends the run. -/
theorem start_stranded_full_device :
    let output : Output := ⟨.fresh .working, .fresh .full, .full, [], []⟩
    let calls : List Call := [.event ⟨⟨1⟩, .ofMicros 5, "pkt->type = complete"⟩]
    let e : Event := ⟨⟨1⟩, .ofMicros 6, "Received"⟩
    ∃ m first, start ⟨.standard, none⟩ 1 1 (some output) = .ok (m, first) ∧
      (m.after calls).phase = .monitoring ∧ (m.after calls).tally.isSealed = true ∧
      (m.after calls).output.isNone = true ∧
      ((m.after calls).onEvent e).fault = some .runOver ∧
      ((m.after calls).onTimeout (.ofMicros 10)).fault = some .alreadySealed ∧
      ((m.after calls).onTimeout (.ofMicros 10)).signals = [] ∧
      ((m.after calls).onTimeout (.ofMicros 10)).monitor.phase = .monitoring := by
  intro output calls e
  have h : start ⟨.standard, none⟩ 1 1 (some output) = .ok (_, _) := rfl
  refine ⟨_, _, h, ?_, ?_, ?_, ?_, ?_, ?_, ?_⟩
  all_goals decide +kernel

end

end Monitor

end Motewatch
