import Mathlib.Data.List.Induction
import Motewatch.Proofs.Monitor.Calls

/-!
# What a simulation can rely on

However a simulation calls a monitor, and whether or not files can be written, the monitor keeps to
one protocol: its phase moves forward only, it passes the test once, it asks for its message once,
and a report that it has is there to stay.

The invariant ties the phase, the tally and the report of a monitor to the signals it has given. A
report is there exactly if the tally is sealed, and a monitor that has left the first phase has
sealed its tally; it is the other way round that may fail, when a report cannot be written.

## Main definitions

* `Phase.rank` — the order of the phases.
* `requests` — the messages that signals ask for.
* `Monitor.Coherent` — the invariant.

## Main results

* `Monitor.Reply.rank_le` — no call takes a phase back.
* `Monitor.Coherent.reply` — every call keeps the invariant.
* `Monitor.start_protocol` — the protocol.
-/

namespace Motewatch

/-- The place of a phase in the order in which phases come. -/
def Phase.rank : Phase → Nat
  | .monitoring => 0
  | .settling => 1
  | .passed => 2

/-- The message that a signal asks for, with its delay. -/
def Signal.request? : Signal → Option (Instant × String)
  | .message delay text => some (delay, text)
  | _ => none

/-- The messages that signals ask for. -/
def requests (signals : List Signal) : List (Instant × String) :=
  signals.filterMap Signal.request?

@[simp] theorem requests_nil : requests [] = [] := rfl

@[simp] theorem requests_message (delay : Instant) (text : String) :
    requests [.message delay text] = [(delay, text)] := rfl

@[simp] theorem requests_passed : requests [.passed] = [] := rfl

@[simp] theorem requests_append (signals more : List Signal) :
    requests (signals ++ more) = requests signals ++ requests more := by
  simp [requests]

/-- Signals that ask for a speed ask for nothing else. -/
theorem requests_of_speeds {signals : List Signal} (h : ∀ s ∈ signals, ∃ x, s = .speed x) :
    requests signals = [] := by
  rw [requests, List.filterMap_eq_nil_iff]
  intro s hs
  obtain ⟨x, rfl⟩ := h s hs
  rfl

theorem count_passed_of_speeds {signals : List Signal} (h : ∀ s ∈ signals, ∃ x, s = .speed x) :
    signals.count .passed = 0 := by
  rw [List.count_eq_zero]
  intro hs
  obtain ⟨x, hx⟩ := h _ hs
  contradiction

namespace Monitor
variable {m : Monitor} {c : Call}

/-! ## The order of phases -/

/-- No call takes a phase back. -/
theorem Reply.rank_le {t : Turn} (h : Reply m c t) : m.phase.rank ≤ t.monitor.phase.rank := by
  cases h with
  | ignored => exact Nat.le_refl _
  | unlogged => simp
  | late => simp
  | counted => simp
  | endedUnwritten => simp
  | ended hp => simp [hp, Phase.rank]
  | overdue => exact Nat.le_refl _
  | closedUnwritten => simp
  | closed hp => simp [hp, Phase.rank]
  | passed _ hp => simp [hp, Phase.rank]

theorem rank_le_after (m : Monitor) (calls : List Call) :
    m.phase.rank ≤ (m.after calls).phase.rank := by
  induction calls generalizing m with
  | nil => exact Nat.le_refl _
  | cons c rest ih => exact Nat.le_trans (reply_answer m c).rank_le (ih _)

/-- A monitor that has passed does nothing any more. -/
theorem answer_of_passed (hp : m.phase = .passed) (c : Call) : m.answer c = ⟨m, [], none⟩ := by
  cases c <;> simp [answer, onEvent, onMessage, onTimeout, hp]

/-! ## The invariant -/

/-- What a monitor has to do with the signals it has given, and with whether it has been waiting for
its message. -/
structure Coherent (m : Monitor) (given : List Signal) (settled : Prop) : Prop where
  report_isSome : m.report.isSome = m.tally.isSealed
  isSealed : m.phase ≠ .monitoring → m.tally.isSealed = true
  passes : given.count .passed = if m.phase = .passed then 1 else 0
  settled_of_settling : m.phase = .settling → settled
  unsettled : m.phase = .monitoring → ¬settled
  asked : settled → ∃ r, m.report = some r ∧
    requests given = [(sleepDelay r.speed, sleepMessage)]
  unasked : ¬settled → requests given = []

namespace Coherent
variable {m' : Monitor} {given more : List Signal} {settled : Prop} {r : Report}

/-- A call keeps the invariant if phase and report stay and at most another speed is asked for. -/
theorem stay (h : Coherent m given settled) (hphase : m'.phase = m.phase)
    (hreport : m'.report = m.report) (hsealed : m'.tally.isSealed = m.tally.isSealed)
    (hmore : ∀ s ∈ more, ∃ x, s = .speed x) :
    Coherent m' (given ++ more) (settled ∨ m'.phase = .settling) := by
  have hsettled : (settled ∨ m'.phase = .settling) ↔ settled := by
    rw [hphase]
    exact or_iff_left_of_imp h.settled_of_settling
  rw [hsettled]
  constructor
  · rw [hreport, hsealed, h.report_isSome]
  · rw [hphase, hsealed]
    exact h.isSealed
  · rw [List.count_append, count_passed_of_speeds hmore, hphase, h.passes, Nat.add_zero]
  · rw [hphase]
    exact h.settled_of_settling
  · rw [hphase]
    exact h.unsettled
  · rw [requests_append, requests_of_speeds hmore, List.append_nil, hreport]
    exact h.asked
  · rw [requests_append, requests_of_speeds hmore, List.append_nil]
    exact h.unasked

/-- A call keeps the invariant if the run ends with it and its report cannot be written. -/
theorem strand (h : Coherent m given settled) (hp : m.phase = .monitoring)
    (hphase : m'.phase = m.phase) (hreport : m'.report = some r)
    (hsealed : m'.tally.isSealed = true) :
    Coherent m' (given ++ []) (settled ∨ m'.phase = .settling) := by
  rw [hp] at hphase
  have hnot : ¬settled := h.unsettled hp
  constructor
  · simp [hreport, hsealed]
  · exact fun _ => hsealed
  · simp [hphase, h.passes, hp]
  · exact Or.inr
  · simp [hphase, hnot]
  · simp [hphase, hnot]
  · simp [h.unasked hnot]

/-- A call keeps the invariant if the run ends with it and the message is asked for. -/
theorem settle (h : Coherent m given settled) (hp : m.phase = .monitoring)
    (hphase : m'.phase = .settling) (hreport : m'.report = some r)
    (hsealed : m'.tally.isSealed = true) :
    Coherent m' (given ++ [.message (sleepDelay r.speed) sleepMessage])
      (settled ∨ m'.phase = .settling) := by
  constructor
  · simp [hreport, hsealed]
  · exact fun _ => hsealed
  · simp [hphase, h.passes, hp]
  · exact Or.inr
  · simp [hphase]
  · refine fun _ => ⟨r, hreport, ?_⟩
    rw [requests_append, h.unasked (h.unsettled hp)]
    rfl
  · simp [hphase]

/-- A call keeps the invariant if the test passes with it, now or never. -/
theorem pass (h : Coherent m given settled) (hp : m.phase ≠ .passed)
    (hphase : m'.phase = .passed) (hreport : m'.report.isSome = true)
    (hkept : settled → m'.report = m.report) (hsealed : m'.tally.isSealed = true) :
    Coherent m' (given ++ [.passed]) (settled ∨ m'.phase = .settling) := by
  have hsettled : (settled ∨ m'.phase = .settling) ↔ settled := by simp [hphase]
  rw [hsettled]
  constructor
  · rw [hreport, hsealed]
  · exact fun _ => hsealed
  · simp [hphase, h.passes, hp]
  · simp [hphase]
  · simp [hphase]
  · intro hs
    rw [requests_append, requests_passed, List.append_nil, hkept hs]
    exact h.asked hs
  · rw [requests_append, requests_passed, List.append_nil]
    exact h.unasked

/-- **Every call keeps the invariant.** -/
theorem reply {t : Turn} (h : Coherent m given settled) (hreply : Reply m c t) :
    Coherent t.monitor (given ++ t.signals) (settled ∨ t.monitor.phase = .settling) := by
  have hnone : ∀ s ∈ ([] : List Signal), ∃ x, s = .speed x := by simp
  cases hreply with
  | ignored => exact h.stay rfl rfl rfl hnone
  | unlogged => exact h.stay (by simp) (by simp) (by simp) hnone
  | late => exact h.stay (by simp) (by simp) (by simp) hnone
  | counted hp hlog hr hreport =>
      have hopen := Rules.record_isOpen hr
      have hstill := Rules.isSealed_record hr
      rw [hreport] at hstill
      exact h.stay (by simp) (by simp) (hstill.trans hopen.symm) fun s => Rules.signals_record hr
  | endedUnwritten hp hlog hr hreport =>
      have hsealed := Rules.isSealed_record hr
      rw [hreport] at hsealed
      exact h.strand hp (by simp) (report_settle _ _ _) (by simpa using hsealed)
  | ended hp hlog hr hreport =>
      have hsealed := Rules.isSealed_record hr
      rw [hreport] at hsealed
      -- The report says the same of the speed as the tally, from which the delay is taken.
      rw [← Rules.speed_record hr hreport]
      exact h.settle hp rfl (report_settle _ _ _) (by simpa using hsealed)
  | overdue => exact h.stay rfl rfl rfl hnone
  | closedUnwritten hp =>
      exact h.strand hp (by simp) (report_settle _ _ _) (by simp [Tally.close])
  | closed hp =>
      refine h.pass (by simp [hp]) rfl (by simp) ?_ (by simp [Tally.close])
      exact fun hs => absurd hs (h.unsettled hp)
  | passed _ hp =>
      have hne : m.phase ≠ .monitoring := by simp [hp]
      have hsealed := h.isSealed hne
      exact h.pass (by simp [hp]) rfl (h.report_isSome.trans hsealed) (fun _ => rfl) hsealed

/-- A report that is there stays there: only a call that seals the tally brings one, and a monitor
with a report has sealed its tally before. -/
theorem report_reply {t : Turn} (h : Coherent m given settled) (hreply : Reply m c t)
    (hr : m.report = some r) : t.monitor.report = some r := by
  have hsealed : m.tally.isSealed = true := by rw [← h.report_isSome, hr, Option.isSome_some]
  cases hreply with
  | ignored => exact hr
  | unlogged => simpa using hr
  | late => simpa using hr
  | counted => simpa using hr
  | endedUnwritten _ _ hrecord => simp [Rules.record_isOpen hrecord] at hsealed
  | ended _ _ hrecord => simp [Rules.record_isOpen hrecord] at hsealed
  | overdue => exact hr
  | closedUnwritten _ hopen => simp [hopen] at hsealed
  | closed _ hopen => simp [hopen] at hsealed
  | passed => exact hr

end Coherent

/-! ## Whole lives -/

section
variable {rules : Rules} {total : Nat} {speed : Float} {output : Option Output}
variable {first : List Signal}

/-- The invariant holds from the start, whatever calls come. -/
theorem coherent_after (h : start rules total speed output = .ok (m, first))
    (calls : List Call) :
    Coherent (m.after calls) (first ++ m.signals calls)
      (∃ earlier, earlier <+: calls ∧ (m.after earlier).phase = .settling) := by
  induction calls using List.reverseRecOn with
  | nil =>
      obtain ⟨t, ht, rfl, rfl⟩ := start_eq_ok h
      have hopen := (Tally.isNew_of_start ht).isOpen
      constructor <;> simp [signals, hopen, requests, Signal.request?]
  | append_singleton calls c ih =>
      have hstep := ih.reply (reply_answer (m.after calls) c)
      rw [← after_snoc, List.append_assoc, ← signals_snoc] at hstep
      have hsettled : (∃ earlier, earlier <+: calls ++ [c] ∧ (m.after earlier).phase = .settling) ↔
          (∃ earlier, earlier <+: calls ∧ (m.after earlier).phase = .settling) ∨
            (m.after (calls ++ [c])).phase = .settling := by
        constructor
        · rintro ⟨earlier, hprefix, hp⟩
          rcases List.prefix_concat_iff.1 hprefix with rfl | hprefix
          · exact Or.inr hp
          · exact Or.inl ⟨earlier, hprefix, hp⟩
        · rintro (⟨earlier, hprefix, hp⟩ | hp)
          · exact ⟨earlier, hprefix.trans (List.prefix_append _ _), hp⟩
          · exact ⟨_, List.prefix_refl _, hp⟩
      rw [hsettled]
      exact hstep

/-- A report that is there stays there. -/
theorem report_after (h : start rules total speed output = .ok (m, first)) (calls more : List Call)
    {r : Report} (hr : (m.after calls).report = some r) :
    (m.after (calls ++ more)).report = some r := by
  induction more using List.reverseRecOn with
  | nil => simpa using hr
  | append_singleton more c ih =>
      rw [← List.append_assoc, after_snoc]
      exact (coherent_after h (calls ++ more)).report_reply (reply_answer _ c) ih

/-- **The protocol of a monitor.** Whatever a monitor is called with, also after faults: its phase
moves forward only; it has passed the test once if it has come to the last phase, and not at all
otherwise; it has asked for its message once, after a delay that fits the speed in the report, if it
has ever been waiting for it, and not at all otherwise; a report stays as it is, and there is one
from the second phase on; and in the last phase nothing happens any more. -/
theorem start_protocol (h : start rules total speed output = .ok (m, first))
    (calls : List Call) :
    let now := m.after calls
    let given := first ++ m.signals calls
    (∀ more, now.phase.rank ≤ (m.after (calls ++ more)).phase.rank) ∧
    given.count .passed = (if now.phase = .passed then 1 else 0) ∧
    ((∃ earlier, earlier <+: calls ∧ (m.after earlier).phase = .settling) →
      ∃ r, now.report = some r ∧ requests given = [(sleepDelay r.speed, "sleep")]) ∧
    ((∀ earlier, earlier <+: calls → (m.after earlier).phase ≠ .settling) →
      requests given = []) ∧
    (∀ r more, now.report = some r → (m.after (calls ++ more)).report = some r) ∧
    (now.phase ≠ .monitoring → now.report.isSome = true) ∧
    (now.phase = .passed → ∀ c, now.answer c = ⟨now, [], none⟩) := by
  have hcoherent := coherent_after h calls
  refine ⟨?_, hcoherent.passes, hcoherent.asked, ?_, ?_, ?_, answer_of_passed⟩
  · intro more
    rw [after_append]
    exact rank_le_after _ more
  · intro hnever
    exact hcoherent.unasked fun ⟨earlier, hprefix, hp⟩ => hnever earlier hprefix hp
  · intro r more hr
    exact report_after h calls more hr
  · intro hp
    rw [hcoherent.report_isSome]
    exact hcoherent.isSealed hp

/-- A message that comes too early is ignored, the awaited one passes the test, and a time limit
after that changes nothing. -/
theorem start_protocol_one_node :
    let output : Output := ⟨.fresh .working, .fresh .working, .full, [], []⟩
    let calls : List Call := [.message "sleep", .event ⟨⟨1⟩, .ofMicros 7, "pkt->type = complete"⟩,
      .event ⟨⟨1⟩, .ofMicros 8, "Received"⟩, .message "sleep", .timeout (.ofMicros 9)]
    ∃ m first, start ⟨.standard, none⟩ 1 1 (some output) = .ok (m, first) ∧
      (first ++ m.signals calls).count .passed = 1 ∧
      ∃ r, (m.after calls).report = some r ∧
        requests (first ++ m.signals calls) = [(sleepDelay r.speed, "sleep")] := by
  intro output calls
  have h : start ⟨.standard, none⟩ 1 1 (some output) = .ok (_, _) := rfl
  obtain ⟨-, hpasses, hasked, -⟩ := start_protocol h calls
  refine ⟨_, _, h, hpasses.trans (if_pos ?_), hasked ⟨calls.take 2, calls.take_prefix 2, ?_⟩⟩
  · decide +kernel
  · decide +kernel

end

end Monitor

end Motewatch
