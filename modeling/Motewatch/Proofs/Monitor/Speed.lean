import Motewatch.Proofs.Monitor.Calls
import Motewatch.Proofs.Tally.Speed

/-!
# The speeds that a monitor asks for

A monitor asks for the speed of its run when it begins, and for at most one other speed after that.
Which event makes it ask is for the tally to say; that it is asked for once, and that the tally has
the speed that was asked for last, holds whatever the monitor is called with.

## Main results

* `Monitor.Reply.paced` — every call keeps the invariant of the tally.
* `Monitor.start_speeds` — the speed of a run, event by event, and the speeds that are asked for.
-/

namespace Motewatch

namespace Monitor
variable {m : Monitor} {c : Call} {rules : Rules} {total : Nat} {speed : Float}
variable {output : Option Output} {first : List Signal} {inForce : List Float}

theorem Reply.rules_eq {t : Turn} (hreply : Reply m c t) : t.monitor.rules = m.rules := by
  cases hreply with
  | ignored => rfl
  | unlogged => simp
  | late => simp
  | counted => simp
  | endedUnwritten => simp
  | ended => simp
  | overdue => rfl
  | closedUnwritten => simp
  | closed => simp
  | passed => rfl

/-- **Every call keeps the invariant of the tally.** Of its signals, those that ask for a speed are
those of the event that it takes in. -/
theorem Reply.paced {t : Turn} (hreply : Reply m c t)
    (h : Tally.Paced m.rules.speedChange speed m.tally inForce) :
    Tally.Paced m.rules.speedChange speed t.monitor.tally (inForce ++ speeds t.signals) := by
  cases hreply with
  | ignored => simpa using h
  | unlogged => simpa using h
  | late => simpa using h
  | counted _ _ hr => exact Rules.paced_record h hr
  | endedUnwritten _ _ hr hreport =>
      have hpaced := Rules.paced_record h hr
      rw [(Rules.report_record hr hreport).2] at hpaced
      simpa using hpaced
  | ended _ _ hr hreport =>
      have hpaced := Rules.paced_record h hr
      rw [(Rules.report_record hr hreport).2] at hpaced
      simpa using hpaced
  | overdue => simpa using h
  | closedUnwritten => simpa using h.close
  | closed => simpa using h.close
  | passed => simpa using h

/-- The invariant holds from the start, whatever calls come. -/
theorem paced_after (h : start rules total speed output = .ok (m, first)) (calls : List Call) :
    (m.after calls).rules = rules ∧
      Tally.Paced rules.speedChange speed (m.after calls).tally
        (speeds (first ++ m.signals calls)) := by
  induction calls using List.reverseRecOn with
  | nil =>
      obtain ⟨t, ht, rfl, rfl⟩ := start_eq_ok h
      exact ⟨rfl, Tally.Paced.of_start ht⟩
  | append_singleton calls c ih =>
      obtain ⟨hrules, hpaced⟩ := ih
      have hreply := reply_answer (m.after calls) c
      have hnext := hreply.paced (hrules ▸ hpaced)
      rw [after_snoc, signals_snoc, ← List.append_assoc, speeds_append]
      exact ⟨hreply.rules_eq.trans hrules, hrules ▸ hnext⟩

/-- **The speed of a run.** Events are taken in as long as the run goes on. If there is one among
them that calls for the change of speed, then with the first such event, and with no other, the
tally asks for the new speed and for nothing else, and has it from then on; before that, and if
there is no such event or no change is wanted, it has the speed with which the run began. A report
tells the speed that the tally has. So a monitor asks for one speed or for two, and its tally has
the one that was asked for last, whatever calls come and whether or not its files can be
written. -/
theorem start_speeds (rules : Rules) (htotal : 1 ≤ total) (hspeed : isSpeed speed = true) :
    (∃ start, Tally.start total speed = .ok start ∧ ∀ events : List Event,
      let consumed := rules.markers.consumed total events
      let turn? := rules.turn? total consumed
      let tally i := rules.advanceAll start (events.take i)
      (∀ i (hi : i < events.length),
        (∃ r, rules.record (tally i) events[i] = .ok r) ↔ i < consumed.length) ∧
      (∀ i ≤ consumed.length, (tally i).total = total ∧
        (tally i).firstSchedule.isSome = (consumed.take i).any rules.markers.schedules) ∧
      (rules.speedChange = none → turn? = none) ∧
      (∀ i (hi : i < events.length) r, rules.record (tally i) events[i] = .ok r →
        r.signals = match turn? with
          | none => []
          | some (j, c) => if i = j then [.speed c.speed] else []) ∧
      (∀ i, (tally i).speed = match turn? with
        | none => speed
        | some (j, c) => if i ≤ j then speed else c.speed) ∧
      ∀ i o r report, rules.perform (tally i) o = .ok r → r.report = some report →
        report.speed = (tally i).speed) ∧
    ∀ output, ∃ m first, start rules total speed output = .ok (m, first) ∧ ∀ calls,
      let asked := speeds (first ++ m.signals calls)
      (asked = [speed] ∨ ∃ c, rules.speedChange = some c ∧ asked = [speed, c.speed]) ∧
        asked.getLast? = some (m.after calls).tally.speed := by
  obtain ⟨start, hstart⟩ := Tally.exists_start_iff.2 ⟨htotal, hspeed⟩
  constructor
  · refine ⟨start, hstart, ?_⟩
    intro events consumed turn? tally
    refine ⟨?_, ?_, ?_, ?_, ?_, ?_⟩
    · intro i hi
      exact (Rules.record_advanceAll_take hstart hi).1
    · intro i hi
      refine ⟨?_, ?_⟩
      · rw [Rules.total_advanceAll, (Tally.isNew_of_start hstart).total_eq]
      · have hrun : ∀ j < consumed.length, ¬rules.markers.covers total (consumed.take j) :=
          fun j hj => Markers.not_covers_take_consumed hj
        have hknown := Rules.known_advanceAll_take hstart hrun i
        rw [Rules.take_consumed hi] at hknown ⊢
        exact hknown
    · intro hnone
      rw [Rules.turn?_eq_none_iff, hnone]
      intro c hc
      contradiction
    · intro i hi r hr
      exact Rules.signals_record_consumed hstart hi hr
    · intro i
      exact Rules.speed_advanceAll_consumed hstart events i
    · intro i o r report
      exact Rules.speed_perform
  · intro output
    have h : Monitor.start rules total speed output =
        .ok (⟨rules, start, output, none, .monitoring, none⟩, [.speed speed]) := by
      rw [Monitor.start, hstart]
      rfl
    refine ⟨_, _, h, ?_⟩
    intro calls
    obtain ⟨-, hpaced⟩ := paced_after h calls
    exact ⟨hpaced.eq_or, hpaced.getLast?_eq⟩

/-- A network of two nodes is settled when it has one link. The first report of one link comes from
a node that is none of the run, but it counts; the second one changes nothing any more. -/
theorem start_speeds_two_nodes :
    let change : SpeedChange := ⟨4, .linkCount⟩
    let rules : Rules := ⟨.standard, some change⟩
    let events : List Event := [
      ⟨⟨1⟩, .ofMicros 1, "Graph n_links: 2"⟩,
      ⟨⟨3⟩, .ofMicros 2, "Graph n_links: 01 of 1"⟩,
      ⟨⟨2⟩, .ofMicros 3, "Graph n_links: 1"⟩]
    1 ≤ 2 ∧ isSpeed 1 = true ∧ rules.turn? 2 events = some (1, change) ∧
      (∃ start r, Tally.start 2 1 = .ok start ∧
        (rules.advanceAll start (events.take 1)).speed = 1 ∧
        rules.record (rules.advanceAll start (events.take 1)) events[1] = .ok r ∧
        r.signals = [.speed 4] ∧ (rules.advanceAll start events).speed = 4) ∧
      ∃ m first, start rules 2 1 none = .ok (m, first) ∧
        (speeds (first ++ m.signals (events.map .event))).getLast? =
          some (m.after (events.map .event)).tally.speed := by
  intro change rules events
  have hconsumed : rules.markers.consumed 2 events = events := by decide +kernel
  have hturn : rules.turn? 2 events = some (1, change) := by decide +kernel
  obtain ⟨⟨start, hstart, hrun⟩, hmonitor⟩ :=
    start_speeds rules (show 1 ≤ 2 by decide) (show isSpeed 1 = true by decide)
  obtain ⟨htaken, -, -, hsignals, hspeeds, -⟩ := hrun events
  rw [hconsumed] at htaken hsignals hspeeds
  rw [hturn] at hsignals hspeeds
  obtain ⟨r, hr⟩ := (htaken 1 (by decide)).2 (by decide)
  obtain ⟨m, first, h, hcalls⟩ := hmonitor none
  exact ⟨by decide, by decide, hturn,
    ⟨start, r, hstart, hspeeds 1, hr, hsignals 1 _ r hr, hspeeds 3⟩, m, first, h, (hcalls _).2⟩

end Monitor

end Motewatch
