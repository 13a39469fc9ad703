import Motewatch.Proofs.Tally.Links
import Motewatch.Proofs.Tally.Operations

/-!
# The speed of a tally

A run begins at one speed, and may change to another one when the topology of its network has
settled. A tally remembers whether it has asked for the change, so that it asks only once. Here it
is said without that memory which event makes it ask: the first one of the run that tells of a
change of the topology and meets the trigger.

## Main definitions

* `speeds` — the speeds that signals ask for.
* `Tally.due?` — the change of speed that an event brings about.
* `Tally.Paced` — a tally has the speed that was asked for last, and has asked for one at most.
* `Rules.turn?` — the position among events of the one that brings the change about.

## Main results

* `Tally.take_of_due`, `Tally.take_of_not_due` — what an event does to the speed.
* `Tally.Paced.take` — every event keeps the invariant.
* `Rules.speedChanged_advanceAll_iff` — the change has been asked for if an event has called for it.
* `Rules.signals_record_advanceAll`, `Rules.speed_advanceAll_take` — what a tally asks for, and its
  speed, at every event of a run.
* `Rules.signals_record_consumed`, `Rules.speed_advanceAll_consumed` — the same at all events, those
  behind the end of the run included.
-/

namespace Motewatch

/-! ## The speeds that signals ask for -/

/-- The speed that a signal asks for. -/
def Signal.speed? : Signal → Option Float
  | .speed x => some x
  | _ => none

/-- The speeds that signals ask for. -/
def speeds (signals : List Signal) : List Float := signals.filterMap Signal.speed?

@[simp] theorem speeds_nil : speeds [] = [] := rfl

@[simp] theorem speeds_message (delay : Instant) (text : String) :
    speeds [.message delay text] = [] := rfl

@[simp] theorem speeds_passed : speeds [.passed] = [] := rfl

@[simp] theorem speeds_append (signals more : List Signal) :
    speeds (signals ++ more) = speeds signals ++ speeds more := by
  simp [speeds]

/-! ## Events that call for the change -/

/-- Whether an event meets the trigger in a run with so many nodes: it comes from the last node, or
it reports one link less than there are nodes. -/
def SpeedChange.isMetBy (c : SpeedChange) (total : Nat) (e : Event) : Bool :=
  match c.trigger with
  | .lastNode => e.node.number == total
  | .linkCount => (linkCount? e.message).any (· + 1 == total)

/-- Whether an event behind others calls for the change: it tells of the topology, with the schedule
updates known that came before it, and meets the trigger. -/
def SpeedChange.isCalledBy (c : SpeedChange) (m : Markers) (total : Nat) (before : List Event)
    (e : Event) : Bool :=
  m.classify e.message (before.any m.schedules) = .topology && c.isMetBy total e

/-- Whether the event at a position calls for the change. -/
def SpeedChange.isCalledAt (c : SpeedChange) (m : Markers) (total : Nat) (events : List Event)
    (i : Nat) : Bool :=
  events[i]?.any (c.isCalledBy m total (events.take i))

/-- The position of the event that brings the change about, with the change: it is the first one
that calls for it. -/
def Rules.turn? (rules : Rules) (total : Nat) (events : List Event) :
    Option (Nat × SpeedChange) := do
  let c ← rules.speedChange
  let i ← (List.range events.length).find? (c.isCalledAt rules.markers total events)
  some (i, c)

theorem SpeedChange.isCalledAt_of_lt {c : SpeedChange} {m : Markers} {total : Nat}
    {events : List Event} {i : Nat} (hi : i < events.length) :
    c.isCalledAt m total events i = c.isCalledBy m total (events.take i) events[i] := by
  rw [isCalledAt, List.getElem?_eq_getElem hi, Option.any_some]

theorem Rules.turn?_eq_some_iff {rules : Rules} {total i : Nat} {events : List Event}
    {c : SpeedChange} :
    rules.turn? total events = some (i, c) ↔ rules.speedChange = some c ∧ i < events.length ∧
      c.isCalledAt rules.markers total events i = true ∧
      ∀ j < i, c.isCalledAt rules.markers total events j = false := by
  cases hchange : rules.speedChange with
  | none => simp [turn?, hchange]
  | some c' =>
    simp only [turn?, hchange, Option.bind_eq_bind, Option.bind_some, Option.bind_eq_some_iff,
      List.find?_range_eq_some, Option.some.injEq, Prod.mk.injEq, Bool.not_eq_true',
      List.mem_range]
    constructor
    · rintro ⟨j, ⟨hcall, hlt, hbefore⟩, rfl, rfl⟩
      exact ⟨rfl, hlt, hcall, hbefore⟩
    · rintro ⟨rfl, hlt, hcall, hbefore⟩
      exact ⟨i, ⟨hcall, hlt, hbefore⟩, rfl, rfl⟩

theorem Rules.turn?_eq_none_iff {rules : Rules} {total : Nat} {events : List Event} :
    rules.turn? total events = none ↔ ∀ c, rules.speedChange = some c →
      ∀ i < events.length, c.isCalledAt rules.markers total events i = false := by
  cases hchange : rules.speedChange with
  | none => simp [turn?, hchange]
  | some c =>
    have hiff := List.find?_range_eq_none (n := events.length)
      (p := c.isCalledAt rules.markers total events)
    cases hfind : (List.range events.length).find? (c.isCalledAt rules.markers total events) with
    | none => simpa [turn?, hchange, hfind] using hiff.1 hfind
    | some i =>
      have hsome := List.find?_range_eq_some.1 hfind
      simp only [turn?, hchange, hfind, Option.bind_eq_bind, Option.bind_some, reduceCtorEq,
        Option.some.injEq, forall_eq', false_iff]
      intro hnone
      have hcall := hnone i (List.mem_range.1 hsome.2.1)
      rw [hsome.1] at hcall
      contradiction

/-! ## What an event does to the speed -/

namespace Tally
variable {t : Tally} {e : Event} {change? : Option SpeedChange} {k : Kind} {c : SpeedChange}

theorem triggers_eq (h : 1 ≤ t.total) (c : SpeedChange) (e : Event) :
    t.triggers c e = c.isMetBy t.total e := by
  rw [triggers, SpeedChange.isMetBy]
  cases c.trigger with
  | lastNode => rfl
  | linkCount =>
    cases hcount : linkCount? e.message with
    | none => rfl
    | some n =>
      have hiff : n = t.total - 1 ↔ n + 1 = t.total := by omega
      simp [Bool.beq_eq_decide_eq, hiff]

/-- The change of speed that an event brings about, if it does. -/
def due? (t : Tally) (change? : Option SpeedChange) (e : Event) (k : Kind) : Option SpeedChange :=
  if k = .topology ∧ t.speedChanged = false then change?.filter (t.triggers · e) else none

theorem due?_eq_some_iff :
    t.due? change? e k = some c ↔ change? = some c ∧ k = .topology ∧ t.speedChanged = false ∧
      t.triggers c e = true := by
  rw [due?]
  by_cases hk : k = .topology ∧ t.speedChanged = false
  · rw [if_pos hk, Option.filter_eq_some_iff]
    simp [hk]
  · rw [if_neg hk]
    simp only [reduceCtorEq, false_iff]
    rintro ⟨-, hkind, hunchanged, -⟩
    exact hk ⟨hkind, hunchanged⟩

/-- The event that brings the change about asks for it, and the tally keeps in mind that it has. -/
theorem take_of_due (h : t.due? change? e k = some c) :
    (t.take change? e k).tally.speed = c.speed ∧
      (t.take change? e k).tally.speedChanged = true ∧
      (t.take change? e k).signals = [.speed c.speed] := by
  obtain ⟨rfl, rfl, hunchanged, htrigger⟩ := due?_eq_some_iff.1 h
  simp [take, changeTopology, hunchanged, htrigger]

/-- All that is neither a completion nor a change of the topology only changes what is known of the
schedule and of the nodes. -/
theorem exists_take_eq_quiet (t : Tally) (change? : Option SpeedChange) (e : Event)
    (hcompletion : k ≠ .completion) (htopology : k ≠ .topology) :
    ∃ first nodes, t.take change? e k =
      .quiet { t with firstSchedule := first, nodes := nodes } := by
  cases k with
  | completion => contradiction
  | topology => contradiction
  | receive =>
      obtain ⟨nodes, heq⟩ := exists_updateNode_eq t e.node _
      exact ⟨t.firstSchedule, nodes, congrArg Recorded.quiet heq⟩
  | transmit =>
      obtain ⟨nodes, heq⟩ := exists_updateNode_eq t e.node _
      exact ⟨t.firstSchedule, nodes, congrArg Recorded.quiet heq⟩
  | timeout =>
      obtain ⟨nodes, heq⟩ := exists_updateNode_eq t e.node _
      exact ⟨t.firstSchedule, nodes, congrArg Recorded.quiet heq⟩
  | neighborLink =>
      obtain ⟨nodes, heq⟩ := exists_reportLink_eq t e
      exact ⟨t.firstSchedule, nodes, congrArg Recorded.quiet heq⟩
  | scheduleUpdate => exact ⟨some e.time, t.nodes, rfl⟩
  | unmatched => exact ⟨t.firstSchedule, t.nodes, rfl⟩

theorem signals_complete (t : Tally) (e : Event) : (t.complete e).signals = [] := by
  simp only [complete, Recorded.quiet]
  (repeat' split) <;> rfl

/-- Every other event leaves the speed as it is, and asks for nothing. -/
theorem take_of_not_due (h : t.due? change? e k = none) :
    (t.take change? e k).tally.speed = t.speed ∧
      (t.take change? e k).tally.speedChanged = t.speedChanged ∧
      (t.take change? e k).signals = [] := by
  by_cases hcompletion : k = .completion
  · subst hcompletion
    obtain ⟨_, _, heq⟩ := exists_complete_eq t e
    rw [take, heq]
    exact ⟨rfl, rfl, signals_complete t e⟩
  · by_cases htopology : k = .topology
    · subst htopology
      cases change? with
      | none => exact ⟨rfl, rfl, rfl⟩
      | some c =>
        have hnot : ¬(!t.speedChanged && t.triggers c e) = true := by
          intro hdue
          simp only [Bool.and_eq_true, Bool.not_eq_true'] at hdue
          rw [due?_eq_some_iff.2 ⟨rfl, rfl, hdue.1, hdue.2⟩] at h
          contradiction
        rw [take, changeTopology, if_neg hnot]
        exact ⟨rfl, rfl, rfl⟩
    · obtain ⟨_, _, heq⟩ := exists_take_eq_quiet t change? e hcompletion htopology
      rw [heq]
      exact ⟨rfl, rfl, rfl⟩

/-- The change has been asked for after an event if it had been before, or with this event. -/
theorem speedChanged_take_iff :
    (t.take change? e k).tally.speedChanged = true ↔
      t.speedChanged = true ∨ ∃ c, t.due? change? e k = some c := by
  cases hdue : t.due? change? e k with
  | none => simp [(take_of_not_due hdue).2.1]
  | some c => simp [(take_of_due hdue).2.1]

/-! ## The invariant -/

/-- The speeds that have been in force from the first one on, with the speed of the tally as the
last of them: the change has not been asked for, or it has been once. -/
inductive Paced (change? : Option SpeedChange) (first : Float) (t : Tally) : List Float → Prop
  | unchanged (h : t.speedChanged = false) (hspeed : t.speed = first) :
      Paced change? first t [first]
  | changed {c : SpeedChange} (hc : change? = some c) (h : t.speedChanged = true)
      (hspeed : t.speed = c.speed) : Paced change? first t [first, c.speed]

namespace Paced
variable {first : Float} {inForce : List Float}

/-- A new tally has the speed of its run. -/
theorem of_start {total : Nat} (h : start total first = .ok t) : Paced change? first t [first] := by
  obtain ⟨hpos, hspeed⟩ := exists_start_iff.1 ⟨t, h⟩
  have hzero : total ≠ 0 := by omega
  rw [start, if_neg hzero, hspeed] at h
  obtain rfl := Except.ok.inj h
  exact .unchanged rfl rfl

/-- The invariant is about the speed only. -/
theorem congr {t' : Tally} (h : Paced change? first t inForce) (hspeed : t'.speed = t.speed)
    (hchanged : t'.speedChanged = t.speedChanged) : Paced change? first t' inForce := by
  cases h with
  | unchanged h hs => exact .unchanged (hchanged.trans h) (hspeed.trans hs)
  | changed hc h hs => exact .changed hc (hchanged.trans h) (hspeed.trans hs)

theorem tick (h : Paced change? first t inForce) : Paced change? first t.tick inForce :=
  h.congr rfl rfl

theorem close (h : Paced change? first t inForce) : Paced change? first t.close inForce :=
  h.congr rfl rfl

/-- **Every event keeps the invariant**, with the speed that it asks for if it asks for one. -/
theorem take (h : Paced change? first t inForce) (e : Event) (k : Kind) :
    Paced change? first (t.take change? e k).tally
      (inForce ++ speeds (t.take change? e k).signals) := by
  cases hdue : t.due? change? e k with
  | none =>
    obtain ⟨hspeed, hchanged, hsignals⟩ := take_of_not_due hdue
    rw [hsignals, speeds_nil, List.append_nil]
    exact h.congr hspeed hchanged
  | some c =>
    obtain ⟨hspeed, hchanged, hsignals⟩ := take_of_due hdue
    obtain ⟨hc, -, hunchanged, -⟩ := due?_eq_some_iff.1 hdue
    cases h with
    | unchanged =>
      rw [hsignals]
      exact .changed hc hchanged hspeed
    | changed _ h => simp [hunchanged] at h

theorem getLast?_eq (h : Paced change? first t inForce) : inForce.getLast? = some t.speed := by
  cases h with
  | unchanged _ hspeed => simp [hspeed]
  | changed _ _ hspeed => simp [hspeed]

theorem eq_or (h : Paced change? first t inForce) :
    inForce = [first] ∨ ∃ c, change? = some c ∧ inForce = [first, c.speed] := by
  cases h with
  | unchanged => exact .inl rfl
  | changed hc => exact .inr ⟨_, hc, rfl⟩

theorem speed_eq (h : Paced (some c) first t inForce) :
    t.speed = if t.speedChanged then c.speed else first := by
  cases h with
  | unchanged h hspeed => simp [h, hspeed]
  | changed hc h hspeed =>
    obtain rfl := Option.some.inj hc
    simp [h, hspeed]

theorem speed_eq_of_none (h : Paced none first t inForce) : t.speed = first := by
  cases h with
  | unchanged _ hspeed => exact hspeed
  | changed hc => contradiction

end Paced

end Tally

/-! ## The events of a run -/

namespace Rules
variable {rules : Rules} {total i : Nat} {speed : Float} {start : Tally} {events : List Event}
variable {c : SpeedChange}

/-- The events of a run are the first ones of all. -/
theorem take_consumed {m : Markers} (hi : i ≤ (m.consumed total events).length) :
    (m.consumed total events).take i = events.take i := by
  obtain ⟨k, -, hconsumed, -, -⟩ := m.exists_consumed_eq total events
  rw [hconsumed, List.length_take] at hi
  rw [hconsumed, List.take_take, Nat.min_eq_left (by omega)]

theorem getElem_consumed {m : Markers} (hi : i < (m.consumed total events).length)
    (hlt : i < events.length) : (m.consumed total events)[i] = events[i] := by
  obtain ⟨k, -, hconsumed, -, -⟩ := m.exists_consumed_eq total events
  simp only [hconsumed, List.getElem_take]

/-- What comes behind the events of a run changes nothing. -/
theorem advanceAll_take_of_le (h : Tally.start total speed = .ok start)
    (hle : (rules.markers.consumed total events).length ≤ i) :
    rules.advanceAll start (events.take i) =
      rules.advanceAll start (rules.markers.consumed total events) := by
  obtain ⟨k, hk, hconsumed, -, hall⟩ := rules.markers.exists_consumed_eq total events
  have hlength : (events.take k).length = k := List.length_take_of_le hk
  rw [hconsumed, hlength] at hle
  by_cases hend : k < events.length
  · have hover : (rules.advanceAll start (events.take k)).isSealed = true :=
      (hconsumed ▸ summarizes_consumed rules h events).2.2 (hall hend)
    have hsplit : events.take i = events.take k ++ (events.take i).drop k := by
      conv_lhs => rw [← List.take_append_drop k (events.take i)]
      rw [List.take_take, Nat.min_eq_left hle]
    rw [hconsumed, hsplit, advanceAll_append, advanceAll_of_sealed rules hover]
  · have hki : k = events.length := by omega
    rw [hconsumed, List.take_of_length_le (by omega), List.take_of_length_le (by omega)]

/-- The number of nodes stays as it is. -/
theorem total_advanceAll (rules : Rules) (t : Tally) (events : List Event) :
    (rules.advanceAll t events).total = t.total := by
  induction events generalizing t with
  | nil => rfl
  | cons e rest ih =>
      rw [advanceAll_cons, ih]
      cases hs : t.isSealed with
      | true => rw [advance_of_sealed rules e hs]
      | false =>
        rw [advance_of_record (record_of_open rules e hs), Tally.take_total, Tally.total_tick]

/-! ## The event that brings the change about -/

theorem paced_record {r : Recorded} {t : Tally} {e : Event} {first : Float} {inForce : List Float}
    (hpaced : Tally.Paced rules.speedChange first t inForce) (hr : rules.record t e = .ok r) :
    Tally.Paced rules.speedChange first r.tally (inForce ++ speeds r.signals) := by
  rw [record_eq_ok hr]
  exact hpaced.tick.take e _

/-- The invariant holds from the start, whatever events come. -/
theorem exists_paced_advanceAll (h : Tally.start total speed = .ok start) (events : List Event) :
    ∃ inForce, Tally.Paced rules.speedChange speed (rules.advanceAll start events) inForce := by
  induction events using List.reverseRecOn with
  | nil => exact ⟨_, Tally.Paced.of_start h⟩
  | append_singleton events e ih =>
      obtain ⟨inForce, hpaced⟩ := ih
      rw [advanceAll_append, advanceAll_cons, advanceAll_nil]
      cases hs : (rules.advanceAll start events).isSealed with
      | true =>
        rw [advance_of_sealed rules e hs]
        exact ⟨inForce, hpaced⟩
      | false =>
        have hr := record_of_open rules e hs
        rw [advance_of_record hr]
        exact ⟨_, paced_record hpaced hr⟩

/-- The change of speed that an event brings about. -/
def due? (rules : Rules) (t : Tally) (e : Event) : Option SpeedChange :=
  t.tick.due? rules.speedChange e (rules.kindFor t e)

/-- The events in front of some of a run do not end it either. -/
theorem not_covers_take_take {j : Nat}
    (hrun : ∀ j < events.length, ¬rules.markers.covers total (events.take j))
    (hj : min j i < events.length) : ¬rules.markers.covers total ((events.take i).take j) := by
  rw [List.take_take]
  exact hrun _ hj

section
variable (h : Tally.start total speed = .ok start)
variable (hrun : ∀ j < events.length, ¬rules.markers.covers total (events.take j))
include h hrun

/-- The schedule updates that a tally knows of are those among the events. -/
theorem known_advanceAll_take (i : Nat) :
    (rules.advanceAll start (events.take i)).firstSchedule.isSome =
      (events.take i).any rules.markers.schedules := by
  refine (summarizes_advanceAll h fun j hj => not_covers_take_take hrun ?_).1.known_eq
  rw [List.length_take] at hj
  omega

/-- While events of the run are to come, the tally is open. -/
theorem isOpen_advanceAll_take (hi : i < events.length) :
    (rules.advanceAll start (events.take i)).isSealed = false := by
  refine isOpen_advanceAll h fun j hj => not_covers_take_take hrun ?_
  omega

/-- An event brings the change about if it calls for it and the change has not been asked for. -/
theorem due?_eq_some_iff (hi : i < events.length) :
    rules.due? (rules.advanceAll start (events.take i)) events[i] = some c ↔
      rules.speedChange = some c ∧
        (rules.advanceAll start (events.take i)).speedChanged = false ∧
        c.isCalledAt rules.markers total events i = true := by
  have htotal : (rules.advanceAll start (events.take i)).tick.total = total := by
    rw [Tally.total_tick, total_advanceAll, (Tally.isNew_of_start h).total_eq]
  have hpos : 1 ≤ (rules.advanceAll start (events.take i)).tick.total := by
    rw [htotal]
    exact Tally.one_le_of_start h
  rw [due?, Tally.due?_eq_some_iff, Tally.triggers_eq hpos, htotal, kindFor,
    known_advanceAll_take h hrun i, SpeedChange.isCalledAt_of_lt hi,
    SpeedChange.isCalledBy, Bool.and_eq_true, decide_eq_true_eq]
  constructor
  · rintro ⟨hc, hkind, hunchanged, hmet⟩
    exact ⟨hc, hunchanged, hkind, hmet⟩
  · rintro ⟨hc, hunchanged, hkind, hmet⟩
    exact ⟨hc, hkind, hunchanged, hmet⟩

/-- **The change has been asked for exactly if an event has called for it.** -/
theorem speedChanged_advanceAll_iff (hc : rules.speedChange = some c) (hi : i ≤ events.length) :
    (rules.advanceAll start (events.take i)).speedChanged = true ↔
      ∃ j < i, c.isCalledAt rules.markers total events j = true := by
  induction i with
  | zero =>
      have hpaced : Tally.Paced rules.speedChange speed start [speed] := .of_start h
      cases hpaced with
      | unchanged hunchanged => simp [hunchanged]
  | succ i ih =>
      have hlt : i < events.length := hi
      have hopen := isOpen_advanceAll_take h hrun hlt
      rw [List.take_succ_eq_append_getElem hlt, advanceAll_append, advanceAll_cons, advanceAll_nil,
        advance_of_record (record_of_open rules _ hopen), Tally.speedChanged_take_iff,
        Nat.exists_lt_succ_right, ← ih (Nat.le_of_lt hlt)]
      constructor
      · rintro (hbefore | ⟨c', hdue⟩)
        · exact .inl hbefore
        · obtain ⟨hc', -, hcall⟩ := (due?_eq_some_iff h hrun hlt).1 hdue
          obtain rfl := Option.some.inj (hc.symm.trans hc')
          exact .inr hcall
      · rintro (hbefore | hcall)
        · exact .inl hbefore
        · by_cases hbefore : (rules.advanceAll start (events.take i)).speedChanged = true
          · exact .inl hbefore
          · have hunchanged := eq_false_of_ne_true hbefore
            exact .inr ⟨c, (due?_eq_some_iff h hrun hlt).2 ⟨hc, hunchanged, hcall⟩⟩

/-- The event that brings the change about is the first one that calls for it. -/
theorem due?_eq_some_iff_turn (hi : i < events.length) :
    rules.due? (rules.advanceAll start (events.take i)) events[i] = some c ↔
      rules.turn? total events = some (i, c) := by
  rw [due?_eq_some_iff h hrun hi, turn?_eq_some_iff]
  constructor
  · rintro ⟨hc, hunchanged, hcall⟩
    refine ⟨hc, hi, hcall, ?_⟩
    intro j hj
    by_contra hearlier
    have hasked := (speedChanged_advanceAll_iff h hrun hc (Nat.le_of_lt hi)).2
      ⟨j, hj, eq_true_of_ne_false hearlier⟩
    rw [hunchanged] at hasked
    contradiction
  · rintro ⟨hc, -, hcall, hbefore⟩
    refine ⟨hc, ?_, hcall⟩
    by_contra hasked
    obtain ⟨j, hj, hearlier⟩ := (speedChanged_advanceAll_iff h hrun hc (Nat.le_of_lt hi)).1
      (eq_true_of_ne_false hasked)
    rw [hbefore j hj] at hearlier
    contradiction

/-- **What a tally asks for with an event**: the change, if it is the event that brings it about,
and else nothing. -/
theorem signals_record_advanceAll {r : Recorded} (hi : i < events.length)
    (hr : rules.record (rules.advanceAll start (events.take i)) events[i] = .ok r) :
    r.signals = match rules.turn? total events with
      | none => []
      | some (j, c) => if i = j then [.speed c.speed] else [] := by
  have hturn := fun c => due?_eq_some_iff_turn (c := c) h hrun hi
  rw [record_eq_ok hr]
  cases hdue : rules.due? (rules.advanceAll start (events.take i)) events[i] with
  | some c =>
    rw [(Tally.take_of_due hdue).2.2, (hturn c).1 hdue]
    simp
  | none =>
    rw [(Tally.take_of_not_due hdue).2.2]
    split
    · rfl
    · rename_i j c hsome
      by_cases hij : i = j
      · subst hij
        rw [(hturn c).2 hsome] at hdue
        contradiction
      · rw [if_neg hij]

/-- **The speed of a tally**: the first one up to the event that brings the change about, and the
other one from this event on. -/
theorem speed_advanceAll_take (hi : i ≤ events.length) :
    (rules.advanceAll start (events.take i)).speed = match rules.turn? total events with
      | none => speed
      | some (j, c) => if i ≤ j then speed else c.speed := by
  obtain ⟨inForce, hpaced⟩ : ∃ inForce, Tally.Paced rules.speedChange speed
      (rules.advanceAll start (events.take i)) inForce := exists_paced_advanceAll h _
  cases hc : rules.speedChange with
  | none =>
    rw [hc] at hpaced
    have hnone : rules.turn? total events = none := by
      rw [turn?_eq_none_iff, hc]
      intro c hsome
      contradiction
    rw [hnone]
    exact hpaced.speed_eq_of_none
  | some c =>
    have hasked := speedChanged_advanceAll_iff h hrun hc hi
    rw [hc] at hpaced
    rw [hpaced.speed_eq]
    cases hturn : rules.turn? total events with
    | none =>
      have hnot : ¬(rules.advanceAll start (events.take i)).speedChanged = true := by
        intro hchanged
        obtain ⟨j, hj, hcall⟩ := hasked.1 hchanged
        rw [turn?_eq_none_iff.1 hturn c hc j (by omega)] at hcall
        contradiction
      rw [if_neg hnot]
    | some turn =>
      obtain ⟨j, c'⟩ := turn
      obtain ⟨hc', -, hcall, hbefore⟩ := turn?_eq_some_iff.1 hturn
      obtain rfl := Option.some.inj (hc.symm.trans hc')
      have hiff : (rules.advanceAll start (events.take i)).speedChanged = true ↔ ¬i ≤ j := by
        rw [hasked]
        constructor
        · rintro ⟨j', hj', hcall'⟩ hij
          rw [hbefore j' (by omega)] at hcall'
          contradiction
        · intro hij
          exact ⟨j, by omega, hcall⟩
      by_cases hij : i ≤ j <;> simp [hiff, hij]

end

/-! ## All events -/

section
variable (h : Tally.start total speed = .ok start)
include h

/-- What a tally asks for with an event that it takes in, among all events that there are. -/
theorem signals_record_consumed {r : Recorded} (hi : i < events.length)
    (hr : rules.record (rules.advanceAll start (events.take i)) events[i] = .ok r) :
    r.signals = match rules.turn? total (rules.markers.consumed total events) with
      | none => []
      | some (j, c) => if i = j then [.speed c.speed] else [] := by
  have hlt : i < (rules.markers.consumed total events).length :=
    (record_advanceAll_take h hi).1.1 ⟨r, hr⟩
  rw [← take_consumed (Nat.le_of_lt hlt), ← getElem_consumed hlt hi] at hr
  exact signals_record_advanceAll h (fun j hj => Markers.not_covers_take_consumed hj) hlt hr

/-- The speed of a tally, at any time: what comes behind the run does not change it. -/
theorem speed_advanceAll_consumed (events : List Event) (i : Nat) :
    (rules.advanceAll start (events.take i)).speed =
      match rules.turn? total (rules.markers.consumed total events) with
      | none => speed
      | some (j, c) => if i ≤ j then speed else c.speed := by
  have hrun : ∀ j < (rules.markers.consumed total events).length,
      ¬rules.markers.covers total ((rules.markers.consumed total events).take j) :=
    fun j hj => Markers.not_covers_take_consumed hj
  by_cases hi : i ≤ (rules.markers.consumed total events).length
  · rw [← take_consumed hi]
    exact speed_advanceAll_take h hrun hi
  · have hend := speed_advanceAll_take h hrun (Nat.le_refl _)
    rw [List.take_length] at hend
    rw [advanceAll_take_of_le h (Nat.le_of_not_le hi), hend]
    cases hturn : rules.turn? total (rules.markers.consumed total events) with
    | none => rfl
    | some turn =>
      obtain ⟨j, c⟩ := turn
      have hj : j < (rules.markers.consumed total events).length :=
        (turn?_eq_some_iff.1 hturn).2.1
      have hend : ¬(rules.markers.consumed total events).length ≤ j := by omega
      have hafter : ¬i ≤ j := by omega
      simp only [if_neg hend, if_neg hafter]

end

/-- A report tells the speed that the tally has when it is asked for it. -/
theorem speed_perform {t : Tally} {o : Operation} {r : Recorded} {report : Report}
    (hr : rules.perform t o = .ok r) (hreport : r.report = some report) :
    report.speed = t.speed := by
  obtain ⟨-, ⟨e, -, rfl⟩ | ⟨now, -, -, rfl⟩ | ⟨now, -, rfl⟩⟩ := perform_eq_ok hr
  · have hkind := (Tally.take_report_isSome.1 (congrArg Option.isSome hreport)).1
    have hdue : t.tick.due? rules.speedChange e (rules.kindFor t e) = none := by
      rw [hkind]
      exact if_neg (by simp)
    rw [(Tally.take_report hreport).1, Tally.report, (Tally.take_of_not_due hdue).1]
    rfl
  · obtain rfl := Option.some.inj hreport
    rfl
  · obtain rfl := Option.some.inj hreport
    rfl

end Rules

end Motewatch
