import Mathlib.Data.List.Induction
import Motewatch.Proofs.Tally.Steps

/-!
# What a tally says of its events

A tally is kept event by event, and the kind of an event depends on whether a schedule update has
come before. Here it is said without any state what a tally holds: which events it has taken in,
which nodes have completed, when the schedule was first updated, and what each node has counted.

The events of a run are those up to the first one with which all nodes have completed. One of them is
set apart: the first schedule update counts for nothing else.

## Main definitions

* `Markers.completes`, `Markers.schedules`, `Markers.receives`, `Markers.transmits`,
  `Markers.expires` — what the message of an event tells, whatever came before it.
* `Markers.consumed` — the events of a run.
* `Tally.Summarizes` — a tally holds what events tell.

## Main results

* `Tally.Summarizes.take` — an event that is taken in is summarized with those before it.
* `Rules.advanceAll_statistics` — what the tally of a run holds, and when the run ends.
-/

namespace Motewatch

/-! ## What a message tells -/

namespace Markers
variable {m : Markers} {e : Event} {known : Bool}

/-- The event tells that its node has completed. -/
def completes (m : Markers) (e : Event) : Bool := Text.contains e.message m.completion

/-- The event is a schedule update, be it the first one or not. -/
def schedules (m : Markers) (e : Event) : Bool :=
  Text.contains e.message m.scheduleUpdate && !m.completes e

/-- The event tells that its node has received something. -/
def receives (m : Markers) (e : Event) : Bool :=
  Text.contains e.message m.receive && !m.completes e

/-- The event tells that its node has sent something. -/
def transmits (m : Markers) (e : Event) : Bool :=
  Text.contains e.message m.transmit && !Text.contains e.message m.receive && !m.completes e

/-- The event tells that a timer of its node has run out. -/
def expires (m : Markers) (e : Event) : Bool :=
  Text.contains e.message m.timeout && !Text.contains e.message m.transmit &&
    !Text.contains e.message m.receive && !m.completes e

theorem classify_eq_completion_iff :
    m.classify e.message known = .completion ↔ m.completes e = true := by
  grind [classify, completes]

/-- Only the first schedule update counts as one. -/
theorem classify_eq_scheduleUpdate_iff :
    m.classify e.message known = .scheduleUpdate ↔ known = false ∧ m.schedules e = true := by
  grind [classify, completes, schedules]

theorem classify_eq_receive_iff :
    m.classify e.message known = .receive ↔
      m.receives e = true ∧ ¬(known = false ∧ m.schedules e = true) := by
  grind [classify, completes, schedules, receives]

theorem classify_eq_transmit_iff :
    m.classify e.message known = .transmit ↔
      m.transmits e = true ∧ ¬(known = false ∧ m.schedules e = true) := by
  grind [classify, completes, schedules, transmits]

theorem classify_eq_timeout_iff :
    m.classify e.message known = .timeout ↔
      m.expires e = true ∧ ¬(known = false ∧ m.schedules e = true) := by
  grind [classify, completes, schedules, expires]

/-! ## The events of a run -/

/-- Every node of a run has told that it has completed. -/
def covers (m : Markers) (total : Nat) (events : List Event) : Prop :=
  ∀ n ≤ total, 1 ≤ n → ∃ e ∈ events, e.node.number = n ∧ m.completes e = true

instance (m : Markers) (total : Nat) (events : List Event) : Decidable (m.covers total events) :=
  inferInstanceAs (Decidable (∀ n ≤ total, 1 ≤ n → ∃ e ∈ events, _))

/-- The events up to the first one with which all nodes have completed; all events if there is no
such event. -/
def consumed (m : Markers) (total : Nat) (events : List Event) : List Event :=
  events.take <| ((List.range events.length).find? fun k =>
    m.covers total (events.take k)).getD events.length

/-- The events of a run are a beginning of all events; with no shorter beginning have all nodes
completed, and if they have not with this one, then it is all events. -/
theorem exists_consumed_eq (m : Markers) (total : Nat) (events : List Event) :
    ∃ k ≤ events.length, m.consumed total events = events.take k ∧
      (∀ j < k, ¬m.covers total (events.take j)) ∧
      (k < events.length → m.covers total (events.take k)) := by
  rw [consumed]
  cases hfind : (List.range events.length).find? fun k => m.covers total (events.take k) with
  | none =>
    rw [List.find?_range_eq_none] at hfind
    refine ⟨events.length, Nat.le_refl _, rfl, ?_, fun h => absurd h (Nat.lt_irrefl _)⟩
    intro j hj
    simpa using hfind j hj
  | some k =>
    rw [List.find?_range_eq_some] at hfind
    obtain ⟨hcovers, hk, hbefore⟩ := hfind
    refine ⟨k, Nat.le_of_lt (List.mem_range.1 hk), rfl, ?_, fun _ => by simpa using hcovers⟩
    intro j hj
    simpa using hbefore j hj

/-- With no shorter beginning of the events of a run have all nodes completed. -/
theorem not_covers_take_consumed {j : Nat} (hj : j < (m.consumed total events).length) :
    ¬m.covers total ((m.consumed total events).take j) := by
  obtain ⟨k, -, hconsumed, hbefore, -⟩ := m.exists_consumed_eq total events
  rw [hconsumed, List.length_take] at hj
  have hjk : j < k := by omega
  rw [hconsumed, List.take_take, Nat.min_eq_left (Nat.le_of_lt hjk)]
  exact hbefore j hjk

theorem not_covers_nil (h : 1 ≤ total) : ¬m.covers total [] := by
  intro hcovers
  obtain ⟨e, he, -⟩ := hcovers 1 h (Nat.le_refl 1)
  simp at he

end Markers

/-! ## What a tally holds -/

namespace Tally
variable {rules : Rules} {total : Nat} {events : List Event} {t : Tally} {e : Event}

/-- The counts of a node are those that events give it. -/
structure Counts (m : Markers) (n : Nat) (events : List Event) (c : NodeTally) : Prop where
  received : c.received = events.countP fun e => e.node.number = n ∧ m.receives e
  transmitted : c.transmitted = events.countP fun e => e.node.number = n ∧ m.transmits e
  timeouts : c.timeouts = events.countP fun e => e.node.number = n ∧ m.expires e

/-- A tally of a run with so many nodes holds what events tell. The first schedule update among
them is left out of the counts. -/
structure Summarizes (m : Markers) (total : Nat) (events : List Event) (t : Tally) : Prop where
  total_eq : t.total = total
  increasing : t.completed.Pairwise (· < ·)
  completed : ∀ n, n ∈ t.completed ↔
    (1 ≤ n ∧ n ≤ total) ∧ ∃ e ∈ events, e.node.number = n ∧ m.completes e = true
  first : t.firstSchedule = (events.find? m.schedules).map (·.time)
  counts : ∀ n, 1 ≤ n → n ≤ total →
    ∃ c, t.node? ⟨n⟩ = some c ∧ Counts m n (events.eraseP m.schedules) c

/-- A new tally holds what no events tell. -/
theorem summarizes_start (m : Markers) {speed : Float} (h : start total speed = .ok t) :
    Summarizes m total [] t := by
  have hnew := isNew_of_start h
  refine ⟨hnew.total_eq, ?_, ?_, ?_, ?_⟩
  · simp [hnew.completed]
  · simp [hnew.completed]
  · simp [hnew.first]
  · intro n hn hle
    refine ⟨_, hnew.nodes n hn hle, ?_⟩
    constructor <;> simp [NodeTally.fresh]

section
variable {ns : List Nat} (h : ns.Pairwise (· < ·)) (hbounds : ∀ n ∈ ns, 1 ≤ n ∧ n ≤ total)
include h hbounds

/-- Numbers of nodes in increasing order, and those that are missing among them, are as many as there
are nodes. -/
theorem length_add_missing_of_increasing :
    ns.length + (List.range' 1 total).countP (· ∉ ns) = total := by
  have hperm : ((List.range' 1 total).filter (· ∈ ns)).Perm ns := by
    have hrange := (List.nodup_range' (s := 1) (n := total) 1).filter (· ∈ ns)
    refine (List.perm_ext_iff_of_nodup hrange (h.imp Nat.ne_of_lt)).2 fun n => ?_
    rw [List.mem_filter, List.mem_range'_1, decide_eq_true_iff]
    constructor
    · exact And.right
    · intro hn
      have := hbounds n hn
      exact ⟨by omega, hn⟩
  have hsplit := List.length_eq_countP_add_countP (· ∈ ns) (l := List.range' 1 total)
  rw [List.length_range', List.countP_eq_length_filter, hperm.length_eq] at hsplit
  simpa using hsplit.symm

/-- There are no more numbers of nodes in increasing order than there are nodes. -/
theorem length_le_of_increasing : ns.length ≤ total := by
  have := length_add_missing_of_increasing h hbounds
  omega

/-- Numbers of nodes in increasing order are as many as there are nodes exactly if none is
missing. -/
theorem length_eq_iff_of_increasing : ns.length = total ↔ ∀ n ≤ total, 1 ≤ n → n ∈ ns := by
  have hlength := length_add_missing_of_increasing h hbounds
  have hmissing : ns.length = total ↔ (List.range' 1 total).countP (· ∉ ns) = 0 := by omega
  rw [hmissing, List.countP_eq_zero]
  constructor
  · intro hnone n hle hn
    have hmem : n ∈ List.range' 1 total := List.mem_range'_1.2 ⟨hn, by omega⟩
    simpa using hnone n hmem
  · intro hall n hn
    obtain ⟨hn, hlt⟩ := List.mem_range'_1.1 hn
    simpa using hall n (by omega) hn

end

namespace Summarizes
variable (h : Summarizes rules.markers total events t)
include h

/-- All nodes have completed exactly if the tally knows as many as there are. -/
theorem length_completed_eq_iff :
    t.completed.length = total ↔ rules.markers.covers total events := by
  rw [length_eq_iff_of_increasing h.increasing fun n hn => ((h.completed n).1 hn).1]
  constructor
  · intro hall n hle hn
    exact ((h.completed n).1 (hall n hle hn)).2
  · intro hcovers n hle hn
    exact (h.completed n).2 ⟨⟨hn, hle⟩, hcovers n hle hn⟩

theorem has_iff {n : NodeId} : t.has n = true ↔ 1 ≤ n.number ∧ n.number ≤ total := by
  rw [Tally.has_iff, h.total_eq]

/-- A schedule update is known exactly if there is one among the events. -/
theorem known_eq : t.firstSchedule.isSome = events.any rules.markers.schedules := by
  rw [h.first, Option.isSome_map, Bool.eq_iff_iff, List.find?_isSome, List.any_eq_true]

end Summarizes

/-! ## One more event -/

/-- With one more event there is at most one more to count for a node. Nothing is counted for the
first schedule update. -/
theorem countP_eraseP_snoc (m : Markers) (q : Event → Bool) (n : Nat) (events : List Event)
    (e : Event) :
    ((events ++ [e]).eraseP m.schedules).countP (fun e => e.node.number = n ∧ q e) =
      (events.eraseP m.schedules).countP (fun e => e.node.number = n ∧ q e) +
        if (q e = true ∧ ¬(events.any m.schedules = false ∧ m.schedules e = true)) ∧
          e.node.number = n then 1 else 0 := by
  rw [List.eraseP_append]
  cases hany : events.any m.schedules
  · have hnone : events.eraseP m.schedules = events := by
      apply List.eraseP_of_forall_not
      intro x hx
      simpa using List.any_eq_false.1 hany x hx
    cases hs : m.schedules e <;> simp [hnone, hs, List.countP_singleton, and_comm]
  · simp [List.countP_append, List.countP_singleton, and_comm]

/-- What an event adds to the counts of a node is what it tells. -/
theorem Counts.snoc {m : Markers} {n : Nat} {c c' : NodeTally} {known : Bool}
    (hc : Counts m n (events.eraseP m.schedules) c)
    (hknown : known = events.any m.schedules)
    (hreceived : c'.received = c.received +
      if m.classify e.message known = .receive ∧ e.node = ⟨n⟩ then 1 else 0)
    (htransmitted : c'.transmitted = c.transmitted +
      if m.classify e.message known = .transmit ∧ e.node = ⟨n⟩ then 1 else 0)
    (htimeouts : c'.timeouts = c.timeouts +
      if m.classify e.message known = .timeout ∧ e.node = ⟨n⟩ then 1 else 0) :
    Counts m n ((events ++ [e]).eraseP m.schedules) c' := by
  have hnode : e.node = ⟨n⟩ ↔ e.node.number = n := by
    cases e.node
    simp
  subst hknown
  constructor
  · rw [hreceived, hc.received, countP_eraseP_snoc]
    simp only [Markers.classify_eq_receive_iff, hnode]
  · rw [htransmitted, hc.transmitted, countP_eraseP_snoc]
    simp only [Markers.classify_eq_transmit_iff, hnode]
  · rw [htimeouts, hc.timeouts, countP_eraseP_snoc]
    simp only [Markers.classify_eq_timeout_iff, hnode]

namespace Summarizes
variable (h : Summarizes rules.markers total events t)
include h

/-- An event that is taken in is summarized with those before it. -/
theorem take (e : Event) :
    Summarizes rules.markers total (events ++ [e])
      (t.tick.take rules.speedChange e (rules.kindFor t e)).tally := by
  have hknown := h.known_eq
  refine ⟨?_, ?_, ?_, ?_, ?_⟩
  · rw [take_total, total_tick, h.total_eq]
  · exact pairwise_completed_take h.increasing
  · intro n
    rw [mem_completed_take, completed_tick, h.completed, Rules.kindFor,
      Markers.classify_eq_completion_iff, has_tick, h.has_iff]
    simp only [List.mem_append, List.mem_singleton]
    constructor
    · rintro (⟨hn, x, hx, hxn⟩ | ⟨hc, hn, rfl⟩)
      · exact ⟨hn, x, Or.inl hx, hxn⟩
      · exact ⟨hn, e, Or.inr rfl, rfl, hc⟩
    · rintro ⟨hn, x, hx | rfl, hxn, hc⟩
      · exact Or.inl ⟨hn, x, hx, hxn, hc⟩
      · exact Or.inr ⟨hc, hxn ▸ hn, hxn.symm⟩
  · rw [take_firstSchedule, Rules.kindFor, List.find?_append]
    simp only [Markers.classify_eq_scheduleUpdate_iff, firstSchedule_tick, h.first,
      Option.isSome_map]
    cases hfind : events.find? rules.markers.schedules with
    | some x => simp
    | none => cases hs : rules.markers.schedules e <;> simp [hs]
  · intro n hn hle
    obtain ⟨c, hc, hcounts⟩ := h.counts n hn hle
    obtain ⟨f, hf, hfc⟩ := exists_node?_take t.tick rules.speedChange e (rules.kindFor t e) ⟨n⟩
    obtain ⟨-, hreceived, htransmitted, htimeouts⟩ := hfc c
    refine ⟨f c, ?_, hcounts.snoc hknown hreceived htransmitted htimeouts⟩
    rw [hf, node?_tick, hc, Option.map_some]

/-- The event with which all nodes have completed seals the tally. -/
theorem take_isSealed_iff (hopen : t.isSealed = false)
    (hrest : ¬rules.markers.covers total events) (e : Event) :
    (t.tick.take rules.speedChange e (rules.kindFor t e)).tally.isSealed = true ↔
      rules.markers.covers total (events ++ [e]) := by
  rw [take_isSealed (t := t.tick) hopen, take_report_isSome,
    ← (h.take e).length_completed_eq_iff, total_tick, h.total_eq, has_tick, completed_tick]
  refine ⟨fun hlast => hlast.2.2.2, fun hlength => ?_⟩
  have hcovers := (h.take e).length_completed_eq_iff.1 hlength
  -- The node that was missing before can only have completed with this event.
  obtain ⟨n, hle, hn, hmissing⟩ : ∃ n ≤ total, 1 ≤ n ∧ n ∉ t.completed := by
    by_contra hnone
    push Not at hnone
    exact hrest (h.length_completed_eq_iff.1
      ((length_eq_iff_of_increasing h.increasing fun n hn => ((h.completed n).1 hn).1).2 hnone))
  obtain ⟨x, hx, hxn, hxc⟩ := hcovers n hle hn
  have hnot : x ∉ events := fun hx => hmissing ((h.completed n).2 ⟨⟨hn, hle⟩, x, hx, hxn, hxc⟩)
  have hxe : x = e := by simpa [hnot] using hx
  subst hxe
  refine ⟨Markers.classify_eq_completion_iff.2 hxc, h.has_iff.2 ?_, ?_, hlength⟩
  · rw [hxn]
    exact ⟨hn, hle⟩
  · rwa [hxn]

end Summarizes

end Tally

/-! ## The tally of a run -/

namespace Rules
variable {rules : Rules} {total : Nat} {speed : Float} {start : Tally} {events : List Event}

/-- While nodes are missing, events are taken in and summarized; the event with which none is
missing any more seals the tally. -/
theorem summarizes_advanceAll (h : Tally.start total speed = .ok start)
    (hbefore : ∀ j < events.length, ¬rules.markers.covers total (events.take j)) :
    Tally.Summarizes rules.markers total events (rules.advanceAll start events) ∧
      ((rules.advanceAll start events).isSealed = true ↔ rules.markers.covers total events) := by
  induction events using List.reverseRecOn with
  | nil =>
      refine ⟨Tally.summarizes_start _ h, ?_⟩
      have hnone := Markers.not_covers_nil (m := rules.markers) (Tally.one_le_of_start h)
      simp [(Tally.isNew_of_start h).isOpen, hnone]
  | append_singleton events e ih =>
      have hbefore' : ∀ j ≤ events.length, ¬rules.markers.covers total (events.take j) := by
        intro j hj
        have := hbefore j (by simp; omega)
        rwa [List.take_append_of_le_length hj] at this
      obtain ⟨hsum, hsealed⟩ := ih fun j hj => hbefore' j (Nat.le_of_lt hj)
      have hrest : ¬rules.markers.covers total events := by
        simpa using hbefore' events.length (Nat.le_refl _)
      have hopen : (rules.advanceAll start events).isSealed = false := by
        simpa [hrest] using hsealed
      have hnext : rules.advanceAll start (events ++ [e]) =
          ((rules.advanceAll start events).tick.take rules.speedChange e
            (rules.kindFor (rules.advanceAll start events) e)).tally := by
        rw [advanceAll_append, advanceAll_cons, advanceAll_nil,
          advance_of_record (record_of_open _ _ hopen)]
      rw [hnext]
      exact ⟨hsum.take e, hsum.take_isSealed_iff hopen hrest e⟩

/-- As long as nodes are missing, the tally is open. -/
theorem isOpen_advanceAll (h : Tally.start total speed = .ok start)
    (hmissing : ∀ j ≤ events.length, ¬rules.markers.covers total (events.take j)) :
    (rules.advanceAll start events).isSealed = false := by
  have hsealed := (summarizes_advanceAll h fun j hj => hmissing j (Nat.le_of_lt hj)).2
  have hrest : ¬rules.markers.covers total events := by
    simpa using hmissing events.length (Nat.le_refl _)
  simpa [hrest] using hsealed

/-- The tally of a run summarizes the events of the run. -/
theorem summarizes_consumed (rules : Rules) (h : Tally.start total speed = .ok start)
    (events : List Event) :
    Tally.Summarizes rules.markers total (rules.markers.consumed total events)
        (rules.advanceAll start (rules.markers.consumed total events)) ∧
      ((rules.advanceAll start (rules.markers.consumed total events)).isSealed = true ↔
        rules.markers.covers total (rules.markers.consumed total events)) :=
  summarizes_advanceAll h fun _ => Markers.not_covers_take_consumed

/-- The events that are taken in are a beginning of all events, up to where the tally is sealed. -/
theorem taken_eq_take {t : Tally} {k : Nat} (hk : k ≤ events.length)
    (hopen : ∀ j < k, (rules.advanceAll t (events.take j)).isSealed = false)
    (hsealed : k < events.length → (rules.advanceAll t (events.take k)).isSealed = true) :
    rules.taken t events = events.take k := by
  induction events generalizing t k with
  | nil => simp [taken]
  | cons e rest ih =>
      cases k with
      | zero =>
        have hover : t.isSealed = true := hsealed (Nat.succ_pos _)
        rw [taken_of_sealed rules hover, List.take_zero]
      | succ k =>
        have hfirst : ¬t.isSealed = true := by
          have := hopen 0 (Nat.succ_pos k)
          simpa using this
        rw [taken, if_neg hfirst, List.take_succ_cons]
        congr 1
        refine ih (Nat.le_of_succ_le_succ hk) ?_ ?_
        · intro j hj
          exact hopen (j + 1) (Nat.succ_lt_succ hj)
        · intro hlt
          exact hsealed (Nat.succ_lt_succ hlt)

/-- The events that a new tally takes in are those of the run. -/
theorem taken_eq_consumed (rules : Rules) (h : Tally.start total speed = .ok start)
    (events : List Event) : rules.taken start events = rules.markers.consumed total events := by
  obtain ⟨k, hk, hconsumed, hbefore, hall⟩ := rules.markers.exists_consumed_eq total events
  have hsummarized := summarizes_consumed rules h events
  rw [hconsumed] at hsummarized ⊢
  refine taken_eq_take hk ?_ ?_
  · intro j hj
    refine isOpen_advanceAll h fun i hi => ?_
    rw [List.length_take] at hi
    rw [List.take_take, Nat.min_eq_left (by omega)]
    exact hbefore i (by omega)
  · intro hlt
    exact hsummarized.2.2 (hall hlt)

/-- While nodes are missing, the next event is taken in, and it leads to a report exactly if none is
missing any more. -/
theorem exists_record_advanceAll (h : Tally.start total speed = .ok start)
    (hbefore : ∀ j ≤ events.length, ¬rules.markers.covers total (events.take j)) (e : Event) :
    ∃ r, rules.record (rules.advanceAll start events) e = .ok r ∧
      (r.report.isSome = true ↔ rules.markers.covers total (events ++ [e])) := by
  obtain ⟨hsum, -⟩ := summarizes_advanceAll h fun j hj => hbefore j (Nat.le_of_lt hj)
  have hrest : ¬rules.markers.covers total events := by
    simpa using hbefore events.length (Nat.le_refl _)
  have hopen := isOpen_advanceAll h hbefore
  have hrecord := record_of_open rules e hopen
  refine ⟨_, hrecord, ?_⟩
  rw [← isSealed_record hrecord]
  exact hsum.take_isSealed_iff hopen hrest e

/-- Once a tally is sealed, nothing changes it. -/
theorem advanceAll_of_sealed (rules : Rules) {t : Tally} (h : t.isSealed = true)
    (events : List Event) : rules.advanceAll t events = t := by
  induction events with
  | nil => rfl
  | cons e rest ih => rw [advanceAll_cons, advance_of_sealed rules e h, ih]

/-- Of a beginning of events, the first one of a kind is the first one of all, if it is there. -/
theorem find?_take_eq (p : Event → Bool) (events : List Event) (k : Nat) :
    (events.take k).find? p = (events.take k)[events.findIdx p]? := by
  rw [List.find?_eq_getElem?_findIdx, List.findIdx_take]
  by_cases hk : events.findIdx p < k
  · rw [Nat.min_eq_right (Nat.le_of_lt hk)]
  · have hle : k ≤ events.findIdx p := Nat.le_of_not_lt hk
    have hlength : (events.take k).length ≤ k := List.length_take_le ..
    rw [Nat.min_eq_left hle, List.getElem?_eq_none hlength,
      List.getElem?_eq_none (Nat.le_trans hlength hle)]

theorem eraseP_take_eq (p : Event → Bool) (events : List Event) (k : Nat) :
    (events.take k).eraseP p = (events.take k).eraseIdx (events.findIdx p) := by
  induction events generalizing k with
  | nil => simp
  | cons e rest ih =>
      cases k with
      | zero => simp
      | succ k => by_cases he : p e = true <;> simp [List.findIdx_cons, he, ih]

/-- **The run ends with the last event of the run.** An event is taken in exactly if it is one of
the events of the run, and it leads to a report exactly if it is the last one of them and all nodes
have completed. -/
theorem record_advanceAll_take (h : Tally.start total speed = .ok start) {i : Nat}
    (hi : i < events.length) :
    ((∃ r, rules.record (rules.advanceAll start (events.take i)) events[i] = .ok r) ↔
      i < (rules.markers.consumed total events).length) ∧
    ((∃ r, rules.record (rules.advanceAll start (events.take i)) events[i] = .ok r ∧
        r.report.isSome = true) ↔
      i + 1 = (rules.markers.consumed total events).length ∧
        rules.markers.covers total (rules.markers.consumed total events)) := by
  obtain ⟨k, hk, hconsumed, hbefore, hall⟩ := rules.markers.exists_consumed_eq total events
  have hlength : (events.take k).length = k := List.length_take_of_le hk
  rw [hconsumed, hlength]
  by_cases hik : i < k
  · have hmissing : ∀ j ≤ (events.take i).length,
        ¬rules.markers.covers total ((events.take i).take j) := by
      intro j hj
      have hji : j ≤ i := by
        rw [List.length_take] at hj
        omega
      rw [List.take_take, Nat.min_eq_left hji]
      exact hbefore j (by omega)
    obtain ⟨r, hr, hreport⟩ := exists_record_advanceAll h hmissing events[i]
    rw [List.take_append_getElem hi] at hreport
    refine ⟨⟨fun _ => hik, fun _ => ⟨r, hr⟩⟩, ?_, ?_⟩
    · rintro ⟨r', hr', hsome⟩
      obtain rfl : r' = r := Except.ok.inj (hr'.symm.trans hr)
      have hcovers := hreport.1 hsome
      have hlast : i + 1 = k := by
        by_contra hne
        exact hbefore (i + 1) (by omega) hcovers
      exact ⟨hlast, hlast ▸ hcovers⟩
    · rintro ⟨rfl, hcovers⟩
      exact ⟨r, hr, hreport.2 hcovers⟩
  · -- The run is over: what comes now finds the tally sealed.
    have hki : k ≤ i := Nat.le_of_not_lt hik
    have hrest : events.take i = events.take k ++ (events.take i).drop k := by
      conv_lhs => rw [← List.take_append_drop k (events.take i)]
      rw [List.take_take, Nat.min_eq_left hki]
    have hover : (rules.advanceAll start (events.take k)).isSealed = true :=
      (hconsumed ▸ summarizes_consumed rules h events).2.2 (hall (by omega))
    have hrefused : rules.record (rules.advanceAll start (events.take i)) events[i] =
        .error .runOver := by
      rw [hrest, advanceAll_append, advanceAll_of_sealed rules hover]
      exact record_of_sealed rules _ hover
    constructor
    · simp [hrefused, hik]
    · rw [hrefused]
      constructor
      · rintro ⟨r, hr, -⟩
        contradiction
      · rintro ⟨hlast, -⟩
        omega

/-- **What the tally of a run holds, and when the run ends.** Events are taken in up to the first one
with which all nodes have completed; that one, and no other, leads to a report. By then the tally
holds exactly the nodes that have completed, the time of the first schedule update if that has come,
and for each node how many of its events tell that it has received, sent, or timed out, where the
first schedule update counts for nothing else. -/
theorem advanceAll_statistics (rules : Rules) (htotal : 1 ≤ total) (hspeed : isSpeed speed = true)
    (events : List Event) :
    ∃ start, Tally.start total speed = .ok start ∧
      let m := rules.markers
      let consumed := m.consumed total events
      let anchor := events.findIdx m.schedules
      let final := rules.advanceAll start consumed
      (∀ i (hi : i < events.length),
        ((∃ r, rules.record (rules.advanceAll start (events.take i)) events[i] = .ok r) ↔
          i < consumed.length) ∧
        ((∃ r, rules.record (rules.advanceAll start (events.take i)) events[i] = .ok r ∧
            r.report.isSome = true) ↔
          i + 1 = consumed.length ∧ m.covers total consumed)) ∧
      final.completed.Pairwise (· < ·) ∧
      (∀ n, n ∈ final.completed ↔
        (1 ≤ n ∧ n ≤ total) ∧ ∃ e ∈ consumed, e.node.number = n ∧ m.completes e = true) ∧
      final.firstSchedule = consumed[anchor]?.map (·.time) ∧
      ∀ n, 1 ≤ n → n ≤ total → ∃ c, final.node? ⟨n⟩ = some c ∧
        Tally.Counts m n (consumed.eraseIdx anchor) c := by
  obtain ⟨start, hstart⟩ := Tally.exists_start_iff.2 ⟨htotal, hspeed⟩
  obtain ⟨hsum, -⟩ := summarizes_consumed rules hstart events
  obtain ⟨k, -, hconsumed, -, -⟩ := rules.markers.exists_consumed_eq total events
  refine ⟨start, hstart, fun i hi => record_advanceAll_take hstart hi, hsum.increasing,
    hsum.completed, ?_, ?_⟩
  · rw [hsum.first, hconsumed, find?_take_eq]
  · intro n hn hle
    rw [hconsumed, ← eraseP_take_eq, ← hconsumed]
    exact hsum.counts n hn hle

/-- A run of two nodes. The first schedule update is only that, the second one is a message that has
come in; a node that is none of the run does not complete, and what comes after the end is not
counted. -/
theorem advanceAll_statistics_two_nodes :
    let rules : Rules := ⟨.standard, none⟩
    let events : List Event := [
      ⟨⟨1⟩, .ofMicros 5, "Received schedule_updater_pkt"⟩,
      ⟨⟨2⟩, .ofMicros 6, "Received schedule_updater_pkt"⟩,
      ⟨⟨1⟩, .ofMicros 7, "Sending pkt->type = complete"⟩,
      ⟨⟨3⟩, .ofMicros 8, "pkt->type = complete"⟩,
      ⟨⟨2⟩, .ofMicros 9, "pkt->type = complete"⟩,
      ⟨⟨2⟩, .ofMicros 9, "Received"⟩]
    1 ≤ 2 ∧ isSpeed 1 = true ∧ ∃ start, Tally.start 2 1 = .ok start ∧
      (∃ r, rules.record (rules.advanceAll start (events.take 4)) events[4] = .ok r ∧
        r.report.isSome = true) ∧
      (rules.advanceAll start (events.take 5)).firstSchedule = some (.ofMicros 5) ∧
      ∃ c, (rules.advanceAll start (events.take 5)).node? ⟨2⟩ = some c ∧ c.received = 1 := by
  intro rules events
  have hconsumed : rules.markers.consumed 2 events = events.take 5 := by decide +kernel
  have hanchor : events.findIdx rules.markers.schedules = 0 := by decide +kernel
  obtain ⟨start, hstart, hends, -, -, hfirst, hnodes⟩ :=
    advanceAll_statistics rules (show 1 ≤ 2 by decide) (show isSpeed 1 = true by decide) events
  rw [hconsumed] at hends hfirst hnodes
  rw [hanchor] at hfirst hnodes
  refine ⟨by decide, by decide, start, hstart, ?_, hfirst, ?_⟩
  · exact (hends 4 (by decide)).2.2 ⟨by decide, by decide +kernel⟩
  · obtain ⟨c, hc, hcounts⟩ := hnodes 2 (by decide) (by decide)
    refine ⟨c, hc, hcounts.received.trans ?_⟩
    decide +kernel

end Rules

end Motewatch
