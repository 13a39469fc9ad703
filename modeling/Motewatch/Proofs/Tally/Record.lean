import Motewatch.Tally

/-!
# Taking events into a tally

An open tally takes in every event, a sealed one takes in none. What an event does to each part of
an open tally is said here once; whatever holds over a whole run follows from that.

## Main definitions

* `Tally.IsNew` — nothing has been taken in yet.
* `Rules.kindFor` — the kind that an event has for a tally.

## Main results

* `Tally.exists_take_eq` — what an event can change.
* `Tally.exists_node?_take` — an event adds at most one to one count of its own node.
* `Tally.mem_completed_take` — an event adds at most its own node to the nodes that have completed.
* `Tally.take_isSealed` — an event seals a tally exactly if it leads to a report.
* `Rules.handle_of_sealed`, `Rules.handle_of_open` — a sealed tally takes in no event, an open one
  takes in every event.
-/

namespace Motewatch

namespace Tally
variable {t : Tally} {e : Event} {change? : Option SpeedChange} {k : Kind}

/-! ## New tallies -/

/-- Nothing has been taken in yet. -/
structure IsNew (total : Nat) (speed : Float) (t : Tally) : Prop where
  total_eq : t.total = total
  speed_eq : t.speed = speed
  completed : t.completed = []
  first : t.firstSchedule = none
  isOpen : t.isSealed = false
  seen : t.seen = 0
  nodes : ∀ n, 1 ≤ n → n ≤ total → t.node? ⟨n⟩ = some (.fresh n)

/-- A tally is begun exactly for at least one node and a speed. -/
theorem exists_start_iff {total : Nat} {speed : Float} :
    (∃ t, start total speed = .ok t) ↔ 1 ≤ total ∧ isSpeed speed = true := by
  rw [start]
  by_cases hzero : total = 0
  · simp [hzero]
  · have hpos : 1 ≤ total := by omega
    cases hspeed : isSpeed speed <;> simp [hzero, hpos]

theorem one_le_of_start {total : Nat} {speed : Float} (h : start total speed = .ok t) :
    1 ≤ total :=
  (exists_start_iff.1 ⟨t, h⟩).1

theorem isNew_of_start {total : Nat} {speed : Float} (h : start total speed = .ok t) :
    IsNew total speed t := by
  obtain ⟨hpos, hspeed⟩ := exists_start_iff.1 ⟨t, h⟩
  have hzero : total ≠ 0 := by omega
  rw [start, if_neg hzero, hspeed] at h
  obtain rfl := Except.ok.inj h
  refine ⟨rfl, rfl, rfl, rfl, rfl, rfl, ?_⟩
  intro n hn hle
  have hn0 : n ≠ 0 := by omega
  have hlt : n - 1 < total := by omega
  have hsucc : n - 1 + 1 = n := by omega
  simp [node?, NodeId.index?, hn0, hlt, hsucc]

/-! ## The parts of a tally -/

/-- The tally after one more event has been seen, whatever it tells. -/
def tick (t : Tally) : Tally := { t with seen := t.seen + 1 }

@[simp] theorem completed_tick (t : Tally) : t.tick.completed = t.completed := rfl
@[simp] theorem firstSchedule_tick (t : Tally) : t.tick.firstSchedule = t.firstSchedule := rfl
@[simp] theorem total_tick (t : Tally) : t.tick.total = t.total := rfl
@[simp] theorem isSealed_tick (t : Tally) : t.tick.isSealed = t.isSealed := rfl
@[simp] theorem has_tick (t : Tally) (n : NodeId) : t.tick.has n = t.has n := rfl
@[simp] theorem node?_tick (t : Tally) (n : NodeId) : t.tick.node? n = t.node? n := rfl

theorem exists_updateNode_eq (t : Tally) (n : NodeId) (f : NodeTally → NodeTally) :
    ∃ nodes, t.updateNode n f = { t with nodes := nodes } := by
  rw [updateNode]
  split
  · exact ⟨t.nodes, rfl⟩
  · exact ⟨_, rfl⟩

theorem exists_reportLink_eq (t : Tally) (e : Event) :
    ∃ nodes, t.reportLink e = { t with nodes := nodes } := by
  rw [reportLink]
  split
  · exact ⟨t.nodes, rfl⟩
  · exact exists_updateNode_eq t _ _

theorem exists_changeTopology_eq (t : Tally) (change? : Option SpeedChange) (e : Event) :
    ∃ speed speedChanged, (t.changeTopology change? e).tally =
        { t with speed := speed, speedChanged := speedChanged } ∧
      (t.changeTopology change? e).report = none := by
  unfold changeTopology
  split
  · exact ⟨t.speed, t.speedChanged, rfl, rfl⟩
  · split
    · exact ⟨_, _, rfl, rfl⟩
    · exact ⟨t.speed, t.speedChanged, rfl, rfl⟩

theorem exists_complete_eq (t : Tally) (e : Event) :
    ∃ completed isSealed, (t.complete e).tally =
      { t with completed := completed, isSealed := isSealed } := by
  rw [complete]
  split
  · dsimp only
    split
    · exact ⟨_, _, rfl⟩
    · exact ⟨_, _, rfl⟩
  · exact ⟨t.completed, t.isSealed, rfl⟩

/-- **What an event can change.** The number of nodes and the number of events stay, only a schedule
update sets the time that is kept for it, and only a completion completes a node or ends the run. -/
theorem exists_take_eq (t : Tally) (change? : Option SpeedChange) (e : Event) (k : Kind) :
    ∃ completed speed nodes isSealed speedChanged, (t.take change? e k).tally =
        ⟨completed, if k = .scheduleUpdate then some e.time else t.firstSchedule, speed, t.total,
          nodes, isSealed, speedChanged, t.seen⟩ ∧
      (k ≠ .completion → completed = t.completed ∧ isSealed = t.isSealed ∧
        (t.take change? e k).report = none) := by
  cases k with
  | completion =>
      obtain ⟨completed, isSealed, heq⟩ := exists_complete_eq t e
      exact ⟨_, _, _, _, _, heq, fun h => absurd rfl h⟩
  | topology =>
      obtain ⟨speed, speedChanged, heq, hnone⟩ := exists_changeTopology_eq t change? e
      exact ⟨_, _, _, _, _, heq, fun _ => ⟨rfl, rfl, hnone⟩⟩
  | receive =>
      obtain ⟨nodes, heq⟩ := exists_updateNode_eq t e.node _
      exact ⟨_, _, _, _, _, heq, fun _ => ⟨rfl, rfl, rfl⟩⟩
  | transmit =>
      obtain ⟨nodes, heq⟩ := exists_updateNode_eq t e.node _
      exact ⟨_, _, _, _, _, heq, fun _ => ⟨rfl, rfl, rfl⟩⟩
  | timeout =>
      obtain ⟨nodes, heq⟩ := exists_updateNode_eq t e.node _
      exact ⟨_, _, _, _, _, heq, fun _ => ⟨rfl, rfl, rfl⟩⟩
  | neighborLink =>
      obtain ⟨nodes, heq⟩ := exists_reportLink_eq t e
      exact ⟨_, _, _, _, _, heq, fun _ => ⟨rfl, rfl, rfl⟩⟩
  | scheduleUpdate => exact ⟨_, _, _, _, _, rfl, fun _ => ⟨rfl, rfl, rfl⟩⟩
  | unmatched => exact ⟨_, _, _, _, _, rfl, fun _ => ⟨rfl, rfl, rfl⟩⟩

theorem take_total (t : Tally) (change? : Option SpeedChange) (e : Event) (k : Kind) :
    (t.take change? e k).tally.total = t.total := by
  obtain ⟨_, _, _, _, _, heq, -⟩ := exists_take_eq t change? e k
  rw [heq]

theorem seen_take (t : Tally) (change? : Option SpeedChange) (e : Event) (k : Kind) :
    (t.take change? e k).tally.seen = t.seen := by
  obtain ⟨_, _, _, _, _, heq, -⟩ := exists_take_eq t change? e k
  rw [heq]

/-- Only the first schedule update sets the time that is kept for it. -/
theorem take_firstSchedule (t : Tally) (change? : Option SpeedChange) (e : Event) (k : Kind) :
    (t.take change? e k).tally.firstSchedule =
      if k = .scheduleUpdate then some e.time else t.firstSchedule := by
  obtain ⟨_, _, _, _, _, heq, -⟩ := exists_take_eq t change? e k
  rw [heq]

/-- Whatever is no completion completes no node and leads to no report. -/
theorem take_of_ne_completion (change? : Option SpeedChange) (e : Event) (hk : k ≠ .completion) :
    (t.take change? e k).tally.completed = t.completed ∧
      (t.take change? e k).tally.isSealed = t.isSealed ∧
      (t.take change? e k).report = none := by
  obtain ⟨_, _, _, _, _, heq, hkept⟩ := exists_take_eq t change? e k
  rw [heq]
  exact hkept hk

/-! ## Completion -/

theorem has_iff {n : NodeId} : t.has n = true ↔ 1 ≤ n.number ∧ n.number ≤ t.total := by
  simp [has]

/-- An event adds at most its own node to those that have completed. -/
theorem mem_completed_take {n : Nat} :
    n ∈ (t.take change? e k).tally.completed ↔
      n ∈ t.completed ∨ (k = .completion ∧ t.has e.node = true ∧ n = e.node.number) := by
  by_cases hk : k = .completion
  · subst hk
    simp only [take, complete, Recorded.quiet]
    by_cases hnew : (t.has e.node && !t.completed.contains e.node.number) = true
    · rw [if_pos hnew]
      have hhas : t.has e.node = true := by simp_all
      split <;> simp [close, mem_insertIncreasing, hhas, or_comm]
    · rw [if_neg hnew]
      simp only [true_and]
      constructor
      · exact Or.inl
      · rintro (h | ⟨hhas, rfl⟩)
        · exact h
        · simpa [hhas] using hnew
  · rw [(take_of_ne_completion change? e hk).1]
    simp [hk]

theorem pairwise_completed_take (h : t.completed.Pairwise (· < ·)) :
    (t.take change? e k).tally.completed.Pairwise (· < ·) := by
  by_cases hk : k = .completion
  · subst hk
    have hput := pairwise_insertIncreasing e.node.number h
    simp only [take, complete, Recorded.quiet]
    split
    · split <;> exact hput
    · exact h
  · rw [(take_of_ne_completion change? e hk).1]
    exact h

/-- A report that an event leads to sums up the tally that the event leaves behind. -/
theorem take_report {report : Report} (h : (t.take change? e k).report = some report) :
    report = (t.take change? e k).tally.report e.time false ∧
      (t.take change? e k).signals = [] := by
  by_cases hk : k = .completion
  · subst hk
    simp only [take, complete, Recorded.quiet] at h ⊢
    repeat' split at h
    · rename_i hnew hall
      rw [if_pos hnew, if_pos hall]
      exact ⟨(Option.some.inj h).symm, rfl⟩
    · contradiction
    · contradiction
  · rw [(take_of_ne_completion change? e hk).2.2] at h
    contradiction

/-- An event leads to a report exactly if its node was the last one to complete. -/
theorem take_report_isSome :
    (t.take change? e k).report.isSome = true ↔
      k = .completion ∧ t.has e.node = true ∧ e.node.number ∉ t.completed ∧
        (t.take change? e k).tally.completed.length = t.total := by
  by_cases hk : k = .completion
  · subst hk
    simp only [take, complete, Recorded.quiet, allCompleted, beq_iff_eq, true_and]
    by_cases hnew : (t.has e.node && !t.completed.contains e.node.number) = true
    · rw [if_pos hnew]
      simp only [Bool.and_eq_true, Bool.not_eq_true', List.contains_eq_mem,
        decide_eq_false_iff_not] at hnew
      split <;> simp_all [close]
    · rw [if_neg hnew]
      simp_all
  · simp [(take_of_ne_completion change? e hk).2.2, hk]

/-- An event seals an open tally exactly if it leads to a report. -/
theorem take_isSealed (h : t.isSealed = false) :
    (t.take change? e k).tally.isSealed = (t.take change? e k).report.isSome := by
  by_cases hk : k = .completion
  · subst hk
    simp only [take, complete, Recorded.quiet]
    (repeat' split) <;> simp [close, h]
  · rw [(take_of_ne_completion change? e hk).2.1, (take_of_ne_completion change? e hk).2.2, h]
    rfl

/-- All that an event asks of the simulation is another speed. -/
theorem take_signals {s : Signal} (h : s ∈ (t.take change? e k).signals) : ∃ x, s = .speed x := by
  cases k with
  | completion =>
      simp only [take, complete, Recorded.quiet] at h
      (repeat' split at h) <;> simp at h
  | topology =>
      simp only [take, changeTopology, Recorded.quiet] at h
      repeat' split at h
      · simp at h
      · exact ⟨_, List.mem_singleton.1 h⟩
      · simp at h
  | _ => simp [take, Recorded.quiet] at h

/-! ## Counts of a node -/

theorem node?_updateNode (t : Tally) (n m : NodeId) (f : NodeTally → NodeTally) :
    (t.updateNode n f).node? m = (t.node? m).map fun c => if n = m then f c else c := by
  obtain ⟨n⟩ := n
  obtain ⟨m⟩ := m
  by_cases hn : n = 0 <;> by_cases hm : m = 0
  all_goals simp only [updateNode, node?, NodeId.index?, hn, hm, if_true, if_false,
    Option.bind_none, Option.map_none, Option.bind_some, NodeId.mk.injEq]
  · have : (0 : Nat) ≠ m := Ne.symm hm
    simp [this]
  · rw [Array.getElem?_modify]
    by_cases hnm : n = m
    · simp [hnm]
    · have : n - 1 ≠ m - 1 := by omega
      simp [hnm, this]

/-- **An event adds at most one to one count of its own node**, the one for its kind, and nothing to
the counts of the others. -/
theorem exists_node?_take (t : Tally) (change? : Option SpeedChange) (e : Event) (k : Kind)
    (n : NodeId) :
    ∃ f : NodeTally → NodeTally, (t.take change? e k).tally.node? n = (t.node? n).map f ∧ ∀ c,
      (f c).id = c.id ∧
      (f c).received = c.received + (if k = .receive ∧ e.node = n then 1 else 0) ∧
      (f c).transmitted = c.transmitted + (if k = .transmit ∧ e.node = n then 1 else 0) ∧
      (f c).timeouts = c.timeouts + (if k = .timeout ∧ e.node = n then 1 else 0) := by
  have hquiet : ∀ t' : Tally, t'.nodes = t.nodes → t'.node? n = (t.node? n).map id := by
    intro t' h
    simp [node?, h]
  have hupdate : ∀ g : NodeTally → NodeTally,
      (t.updateNode e.node g).node? n = (t.node? n).map fun c => if e.node = n then g c else c :=
    node?_updateNode t e.node n
  cases k
  case receive =>
    refine ⟨_, hupdate _, fun c => ?_⟩
    by_cases hn : e.node = n <;> simp [hn]
  case transmit =>
    refine ⟨_, hupdate _, fun c => ?_⟩
    by_cases hn : e.node = n <;> simp [hn]
  case timeout =>
    refine ⟨_, hupdate _, fun c => ?_⟩
    by_cases hn : e.node = n <;> simp [hn]
  case neighborLink =>
    simp only [take, Recorded.quiet, reportLink]
    split
    · exact ⟨id, hquiet t rfl, fun c => by simp⟩
    · refine ⟨_, hupdate _, fun c => ?_⟩
      by_cases hn : e.node = n <;> simp [hn]
  case completion =>
    obtain ⟨_, _, heq⟩ := exists_complete_eq t e
    exact ⟨id, hquiet _ (by simp only [take, heq]), fun c => by simp⟩
  case topology =>
    obtain ⟨_, _, heq, -⟩ := exists_changeTopology_eq t change? e
    exact ⟨id, hquiet _ (by simp only [take, heq]), fun c => by simp⟩
  all_goals exact ⟨id, hquiet _ rfl, fun c => by simp⟩

end Tally

/-! ## One event -/

namespace Rules
variable {rules : Rules} {t : Tally} {e : Event} {r : Recorded}

/-- A sealed tally takes in nothing. -/
theorem handle_of_sealed (rules : Rules) (e : Event) (h : t.isSealed = true) :
    rules.handle t e = ⟨t, [], .error .runOver⟩ := by
  rw [handle, if_pos h]

theorem record_of_sealed (rules : Rules) (e : Event) (h : t.isSealed = true) :
    rules.record t e = .error .runOver := by
  rw [record, handle_of_sealed rules e h]
  rfl

/-- The kind that an event has for a tally. -/
def kindFor (rules : Rules) (t : Tally) (e : Event) : Kind :=
  rules.markers.classify e.message t.firstSchedule.isSome

/-- An open tally takes in every event. -/
theorem handle_of_open (rules : Rules) (e : Event) (h : t.isSealed = false) :
    rules.handle t e = (t.tick.take rules.speedChange e (rules.kindFor t e)).response := by
  simp [handle, h, kindFor, Tally.tick]

theorem record_of_open (rules : Rules) (e : Event) (h : t.isSealed = false) :
    rules.record t e = .ok (t.tick.take rules.speedChange e (rules.kindFor t e)) := by
  rw [record, handle_of_open rules e h]
  rfl

/-- An event is taken in exactly by an open tally. -/
theorem record_isOpen (h : rules.record t e = .ok r) : t.isSealed = false := by
  cases hs : t.isSealed
  · rfl
  · rw [record_of_sealed rules e hs] at h
    contradiction

theorem record_eq_ok (h : rules.record t e = .ok r) :
    r = t.tick.take rules.speedChange e (rules.kindFor t e) := by
  rw [record_of_open rules e (record_isOpen h)] at h
  exact (Except.ok.inj h).symm

theorem isSealed_record (h : rules.record t e = .ok r) :
    r.tally.isSealed = r.report.isSome := by
  have hopen := record_isOpen h
  rw [record_eq_ok h]
  exact Tally.take_isSealed (t := t.tick) hopen

theorem report_record {report : Report} (h : rules.record t e = .ok r)
    (hr : r.report = some report) :
    report = r.tally.report e.time false ∧ r.signals = [] := by
  rw [record_eq_ok h] at hr ⊢
  exact Tally.take_report hr

/-- A report tells the speed that the tally has in the end. -/
theorem speed_record {report : Report} (h : rules.record t e = .ok r)
    (hr : r.report = some report) : report.speed = r.tally.speed := by
  rw [(report_record h hr).1, Tally.report]

theorem signals_record {s : Signal} (h : rules.record t e = .ok r) (hs : s ∈ r.signals) :
    ∃ x, s = .speed x := by
  rw [record_eq_ok h] at hs
  exact Tally.take_signals hs

end Rules

end Motewatch
