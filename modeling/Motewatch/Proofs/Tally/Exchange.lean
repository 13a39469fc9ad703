import Mathlib.Data.List.Perm.Subperm
import Mathlib.Data.List.Sort
import Motewatch.Proofs.Tally.Operations
import Motewatch.Proofs.Tally.Speed

/-!
# Events in either order

Lines that nodes print at the same time reach a monitor in any order. A tally does not mind: two
events that it takes in one after the other lead to the same in either order, unless the one decides
what the other one means. That is so of two schedule updates of which one has to be the first, and
of two reports on the same link of which one has to be the last.

Each part of a tally depends on the two events on its own. So it is said part by part what two
events do to it, in a form in which their order does not matter.

## Main definitions

* `NodeTally.mark` — what an event of a node does to its counts and its links.
* `Tally.takeBoth` — the tally after two events of given kinds.
* `Rules.Clash` — two events of which the one decides what the other one means.

## Main results

* `Catalog.put_comm` — entries under different keys may be filed in either order.
* `Tally.node?_take` — what an event does to a node.
* `Tally.takeBoth_comm` — two events of given kinds lead to the same tally in either order.
* `Rules.record_comm` — two events that do not clash lead to the same in either order.
-/

namespace Motewatch

attribute [ext] Tally NodeTally

/-! ## Entries in either order -/

theorem putEntry_comm {α : Type} {key other : String} (h : key ≠ other) (a b : α)
    (entries : List (String × α)) :
    putEntry other b (putEntry key a entries) = putEntry key a (putEntry other b entries) := by
  induction entries with
  | nil => grind [putEntry, String.lt_trans, String.lt_irrefl]
  | cons head rest ih => grind [putEntry, String.lt_trans, String.lt_irrefl]

/-- Entries under different keys may be filed in either order. -/
theorem Catalog.put_comm {α : Type} {key other : String} (h : key ≠ other) (c : Catalog α)
    (a b : α) : (c.put key a).put other b = (c.put other b).put key a := by
  apply Catalog.ext
  exact putEntry_comm h a b c.entries

/-- Two reports on links do not concern the same link. -/
def LinksApart (first? second? : Option LinkReport) : Prop :=
  ∀ r ∈ first?, ∀ s ∈ second?, r.neighbor ≠ s.neighbor

theorem Markers.fileLink_comm {first? second? : Option LinkReport}
    (h : LinksApart first? second?) (links : Catalog (Catalog Json.Value)) :
    fileLink (fileLink links first?) second? = fileLink (fileLink links second?) first? := by
  cases first? with
  | none => rfl
  | some r =>
    cases second? with
    | none => rfl
    | some s => exact Catalog.put_comm (h r rfl s rfl) links r.fields s.fields

/-! ## What an event does to a node -/

/-- The report on a link that an event of a kind is. -/
def Event.link? (e : Event) (k : Kind) : Option LinkReport :=
  if k = .neighborLink then linkReport? e.message else none

/-- What an event of a node does to its counts and its links. -/
def NodeTally.mark (c : NodeTally) (e : Event) (k : Kind) : NodeTally where
  id := c.id
  transmitted := c.transmitted + if k = .transmit then 1 else 0
  received := c.received + if k = .receive then 1 else 0
  timeouts := c.timeouts + if k = .timeout then 1 else 0
  links := Markers.fileLink c.links (e.link? k)

theorem NodeTally.mark_comm {e e' : Event} {k k' : Kind} (h : LinksApart (e.link? k) (e'.link? k'))
    (c : NodeTally) : (c.mark e k).mark e' k' = (c.mark e' k').mark e k := by
  apply NodeTally.ext
  · rfl
  · exact Nat.add_right_comm _ _ _
  · exact Nat.add_right_comm _ _ _
  · exact Nat.add_right_comm _ _ _
  · exact Markers.fileLink_comm h c.links

namespace Tally
variable {t : Tally} {e e' : Event} {change? : Option SpeedChange} {k k' : Kind}

/-- **What an event does to a node**: it marks the node that it comes from, and no other. -/
theorem node?_take (t : Tally) (change? : Option SpeedChange) (e : Event) (k : Kind) (n : NodeId) :
    (t.take change? e k).tally.node? n =
      (t.node? n).map fun c => if e.node = n then c.mark e k else c := by
  have hquiet : ∀ t' : Tally, t'.nodes = t.nodes → (∀ c : NodeTally, c.mark e k = c) →
      t'.node? n = (t.node? n).map fun c => if e.node = n then c.mark e k else c := by
    intro t' hnodes hmark
    simp [node?, hnodes, hmark]
  cases k with
  | receive => exact node?_updateNode t e.node n _
  | transmit => exact node?_updateNode t e.node n _
  | timeout => exact node?_updateNode t e.node n _
  | neighborLink =>
    simp only [take, Recorded.quiet, reportLink]
    cases hlink : linkReport? e.message with
    | none =>
      refine hquiet t rfl fun c => ?_
      simp [NodeTally.mark, Event.link?, hlink, Markers.fileLink]
    | some r =>
      dsimp only
      rw [node?_updateNode]
      simp [NodeTally.mark, Event.link?, hlink, Markers.fileLink]
  | completion =>
    obtain ⟨_, _, heq⟩ := exists_complete_eq t e
    exact hquiet _ (by rw [take, heq]) fun c => rfl
  | topology =>
    obtain ⟨_, _, heq, -⟩ := exists_changeTopology_eq t change? e
    exact hquiet _ (by rw [take, heq]) fun c => rfl
  | scheduleUpdate => exact hquiet _ rfl fun c => rfl
  | unmatched => exact hquiet _ rfl fun c => rfl

/-- Tallies that agree on every node keep the same counts. -/
theorem nodes_eq_of_node? {t' : Tally} (h : ∀ n, t.node? n = t'.node? n) : t.nodes = t'.nodes := by
  apply Array.ext_getElem?
  intro i
  simpa [node?, NodeId.index?] using h ⟨i + 1⟩

/-! ## What two events do -/

/-- The tally after two events of given kinds. -/
def takeBoth (t : Tally) (change? : Option SpeedChange) (e : Event) (k : Kind) (e' : Event)
    (k' : Kind) : Tally :=
  ((t.tick.take change? e k).tally.tick.take change? e' k').tally

theorem has_take (t : Tally) (change? : Option SpeedChange) (e : Event) (k : Kind) (n : NodeId) :
    (t.take change? e k).tally.has n = t.has n := by
  rw [has, has, take_total]

theorem mem_completed_takeBoth {n : Nat} :
    n ∈ (t.takeBoth change? e k e' k').completed ↔ n ∈ t.completed ∨
      (k = .completion ∧ t.has e.node = true ∧ n = e.node.number) ∨
      (k' = .completion ∧ t.has e'.node = true ∧ n = e'.node.number) := by
  rw [takeBoth, mem_completed_take, completed_tick, mem_completed_take, completed_tick, has_tick,
    has_tick, has_take, has_tick, or_assoc]

theorem firstSchedule_takeBoth (t : Tally) (change? : Option SpeedChange) (e : Event) (k : Kind)
    (e' : Event) (k' : Kind) :
    (t.takeBoth change? e k e' k').firstSchedule =
      if k' = .scheduleUpdate then some e'.time
      else if k = .scheduleUpdate then some e.time else t.firstSchedule := by
  rw [takeBoth, take_firstSchedule, firstSchedule_tick, take_firstSchedule, firstSchedule_tick]

theorem node?_takeBoth (t : Tally) (change? : Option SpeedChange) (e : Event) (k : Kind)
    (e' : Event) (k' : Kind) (n : NodeId) :
    (t.takeBoth change? e k e' k').node? n = (t.node? n).map fun c =>
      if e'.node = n then (if e.node = n then c.mark e k else c).mark e' k'
      else if e.node = n then c.mark e k else c := by
  rw [takeBoth, node?_take, node?_tick, node?_take, node?_tick, Option.map_map]
  rfl

/-! ## Their change of the speed -/

/-- Whether an event is due to change the speed is for the number of nodes to say, and for whether
the speed has been changed. -/
theorem due?_congr {t' : Tally} (htotal : t'.total = t.total)
    (hchanged : t'.speedChanged = t.speedChanged) : t'.due? change? e k = t.due? change? e k := by
  rw [due?, due?, hchanged]
  simp only [triggers, htotal]

theorem due?_of_changed (h : t.speedChanged = true) : t.due? change? e k = none := by
  simp [due?, h]

/-- The second event changes the speed if it would have done so as the first one, and the first one
has not. -/
theorem due?_take : (t.tick.take change? e k).tally.tick.due? change? e' k' =
    if (t.due? change? e k).isSome then none else t.due? change? e' k' := by
  have htick : t.tick.due? change? e k = t.due? change? e k := due?_congr rfl rfl
  cases hdue : t.due? change? e k with
  | none =>
    rw [hdue] at htick
    refine due?_congr ?_ (take_of_not_due htick).2.1
    rw [total_tick, take_total, total_tick]
  | some c =>
    rw [hdue] at htick
    exact due?_of_changed (take_of_due htick).2.1

/-- The change of speed that two events bring about. -/
def dueBoth? (t : Tally) (change? : Option SpeedChange) (e : Event) (k : Kind) (e' : Event)
    (k' : Kind) : Option SpeedChange :=
  (t.due? change? e k).or (t.due? change? e' k')

theorem dueBoth?_comm (t : Tally) (change? : Option SpeedChange) (e : Event) (k : Kind)
    (e' : Event) (k' : Kind) :
    t.dueBoth? change? e k e' k' = t.dueBoth? change? e' k' e k := by
  rw [dueBoth?, dueBoth?]
  cases hdue : t.due? change? e k with
  | none => simp
  | some c =>
    cases hdue' : t.due? change? e' k' with
    | none => rfl
    | some c' =>
      -- There is one change only that either of them can bring about.
      obtain ⟨hc, -⟩ := due?_eq_some_iff.1 hdue
      obtain ⟨hc', -⟩ := due?_eq_some_iff.1 hdue'
      exact hc.symm.trans hc'

theorem takeBoth_pace (t : Tally) (change? : Option SpeedChange) (e : Event) (k : Kind)
    (e' : Event) (k' : Kind) :
    (t.takeBoth change? e k e' k').speed =
        ((t.dueBoth? change? e k e' k').map (·.speed)).getD t.speed ∧
      (t.takeBoth change? e k e' k').speedChanged =
        (t.speedChanged || (t.dueBoth? change? e k e' k').isSome) ∧
      (t.tick.take change? e k).signals ++
          ((t.tick.take change? e k).tally.tick.take change? e' k').signals =
        (t.dueBoth? change? e k e' k').toList.map fun c => .speed c.speed := by
  have hsecond : (t.tick.take change? e k).tally.tick.due? change? e' k' =
      if (t.due? change? e k).isSome then none else t.due? change? e' k' := due?_take
  have htick : t.tick.due? change? e k = t.due? change? e k := due?_congr rfl rfl
  rw [takeBoth, dueBoth?]
  cases hdue : t.due? change? e k with
  | some c =>
    rw [hdue] at hsecond htick
    obtain ⟨hspeed, hchanged, hsignals⟩ := take_of_due htick
    obtain ⟨hspeed', hchanged', hsignals'⟩ := take_of_not_due hsecond
    refine ⟨?_, ?_, ?_⟩
    · exact hspeed'.trans hspeed
    · rw [hchanged']
      simpa [tick] using hchanged
    · rw [hsignals, hsignals']
      rfl
  | none =>
    rw [hdue] at hsecond htick
    obtain ⟨hspeed, hchanged, hsignals⟩ := take_of_not_due htick
    cases hdue' : t.due? change? e' k' with
    | some c =>
      rw [hdue'] at hsecond
      obtain ⟨hspeed', hchanged', hsignals'⟩ := take_of_due hsecond
      refine ⟨hspeed', ?_, ?_⟩
      · rw [hchanged']
        simp
      · rw [hsignals, hsignals']
        rfl
    | none =>
      rw [hdue'] at hsecond
      obtain ⟨hspeed', hchanged', hsignals'⟩ := take_of_not_due hsecond
      refine ⟨hspeed'.trans hspeed, ?_, ?_⟩
      · rw [hchanged']
        simpa [tick] using hchanged
      · rw [hsignals, hsignals']
        rfl

/-! ## Either order -/

/-- The nodes that have completed after two events are the same in either order. -/
theorem completed_takeBoth_comm (h : t.completed.Pairwise (· < ·)) :
    (t.takeBoth change? e k e' k').completed = (t.takeBoth change? e' k' e k).completed := by
  have hincreasing : ∀ (e e' : Event) (k k' : Kind),
      (t.takeBoth change? e k e' k').completed.Pairwise (· < ·) := by
    intro e e' k k'
    apply pairwise_completed_take
    exact pairwise_completed_take (t := t.tick) h
  apply (hincreasing e e' k k').eq_of_mem_iff (hincreasing e' e k' k)
  intro n
  rw [mem_completed_takeBoth, mem_completed_takeBoth, or_comm (a := k = .completion ∧ _)]

/-- **Two events of given kinds lead to the same tally in either order**, if they do not both update
the schedule or report on the same link, and if they leave it open, or sealed, in either order. -/
theorem takeBoth_comm (h : t.completed.Pairwise (· < ·))
    (hschedule : ¬(k = .scheduleUpdate ∧ k' = .scheduleUpdate))
    (hlinks : e.node = e'.node → LinksApart (e.link? k) (e'.link? k'))
    (hsealed : (t.takeBoth change? e k e' k').isSealed =
      (t.takeBoth change? e' k' e k).isSealed) :
    t.takeBoth change? e k e' k' = t.takeBoth change? e' k' e k := by
  obtain ⟨hspeed, hchanged, -⟩ := takeBoth_pace t change? e k e' k'
  obtain ⟨hspeed', hchanged', -⟩ := takeBoth_pace t change? e' k' e k
  rw [dueBoth?_comm] at hspeed hchanged
  apply Tally.ext
  · exact completed_takeBoth_comm h
  · rw [firstSchedule_takeBoth, firstSchedule_takeBoth]
    by_cases hk : k = .scheduleUpdate
    · have hk' : k' ≠ .scheduleUpdate := fun hk' => hschedule ⟨hk, hk'⟩
      rw [if_neg hk', if_pos hk, if_pos hk]
    · rw [if_neg hk, if_neg hk]
  · exact hspeed.trans hspeed'.symm
  · simp only [takeBoth, take_total, total_tick]
  · apply nodes_eq_of_node?
    intro n
    rw [node?_takeBoth, node?_takeBoth]
    congr 1
    funext c
    by_cases hn : e.node = n
    · by_cases hn' : e'.node = n
      · simp only [if_pos hn, if_pos hn']
        exact NodeTally.mark_comm (hlinks (hn.trans hn'.symm)) c
      · simp only [if_pos hn, if_neg hn']
    · simp only [if_neg hn]
  · exact hsealed
  · exact hchanged.trans hchanged'.symm
  · simp only [takeBoth, seen_take, tick]

/-! ## Open tallies -/

/-- An event that leaves a tally open leads to no report. -/
theorem report_eq_none_of_open (hopen : t.isSealed = false)
    (h : (t.take change? e k).tally.isSealed = false) : (t.take change? e k).report = none := by
  rw [take_isSealed hopen] at h
  simpa using h

/-- An event leaves a tally open if a node is still missing. -/
theorem take_isOpen_of_lt (hopen : t.isSealed = false)
    (h : (t.take change? e k).tally.completed.length < t.total) :
    (t.take change? e k).tally.isSealed = false := by
  rw [take_isSealed hopen]
  by_contra hsome
  have hall := (take_report_isSome.1 (eq_true_of_ne_false hsome)).2.2.2
  omega

/-- The second of two events completes no fewer nodes than there were before. -/
theorem length_completed_take_le (h : t.completed.Pairwise (· < ·)) :
    (t.tick.take change? e k).tally.completed.length ≤
      (t.takeBoth change? e k e' k').completed.length := by
  have hincreasing : (t.tick.take change? e k).tally.completed.Pairwise (· < ·) :=
    pairwise_completed_take h
  apply List.Subperm.length_le
  apply List.Nodup.subperm (hincreasing.imp Nat.ne_of_lt)
  intro n hn
  rw [takeBoth, mem_completed_take]
  exact .inl hn

/-- Two events that leave a tally open leave it open in the other order too: a node is still missing
after both of them, and all the more after the other one alone. -/
theorem isOpen_takeBoth_comm {total : Nat} (h : Sound total t) (hopen : t.isSealed = false)
    (hfirst : (t.tick.take change? e k).tally.isSealed = false)
    (hboth : (t.takeBoth change? e k e' k').isSealed = false) :
    (t.tick.take change? e' k').tally.isSealed = false ∧
      (t.takeBoth change? e' k' e k).isSealed = false := by
  have hsound : Sound total (t.takeBoth change? e k e' k') :=
    (h.tick.take hopen change? e k).tick.take hfirst change? e' k'
  have hmissing : (t.takeBoth change? e' k' e k).completed.length < t.total := by
    rw [← completed_takeBoth_comm h.increasing, h.total_eq]
    exact hsound.missing hboth
  have hother : (t.tick.take change? e' k').tally.isSealed = false := by
    apply take_isOpen_of_lt (t := t.tick) hopen
    exact Nat.lt_of_le_of_lt (length_completed_take_le h.increasing) hmissing
  refine ⟨hother, ?_⟩
  apply take_isOpen_of_lt (t := tick _) hother
  rw [total_tick, take_total]
  exact hmissing

end Tally

/-! ## Two events of a run -/

namespace Rules
variable {rules : Rules} {t : Tally} {e e' : Event}

/-- Two events of which the one decides what the other one means: both are schedule updates when
none is known, or both are reports of one node on the same link. -/
def Clash (rules : Rules) (t : Tally) (e e' : Event) : Prop :=
  (t.firstSchedule = none ∧ Text.contains e.message rules.markers.scheduleUpdate = true ∧
    Text.contains e'.message rules.markers.scheduleUpdate = true) ∨
  (e.node = e'.node ∧ rules.kindFor t e = .neighborLink ∧ rules.kindFor t e' = .neighborLink ∧
    ∃ r r', linkReport? e.message = some r ∧ linkReport? e'.message = some r' ∧
      r.neighbor = r'.neighbor)

theorem Clash.symm (h : rules.Clash t e e') : rules.Clash t e' e := by
  rcases h with ⟨hnone, he, he'⟩ | ⟨hnode, hk, hk', r, r', hr, hr', hname⟩
  · exact .inl ⟨hnone, he', he⟩
  · exact .inr ⟨hnode.symm, hk', hk, r', r, hr', hr, hname.symm⟩

theorem contains_of_scheduleUpdate (h : rules.kindFor t e = .scheduleUpdate) :
    t.firstSchedule = none ∧ Text.contains e.message rules.markers.scheduleUpdate = true := by
  obtain ⟨hknown, hschedules⟩ := Markers.classify_eq_scheduleUpdate_iff.1 h
  simp only [Markers.schedules, Bool.and_eq_true] at hschedules
  exact ⟨by simpa using hknown, hschedules.1⟩

/-- What is no schedule update is told apart in the same way before and after one. -/
theorem classify_congr {m : Markers} (h : Text.contains e.message m.scheduleUpdate = false)
    (known known' : Bool) : m.classify e.message known = m.classify e.message known' := by
  simp [Markers.classify, h]

/-- An event does not change the kind of the next one if they do not clash. -/
theorem kindFor_take (h : ¬rules.Clash t e e') :
    rules.kindFor (t.tick.take rules.speedChange e (rules.kindFor t e)).tally e' =
      rules.kindFor t e' := by
  by_cases hk : rules.kindFor t e = .scheduleUpdate
  · obtain ⟨hnone, he⟩ := contains_of_scheduleUpdate hk
    have he' : Text.contains e'.message rules.markers.scheduleUpdate = false := by
      by_contra hcontains
      exact h (.inl ⟨hnone, he, eq_true_of_ne_false hcontains⟩)
    exact classify_congr he' _ _
  · rw [kindFor, Tally.take_firstSchedule, if_neg hk, Tally.firstSchedule_tick]
    rfl

theorem linksApart_of_not_clash (h : ¬rules.Clash t e e') (hnode : e.node = e'.node) :
    LinksApart (e.link? (rules.kindFor t e)) (e'.link? (rules.kindFor t e')) := by
  intro r hr r' hr' hname
  simp only [Event.link?, Option.mem_def, ite_eq_iff, reduceCtorEq, and_false, or_false]
    at hr hr'
  exact h (.inr ⟨hnode, hr.1, hr'.1, r, r', hr.2, hr'.2, hname⟩)

/-- Behind an event that it does not clash with, the next one is taken in as what it is without
it. -/
theorem record_second (h : ¬rules.Clash t e e')
    (hopen : (t.tick.take rules.speedChange e (rules.kindFor t e)).tally.isSealed = false) :
    rules.record (t.tick.take rules.speedChange e (rules.kindFor t e)).tally e' =
      .ok ((t.tick.take rules.speedChange e (rules.kindFor t e)).tally.tick.take
        rules.speedChange e' (rules.kindFor t e')) := by
  rw [record_of_open rules e' hopen, kindFor_take h]

/-- What is open after an event was open before it. -/
theorem isOpen_of_advance (h : (rules.advance t e).isSealed = false) : t.isSealed = false := by
  by_contra hsealed
  rw [advance_of_sealed rules e (eq_true_of_ne_false hsealed)] at h
  exact hsealed h

/-- **Two events that do not clash lead to the same in either order.** If a tally that has come
about in any way is open after two events, then it takes in both of them in either order, neither
leads to a report, and the tally and the signals are the same in the end. -/
theorem record_comm (rules : Rules) {total : Nat} {speed : Float} {start : Tally}
    (h : Tally.start total speed = .ok start) (operations : List Operation) (e e' : Event) :
    let t := rules.proceedAll start operations
    (rules.advance (rules.advance t e) e').isSealed = false → ¬rules.Clash t e e' →
    ∃ r r' s s', rules.record t e = .ok r ∧ rules.record r.tally e' = .ok r' ∧
      rules.record t e' = .ok s ∧ rules.record s.tally e = .ok s' ∧
      r.report = none ∧ r'.report = none ∧ s.report = none ∧ s'.report = none ∧
      r'.tally = s'.tally ∧ r.signals ++ r'.signals = s.signals ++ s'.signals := by
  intro t hstill hclash
  have hsound : Tally.Sound total t := sound_proceedAll rules h operations
  have hclash' : ¬rules.Clash t e' e := fun hother => hclash hother.symm
  have hmiddle := isOpen_of_advance hstill
  have hopen := isOpen_of_advance hmiddle
  have hr := record_of_open rules e hopen
  have hs := record_of_open rules e' hopen
  rw [advance_of_record hr] at hstill hmiddle
  have hr' := record_second hclash hmiddle
  rw [advance_of_record hr'] at hstill
  obtain ⟨hmiddle', hstill'⟩ := Tally.isOpen_takeBoth_comm hsound hopen hmiddle hstill
  have hs' := record_second hclash' hmiddle'
  have hschedule :
      ¬(rules.kindFor t e = .scheduleUpdate ∧ rules.kindFor t e' = .scheduleUpdate) := by
    rintro ⟨hk, hk'⟩
    obtain ⟨hnone, he⟩ := contains_of_scheduleUpdate hk
    exact hclash (.inl ⟨hnone, he, (contains_of_scheduleUpdate hk').2⟩)
  refine ⟨_, _, _, _, hr, hr', hs, hs', ?_, ?_, ?_, ?_, ?_, ?_⟩
  · exact Tally.report_eq_none_of_open (t := t.tick) hopen hmiddle
  · exact Tally.report_eq_none_of_open (t := Tally.tick _) hmiddle hstill
  · exact Tally.report_eq_none_of_open (t := t.tick) hopen hmiddle'
  · exact Tally.report_eq_none_of_open (t := Tally.tick _) hmiddle' hstill'
  · exact Tally.takeBoth_comm hsound.increasing hschedule (linksApart_of_not_clash hclash)
      (hstill.trans hstill'.symm)
  · have hsignals := (Tally.takeBoth_pace t rules.speedChange e (rules.kindFor t e) e'
      (rules.kindFor t e')).2.2
    rw [Tally.dueBoth?_comm] at hsignals
    exact hsignals.trans (Tally.takeBoth_pace t rules.speedChange e' (rules.kindFor t e') e
      (rules.kindFor t e)).2.2.symm

/-- At the same time a node reports on its link to a neighbour, and the last node tells of its
parent in a schedule update, which is the first one. Then the node reports on its link to another
neighbour, and the last node tells of its parent once more, which changes the speed. -/
theorem record_comm_two_nodes :
    let rules : Rules := ⟨.standard, some ⟨4, .lastNode⟩⟩
    let operations : List Operation := [
      .record ⟨⟨1⟩, .ofMicros 5, "\x7b\"neighbor\": 5, \"tx\": 1\x7d"⟩,
      .record ⟨⟨2⟩, .ofMicros 5, "Switching parent: schedule_updater_pkt"⟩]
    let e : Event := ⟨⟨1⟩, .ofMicros 6, "\x7b\"neighbor\": 7, \"tx\": 1\x7d"⟩
    let e' : Event := ⟨⟨2⟩, .ofMicros 6, "Switching parent: schedule_updater_pkt"⟩
    ∃ start, Tally.start 2 1 = .ok start ∧
      let t := rules.proceedAll start operations
      (rules.advance (rules.advance t e) e').isSealed = false ∧ ¬rules.Clash t e e' ∧
      rules.advance (rules.advance t e) e' = rules.advance (rules.advance t e') e := by
  intro rules operations e e'
  let start : Tally :=
    ⟨[], none, 1, 2, Array.ofFn fun i : Fin 2 => NodeTally.fresh (i + 1), false, false, 0⟩
  have hstart : Tally.start 2 1 = .ok start := rfl
  have hstill : (rules.advance (rules.advance (rules.proceedAll start operations) e) e').isSealed =
      false := by decide +kernel
  have hclash : ¬rules.Clash (rules.proceedAll start operations) e e' := by
    rintro (⟨hnone, -⟩ | ⟨hnode, -⟩)
    · have hknown : (rules.proceedAll start operations).firstSchedule.isNone = false := by
        decide +kernel
      simp [hnone] at hknown
    · exact absurd hnode (by decide)
  obtain ⟨r, r', s, s', hr, hr', hs, hs', -, -, -, -, hsame, -⟩ :=
    record_comm rules hstart operations e e' hstill hclash
  refine ⟨start, hstart, hstill, hclash, ?_⟩
  rw [advance_of_record hr, advance_of_record hr', advance_of_record hs, advance_of_record hs']
  exact hsame

end Rules

end Motewatch
