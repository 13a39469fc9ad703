import Motewatch.Proofs.Tally.Statistics

/-!
# Links of a node

A node reports on its links again and again, and a tally keeps the last report on each of them.
Which messages are such reports is for the markers to say, and with them for the schedule updates
that have come before; a message with a marker but without a report in it is none.

## Main definitions

* `Markers.linkAt?` — the report of a node on a link among events.
* `Markers.HoldsLast` — links are filed as they were reported last.

## Main results

* `Markers.HoldsLast.snoc` — one more report takes the place of the last one on its link.
* `Tally.map_links_take` — what an event does to the links of a node.
* `Rules.advanceAll_links` — the links that the tally of a run holds.
-/

namespace Motewatch

theorem Catalog.get?_erase_self {α : Type} (c : Catalog α) (key : String) :
    (c.erase key).get? key = none := by
  rw [get?, List.lookup_eq_none_iff]
  intro e he
  have hne : e.1 ≠ key := c.not_mem_erase key e he
  simpa using hne.symm

/-- What is kept of a report does not name the neighbour again. -/
theorem get?_neighbor_of_linkReport {message : String} {r : LinkReport}
    (h : linkReport? message = some r) : r.fields.get? "neighbor" = none := by
  obtain ⟨s, -, hreport⟩ := Option.bind_eq_some_iff.1 h
  split at hreport
  · contradiction
  · obtain ⟨v, -, rfl⟩ := Option.map_eq_some_iff.1 hreport
    exact Catalog.get?_erase_self _ "neighbor"

/-! ## Reports among events -/

namespace Markers
variable {m : Markers} {n : Nat} {events : List Event} {e : Event} {r : LinkReport}

/-- The report of a node on a link, if an event behind others is one. -/
def linkAfter? (m : Markers) (n : Nat) (before : List Event) (e : Event) : Option LinkReport :=
  if e.node.number = n ∧ m.classify e.message (before.any m.schedules) = .neighborLink then
    linkReport? e.message
  else none

/-- The report of a node on a link, if the event at a position is one. -/
def linkAt? (m : Markers) (n : Nat) (events : List Event) (i : Nat) : Option LinkReport :=
  events[i]?.bind (m.linkAfter? n (events.take i))

theorem lt_of_linkAt? {i : Nat} (h : m.linkAt? n events i = some r) : i < events.length := by
  obtain ⟨e, he, -⟩ := Option.bind_eq_some_iff.1 h
  exact (List.getElem?_eq_some_iff.1 he).1

theorem linkAt?_of_lt {i : Nat} (hi : i < events.length) :
    m.linkAt? n events i = m.linkAfter? n (events.take i) events[i] := by
  rw [linkAt?, List.getElem?_eq_getElem hi, Option.bind_some]

theorem get?_neighbor_of_linkAt {i : Nat} (h : m.linkAt? n events i = some r) :
    r.fields.get? "neighbor" = none := by
  rw [linkAt?_of_lt (lt_of_linkAt? h), linkAfter?] at h
  split at h
  · exact get?_neighbor_of_linkReport h
  · contradiction

/-- The reports among events and one more are those among the events, and that one. -/
theorem linkAt?_snoc_iff {i : Nat} :
    m.linkAt? n (events ++ [e]) i = some r ↔
      m.linkAt? n events i = some r ∨ (i = events.length ∧ m.linkAfter? n events e = some r) := by
  rcases Nat.lt_trichotomy i events.length with hlt | rfl | hgt
  · have hne : i ≠ events.length := Nat.ne_of_lt hlt
    simp [linkAt?, List.getElem?_append_left hlt, List.take_append_of_le_length (Nat.le_of_lt hlt),
      hne]
  · simp [linkAt?]
  · have hne : i ≠ events.length := Nat.ne_of_gt hgt
    have hnone : events[i]? = none := List.getElem?_eq_none (Nat.le_of_lt hgt)
    have hnone' : (events ++ [e])[i]? = none := List.getElem?_eq_none (by simp; omega)
    simp [linkAt?, hnone, hnone', hne]

/-- Links are filed as they were reported last: under each neighbour there is what the last report on
it says, and nothing if there is no report on it. -/
def HoldsLast (m : Markers) (n : Nat) (events : List Event)
    (links : Catalog (Catalog Json.Value)) : Prop :=
  ∀ k, match links.get? k with
    | some fields => ∃ i, m.linkAt? n events i = some ⟨k, fields⟩ ∧
        ∀ j r, i < j → m.linkAt? n events j = some r → r.neighbor ≠ k
    | none => ∀ i r, m.linkAt? n events i = some r → r.neighbor ≠ k

/-- Links with a report filed, if there is one. -/
def fileLink (links : Catalog (Catalog Json.Value)) :
    Option LinkReport → Catalog (Catalog Json.Value)
  | none => links
  | some r => links.put r.neighbor r.fields

theorem holdsLast_nil (m : Markers) (n : Nat) : m.HoldsLast n [] .empty := by
  intro k
  simp [linkAt?]

/-- **One more report takes the place of the last one on its link**, and leaves the others. -/
theorem HoldsLast.snoc {links : Catalog (Catalog Json.Value)} (h : m.HoldsLast n events links)
    (e : Event) : m.HoldsLast n (events ++ [e]) (fileLink links (m.linkAfter? n events e)) := by
  intro k
  have hk := h k
  -- If the event is a report on this very link, then it is the last one, as no position lies behind
  -- it; otherwise the last one stays where it was.
  cases hlink : m.linkAfter? n events e with
  | none => simpa only [fileLink, linkAt?_snoc_iff, hlink, reduceCtorEq, and_false, or_false] using hk
  | some r =>
    rw [fileLink, Catalog.get?_put]
    by_cases hkey : k = r.neighbor
    · subst hkey
      rw [if_pos rfl]
      refine ⟨events.length, linkAt?_snoc_iff.2 (.inr ⟨rfl, hlink⟩), ?_⟩
      intro j r' hj hr'
      rcases linkAt?_snoc_iff.1 hr' with hr' | ⟨rfl, -⟩
      · exact absurd (lt_of_linkAt? hr') (Nat.not_lt_of_gt hj)
      · exact absurd hj (Nat.lt_irrefl _)
    · have hlast : ∀ r', m.linkAfter? n events e = some r' → r'.neighbor ≠ k := by
        intro r' hr'
        obtain rfl := Option.some.inj (hlink.symm.trans hr')
        exact fun heq => hkey heq.symm
      rw [if_neg hkey]
      cases hget : links.get? k with
      | some fields =>
        rw [hget] at hk
        obtain ⟨i, hi, hlater⟩ := hk
        refine ⟨i, linkAt?_snoc_iff.2 (.inl hi), ?_⟩
        intro j r' hj hr'
        rcases linkAt?_snoc_iff.1 hr' with hr' | ⟨-, hr'⟩
        · exact hlater j r' hj hr'
        · exact hlast r' hr'
      | none =>
        rw [hget] at hk
        intro i r' hr'
        rcases linkAt?_snoc_iff.1 hr' with hr' | ⟨-, hr'⟩
        · exact hk i r' hr'
        · exact hlast r' hr'

end Markers

/-! ## What events do to the links of a node -/

namespace Tally

/-- **What an event does to the links of a node**: its report is filed if the event is one of the node
and is read as one. Nothing else changes them. -/
theorem map_links_take (t : Tally) (change? : Option SpeedChange) (e : Event) (k : Kind)
    (n : NodeId) :
    ((t.take change? e k).tally.node? n).map (·.links) = (t.node? n).map fun c =>
      Markers.fileLink c.links
        (if e.node = n ∧ k = .neighborLink then linkReport? e.message else none) := by
  have hquiet : ∀ t' : Tally, t'.nodes = t.nodes → (t'.node? n).map (·.links) =
      (t.node? n).map fun c => Markers.fileLink c.links none := by
    intro t' h
    simp [node?, h, Markers.fileLink]
  have hupdate : ∀ f : NodeTally → NodeTally, (∀ c, (f c).links = c.links) →
      ((t.updateNode e.node f).node? n).map (·.links) =
        (t.node? n).map fun c => Markers.fileLink c.links none := by
    intro f hf
    rw [node?_updateNode, Option.map_map]
    congr 1
    funext c
    by_cases hn : e.node = n <;> simp [hn, hf, Markers.fileLink]
  by_cases hk : k = .neighborLink
  · subst hk
    simp only [take, Recorded.quiet, reportLink, and_true]
    cases hlink : linkReport? e.message with
    | none =>
      rw [ite_self]
      exact hquiet t rfl
    | some r =>
      dsimp only
      rw [node?_updateNode, Option.map_map]
      congr 1
      funext c
      by_cases hn : e.node = n <;> simp [hn, Markers.fileLink]
  · simp only [hk, and_false, if_false]
    cases k
    case neighborLink => contradiction
    case receive => exact hupdate _ fun c => rfl
    case transmit => exact hupdate _ fun c => rfl
    case timeout => exact hupdate _ fun c => rfl
    case completion =>
      obtain ⟨_, _, heq⟩ := exists_complete_eq t e
      exact hquiet _ (by rw [take, heq])
    case topology =>
      obtain ⟨_, _, heq, -⟩ := exists_changeTopology_eq t change? e
      exact hquiet _ (by rw [take, heq])
    all_goals exact hquiet _ rfl

end Tally

/-! ## The links of a run -/

namespace Rules
variable {rules : Rules} {total n : Nat} {speed : Float} {start : Tally} {events : List Event}

/-- While nodes are missing, the next event is taken in as what it tells behind the others. -/
theorem advanceAll_snoc (h : Tally.start total speed = .ok start)
    (hmissing : ∀ j ≤ events.length, ¬rules.markers.covers total (events.take j)) (e : Event) :
    rules.advanceAll start (events ++ [e]) =
      ((rules.advanceAll start events).tick.take rules.speedChange e
        (rules.markers.classify e.message (events.any rules.markers.schedules))).tally := by
  obtain ⟨hsum, -⟩ := summarizes_advanceAll h fun j hj => hmissing j (Nat.le_of_lt hj)
  have hopen := isOpen_advanceAll h hmissing
  rw [advanceAll_append, advanceAll_cons, advanceAll_nil,
    advance_of_record (record_of_open rules e hopen), kindFor, hsum.known_eq]

/-- While nodes are missing, the next event files its report on a link, if it is one. -/
theorem map_links_advanceAll_snoc (h : Tally.start total speed = .ok start)
    (hmissing : ∀ j ≤ events.length, ¬rules.markers.covers total (events.take j)) (e : Event)
    (n : Nat) :
    ((rules.advanceAll start (events ++ [e])).node? ⟨n⟩).map (·.links) =
      ((rules.advanceAll start events).node? ⟨n⟩).map fun c =>
        Markers.fileLink c.links (rules.markers.linkAfter? n events e) := by
  have hnode : e.node = ⟨n⟩ ↔ e.node.number = n := by
    cases e.node
    simp
  rw [advanceAll_snoc h hmissing, Tally.map_links_take, Tally.node?_tick]
  simp only [hnode, Markers.linkAfter?]

/-- The links of a node are filed as they were reported last. -/
theorem holdsLast_advanceAll (h : Tally.start total speed = .ok start) (hn : 1 ≤ n)
    (hle : n ≤ total)
    (hbefore : ∀ j < events.length, ¬rules.markers.covers total (events.take j)) :
    ∃ c, (rules.advanceAll start events).node? ⟨n⟩ = some c ∧
      rules.markers.HoldsLast n events c.links := by
  induction events using List.reverseRecOn with
  | nil =>
      exact ⟨_, (Tally.isNew_of_start h).nodes n hn hle, Markers.holdsLast_nil rules.markers n⟩
  | append_singleton events e ih =>
      have hmissing : ∀ j ≤ events.length, ¬rules.markers.covers total (events.take j) := by
        intro j hj
        have := hbefore j (by simp; omega)
        rwa [List.take_append_of_le_length hj] at this
      obtain ⟨c, hc, hlast⟩ := ih fun j hj => hmissing j (Nat.le_of_lt hj)
      have hlinks := map_links_advanceAll_snoc h hmissing e n
      rw [hc, Option.map_some] at hlinks
      obtain ⟨c', hc', heq⟩ := Option.map_eq_some_iff.1 hlinks
      exact ⟨c', hc', heq ▸ hlast.snoc e⟩

/-- **The links that the tally of a run holds.** For every node, what is filed under a neighbour is
what the last report of the node on it says, where an event is a report if it is read as one with the
schedule updates known that came before it, and if there is one in it; and nothing else is filed. An
event that is no report of the node leaves its links as they are, and what is filed does not name the
neighbour again. -/
theorem advanceAll_links (rules : Rules) (htotal : 1 ≤ total) (hspeed : isSpeed speed = true)
    (events : List Event) :
    ∃ start, Tally.start total speed = .ok start ∧
      let m := rules.markers
      let consumed := m.consumed total events
      (∀ i ≤ consumed.length, (rules.advanceAll start (consumed.take i)).firstSchedule.isSome =
        (consumed.take i).any m.schedules) ∧
      ∀ n, 1 ≤ n → n ≤ total →
        (∃ c, (rules.advanceAll start consumed).node? ⟨n⟩ = some c ∧
          m.HoldsLast n consumed c.links ∧
          ∀ k fields, c.links.get? k = some fields → fields.get? "neighbor" = none) ∧
        ∀ i < consumed.length, m.linkAt? n consumed i = none →
          ((rules.advanceAll start (consumed.take (i + 1))).node? ⟨n⟩).map (·.links) =
            ((rules.advanceAll start (consumed.take i)).node? ⟨n⟩).map (·.links) := by
  obtain ⟨start, hstart⟩ := Tally.exists_start_iff.2 ⟨htotal, hspeed⟩
  refine ⟨start, hstart, ?_⟩
  intro m consumed
  have hmissing : ∀ i < consumed.length, ¬m.covers total (consumed.take i) :=
    fun i hi => Markers.not_covers_take_consumed hi
  have hmissing' : ∀ i j, i ≤ j → i < consumed.length →
      ¬m.covers total ((consumed.take j).take i) := by
    intro i j hij hi
    rw [List.take_take, Nat.min_eq_left hij]
    exact hmissing i hi
  constructor
  · intro i hi
    refine (summarizes_advanceAll hstart fun j hj => ?_).1.known_eq
    rw [List.length_take] at hj
    exact hmissing' j i (by omega) (by omega)
  · intro n hn hle
    constructor
    · obtain ⟨c, hc, hlast⟩ := holdsLast_advanceAll hstart hn hle hmissing
      refine ⟨c, hc, hlast, ?_⟩
      intro k fields hfields
      have hk := hlast k
      rw [hfields] at hk
      obtain ⟨i, hi, -⟩ := hk
      exact Markers.get?_neighbor_of_linkAt hi
    · intro i hi hnone
      rw [Markers.linkAt?_of_lt hi] at hnone
      rw [List.take_succ_eq_append_getElem hi, map_links_advanceAll_snoc hstart ?_, hnone]
      · rfl
      · intro j hj
        rw [List.length_take] at hj
        exact hmissing' j i (by omega) (by omega)

/-- Two reports of a node name the same neighbour, first by a number and then by a text; the last
message has a marker, but no report in it. -/
theorem advanceAll_links_one_node :
    let rules : Rules := ⟨.standard, none⟩
    let events : List Event := [
      ⟨⟨1⟩, .ofMicros 1, "\x7b\"neighbor\": 5, \"tx\": 1\x7d"⟩,
      ⟨⟨1⟩, .ofMicros 2, "\x7b\"neighbor\": \"5\", \"tx\": 2, \"rx\": 1\x7d"⟩,
      ⟨⟨1⟩, .ofMicros 3, "neighbor \x7b\"neighbor\": 5, \"tx\": \x7d"⟩]
    1 ≤ 1 ∧ isSpeed 1 = true ∧ ∃ start c fields, Tally.start 1 1 = .ok start ∧
      (rules.advanceAll start events).node? ⟨1⟩ = some c ∧ c.links.get? "5" = some fields ∧
      fields.size = 2 ∧ fields.get? "neighbor" = none := by
  intro rules events
  have hconsumed : rules.markers.consumed 1 events = events := by decide +kernel
  obtain ⟨start, hstart, -, hnodes⟩ :=
    advanceAll_links rules (show 1 ≤ 1 by decide) (show isSpeed 1 = true by decide) events
  rw [hconsumed] at hnodes
  obtain ⟨⟨c, hc, hlast, hneighbor⟩, -⟩ := hnodes 1 (by decide) (by decide)
  have hsecond : (rules.markers.linkAt? 1 events 1).map (fun r => (r.neighbor, r.fields.size)) =
      some ("5", 2) := by decide +kernel
  have hthird : (rules.markers.linkAt? 1 events 2).isNone = true := by decide +kernel
  obtain ⟨r, hr, hreport⟩ := Option.map_eq_some_iff.1 hsecond
  obtain ⟨hname, hsize⟩ := Prod.mk.inj hreport
  have hkey := hlast "5"
  cases hget : c.links.get? "5" with
  | none =>
    rw [hget] at hkey
    exact absurd hname (hkey 1 r hr)
  | some fields =>
    rw [hget] at hkey
    obtain ⟨i, hi, hlater⟩ := hkey
    have hlt : i < 3 := Markers.lt_of_linkAt? hi
    have hfirst : ¬i < 1 := fun hlt => hlater 1 r hlt hr hname
    obtain rfl | rfl : i = 1 ∨ i = 2 := by omega
    · obtain rfl := Option.some.inj (hr.symm.trans hi)
      exact ⟨by decide, by decide, start, c, fields, hstart, hc, hget, hsize,
        hneighbor "5" fields hget⟩
    · rw [hi] at hthird
      contradiction

end Rules

end Motewatch
