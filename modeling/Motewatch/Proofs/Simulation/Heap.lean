import Motewatch.Proofs.Simulation.Rounds

/-!
# Agendas on a heap

An agenda may be kept on a heap that gives out its greatest entry, if entries are compared the other
way round: the greatest one is then the one that comes first. A heap holds its entries in no
particular order. Its next ticket is a word, which starts again from zero when the words are used up;
up to then no two entries have the same ticket, and the heap gives out just what is taken in the
rounds of a simulation.

## Main definitions

* `Entry.heapOrder` — the reversed order of entries.
* `Heap`, `Heap.push`, `Heap.Pops` — entries on a heap, and what goes in and comes out.
* `Heap.Shows` — a heap with the entries of an agenda.
* `Heap.Serves` — a heap through the rounds of a simulation.

## Main results

* `InOrder.isGreatest_iff` — the greatest entry stands first.
* `Heap.Shows.pops_iff` — what a heap gives out.
* `Course.exists_pops_iff` — through all rounds a heap gives out the entries that are taken.
-/

namespace Motewatch.Simulation

variable {ε ω : Type}

/-! ## The reversed order -/

/-- The order of entries on a heap: by their times and then by their tickets, and the other way
round. -/
def Entry.heapOrder (a b : Entry ε) : Ordering :=
  ((compare a.time b.time).then (compare a.ticket b.ticket)).swap

/-- The greater entry is the one that comes first. -/
theorem Entry.heapOrder_eq_gt_iff {a b : Entry ε} :
    a.heapOrder b = .gt ↔ a.precedes b = true := by
  have htime : compare a.time b.time = compare a.time.micros b.time.micros := rfl
  rw [Entry.precedes_iff, heapOrder, Ordering.swap_eq_gt, Ordering.then_eq_lt, htime,
    Nat.compare_eq_lt, Nat.compare_eq_eq, Nat.compare_eq_lt]

/-- No entry is greater than this one. -/
structure IsGreatest (e : Entry ε) (entries : List (Entry ε)) : Prop where
  mem : e ∈ entries
  not_gt : ∀ f ∈ entries, f.heapOrder e ≠ .gt

/-- **The greatest entry stands first** where each entry precedes all those behind it. -/
theorem InOrder.isGreatest_iff {entries : List (Entry ε)} (h : InOrder entries) {e : Entry ε} :
    IsGreatest e entries ↔ ∃ rest, entries = e :: rest := by
  constructor
  · intro hgreatest
    cases entries with
    | nil => exact absurd hgreatest.mem List.not_mem_nil
    | cons f rest =>
      rcases List.mem_cons.1 hgreatest.mem with rfl | he
      · exact ⟨rest, rfl⟩
      · have hprecedes := (List.pairwise_cons.1 h).1 e he
        exact absurd (Entry.heapOrder_eq_gt_iff.2 hprecedes)
          (hgreatest.not_gt f (List.mem_cons_self ..))
  · rintro ⟨rest, rfl⟩
    refine ⟨List.mem_cons_self .., fun f hf hgt => ?_⟩
    have hfe := Entry.heapOrder_eq_gt_iff.1 hgt
    rcases List.mem_cons.1 hf with rfl | hf
    · exact Entry.not_precedes_of_precedes hfe hfe
    · exact Entry.not_precedes_of_precedes ((List.pairwise_cons.1 h).1 f hf) hfe

theorem IsGreatest.of_perm {e : Entry ε} {entries entries' : List (Entry ε)}
    (h : IsGreatest e entries) (hperm : entries.Perm entries') : IsGreatest e entries' :=
  ⟨hperm.mem_iff.1 h.mem, fun f hf => h.not_gt f (hperm.mem_iff.2 hf)⟩

/-! ## Heaps -/

/-- The entries on a heap, in no particular order, and the next ticket. -/
structure Heap (ε : Type) where
  held : List (Entry ε)
  nextTicket : UInt64

namespace Heap
variable {h h' : Heap ε} {e : Entry ε}

/-- The heap without entries. -/
def empty : Heap ε := ⟨[], 0⟩

/-- Puts an event on a heap. After the last ticket comes the first one again. -/
def push (h : Heap ε) (time : Instant) (event : ε) : Heap ε :=
  ⟨⟨time, h.nextTicket.toNat, event⟩ :: h.held, h.nextTicket + 1⟩

/-- Puts events on a heap one after the other. -/
def pushAll (h : Heap ε) (events : List (Instant × ε)) : Heap ε :=
  events.foldl (fun h e => h.push e.1 e.2) h

theorem pushAll_append (h : Heap ε) (events more : List (Instant × ε)) :
    h.pushAll (events ++ more) = (h.pushAll events).pushAll more := by
  simp [pushAll]

/-- The heap gives out an entry that none of the others is greater than. -/
structure Pops (h : Heap ε) (e : Entry ε) (h' : Heap ε) : Prop where
  greatest : IsGreatest e h.held
  perm : h.held.Perm (e :: h'.held)
  nextTicket : h'.nextTicket = h.nextTicket

/-- The heap holds the entries of an agenda. -/
structure Shows (h : Heap ε) (a : Agenda ε) : Prop where
  perm : h.held.Perm a.entries
  nextTicket : h.nextTicket.toNat = a.nextTicket % wordLimit

/-- The heap gives out the entries that are taken in some rounds, one in each, and is given the events
that are entered. -/
inductive Serves : Heap ε → List (Round ε) → Heap ε → Prop
  | nil (h : Heap ε) : Serves h [] h
  | cons {h between h' : Heap ε} {r : Round ε} {rounds : List (Round ε)}
      (pops : h.Pops r.taken between)
      (rest : Serves (between.pushAll (entered r.commands)) rounds h') : Serves h (r :: rounds) h'

theorem shows_empty : (empty : Heap ε).Shows Agenda.empty := ⟨List.Perm.refl _, rfl⟩

namespace Shows
variable {a : Agenda ε} {s : Simulator ε} {calls : List (Instant × ε)} {taken : List (Entry ε)}

/-- Before the words are used up, an event gets the same ticket on both. -/
theorem push (hs : h.Shows a) (hfew : a.nextTicket < wordLimit) (time : Instant) (event : ε) :
    (h.push time event).Shows (a.enter time event) := by
  have hticket : h.nextTicket.toNat = a.nextTicket := by
    rw [hs.nextTicket, Nat.mod_eq_of_lt hfew]
  refine ⟨?_, ?_⟩
  · rw [Heap.push, hticket]
    exact (hs.perm.cons _).trans (perm_insertEntry _ _).symm
  · have hone : (1 : UInt64).toNat = 1 := rfl
    rw [Heap.push, UInt64.toNat_add, hticket, hone]
    rfl

theorem obey (hs : h.Shows s.agenda) (ha : s.Accounts calls taken) (c : Command ε)
    (hfew : (calls ++ entered [c]).length ≤ wordLimit) :
    (h.pushAll (entered [c])).Shows (s.obey c).agenda := by
  cases c with
  | halt => exact hs
  | enter time event =>
    have hticket : s.agenda.nextTicket < wordLimit := by
      rw [entered_enter, List.length_append, List.length_singleton] at hfew
      rw [ha.nextTicket]
      omega
    exact hs.push hticket time event

theorem obeyAll (hs : h.Shows s.agenda) (ha : s.Accounts calls taken) (commands : List (Command ε))
    (hfew : (calls ++ entered commands).length ≤ wordLimit) :
    (h.pushAll (entered commands)).Shows (s.obeyAll commands).agenda := by
  induction commands generalizing s h calls with
  | nil => exact hs
  | cons c rest ih =>
    have happend : entered (c :: rest) = entered [c] ++ entered rest :=
      entered_append [c] rest
    rw [happend, ← List.append_assoc] at hfew
    rw [happend, pushAll_append, Simulator.obeyAll_cons]
    have hfirst := Nat.le_trans (List.prefix_append ..).length_le hfew
    exact ih (hs.obey ha c hfirst) (ha.obey c) hfew

/-- **A heap gives out the entry that stands first**, and no other. -/
theorem pops_iff (hs : h.Shows s.agenda) (ha : s.Accounts calls taken) :
    h.Pops e h' ↔ (∃ rest, s.agenda.entries = e :: rest) ∧ h'.Shows (s.taking e).agenda := by
  constructor
  · intro hpops
    obtain ⟨rest, hentries⟩ := ha.inOrder.isGreatest_iff.1 (hpops.greatest.of_perm hs.perm)
    refine ⟨⟨rest, hentries⟩, ?_, hpops.nextTicket ▸ hs.nextTicket⟩
    have hperm := hpops.perm.symm.trans hs.perm
    rw [ha.entries_taking hentries]
    rw [hentries] at hperm
    exact hperm.cons_inv
  · rintro ⟨⟨rest, hentries⟩, hleft⟩
    have hgreatest : IsGreatest e s.agenda.entries := ha.inOrder.isGreatest_iff.2 ⟨rest, hentries⟩
    refine ⟨hgreatest.of_perm hs.perm.symm, ?_, ?_⟩
    · have hperm := hs.perm
      have hbehind := hleft.perm
      rw [ha.entries_taking hentries] at hbehind
      rw [hentries] at hperm
      exact hperm.trans (hbehind.symm.cons e)
    · exact UInt64.toNat_inj.1 (hleft.nextTicket.trans hs.nextTicket.symm)

theorem exists_pops_iff (hs : h.Shows s.agenda) (ha : s.Accounts calls taken) :
    (∃ h', h.Pops e h') ↔ ∃ rest, s.agenda.entries = e :: rest := by
  constructor
  · rintro ⟨h', hpops⟩
    exact ((hs.pops_iff ha).1 hpops).1
  · intro hfirst
    let left : Heap ε := ⟨(s.taking e).agenda.entries, h.nextTicket⟩
    exact ⟨left, (hs.pops_iff ha).2 ⟨hfirst, List.Perm.refl _, hs.nextTicket⟩⟩

end Shows

end Heap

/-! ## Through the rounds -/

variable {b : Behaviour ε ω} {s s' : Simulator ε} {w w' : ω} {r : Round ε} {h h' : Heap ε}
variable {rounds : List (Round ε)} {calls : List (Instant × ε)} {taken : List (Entry ε)}

/-- In a round a heap gives out the entry that is taken, and shows the next agenda when it has been
given what is entered. -/
theorem Round.Leads.shows_of_pops (hr : r.Leads b s w s' w') (hs : h.Shows s.agenda)
    (ha : s.Accounts calls taken) (hfew : (calls ++ entered r.commands).length ≤ wordLimit)
    (hpops : h.Pops r.taken h') : (h'.pushAll (entered r.commands)).Shows s'.agenda := by
  rw [hr.next]
  exact ((hs.pops_iff ha).1 hpops).2.obeyAll (ha.taking hr.mem) r.commands hfew

namespace Course

/-- A heap that shows the agenda at first shows it after every round. -/
theorem shows_of_serves (hcourse : Course b s w rounds s' w') (hs : h.Shows s.agenda)
    (ha : s.Accounts calls taken)
    (hfew : (calls ++ entered (rounds.flatMap Round.commands)).length ≤ wordLimit)
    (hserves : h.Serves rounds h') : h'.Shows s'.agenda := by
  induction hcourse generalizing h calls taken with
  | nil =>
    cases hserves
    exact hs
  | cons hfirst _ ih =>
    rw [List.flatMap_cons, entered_append, ← List.append_assoc] at hfew
    cases hserves with
    | cons hpops hrest =>
      have hfewer := Nat.le_trans (List.prefix_append ..).length_le hfew
      exact ih (hfirst.shows_of_pops hs ha hfewer hpops) (hfirst.accounts ha) hfew hrest

/-- A heap that shows the agenda at first can give out what is taken, all through the rounds. -/
theorem exists_serves (hcourse : Course b s w rounds s' w') (hs : h.Shows s.agenda)
    (ha : s.Accounts calls taken)
    (hfew : (calls ++ entered (rounds.flatMap Round.commands)).length ≤ wordLimit) :
    ∃ h', h.Serves rounds h' := by
  induction hcourse generalizing h calls taken with
  | nil => exact ⟨h, .nil h⟩
  | cons hfirst _ ih =>
    rw [List.flatMap_cons, entered_append, ← List.append_assoc] at hfew
    have hfewer := Nat.le_trans (List.prefix_append ..).length_le hfew
    obtain ⟨between, hpops⟩ := (hs.exists_pops_iff ha).2 (hfirst.exists_entries_eq ha)
    obtain ⟨h', hrest⟩ := ih (hfirst.shows_of_pops hs ha hfewer hpops) (hfirst.accounts ha) hfew
    exact ⟨h', .cons hpops hrest⟩

/-- **Through all rounds of a simulation a heap gives out the entries that are taken**, as long as no
more events have been entered than there are words. What it can give out next is the entry that stands
first on the agenda. -/
theorem exists_pops_iff {before : List (Command ε)}
    (hcourse : Course b (Simulator.fresh.obeyAll before) w rounds s' w')
    (hfew : (entered (before ++ rounds.flatMap Round.commands)).length ≤ wordLimit) :
    (∃ h, (Heap.empty.pushAll (entered before)).Serves rounds h) ∧
      ∀ h, (Heap.empty.pushAll (entered before)).Serves rounds h →
        ∀ e, (∃ h', h.Pops e h') ↔ ∃ rest, s'.agenda.entries = e :: rest := by
  have hstart : (Simulator.fresh.obeyAll before).Accounts (entered before) [] :=
    Simulator.accounts_fresh.obeyAll before
  rw [entered_append] at hfew
  have hshows : (Heap.empty.pushAll (entered before)).Shows
      (Simulator.fresh.obeyAll before).agenda :=
    Heap.shows_empty.obeyAll Simulator.accounts_fresh before
      (Nat.le_trans (List.prefix_append ..).length_le hfew)
  refine ⟨hcourse.exists_serves hshows hstart hfew, fun h hserves e => ?_⟩
  have hshowsLast := hcourse.shows_of_serves hshows hstart hfew hserves
  exact hshowsLast.exists_pops_iff (hcourse.accounts hstart)

end Course

end Motewatch.Simulation
