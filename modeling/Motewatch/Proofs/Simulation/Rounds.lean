import Mathlib.Data.List.Nodup
import Motewatch.Proofs.Simulation.Queue

/-!
# Rounds of a simulation

A simulation goes on in rounds: the first entry is taken off the agenda, its event acts at its time,
and then the world acts. Both may enter further events at any times, also in the past, and both may
halt. What is true of every such simulation is said here: which entry is taken, that none is lost or
taken twice, and when the rounds end.

Entries are told apart by their tickets. The tickets of all entries, taken or to come, are the places
of the calls that entered them.

## Main definitions

* `entered` — the events that commands enter.
* `Simulator.Accounts` — whatever has been entered has been taken once or is still to come once.
* `Round`, `Round.Leads` — a round, and what it makes of a simulation.
* `Course` — the rounds that lead from one simulation to another.

## Main results

* `Simulator.Accounts.obeyAll`, `Simulator.Accounts.taking` — nothing is lost and nothing is doubled.
* `Simulator.Accounts.agenda_eq` — entering events one by one is the same as entering them in one go.
* `Simulator.run_course` — the course of every simulation.
-/

namespace Motewatch.Simulation

variable {ε ω : Type}

/-! ## The order of entries -/

namespace Entry
variable {a b c : Entry ε}

theorem precedes_iff : a.precedes b = true ↔
    a.time.micros < b.time.micros ∨ (a.time.micros = b.time.micros ∧ a.ticket < b.ticket) := by
  have htime : a.time = b.time ↔ a.time.micros = b.time.micros :=
    ⟨fun h => by rw [h], Instant.ext⟩
  simp [precedes, Instant.lt_def, htime]

theorem precedes_trans (hab : a.precedes b = true) (hbc : b.precedes c = true) :
    a.precedes c = true := by
  rw [precedes_iff] at hab hbc ⊢
  omega

theorem not_precedes_of_precedes (hab : a.precedes b = true) : ¬b.precedes a = true := by
  rw [precedes_iff] at hab ⊢
  omega

/-- Of two entries with different tickets one precedes the other. -/
theorem precedes_of_not_precedes (hticket : a.ticket ≠ b.ticket) (h : ¬a.precedes b = true) :
    b.precedes a = true := by
  rw [precedes_iff] at h ⊢
  omega

end Entry

/-- Each entry precedes all those behind it. -/
def InOrder (entries : List (Entry ε)) : Prop := entries.Pairwise fun e f => e.precedes f = true

theorem InOrder.insertEntry {e : Entry ε} {entries : List (Entry ε)} (h : InOrder entries)
    (hnew : ∀ f ∈ entries, e.ticket ≠ f.ticket) : InOrder (insertEntry e entries) := by
  induction entries with
  | nil => exact List.pairwise_singleton _ _
  | cons f rest ih =>
      obtain ⟨hfirst, hrest⟩ := List.pairwise_cons.1 h
      rw [insertEntry_cons]
      split
      · rename_i hef
        refine List.pairwise_cons.2 ⟨fun g hg => ?_, h⟩
        rcases List.mem_cons.1 hg with rfl | hg
        · exact hef
        · exact Entry.precedes_trans hef (hfirst g hg)
      · rename_i hef
        have hfe := Entry.precedes_of_not_precedes (hnew f (List.mem_cons_self ..)) hef
        refine List.pairwise_cons.2 ⟨fun g hg => ?_, ih hrest fun g hg => hnew g (by simp [hg])⟩
        rcases List.mem_cons.1 ((perm_insertEntry e rest).mem_iff.1 hg) with rfl | hg
        · exact hfe
        · exact hfirst g hg

/-- The order of entries leaves no choice. -/
theorem InOrder.eq_of_perm {entries entries' : List (Entry ε)} (h : InOrder entries)
    (h' : InOrder entries') (hperm : entries.Perm entries') : entries = entries' :=
  List.Perm.eq_of_pairwise
    (fun _ _ _ _ hab hba => absurd hba (Entry.not_precedes_of_precedes hab)) h h' hperm

/-- Without one of them, which is known by its ticket, entries stay as they are. -/
theorem filter_ticket_ne {before behind : List (Entry ε)} {e : Entry ε}
    (h : ((before ++ e :: behind).map (·.ticket)).Nodup) :
    (before ++ e :: behind).filter (·.ticket ≠ e.ticket) = before ++ behind := by
  have hticket : ∀ f ∈ before ++ behind, f.ticket ≠ e.ticket := by
    intro f hf heq
    have hperm : (before ++ e :: behind).Perm (e :: (before ++ behind)) := List.perm_middle
    have hnodup := (hperm.map (·.ticket)).nodup_iff.1 h
    rw [List.map_cons, List.nodup_cons] at hnodup
    exact hnodup.1 (heq ▸ List.mem_map_of_mem hf)
  have hkept : (before ++ behind).filter (·.ticket ≠ e.ticket) = before ++ behind :=
    List.filter_eq_self.2 fun f hf => by simpa using hticket f hf
  simpa using hkept

namespace Agenda

theorem stamp_append (ticket : Nat) (calls more : List (Instant × ε)) :
    stamp ticket (calls ++ more) = stamp ticket calls ++ stamp (ticket + calls.length) more := by
  simp [stamp, List.zipIdx_append]

/-- The tickets of events are their places. -/
theorem tickets_stamp (calls : List (Instant × ε)) :
    (stamp 0 calls).map (·.ticket) = List.range calls.length := by
  rw [stamp, List.map_map, List.range_eq_range']
  exact List.zipIdx_map_snd 0 calls

/-- Entries that are sorted in one go are in order. -/
theorem inOrder_mergeSort {entries : List (Entry ε)} (h : (entries.map (·.ticket)).Nodup) :
    InOrder (entries.mergeSort fun e f => !f.precedes e) := by
  have hsorted : (entries.mergeSort fun e f => !f.precedes e).Pairwise
      fun e f => (!f.precedes e) = true := by
    refine List.pairwise_mergeSort (fun a b c hab hbc => ?_) (fun a b => ?_) entries
    · rw [Bool.not_eq_true', ← Bool.not_eq_true, Entry.precedes_iff] at hab hbc ⊢
      omega
    · rw [Bool.or_eq_true, Bool.not_eq_true', Bool.not_eq_true', ← Bool.not_eq_true,
        ← Bool.not_eq_true, Entry.precedes_iff, Entry.precedes_iff]
      omega
  have hnodup : ((entries.mergeSort fun e f => !f.precedes e).map (·.ticket)).Nodup :=
    (((List.mergeSort_perm entries _).map _).nodup_iff).2 h
  refine (hsorted.and (List.pairwise_map.1 hnodup)).imp fun {e f} hef => ?_
  exact Entry.precedes_of_not_precedes hef.2.symm (by simpa using hef.1)

end Agenda

/-! ## Keeping account -/

/-- The events that commands enter, with their times. -/
def entered (commands : List (Command ε)) : List (Instant × ε) :=
  commands.filterMap fun
    | .enter time event => some (time, event)
    | .halt => none

@[simp] theorem entered_nil : entered ([] : List (Command ε)) = [] := rfl

@[simp] theorem entered_enter (time : Instant) (event : ε) :
    entered [.enter time event] = [(time, event)] := rfl

@[simp] theorem entered_halt : entered [(.halt : Command ε)] = [] := rfl

@[simp] theorem entered_append (commands more : List (Command ε)) :
    entered (commands ++ more) = entered commands ++ entered more := by
  simp [entered]

namespace Simulator
variable {s : Simulator ε} {calls : List (Instant × ε)} {taken : List (Entry ε)} {e : Entry ε}

@[simp] theorem obeyAll_nil (s : Simulator ε) : s.obeyAll [] = s := rfl

@[simp] theorem obeyAll_cons (s : Simulator ε) (c : Command ε) (rest : List (Command ε)) :
    s.obeyAll (c :: rest) = (s.obey c).obeyAll rest := rfl

theorem obeyAll_append (s : Simulator ε) (commands more : List (Command ε)) :
    s.obeyAll (commands ++ more) = (s.obeyAll commands).obeyAll more := by
  simp [obeyAll]

/-- No command touches the clock. -/
@[simp] theorem now_obeyAll (s : Simulator ε) (commands : List (Command ε)) :
    (s.obeyAll commands).now = s.now := by
  induction commands generalizing s with
  | nil => rfl
  | cons c rest ih =>
      rw [obeyAll_cons, ih]
      cases c <;> rfl

/-- A simulation is halted by the command to halt and by nothing else. -/
theorem halted_obeyAll (s : Simulator ε) (commands : List (Command ε)) :
    (s.obeyAll commands).halted = true ↔ s.halted = true ∨ .halt ∈ commands := by
  induction commands generalizing s with
  | nil => simp
  | cons c rest ih =>
      rw [obeyAll_cons, ih]
      cases c <;> simp [obey, enter]

/-- What the calls have entered has been taken or is still to come, and each of it once. The ticket of
an entry is the place of its call. -/
structure Accounts (s : Simulator ε) (calls : List (Instant × ε)) (taken : List (Entry ε)) :
    Prop where
  nextTicket : s.agenda.nextTicket = calls.length
  inOrder : InOrder s.agenda.entries
  perm : (taken ++ s.agenda.entries).Perm (Agenda.stamp 0 calls)

theorem accounts_fresh : (fresh : Simulator ε).Accounts [] [] :=
  ⟨rfl, List.Pairwise.nil, List.Perm.refl _⟩

/-- The simulation when an entry has been taken: its event acts at its time, and it is no longer on
the agenda. -/
def taking (s : Simulator ε) (e : Entry ε) : Simulator ε where
  now := e.time
  agenda := ⟨s.agenda.entries.filter (·.ticket ≠ e.ticket), s.agenda.nextTicket⟩
  halted := s.halted

namespace Accounts

/-- No two entries have the same ticket. -/
theorem nodup (h : s.Accounts calls taken) :
    ((taken ++ s.agenda.entries).map (·.ticket)).Nodup := by
  rw [(h.perm.map _).nodup_iff, Agenda.tickets_stamp]
  exact List.nodup_range

theorem nodup_entries (h : s.Accounts calls taken) :
    (s.agenda.entries.map (·.ticket)).Nodup := by
  have hnodup := h.nodup
  rw [List.map_append] at hnodup
  exact hnodup.of_append_right

theorem ticket_lt (h : s.Accounts calls taken) (he : e ∈ s.agenda.entries) :
    e.ticket < calls.length := by
  have hmem : e ∈ Agenda.stamp 0 calls := h.perm.mem_iff.1 (List.mem_append_right _ he)
  have hticket := List.mem_map_of_mem (f := fun e : Entry ε => e.ticket) hmem
  rw [Agenda.tickets_stamp] at hticket
  exact List.mem_range.1 hticket

/-- As many entries are to come as have been entered and not taken. -/
theorem pending_eq (h : s.Accounts calls taken) : s.pending = calls.length - taken.length := by
  have hlength := h.perm.length_eq
  have hstamp := congrArg List.length (Agenda.tickets_stamp calls)
  simp only [List.length_append, List.length_map, List.length_range] at hlength hstamp
  rw [pending, Agenda.size]
  omega

theorem obey (h : s.Accounts calls taken) (c : Command ε) :
    (s.obey c).Accounts (calls ++ entered [c]) taken := by
  cases c with
  | halt =>
      rw [entered_halt, List.append_nil]
      exact ⟨h.nextTicket, h.inOrder, h.perm⟩
  | enter time event =>
      have hnew : ∀ f ∈ s.agenda.entries, s.agenda.nextTicket ≠ f.ticket := by
        intro f hf
        have := h.ticket_lt hf
        rw [h.nextTicket]
        omega
      refine ⟨?_, h.inOrder.insertEntry hnew, ?_⟩
      · simp [Simulator.obey, enter, Agenda.enter, h.nextTicket]
      · have hlast : Agenda.stamp calls.length [(time, event)] =
            [⟨time, s.agenda.nextTicket, event⟩] := by
          rw [h.nextTicket]
          rfl
        rw [entered_enter, Agenda.stamp_append, Nat.zero_add, hlast]
        refine ((perm_insertEntry _ _).append_left taken).trans ?_
        refine List.perm_middle.trans (List.Perm.trans ?_ (List.perm_append_singleton _ _).symm)
        exact h.perm.cons _

/-- **Commands lose nothing and double nothing.** -/
theorem obeyAll (h : s.Accounts calls taken) (commands : List (Command ε)) :
    (s.obeyAll commands).Accounts (calls ++ entered commands) taken := by
  induction commands generalizing s calls with
  | nil => simpa using h
  | cons c rest ih =>
      have hrest := ih (h.obey c)
      rwa [List.append_assoc, ← entered_append] at hrest

/-- **An entry that is taken is no longer to come**, and all the others are. -/
theorem taking (h : s.Accounts calls taken) (he : e ∈ s.agenda.entries) :
    (s.taking e).Accounts calls (taken ++ [e]) := by
  refine ⟨h.nextTicket, List.Pairwise.filter _ h.inOrder, ?_⟩
  have hnodup := h.nodup_entries
  have hperm := h.perm
  obtain ⟨before, behind, hentries⟩ := List.append_of_mem he
  rw [hentries] at hnodup hperm
  simp only [Simulator.taking, hentries, filter_ticket_ne hnodup]
  rw [List.append_assoc, List.singleton_append]
  exact (List.perm_middle.symm.append_left taken).trans hperm

/-- When the first entry is taken, those behind it are left. -/
theorem entries_taking (h : s.Accounts calls taken) {rest : List (Entry ε)}
    (hentries : s.agenda.entries = e :: rest) : (s.taking e).agenda.entries = rest := by
  have hnodup := h.nodup_entries
  rw [hentries] at hnodup
  have hrest : ([] ++ e :: rest).filter (·.ticket ≠ e.ticket) = [] ++ rest :=
    filter_ticket_ne hnodup
  rw [Simulator.taking, hentries]
  exact hrest

/-- Entering events one by one is the same as entering them in one go. -/
theorem agenda_eq (h : s.Accounts calls []) : s.agenda = Agenda.empty.enterAll calls := by
  have hentries : s.agenda.entries = (Agenda.empty.enterAll calls).entries := by
    have hnodup : ((Agenda.stamp 0 calls).map (·.ticket)).Nodup := by
      rw [Agenda.tickets_stamp]
      exact List.nodup_range
    exact h.inOrder.eq_of_perm (Agenda.inOrder_mergeSort hnodup)
      (h.perm.trans (List.mergeSort_perm _ _).symm)
  have hticket : s.agenda.nextTicket = (Agenda.empty.enterAll calls).nextTicket := by
    simp [h.nextTicket, Agenda.enterAll, Agenda.empty]
  revert hentries hticket
  cases s.agenda
  rintro rfl rfl
  rfl

end Accounts

end Simulator

/-! ## Rounds -/

/-- A round of a simulation: the entry that is taken, and what its event and then the world ask
for. -/
structure Round (ε : Type) where
  taken : Entry ε
  byEvent : List (Command ε)
  byWorld : List (Command ε)

/-- All that is asked for in a round. -/
def Round.commands (r : Round ε) : List (Command ε) := r.byEvent ++ r.byWorld

/-- The round leads from one simulation to the next. An entry is taken that precedes all others to
come; its event acts once, at its time, and then the world acts once. -/
structure Round.Leads (b : Behaviour ε ω) (r : Round ε) (s : Simulator ε) (w : ω)
    (s' : Simulator ε) (w' : ω) : Prop where
  running : s.halted = false
  mem : r.taken ∈ s.agenda.entries
  first : ∀ e ∈ s.agenda.entries, e ≠ r.taken →
    r.taken.time < e.time ∨ (r.taken.time = e.time ∧ r.taken.ticket < e.ticket)
  acts : ∃ between, b.execute (s.taking r.taken) r.taken.event w = (between, r.byEvent) ∧
    b.afterEvent ((s.taking r.taken).obeyAll r.byEvent) between = (w', r.byWorld)
  next : s' = (s.taking r.taken).obeyAll r.commands

/-- The rounds lead from one simulation to another. -/
inductive Course (b : Behaviour ε ω) :
    Simulator ε → ω → List (Round ε) → Simulator ε → ω → Prop
  | nil (s : Simulator ε) (w : ω) : Course b s w [] s w
  | cons {s s' s'' : Simulator ε} {w w' w'' : ω} {r : Round ε} {rounds : List (Round ε)}
      (first : r.Leads b s w s' w') (rest : Course b s' w' rounds s'' w'') :
      Course b s w (r :: rounds) s'' w''

variable {b : Behaviour ε ω} {s s' : Simulator ε} {w w' : ω} {r : Round ε}
variable {rounds : List (Round ε)} {calls : List (Instant × ε)} {taken : List (Entry ε)}

namespace Round.Leads

theorem now_eq (h : r.Leads b s w s' w') : s'.now = r.taken.time := by
  rw [h.next, Simulator.now_obeyAll]
  rfl

theorem halted_iff (h : r.Leads b s w s' w') : s'.halted = true ↔ .halt ∈ r.commands := by
  have hrunning : (s.taking r.taken).halted = false := h.running
  rw [h.next, Simulator.halted_obeyAll, hrunning]
  simp

/-- At every moment of a round it is known what has been taken and what is to come. -/
theorem accounts_during (h : r.Leads b s w s' w') (ha : s.Accounts calls taken)
    (commands : List (Command ε)) :
    ((s.taking r.taken).obeyAll commands).Accounts (calls ++ entered commands)
      (taken ++ [r.taken]) :=
  (ha.taking h.mem).obeyAll commands

theorem accounts (h : r.Leads b s w s' w') (ha : s.Accounts calls taken) :
    s'.Accounts (calls ++ entered r.commands) (taken ++ [r.taken]) := by
  rw [h.next]
  exact h.accounts_during ha r.commands

/-- The entry that is taken stands first. -/
theorem exists_entries_eq (h : r.Leads b s w s' w') (ha : s.Accounts calls taken) :
    ∃ rest, s.agenda.entries = r.taken :: rest := by
  have hinOrder := ha.inOrder
  obtain ⟨before, behind, hentries⟩ := List.append_of_mem h.mem
  rw [hentries] at hinOrder
  -- No entry stands before the one that precedes all others.
  have hbefore : before = [] := by
    rw [List.eq_nil_iff_forall_not_mem]
    intro e he
    have hprecedes := (List.pairwise_append.1 hinOrder).2.2 e he r.taken (List.mem_cons_self ..)
    by_cases heq : e = r.taken
    · rw [heq] at hprecedes
      exact Entry.not_precedes_of_precedes hprecedes hprecedes
    · have hfirst := h.first e (by simp [hentries, he]) heq
      refine Entry.not_precedes_of_precedes hprecedes (Entry.precedes_iff.2 ?_)
      exact hfirst.imp id fun ⟨htime, hticket⟩ => ⟨by rw [htime], hticket⟩
  exact ⟨behind, by rw [hentries, hbefore, List.nil_append]⟩

/-- If an event and the world ask for nothing, the entry that is taken is all that changes. -/
theorem entries_eq_of_quiet (h : r.Leads b s w s' w') (ha : s.Accounts calls taken)
    (hquiet : r.commands = []) : s.agenda.entries = r.taken :: s'.agenda.entries := by
  obtain ⟨rest, hentries⟩ := h.exists_entries_eq ha
  rw [h.next, hquiet, Simulator.obeyAll_nil, ha.entries_taking hentries, hentries]

end Round.Leads

namespace Course

theorem of_cons (h : Course b s w (r :: rounds) s' w') :
    ∃ s₁ w₁, r.Leads b s w s₁ w₁ ∧ Course b s₁ w₁ rounds s' w' := by
  cases h with
  | cons hfirst hrest => exact ⟨_, _, hfirst, hrest⟩

theorem of_append {more : List (Round ε)}
    (h : Course b s w (rounds ++ more) s' w') :
    ∃ s₁ w₁, Course b s w rounds s₁ w₁ ∧ Course b s₁ w₁ more s' w' := by
  induction rounds generalizing s w with
  | nil => exact ⟨s, w, .nil s w, h⟩
  | cons r rest ih =>
      obtain ⟨_, _, hfirst, hrest⟩ := h.of_cons
      obtain ⟨s₁, w₁, hrest, hmore⟩ := ih hrest
      exact ⟨s₁, w₁, .cons hfirst hrest, hmore⟩

/-- **Whatever has been entered has been taken in some round or is still to come**, and each of it
once. -/
theorem accounts (h : Course b s w rounds s' w') (ha : s.Accounts calls taken) :
    s'.Accounts (calls ++ entered (rounds.flatMap Round.commands))
      (taken ++ rounds.map (·.taken)) := by
  induction h generalizing calls taken with
  | nil => simpa using ha
  | cons hfirst _ ih =>
      have hrest := ih (hfirst.accounts ha)
      simpa [List.append_assoc] using hrest

/-- A simulation is halted exactly if that has been asked for. -/
theorem halted_iff (h : Course b s w rounds s' w') :
    s'.halted = true ↔ s.halted = true ∨ .halt ∈ rounds.flatMap Round.commands := by
  induction h with
  | nil => simp
  | cons hfirst _ ih => simp [ih, hfirst.halted_iff, hfirst.running]

/-- If nothing is ever asked for, entries are taken as they stand on the agenda. -/
theorem entries_eq_of_quiet (h : Course b s w rounds s' w') (ha : s.Accounts calls taken)
    (hquiet : ∀ r ∈ rounds, r.commands = []) :
    s.agenda.entries = rounds.map (·.taken) ++ s'.agenda.entries := by
  induction h generalizing calls taken with
  | nil => rfl
  | cons hfirst _ ih =>
      have hrest := ih (hfirst.accounts ha) fun r hr => hquiet r (List.mem_cons_of_mem _ hr)
      rw [hfirst.entries_eq_of_quiet ha (hquiet _ (List.mem_cons_self ..)), hrest]
      rfl

theorem commands_eq_nil (h : Course b s w rounds s' w') (hevent : ∀ s e w, (b.execute s e w).2 = [])
    (hworld : ∀ s w, (b.afterEvent s w).2 = []) : ∀ r ∈ rounds, r.commands = [] := by
  induction h with
  | nil => simp
  | cons hfirst _ ih =>
      refine List.forall_mem_cons.2 ⟨?_, ih⟩
      obtain ⟨between, hexecute, hafter⟩ := hfirst.acts
      have hbyEvent := (congrArg Prod.snd hexecute).symm.trans (hevent ..)
      have hbyWorld := (congrArg Prod.snd hafter).symm.trans (hworld ..)
      exact List.append_eq_nil_iff.2 ⟨hbyEvent, hbyWorld⟩

/-- If nothing is ever asked for and nothing is left to come, everything that was entered before is
taken in the order of its times. -/
theorem taken_eq_of_quiet (h : Course b s w rounds s' w') (hs : s.Accounts calls [])
    (hquiet : ∀ r ∈ rounds, r.commands = []) (hempty : s'.agenda.entries = []) :
    rounds.map (fun r => (r.taken.time, r.taken.event)) = sortBy (·.1.micros) calls := by
  have hentries := h.entries_eq_of_quiet hs hquiet
  have hqueue := Agenda.queue_enterAll_empty calls
  rw [hempty, List.append_nil] at hentries
  rw [← hs.agenda_eq, Agenda.queue, hentries, List.map_map] at hqueue
  exact hqueue

end Course

/-! ## Whole simulations -/

namespace Simulator

/-- A simulation stops when it is halted or has nothing to come. -/
theorem step_eq_none_iff : s.step b w = none ↔ s.halted = true ∨ s.agenda.entries = [] := by
  unfold step
  cases s.halted
  · cases s.agenda.entries <;> simp
  · simp

/-- The entry that stands first is taken. -/
theorem step_eq_taking (ha : s.Accounts calls taken) {e : Entry ε} {rest : List (Entry ε)}
    (hrunning : s.halted = false) (hentries : s.agenda.entries = e :: rest) (w : ω) :
    s.step b w =
      let acted := b.execute (s.taking e) e.event w
      let after := b.afterEvent ((s.taking e).obeyAll acted.2) acted.1
      some (((s.taking e).obeyAll acted.2).obeyAll after.2, after.1) := by
  have htaking : s.taking e = { s with now := e.time, agenda := ⟨rest, s.agenda.nextTicket⟩ } := by
    rw [← ha.entries_taking hentries]
    rfl
  simp [step, hrunning, hentries, htaking]

/-- **Every step of a simulation is a round.** -/
theorem exists_leads (ha : s.Accounts calls taken) (hstep : s.step b w = some (s', w')) :
    ∃ r : Round ε, r.Leads b s w s' w' := by
  have hgoes : ¬(s.halted = true ∨ s.agenda.entries = []) := by
    rw [← step_eq_none_iff (b := b) (w := w), hstep]
    simp
  obtain ⟨hrunning, hne⟩ := not_or.1 hgoes
  obtain ⟨e, rest, hentries⟩ := List.exists_cons_of_ne_nil hne
  have hinOrder := ha.inOrder
  rw [hentries] at hinOrder
  rw [step_eq_taking ha (by simpa using hrunning) hentries] at hstep
  obtain ⟨rfl, rfl⟩ := Prod.mk.inj (Option.some.inj hstep)
  let acted := b.execute (s.taking e) e.event w
  let after := b.afterEvent ((s.taking e).obeyAll acted.2) acted.1
  refine ⟨⟨e, acted.2, after.2⟩, by simpa using hrunning, by simp [hentries], ?_,
    ⟨acted.1, rfl, rfl⟩, ?_⟩
  · intro f hf hne
    rw [hentries, List.mem_cons] at hf
    have hprecedes := (List.pairwise_cons.1 hinOrder).1 f (hf.resolve_left hne)
    rw [Entry.precedes_iff] at hprecedes
    exact hprecedes.imp id fun ⟨htime, hticket⟩ => ⟨Instant.ext htime, hticket⟩
  · exact (obeyAll_append ..).symm

theorem exists_course (ha : s.Accounts calls taken) (b : Behaviour ε ω) (limit : Nat) (w : ω) :
    ∃ rounds, Course b s w rounds (s.run b limit w).1 (s.run b limit w).2 ∧
      rounds.length ≤ limit ∧
      (rounds.length < limit → (s.run b limit w).1.halted = true ∨
        (s.run b limit w).1.agenda.entries = []) := by
  induction limit generalizing s w calls taken with
  | zero => exact ⟨[], .nil s w, Nat.le_refl 0, fun h => absurd h (Nat.lt_irrefl 0)⟩
  | succ limit ih =>
      rw [run]
      cases hstep : s.step b w with
      | none => exact ⟨[], .nil s w, Nat.zero_le _, fun _ => step_eq_none_iff.1 hstep⟩
      | some next =>
        obtain ⟨r, hleads⟩ := exists_leads ha hstep
        obtain ⟨rounds, hcourse, hlength, hends⟩ := ih (hleads.accounts ha) next.2
        exact ⟨r :: rounds, .cons hleads hcourse, Nat.succ_le_succ hlength,
          fun hlt => hends (Nat.lt_of_succ_lt_succ hlt)⟩

/-- **The course of every simulation.** Whatever has been entered beforehand, and whatever events and
the world ask for: in each round the entry is taken that comes first by its time and, among those of
one time, by the order in which they were entered; the clock shows its time; its event acts once and
then the world acts once. At every moment, also in the middle of a round, what has been entered has
been taken once or is still to come once. There is no round after a halt, and else none only when
there is nothing to come. Where nothing more is entered and nothing halts, events are taken in the
order of their times, and those of one time in the order in which they were entered. -/
theorem run_course (b : Behaviour ε ω) (before : List (Command ε)) (w : ω) (limit : Nat) :
    let s := (fresh : Simulator ε).obeyAll before
    let last := s.run b limit w
    ∃ rounds, Course b s w rounds last.1 last.2 ∧
      (∀ done r rest, rounds = done ++ r :: rest → ∃ s₁ w₁ s₂ w₂,
        Course b s w done s₁ w₁ ∧ r.Leads b s₁ w₁ s₂ w₂ ∧ Course b s₂ w₂ rest last.1 last.2 ∧
        s₂.now = r.taken.time ∧ .halt ∉ before ++ done.flatMap Round.commands ∧
        s₁.Accounts (entered (before ++ done.flatMap Round.commands)) (done.map (·.taken)) ∧
        ∀ commands, commands <+: r.commands →
          ((s₁.taking r.taken).obeyAll commands).Accounts
            (entered (before ++ done.flatMap Round.commands ++ commands))
            ((done ++ [r]).map (·.taken))) ∧
      last.1.Accounts (entered (before ++ rounds.flatMap Round.commands)) (rounds.map (·.taken)) ∧
      last.1.pending =
        (entered (before ++ rounds.flatMap Round.commands)).length - rounds.length ∧
      rounds.length ≤ limit ∧
      (rounds.length < limit →
        .halt ∈ before ++ rounds.flatMap Round.commands ∨ last.1.agenda.entries = []) ∧
      ((∀ s e w, (b.execute s e w).2 = []) → (∀ s w, (b.afterEvent s w).2 = []) →
        .halt ∉ before → (entered before).length ≤ limit →
        rounds.map (fun r => (r.taken.time, r.taken.event)) =
          sortBy (·.1.micros) (entered before)) := by
  intro s last
  have hstart : s.Accounts (entered before) [] := accounts_fresh.obeyAll before
  have hhalted : s.halted = true ↔ .halt ∈ before := by simp [s, halted_obeyAll, fresh]
  obtain ⟨rounds, hcourse, hlength, hends⟩ := exists_course hstart b limit w
  have hlast : last.1.Accounts (entered (before ++ rounds.flatMap Round.commands))
      (rounds.map (·.taken)) := by
    simpa using hcourse.accounts hstart
  refine ⟨rounds, hcourse, ?_, hlast, by simpa using hlast.pending_eq, hlength, ?_, ?_⟩
  · rintro done r rest rfl
    obtain ⟨s₁, w₁, hdone, hmore⟩ := hcourse.of_append
    obtain ⟨s₂, w₂, hleads, hrest⟩ := hmore.of_cons
    have hs₁ : s₁.Accounts (entered (before ++ done.flatMap Round.commands))
        (done.map (·.taken)) := by
      simpa using hdone.accounts hstart
    refine ⟨s₁, w₁, s₂, w₂, hdone, hleads, hrest, hleads.now_eq, fun hhalt => ?_, hs₁, ?_⟩
    · have hstopped : s₁.halted = true := by
        rw [hdone.halted_iff, hhalted]
        exact List.mem_append.1 hhalt
      rw [hleads.running] at hstopped
      contradiction
    · intro commands _
      rw [entered_append, List.map_append]
      exact hleads.accounts_during hs₁ commands
  · intro hlt
    rw [List.mem_append, ← hhalted, ← hcourse.halted_iff]
    exact hends hlt
  · intro hevent hworld hhalt henough
    have hquiet := hcourse.commands_eq_nil hevent hworld
    have hnone : rounds.flatMap Round.commands = [] := List.flatMap_eq_nil_iff.2 hquiet
    have hempty : last.1.agenda.entries = [] := by
      rcases Nat.lt_or_eq_of_le hlength with hlt | heq
      · refine (hends hlt).resolve_left fun hstopped => ?_
        rw [hcourse.halted_iff, hhalted, hnone] at hstopped
        exact hhalt (by simpa using hstopped)
      · have hpending := hlast.pending_eq
        rw [hnone, List.append_nil, List.length_map, heq] at hpending
        exact List.length_eq_zero_iff.1 (hpending.trans (Nat.sub_eq_zero_of_le henough))
    exact hcourse.taken_eq_of_quiet hstart hquiet hempty

/-- Three events that enter nothing: the earliest one is taken first, and the other two, which have
the same time, in the order in which they were entered. -/
theorem run_course_three_events :
    let b : Behaviour String Unit := ⟨fun _ _ _ => ((), []), fun _ _ => ((), [])⟩
    let before : List (Command String) :=
      [.enter (.ofMicros 5) "b", .enter (.ofMicros 3) "a", .enter (.ofMicros 5) "c"]
    ∃ rounds, Course b (fresh.obeyAll before) () rounds
        ((fresh.obeyAll before).run b 3 ()).1 ((fresh.obeyAll before).run b 3 ()).2 ∧
      rounds.map (fun r => (r.taken.time, r.taken.event)) =
        [(.ofMicros 3, "a"), (.ofMicros 5, "b"), (.ofMicros 5, "c")] := by
  intro b before
  obtain ⟨rounds, hcourse, -, -, -, -, -, hquiet⟩ := run_course b before () 3
  refine ⟨rounds, hcourse, ?_⟩
  have hhalt : .halt ∉ before := by simp [before]
  rw [hquiet (fun _ _ _ => rfl) (fun _ _ => rfl) hhalt (by decide)]
  refine (eq_sortBy_iff.2 ⟨by decide, fun k => ?_⟩).symm
  by_cases h : 3 = k
  · subst h
    decide
  · simp [before, entered, wordLimit, List.filter_cons, h]

end Simulator

end Motewatch.Simulation
