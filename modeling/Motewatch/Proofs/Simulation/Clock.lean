import Motewatch.Proofs.Simulation.Rounds

/-!
# The clock of a simulation

The clock is set to the time of whatever entry is taken, so it may well run backwards: an event may
enter another one for a time that has passed. If none does, nothing is ever to come before the time
that the clock shows, and the clock only runs forwards. This hangs on nothing but the order in which
entries are taken, as an entry that is taken comes no later than those that stay.

A simulation that has come to its end stays there, whatever its clock has shown.

## Main definitions

* `Simulator.IsAhead` — nothing is to come before the time that the clock shows.
* `Round.IsForward` — in a round, nothing is entered for a time before that of the round.
* `RunsForward` — the clock only runs forwards.

## Main results

* `Round.Leads.isAhead_during` — what is to come stays ahead of the clock at every moment of a
  round.
* `Course.runsForward` — the clock only runs forwards if no round enters anything for a time before.
* `Simulator.run_of_ended` — a simulation that has come to its end stays there.
-/

namespace Motewatch.Simulation

variable {ε ω : Type} {b : Behaviour ε ω} {s s' : Simulator ε} {w w' : ω}
variable {r : Round ε} {rounds : List (Round ε)}

/-- Nothing is to come before the time that the clock shows. -/
def Simulator.IsAhead (s : Simulator ε) : Prop := ∀ e ∈ s.agenda.entries, s.now ≤ e.time

/-- In the round nothing is entered for a time before the one that the clock shows. -/
def Round.IsForward (r : Round ε) : Prop := ∀ call ∈ entered r.commands, r.taken.time ≤ call.1

/-- In the rounds that lead from one simulation to another the clock only runs forwards, and at
every moment, also in the middle of a round, nothing is to come before the time that it shows. -/
structure RunsForward (b : Behaviour ε ω) (s : Simulator ε) (w : ω) (rounds : List (Round ε))
    (s' : Simulator ε) (w' : ω) : Prop where
  times : (rounds.map (·.taken.time)).Pairwise (· ≤ ·)
  isAhead : s'.IsAhead
  moments : ∀ done r rest, rounds = done ++ r :: rest → ∃ s₁ w₁ s₂ w₂,
    Course b s w done s₁ w₁ ∧ r.Leads b s₁ w₁ s₂ w₂ ∧ Course b s₂ w₂ rest s' w' ∧
    s₁.IsAhead ∧ s₁.now ≤ r.taken.time ∧
    ∀ commands, commands <+: r.commands → ((s₁.taking r.taken).obeyAll commands).IsAhead

/-! ## What is entered -/

theorem mem_entered {call : Instant × ε} {commands : List (Command ε)} :
    call ∈ entered commands ↔ .enter call.1 call.2 ∈ commands := by
  rw [entered, List.mem_filterMap]
  constructor
  · rintro ⟨c, hc, hcall⟩
    cases c with
    | enter time event =>
      obtain rfl := Option.some.inj hcall
      exact hc
    | halt => contradiction
  · exact fun h => ⟨_, h, rfl⟩

theorem entered_map_enter (calls : List (Instant × ε)) :
    entered (calls.map fun call => .enter call.1 call.2) = calls := by
  rw [entered, List.filterMap_map]
  exact List.filterMap_some

theorem Agenda.mem_of_mem_stamp {ticket : Nat} {calls : List (Instant × ε)} {e : Entry ε}
    (h : e ∈ stamp ticket calls) : (e.time, e.event) ∈ calls := by
  obtain ⟨⟨call, place⟩, hcall, rfl⟩ := List.mem_map.1 h
  exact (List.mem_zipIdx hcall).2.2 ▸ List.getElem_mem _

namespace Simulator

/-- Before the start it makes no difference whether events are entered one by one. -/
theorem enterAll_eq_obeyAll (calls : List (Instant × ε)) :
    (fresh : Simulator ε).enterAll calls =
      fresh.obeyAll (calls.map fun call => .enter call.1 call.2) := by
  generalize hcommands : calls.map (fun call => Command.enter call.1 call.2) = commands
  have hagenda := (accounts_fresh.obeyAll commands).agenda_eq
  have hhalted : (fresh.obeyAll commands).halted = false := by
    rw [← Bool.not_eq_true, halted_obeyAll, ← hcommands]
    simp [fresh]
  have hnow := now_obeyAll fresh commands
  rw [List.nil_append, ← hcommands, entered_map_enter, hcommands] at hagenda
  revert hagenda hnow hhalted
  cases fresh.obeyAll commands
  rintro rfl rfl rfl
  rfl

/-! ## At one moment -/

theorem isAhead_fresh : (fresh : Simulator ε).IsAhead := by
  intro e he
  cases he

/-- What is entered for a time that has not passed stays ahead of the clock. -/
theorem IsAhead.obey (h : s.IsAhead) {c : Command ε} (hc : ∀ call ∈ entered [c], s.now ≤ call.1) :
    (s.obey c).IsAhead := by
  cases c with
  | halt => exact h
  | enter time event =>
    intro e he
    rcases List.mem_cons.1 ((perm_insertEntry ..).mem_iff.1 he) with rfl | he
    · exact hc (time, event) (by simp)
    · exact h e he

theorem IsAhead.obeyAll (h : s.IsAhead) {commands : List (Command ε)}
    (hcommands : ∀ call ∈ entered commands, s.now ≤ call.1) : (s.obeyAll commands).IsAhead := by
  induction commands generalizing s with
  | nil => exact h
  | cons c rest ih =>
    have hsplit : entered (c :: rest) = entered [c] ++ entered rest := entered_append [c] rest
    rw [hsplit, List.forall_mem_append] at hcommands
    have hnow : (s.obey c).now = s.now := now_obeyAll s [c]
    exact ih (h.obey hcommands.1) (by rw [hnow]; exact hcommands.2)

/-- Before the start, anything may be entered. -/
theorem isAhead_before (before : List (Command ε)) : (fresh.obeyAll before).IsAhead :=
  isAhead_fresh.obeyAll fun _ _ => Nat.zero_le _

end Simulator

/-! ## Over a round -/

namespace Round.Leads
variable (h : r.Leads b s w s' w')
include h

/-- The entry that is taken comes no later than those that stay. -/
theorem isAhead_taking : (s.taking r.taken).IsAhead := by
  intro e he
  obtain ⟨hmem, hticket⟩ := List.mem_filter.1 he
  have hne : e ≠ r.taken := by
    rintro rfl
    simp at hticket
  rcases h.first e hmem hne with hlt | ⟨heq, -⟩
  · exact Nat.le_of_lt hlt
  · exact Nat.le_of_eq (congrArg Instant.micros heq)

/-- **What is to come stays ahead of the clock**, also in the middle of a round. -/
theorem isAhead_during (hr : r.IsForward) {commands : List (Command ε)}
    (hcommands : commands <+: r.commands) : ((s.taking r.taken).obeyAll commands).IsAhead := by
  refine h.isAhead_taking.obeyAll fun call hcall => hr call ?_
  obtain ⟨rest, hrest⟩ := hcommands
  rw [← hrest, entered_append]
  exact List.mem_append_left _ hcall

theorem isAhead (hr : r.IsForward) : s'.IsAhead := by
  rw [h.next]
  exact h.isAhead_during hr (List.prefix_refl _)

/-- The clock runs forwards. -/
theorem now_le (hs : s.IsAhead) : s.now ≤ s'.now := by
  rw [h.now_eq]
  exact hs r.taken h.mem

end Round.Leads

/-! ## Over a course -/

namespace Course

theorem isAhead (h : Course b s w rounds s' w') (hs : s.IsAhead) (hr : ∀ r ∈ rounds, r.IsForward) :
    s'.IsAhead := by
  induction h with
  | nil => exact hs
  | cons hfirst _ ih =>
    obtain ⟨hr, hrest⟩ := List.forall_mem_cons.1 hr
    exact ih (hfirst.isAhead hr) hrest

theorem now_le (h : Course b s w rounds s' w') (hs : s.IsAhead) (hr : ∀ r ∈ rounds, r.IsForward) :
    s.now ≤ s'.now ∧ ∀ r ∈ rounds, s.now ≤ r.taken.time := by
  induction h with
  | nil => exact ⟨Nat.le_refl _, by simp⟩
  | cons hfirst _ ih =>
    obtain ⟨hr, hrest⟩ := List.forall_mem_cons.1 hr
    obtain ⟨hlast, htimes⟩ := ih (hfirst.isAhead hr) hrest
    have hnow := hfirst.now_le hs
    refine ⟨Nat.le_trans hnow hlast, List.forall_mem_cons.2 ⟨?_, fun r hr => ?_⟩⟩
    · exact hs _ hfirst.mem
    · exact Nat.le_trans hnow (htimes r hr)

theorem pairwise_time (h : Course b s w rounds s' w') (hr : ∀ r ∈ rounds, r.IsForward) :
    (rounds.map (·.taken.time)).Pairwise (· ≤ ·) := by
  induction h with
  | nil => exact .nil
  | cons hfirst hcourse ih =>
    obtain ⟨hr, hrest⟩ := List.forall_mem_cons.1 hr
    have htimes := (hcourse.now_le (hfirst.isAhead hr) hrest).2
    rw [hfirst.now_eq] at htimes
    exact List.pairwise_cons.2 ⟨List.forall_mem_map.2 htimes, ih hrest⟩

/-- **The clock only runs forwards** if no round enters anything for a time that has passed. -/
theorem runsForward (h : Course b s w rounds s' w') (hs : s.IsAhead)
    (hr : ∀ r ∈ rounds, r.IsForward) : RunsForward b s w rounds s' w' := by
  refine ⟨h.pairwise_time hr, h.isAhead hs hr, ?_⟩
  rintro done r rest rfl
  rw [List.forall_mem_append, List.forall_mem_cons] at hr
  obtain ⟨hdone, hr, -⟩ := hr
  obtain ⟨s₁, w₁, hbefore, hmore⟩ := h.of_append
  obtain ⟨s₂, w₂, hleads, hrest⟩ := hmore.of_cons
  have hahead := hbefore.isAhead hs hdone
  exact ⟨s₁, w₁, s₂, w₂, hbefore, hleads, hrest, hahead, hahead _ hleads.mem,
    fun _ hcommands => hleads.isAhead_during hr hcommands⟩

/-- Rounds enter nothing for a time that has passed if neither an event nor the world ever does. -/
theorem isForward (h : Course b s w rounds s' w')
    (hevent : ∀ s e w, ∀ call ∈ entered (b.execute s e w).2, s.now ≤ call.1)
    (hworld : ∀ s w, ∀ call ∈ entered (b.afterEvent s w).2, s.now ≤ call.1) :
    ∀ r ∈ rounds, r.IsForward := by
  induction h with
  | nil => simp
  | @cons s _ _ w _ _ r _ hfirst _ ih =>
    refine List.forall_mem_cons.2 ⟨?_, ih⟩
    obtain ⟨between, hexecute, hafter⟩ := hfirst.acts
    have hbyEvent := hevent (s.taking r.taken) r.taken.event w
    have hbyWorld := hworld ((s.taking r.taken).obeyAll r.byEvent) between
    rw [hexecute] at hbyEvent
    rw [hafter, Simulator.now_obeyAll] at hbyWorld
    intro call hcall
    rw [Round.commands, entered_append] at hcall
    exact (List.mem_append.1 hcall).elim (hbyEvent call) (hbyWorld call)

/-- An entry that is taken has been entered, before the start or in a round. -/
theorem mem_calls {calls : List (Instant × ε)} (h : Course b s w rounds s' w')
    (ha : s.Accounts calls []) : ∀ r ∈ rounds,
      (r.taken.time, r.taken.event) ∈ calls ++ entered (rounds.flatMap Round.commands) := by
  intro r hr
  have hmem := (h.accounts ha).perm.mem_iff.1
    (List.mem_append_left _ (List.mem_map_of_mem (f := fun r : Round ε => r.taken) hr))
  exact Agenda.mem_of_mem_stamp hmem

end Course

/-! ## The end of a simulation -/

/-- **A simulation that has come to its end stays there**: no event acts any more. -/
theorem Simulator.run_of_ended (h : s.halted = true ∨ s.agenda.entries = []) (b : Behaviour ε ω)
    (limit : Nat) (w : ω) : s.run b limit w = (s, w) := by
  cases limit with
  | zero => rfl
  | succ limit => rw [run, step_eq_none_iff.2 h]

end Motewatch.Simulation
