import Motewatch.Proofs.Order
import Motewatch.Simulation.Run

/-!
# Simulations without tickets

Tickets keep events of one time in the order in which they were entered. As the newest event has the
largest ticket, it simply comes behind all events that come no later, and a queue of events with
their times does as well as an agenda. A simulation whose events look at nothing but the clock can
therefore be followed on a timeline, in which there are no tickets.

## Main definitions

* `Agenda.queue` — the events to come, without their tickets.
* `enqueue` — puts an event into a queue.
* `Timeline`, `Timeline.run` — a simulation with a queue.

## Main results

* `Agenda.queue_enter`, `Agenda.queue_enterAll_empty` — what entering events does to a queue.
* `Simulator.timeline_run` — a simulation and its timeline take the same events.
* `Timeline.step_run` — a timeline comes to its end if a measure falls with every event.
-/

namespace Motewatch.Simulation

variable {ε ω : Type}

/-! ## Queues -/

/-- Puts an event behind those that come no later. -/
def enqueue (time : Instant) (event : ε) (queue : List (Instant × ε)) : List (Instant × ε) :=
  queue.takeWhile (·.1 ≤ time) ++ (time, event) :: queue.dropWhile (·.1 ≤ time)

@[simp] theorem enqueue_nil (time : Instant) (event : ε) :
    enqueue time event [] = [(time, event)] := rfl

theorem enqueue_cons (time : Instant) (event : ε) (next : Instant × ε)
    (queue : List (Instant × ε)) :
    enqueue time event (next :: queue) =
      if next.1 ≤ time then next :: enqueue time event queue
      else (time, event) :: next :: queue := by
  by_cases h : next.1 ≤ time <;> simp [enqueue, h]

@[simp] theorem length_enqueue (time : Instant) (event : ε) (queue : List (Instant × ε)) :
    (enqueue time event queue).length = queue.length + 1 := by
  induction queue with
  | nil => rfl
  | cons next queue ih =>
      rw [enqueue_cons]
      split
      · simp [ih]
      · simp

theorem insertEntry_cons (e f : Entry ε) (entries : List (Entry ε)) :
    insertEntry e (f :: entries) =
      if e.precedes f then e :: f :: entries else f :: insertEntry e entries := by
  cases h : e.precedes f <;> simp [insertEntry, h]

namespace Agenda
variable {a : Agenda ε}

/-- The events to come with their times. -/
def queue (a : Agenda ε) : List (Instant × ε) := a.entries.map fun e => (e.time, e.event)

/-- All tickets of entries have been given out. -/
def Stamped (a : Agenda ε) : Prop := ∀ e ∈ a.entries, e.ticket < a.nextTicket

/-- The newest entry precedes exactly those that come later. -/
theorem precedes_iff_of_newest {e f : Entry ε} (h : f.ticket < e.ticket) :
    e.precedes f = true ↔ ¬f.time ≤ e.time := by
  have hticket : ¬e.ticket < f.ticket := by omega
  simp [Entry.precedes, hticket, Instant.lt_iff_not_le]

theorem map_insertEntry {e : Entry ε} {entries : List (Entry ε)}
    (h : ∀ f ∈ entries, f.ticket < e.ticket) :
    (insertEntry e entries).map (fun f => (f.time, f.event)) =
      enqueue e.time e.event (entries.map fun f => (f.time, f.event)) := by
  induction entries with
  | nil => rfl
  | cons f entries ih =>
      have hf := precedes_iff_of_newest (h f (List.mem_cons_self ..))
      have hrest := ih fun g hg => h g (List.mem_cons_of_mem _ hg)
      rw [insertEntry_cons, List.map_cons, enqueue_cons]
      by_cases hle : f.time ≤ e.time
      · simp [hf, hle, hrest]
      · simp [hf, hle]

/-- **An event that is entered comes behind those that come no later.** -/
theorem queue_enter (h : a.Stamped) (time : Instant) (event : ε) :
    (a.enter time event).queue = enqueue time event a.queue :=
  map_insertEntry h

theorem Stamped.enter (h : a.Stamped) (time : Instant) (event : ε) :
    (a.enter time event).Stamped := by
  intro e he
  rcases List.mem_cons.1 ((perm_insertEntry ..).mem_iff.1 he) with rfl | he
  · exact Nat.lt_succ_self _
  · exact Nat.lt_succ_of_lt (h e he)

theorem Stamped.tail {e : Entry ε} {rest : List (Entry ε)} (h : a.Stamped)
    (he : a.entries = e :: rest) : Stamped { a with entries := rest } := by
  intro f hf
  exact h f (by simp [he, hf])

/-- Stamped events are in the order of their times, and in the order of their tickets where the
times agree. -/
theorem zipIdxLE_eq_precedes (a b : (Instant × ε) × Nat) :
    List.zipIdxLE (fun a b : Instant × ε => decide (a.1.micros ≤ b.1.micros)) a b =
      !(Entry.mk b.1.1 b.2 b.1.2).precedes (Entry.mk a.1.1 a.2 a.1.2) := by
  have heq : b.1.1 = a.1.1 ↔ b.1.1.micros = a.1.1.micros :=
    ⟨fun h => by rw [h], Instant.ext⟩
  rw [Bool.eq_iff_iff]
  simp only [List.zipIdxLE, Entry.precedes, Instant.lt_def, heq, decide_eq_true_eq,
    Bool.not_eq_true', Bool.or_eq_false_iff, decide_eq_false_iff_not, Bool.and_eq_false_iff]
  repeat' split
  · simp only [decide_eq_true_eq]
    omega
  · simp only [true_iff]
    omega
  · simp only [Bool.false_eq_true, false_iff]
    omega

/-- Events that are entered in one go come in the order of their times, and events of one time in
the order in which they are given. -/
theorem queue_enterAll_empty (events : List (Instant × ε)) :
    (empty.enterAll events).queue = sortBy (·.1.micros) events := by
  have hstamp : (events.zipIdx.mergeSort (List.zipIdxLE fun a b => a.1.micros ≤ b.1.micros)).map
      (fun e => (⟨e.1.1, e.2, e.1.2⟩ : Entry ε)) =
      (stamp 0 events).mergeSort fun e f => !f.precedes e :=
    List.map_mergeSort fun a _ b _ => zipIdxLE_eq_precedes a b
  rw [queue, enterAll, empty, List.nil_append, ← hstamp, List.map_map]
  exact List.mergeSort_zipIdx

theorem stamped_enterAll_empty (events : List (Instant × ε)) :
    (empty.enterAll events).Stamped := by
  intro e he
  have hstamp : e ∈ stamp 0 events := by
    simpa [enterAll, empty] using he
  obtain ⟨⟨event, ticket⟩, hticket, rfl⟩ := List.mem_map.1 hstamp
  have hlt := (List.mem_zipIdx hticket).2.1
  simpa [enterAll, empty] using hlt

end Agenda

/-! ## Timelines -/

/-- A simulation whose events stand in a queue. -/
structure Timeline (ε : Type) where
  now : Instant
  queue : List (Instant × ε)
  halted : Bool

namespace Timeline
variable {act : Instant → ε → ω → ω × List (Command ε)} {l l' : Timeline ε} {w w' : ω}

/-- Carries out a command. -/
def obey (l : Timeline ε) : Command ε → Timeline ε
  | .enter time event => { l with queue := enqueue time event l.queue }
  | .halt => { l with halted := true }

/-- Carries out commands in order. -/
def obeyAll (l : Timeline ε) (commands : List (Command ε)) : Timeline ε := commands.foldl obey l

@[simp] theorem obeyAll_nil (l : Timeline ε) : l.obeyAll [] = l := rfl

@[simp] theorem obeyAll_cons (l : Timeline ε) (c : Command ε) (rest : List (Command ε)) :
    l.obeyAll (c :: rest) = (l.obey c).obeyAll rest := rfl

/-- Takes the next event, if the simulation is not halted and there is one. -/
def step (act : Instant → ε → ω → ω × List (Command ε)) (l : Timeline ε) (w : ω) :
    Option (Timeline ε × ω) :=
  if l.halted then none
  else
    match l.queue with
    | [] => none
    | (time, event) :: rest =>
      some (obeyAll { l with now := time, queue := rest } (act time event w).2,
        (act time event w).1)

/-- Takes events until the simulation is halted or there is none, and at most `limit` of them. -/
def run (act : Instant → ε → ω → ω × List (Command ε)) :
    Nat → Timeline ε → ω → Timeline ε × ω
  | 0, l, w => (l, w)
  | limit + 1, l, w =>
    match l.step act w with
    | none => (l, w)
    | some (l, w) => l.run act limit w

/-- The next event is taken. -/
theorem run_succ {time : Instant} {event : ε} {rest : List (Instant × ε)}
    (hhalted : l.halted = false) (hqueue : l.queue = (time, event) :: rest) (limit : Nat) (w : ω) :
    l.run act (limit + 1) w =
      (obeyAll { l with now := time, queue := rest } (act time event w).2).run act limit
        (act time event w).1 := by
  simp [run, step, hhalted, hqueue]

/-- A halted simulation takes no event. -/
theorem run_of_halted (h : l.halted = true) (limit : Nat) (w : ω) :
    l.run act limit w = (l, w) := by
  cases limit with
  | zero => rfl
  | succ limit => simp [run, step, h]

/-- What every event keeps, a run keeps. -/
theorem run_keeps {P : ω → Prop} (hact : ∀ time event w, P w → P (act time event w).1) (h : P w)
    (limit : Nat) (l : Timeline ε) : P (l.run act limit w).2 := by
  induction limit generalizing l w with
  | zero => exact h
  | succ limit ih =>
      rw [run]
      split
      · exact h
      · rename_i next hstep
        unfold step at hstep
        split at hstep
        · contradiction
        · split at hstep
          · contradiction
          · obtain ⟨rfl, rfl⟩ := Prod.mk.inj (Option.some.inj hstep)
            exact ih (hact _ _ _ h) _

/-- **A simulation comes to its end if a measure falls with every event.** -/
theorem step_run {measure : Timeline ε → ω → Nat}
    (hfalls : ∀ l w l' w', l.step act w = some (l', w') → measure l' w' < measure l w)
    {limit : Nat} (h : measure l w ≤ limit) :
    (l.run act limit w).1.step act (l.run act limit w).2 = none := by
  induction limit generalizing l w with
  | zero =>
      cases hstep : l.step act w with
      | none => simpa [run] using hstep
      | some next =>
        have := hfalls l w next.1 next.2 hstep
        omega
  | succ limit ih =>
      rw [run]
      cases hstep : l.step act w with
      | none => simpa using hstep
      | some next =>
        have := hfalls l w next.1 next.2 hstep
        exact ih (by omega)

end Timeline

/-! ## Simulations on timelines -/

/-- What an event does depends on the world and on nothing but the clock of the simulation. -/
structure Behaviour.ByClock (b : Behaviour ε ω)
    (act : Instant → ε → ω → ω × List (Command ε)) : Prop where
  execute : ∀ s e w, b.execute s e w = act s.now e w
  afterEvent : ∀ s w, b.afterEvent s w = (w, [])

namespace Simulator
variable {b : Behaviour ε ω} {act : Instant → ε → ω → ω × List (Command ε)} {s : Simulator ε}

/-- The simulation without its tickets. -/
def timeline (s : Simulator ε) : Timeline ε := ⟨s.now, s.agenda.queue, s.halted⟩

theorem timeline_obey (h : s.agenda.Stamped) (c : Command ε) :
    (s.obey c).timeline = s.timeline.obey c ∧ (s.obey c).agenda.Stamped := by
  cases c with
  | enter time event =>
      refine ⟨?_, h.enter time event⟩
      simp only [obey, enter, timeline, Timeline.obey, Agenda.queue_enter h]
  | halt => exact ⟨rfl, h⟩

theorem timeline_obeyAll (h : s.agenda.Stamped) (commands : List (Command ε)) :
    (s.obeyAll commands).timeline = s.timeline.obeyAll commands ∧
      (s.obeyAll commands).agenda.Stamped := by
  induction commands generalizing s with
  | nil => exact ⟨rfl, h⟩
  | cons c rest ih =>
      obtain ⟨hc, hstamped⟩ := timeline_obey h c
      obtain ⟨hrest, hstamped⟩ := ih hstamped
      refine ⟨?_, hstamped⟩
      rw [Timeline.obeyAll_cons, ← hc]
      exact hrest

/-- The next event is taken, and the world itself does nothing. -/
theorem step_of_entries (hb : b.ByClock act) {e : Entry ε} {rest : List (Entry ε)}
    (hhalted : s.halted = false) (hentries : s.agenda.entries = e :: rest) (w : ω) :
    s.step b w = some
      (obeyAll { s with now := e.time, agenda := { s.agenda with entries := rest } }
        (act e.time e.event w).2, (act e.time e.event w).1) := by
  simp [step, hhalted, hentries, hb.execute, hb.afterEvent, obeyAll]

/-- A simulation and its timeline take the same event. -/
theorem timeline_step (hb : b.ByClock act) (h : s.agenda.Stamped) (w : ω) :
    (s.step b w).map (fun next => (next.1.timeline, next.2)) = s.timeline.step act w ∧
      ∀ next ∈ s.step b w, next.1.agenda.Stamped := by
  cases hhalted : s.halted with
  | true => simp [step, Timeline.step, timeline, hhalted]
  | false =>
    cases hentries : s.agenda.entries with
    | nil => simp [step, Timeline.step, timeline, Agenda.queue, hhalted, hentries]
    | cons e rest =>
      obtain ⟨hline, hstamped⟩ := timeline_obeyAll
        (s := { s with now := e.time, agenda := { s.agenda with entries := rest } })
        (h.tail hentries) (act e.time e.event w).2
      rw [step_of_entries hb hhalted hentries]
      constructor
      · rw [Option.map_some, hline]
        simp [Timeline.step, timeline, Agenda.queue, hhalted, hentries]
      · intro next hnext
        obtain rfl := Option.some.inj hnext
        exact hstamped

/-- **A simulation and its timeline take the same events.** -/
theorem timeline_run (hb : b.ByClock act) (h : s.agenda.Stamped) (limit : Nat) (w : ω) :
    ((s.run b limit w).1.timeline, (s.run b limit w).2) = s.timeline.run act limit w ∧
      (s.run b limit w).1.agenda.Stamped := by
  induction limit generalizing s w with
  | zero => exact ⟨rfl, h⟩
  | succ limit ih =>
      obtain ⟨hstep, hstamped⟩ := timeline_step hb h w
      rw [run, Timeline.run, ← hstep]
      cases hnext : s.step b w with
      | none => exact ⟨rfl, h⟩
      | some next => exact ih (hstamped next hnext) next.2

end Simulator

end Motewatch.Simulation
