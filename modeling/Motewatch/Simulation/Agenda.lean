import Motewatch.Instant

/-!
# Agendas

An agenda holds the events that are still to come. They come in the order of their times, and events
of one time in the order in which they were entered. Each event gets a ticket when it is entered,
and tickets are given out in increasing order.

## Main definitions

* `Entry`, `Entry.precedes` — an event with its time and its ticket, and the order of entries.
* `Agenda`, `Agenda.enter`, `Agenda.enterAll` — the entries to come, and entering events.
-/

namespace Motewatch.Simulation

/-- An event to come. -/
structure Entry (ε : Type) where
  time : Instant
  ticket : Nat
  event : ε

/-- Whether an entry comes before another one. -/
def Entry.precedes {ε : Type} (a b : Entry ε) : Bool :=
  a.time < b.time || (a.time = b.time && a.ticket < b.ticket)

/-- Puts an entry into a list before the first entry that it precedes. -/
def insertEntry {ε : Type} (e : Entry ε) (entries : List (Entry ε)) : List (Entry ε) :=
  entries.takeWhile (!e.precedes ·) ++ e :: entries.dropWhile (!e.precedes ·)

/-- Nothing is lost and nothing else comes in. -/
theorem perm_insertEntry {ε : Type} (e : Entry ε) (entries : List (Entry ε)) :
    (insertEntry e entries).Perm (e :: entries) := by
  unfold insertEntry
  refine List.perm_middle.trans ?_
  rw [List.takeWhile_append_dropWhile]

/-- The entries to come, the next one first, and the next ticket. -/
structure Agenda (ε : Type) where
  entries : List (Entry ε)
  nextTicket : Nat

namespace Agenda
variable {ε : Type}

/-- The agenda without entries. -/
def empty : Agenda ε := ⟨[], 0⟩

/-- Enters an event. -/
def enter (a : Agenda ε) (time : Instant) (event : ε) : Agenda ε :=
  ⟨insertEntry ⟨time, a.nextTicket, event⟩ a.entries, a.nextTicket + 1⟩

/-- Gives tickets to events, beginning with the given one. -/
def stamp (ticket : Nat) (events : List (Instant × ε)) : List (Entry ε) :=
  (events.zipIdx ticket).map fun e => ⟨e.1.1, e.2, e.1.2⟩

/-- Enters events one after the other, all in one go. -/
def enterAll (a : Agenda ε) (events : List (Instant × ε)) : Agenda ε :=
  ⟨(a.entries ++ stamp a.nextTicket events).mergeSort fun e f => !f.precedes e,
    a.nextTicket + events.length⟩

/-- The number of entries to come. -/
def size (a : Agenda ε) : Nat := a.entries.length

@[simp] theorem size_enter (a : Agenda ε) (time : Instant) (event : ε) :
    (a.enter time event).size = a.size + 1 := (perm_insertEntry _ _).length_eq

@[simp] theorem size_enterAll (a : Agenda ε) (events : List (Instant × ε)) :
    (a.enterAll events).size = a.size + events.length := by
  simp [size, enterAll, stamp]

end Agenda

end Motewatch.Simulation
