import Motewatch.Word

/-!
# Instants of simulated time

Simulated time is counted in whole microseconds from the start of a run and ends at the last
64-bit count: arithmetic that would go beyond it stays there, and a difference that would go
below zero stays at zero.

## Main definitions

* `Instant` — a count of microseconds in a word.
* `Instant.ofMillis`, `Instant.ofSeconds`, `Instant.add` — bounded from above.
* `Instant.since` — bounded from below.
-/

namespace Motewatch

/-- A point of simulated time, in microseconds from the start of the run. -/
structure Instant where
  micros : Nat
  micros_lt : micros < wordLimit
  deriving DecidableEq

namespace Instant

@[ext] theorem ext {a b : Instant} (h : a.micros = b.micros) : a = b := by
  cases a; cases b; cases h; rfl

/-- The instant nearest to a count of microseconds, which is the last one for a count too large. -/
def ofMicros (n : Nat) : Instant := ⟨min n (wordLimit - 1), by unfold wordLimit; omega⟩

@[simp] theorem micros_ofMicros (n : Nat) : (ofMicros n).micros = min n (wordLimit - 1) := rfl

theorem micros_ofMicros_of_lt {n : Nat} (h : n < wordLimit) : (ofMicros n).micros = n := by
  simp only [micros_ofMicros]; omega

@[simp] theorem ofMicros_micros (a : Instant) : ofMicros a.micros = a :=
  ext (micros_ofMicros_of_lt a.micros_lt)

/-- The start of the run. -/
def zero : Instant := ⟨0, wordLimit_pos⟩

/-- The instant a number of milliseconds after the start. -/
def ofMillis (n : Nat) : Instant := ofMicros (n * 1000)

/-- The instant a number of seconds after the start. -/
def ofSeconds (n : Nat) : Instant := ofMicros (n * 1000000)

/-- The instant `d` after `a`, or the last instant. -/
def add (a d : Instant) : Instant := ofMicros (a.micros + d.micros)

/-- The microseconds from `earlier` to `a`, zero if `a` comes first. -/
def since (a earlier : Instant) : Nat := a.micros - earlier.micros

instance : LT Instant := ⟨fun a b => a.micros < b.micros⟩
instance : LE Instant := ⟨fun a b => a.micros ≤ b.micros⟩
instance : Ord Instant := ⟨fun a b => compare a.micros b.micros⟩

theorem lt_def {a b : Instant} : a < b ↔ a.micros < b.micros := Iff.rfl
theorem le_def {a b : Instant} : a ≤ b ↔ a.micros ≤ b.micros := Iff.rfl

theorem lt_iff_not_le {a b : Instant} : a < b ↔ ¬b ≤ a :=
  (Nat.not_le ..).symm

instance (a b : Instant) : Decidable (a < b) := inferInstanceAs (Decidable (a.micros < b.micros))
instance (a b : Instant) : Decidable (a ≤ b) := inferInstanceAs (Decidable (a.micros ≤ b.micros))

@[simp] theorem micros_add (a d : Instant) :
    (a.add d).micros = min (a.micros + d.micros) (wordLimit - 1) := rfl

/-- Time never runs backwards by waiting, also at the end of the range. -/
theorem le_add (a d : Instant) : a ≤ a.add d := by
  have := a.micros_lt
  simp only [le_def, micros_add]; omega

/-- How an instant is shown in summaries. -/
def display (a : Instant) : String := s!"SimTime({a.micros})"

end Instant

end Motewatch
