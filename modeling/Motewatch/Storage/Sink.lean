import Motewatch.Storage.Fault

/-!
# Files that are written to

A sink is a file open for writing. On a working device it takes everything; on a full device it can
be opened, but every write fails. Between the two there are devices that have no space left after a
number of requests, be they to write something or to keep it for good.

Log lines go through a buffer. What fits in with it is kept back; else the buffer is written out
first, and a text as large as the buffer goes past it.

## Main definitions

* `Device`, `Device.grant?` — what a file lies on, and what it grants.
* `Sink`, `Sink.write`, `Sink.sync` — a file, writing to it, and making sure of what was written.
* `Buffered`, `Buffered.write`, `Buffered.flush` — a file behind a buffer.
* `Buffered.contents` — what has been written, kept back or not.
* `Buffered.contents_write` — the buffer loses nothing and keeps the order.
-/

namespace Motewatch.Storage

/-- What a file lies on. -/
inductive Device
  | working
  | full
  /-- A device that grants this many more requests and has no space left after them. -/
  | filling (requests : Nat)
  deriving DecidableEq

/-- The device after one more request, if it grants the request. -/
def Device.grant? : Device → Option Device
  | working => some working
  | full => none
  | filling 0 => none
  | filling (requests + 1) => some (filling requests)

/-- A file open for writing and what has been written to it. -/
structure Sink where
  device : Device
  written : String
  deriving DecidableEq

namespace Sink

/-- An empty file. -/
def fresh (device : Device) : Sink := ⟨device, ""⟩

/-- Writes a text, which is not empty, in one piece. -/
def write (s : Sink) (text : String) : Sink × Option Fault :=
  match s.device.grant? with
  | some device => (⟨device, s.written ++ text⟩, none)
  | none => (s, some .noSpace)

/-- Asks the device to keep for good what was written. -/
def sync (s : Sink) : Sink × Option Fault :=
  match s.device.grant? with
  | some device => (⟨device, s.written⟩, none)
  | none => (s, some .noSpace)

end Sink

/-- A file behind a buffer. -/
structure Buffered where
  sink : Sink
  /-- What is kept back. -/
  pending : String
  deriving DecidableEq

namespace Buffered

/-- How many bytes can be kept back. -/
def capacity : Nat := 8192

/-- An empty file with an empty buffer. -/
def fresh (device : Device) : Buffered := ⟨.fresh device, ""⟩

/-- Writes out what is kept back. If that fails, it stays in the buffer. -/
def flush (b : Buffered) : Buffered × Option Fault :=
  if b.pending = "" then (b, none)
  else
    match b.sink.write b.pending with
    | (sink, none) => (⟨sink, ""⟩, none)
    | (_, some fault) => (b, some fault)

/-- Writes a text into an emptied buffer, or past it if it is as large as the buffer. -/
def place (b : Buffered) (text : String) : Buffered × Option Fault :=
  if text.utf8ByteSize < capacity then ({ b with pending := b.pending ++ text }, none)
  else
    match b.sink.write text with
    | (sink, fault?) => ({ b with sink := sink }, fault?)

/-- Writes a text. The buffer is written out first if the text does not fit in with what is kept
back. -/
def write (b : Buffered) (text : String) : Buffered × Option Fault :=
  if b.pending.utf8ByteSize + text.utf8ByteSize ≤ capacity then b.place text
  else
    match b.flush with
    | (b, none) => b.place text
    | (b, some fault) => (b, some fault)

/-! ## What has been written -/

/-- The text that was written, kept back or not. -/
def contents (b : Buffered) : String := b.sink.written ++ b.pending

@[simp] theorem contents_fresh (device : Device) : (fresh device).contents = "" := rfl

/-- Writing out what is kept back changes nothing about what was written. -/
@[simp] theorem contents_flush (b : Buffered) : b.flush.1.contents = b.contents := by
  unfold flush
  split
  · rfl
  · cases h : b.sink.device.grant? <;> simp [Sink.write, h, contents]

theorem pending_flush {b : Buffered} (h : b.flush.2 = none) : b.flush.1.pending = "" := by
  unfold flush at *
  split
  · assumption
  · rename_i hp
    rw [if_neg hp] at h
    cases hd : b.sink.device.grant? <;> simp_all [Sink.write]

theorem contents_place {b : Buffered} {text : String}
    (hb : text.utf8ByteSize < capacity ∨ b.pending = "") (h : (b.place text).2 = none) :
    (b.place text).1.contents = b.contents ++ text := by
  unfold place at *
  split
  · simp [contents, String.append_assoc]
  · rename_i hlarge
    have hp : b.pending = "" := hb.resolve_left hlarge
    rw [if_neg hlarge] at h
    cases hd : b.sink.device.grant? <;> simp_all [Sink.write, contents]

/-- A text that is written without a fault comes behind what was written before, however long it is
and whatever is kept back. -/
theorem contents_write {b : Buffered} {text : String} (h : (b.write text).2 = none) :
    (b.write text).1.contents = b.contents ++ text := by
  unfold write at *
  split
  · rename_i hfits
    rw [if_pos hfits] at h
    refine contents_place ?_ h
    by_cases hsmall : text.utf8ByteSize < capacity
    · exact .inl hsmall
    · exact .inr (String.utf8ByteSize_eq_zero_iff.1 (by omega))
  · rename_i hfits
    rw [if_neg hfits] at h
    have hpending := pending_flush (b := b)
    have hcontents := contents_flush b
    revert h hpending hcontents
    cases b.flush with
    | mk flushed fault? =>
      cases fault? with
      | some fault => simp
      | none =>
        intro h hpending hcontents
        simp only at hcontents hpending
        rw [← hcontents]
        exact contents_place (.inr (hpending trivial)) h

end Buffered

end Motewatch.Storage
