import Motewatch.Trace.Line

/-!
# Texts of traces

A trace text holds one event in each line. Lines end with a line feed, with or without carriage
returns before it; the last line may go without. Blank lines and lines that begin with a number sign
hold no event, but are counted.

## Main definitions

* `Trace.Fault` — a refused line with its number.
* `read` — the events of a text.
* `maxNode?` — the largest node number among events.
-/

namespace Motewatch.Trace

/-- A refused line; lines are counted from one. -/
structure Fault where
  line : Nat
  cause : LineFault
  deriving DecidableEq

/-- A line without the carriage returns at its end. -/
def dropReturns (line : List Char) : List Char := (line.reverse.dropWhile (· = '\r')).reverse

/-- Whether a line holds no event. -/
def isSilent (line : List Char) : Bool := line.all Text.isBlank || line.head? == some '#'

/-- The lines of a text without the carriage returns at their ends, each with its number. -/
def numberedLines (text : String) : List (List Char × Nat) :=
  ((text.toList.splitOn '\n').map dropReturns).zipIdx 1

/-- The event that a numbered line holds. -/
def readNumbered (line : List Char × Nat) : Except Fault Event :=
  match readLine line.1 with
  | .error cause => .error ⟨line.2, cause⟩
  | .ok e => .ok e

/-- The events of a text, or its first refused line. -/
def read (text : String) : Except Fault (List Event) :=
  ((numberedLines text).filter fun line => !isSilent line.1).mapM readNumbered

/-- The largest node number among events. -/
def maxNode? (events : List Event) : Option Nat := (events.map (·.node.number)).max?

end Motewatch.Trace
