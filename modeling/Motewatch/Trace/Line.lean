import Motewatch.Event
import Motewatch.Text.Blank
import Motewatch.Text.Search

/-!
# Lines of a trace

A trace is a recorded log. Each line holds a time in microseconds, a node as `ID:` and its number,
and the message, separated by tabs. Blanks around the first two fields do not count; the message is
everything behind the second tab.

## Main definitions

* `LineFault` — why a line was refused.
* `readLine` — the event that a line holds.
* `writeLine` — the line for an event.
-/

namespace Motewatch.Trace
open Motewatch.Text (cutAt digits trim word?)

/-- Why a line was refused, with the field at fault. -/
inductive LineFault
  | badTime (field : String)
  | noNode
  | noNodeMark (field : String)
  | badNode (number : String)
  | zeroNode
  deriving DecidableEq

/-- The wording of a fault. -/
def LineFault.message : LineFault → String
  | badTime field => "bad timestamp `" ++ field ++ "`"
  | noNode => "missing node field"
  | noNodeMark field => "node field `" ++ field ++ "` must look like `ID:<n>`"
  | badNode number => "bad node id `" ++ number ++ "`"
  | zeroNode => "node ids start at 1"

/-- The number in a node field. -/
def nodeNumber (field : List Char) : Except LineFault Nat :=
  match field with
  | 'I' :: 'D' :: ':' :: number =>
    match word? number with
    | none => .error (.badNode (String.ofList number))
    | some 0 => .error .zeroNode
    | some n => .ok n
  | _ => .error (.noNodeMark (String.ofList field))

/-- The event that a line holds. -/
def readLine (line : List Char) : Except LineFault Event :=
  let (timeField, rest) := cutAt '\t' line
  match word? (trim timeField) with
  | none => .error (.badTime (String.ofList (trim timeField)))
  | some time =>
    match rest with
    | none => .error .noNode
    | some rest =>
      let (nodeField, message) := cutAt '\t' rest
      match nodeNumber (trim nodeField) with
      | .error fault => .error fault
      | .ok n => .ok ⟨⟨n⟩, Instant.ofMicros time, String.ofList (message.getD [])⟩

/-- The line for an event. -/
def writeLine (e : Event) : List Char :=
  digits e.time.micros ++ '\t' :: 'I' :: 'D' :: ':' :: digits e.node.number ++
    '\t' :: e.message.toList

end Motewatch.Trace
