import Motewatch.Json.Value
import Motewatch.Settings.Fault
import Motewatch.Storage.Fault
import Motewatch.Trace.Text

/-!
# Faults of a run

## Main definitions

* `Fault` — why something could not be done.
* `Fault.message` — the wording.
-/

namespace Motewatch

/-- Why something could not be done. -/
inductive Fault
  | storage (cause : Storage.Fault)
  | json (cause : Json.Fault)
  | settings (cause : Settings.Fault)
  | trace (cause : Trace.Fault)
  /-- A run was to be summed up before all nodes completed. -/
  | incomplete (completed total : Nat)
  /-- A run was to be summed up twice. -/
  | alreadySealed
  /-- An event came after the run was summed up. -/
  | runOver
  deriving DecidableEq

/-- The wording of a fault. -/
def Fault.message : Fault → String
  | storage cause => "I/O error: " ++ cause.message
  | json cause => "JSON error: " ++ cause.name
  | settings cause => "invalid config: " ++ cause.message
  | trace cause => s!"trace line {cause.line}: " ++ cause.cause.message
  | incomplete completed total =>
    s!"run not complete: {completed}/{total} nodes reported completion"
  | alreadySealed => "run already finalized"
  | runOver => "run finished, no more events accepted"

/-- A result on settings among the results of a run. -/
def Settings.Fault.lift {α : Type} : Except Settings.Fault α → Except Motewatch.Fault α
  | .ok a => .ok a
  | .error cause => .error (.settings cause)

end Motewatch
