import Motewatch.Decimal.Layout

/-!
# Refused settings

## Main definitions

* `Settings.Fault` — what is wrong with settings.
* `Settings.Fault.message` — the wording.
-/

namespace Motewatch.Settings

/-- What is wrong with settings. -/
inductive Fault
  | noNodes
  | badSpeed (field : String) (speed : Float)
  | emptyMarker (name : String)
  | emptyTopologyMarker
  /-- Neither the settings nor the trace tell how many nodes there are. -/
  | unknownNodes
  deriving DecidableEq

/-- The wording of a fault. -/
def Fault.message : Fault → String
  | noNodes => "total_nodes must be at least 1"
  | badSpeed field speed =>
    field ++ " must be a positive number, got " ++ String.ofList (Decimal.prose.write speed)
  | emptyMarker name => "marker `" ++ name ++ "` must not be empty"
  | emptyTopologyMarker => "topology markers must not be empty"
  | unknownNodes => "total_nodes not set and the trace has no events"

end Motewatch.Settings
