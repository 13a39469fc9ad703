import Motewatch.Decimal.Reading
import Motewatch.Settings
import Motewatch.Text.Search

/-!
# Arguments of the command line

An option is written as `--name value` or `--name=value` and given at most once. A separate value
does not begin with a dash, unless it is a dash alone. There are no arguments without a name; two
dashes may stand at the end.

## Main definitions

* `Arguments`, `Arguments.parse?` — what is asked for on the command line.
* `Arguments.override` — settings with the values given on the command line in their place.
-/

namespace Motewatch.CommandLine

/-- What is asked for on the command line. -/
structure Arguments where
  trace : String
  settingsFile : Option String
  nodes : Option Nat
  speed : Option Float
  timeoutMillis : Option Nat
  outputDir : Option String
  runId : Option String
  /-- Whether the report is to be written in the flat layout. -/
  flat : Bool

/-- The options read so far. -/
structure Options where
  trace : Option String
  settingsFile : Option String
  nodes : Option Nat
  speed : Option Float
  timeoutMillis : Option Nat
  outputDir : Option String
  runId : Option String
  flat : Bool

/-- No options. -/
def Options.none : Options := ⟨.none, .none, .none, .none, .none, .none, .none, false⟩

/-- A value for an option that has none yet. -/
def once {α : Type} (old new : Option α) : Option (Option α) :=
  if old.isSome then .none else new.map some

/-- A path, which is not empty. -/
def path? (value : String) : Option String := if value = "" then none else some value

/-- The options with one more, given its name and its value. -/
def Options.set? (o : Options) (name value : String) : Option Options :=
  match name with
  | "trace" => (once o.trace (path? value)).map fun v => { o with trace := v }
  | "config" => (once o.settingsFile (path? value)).map fun v => { o with settingsFile := v }
  | "nodes" => (once o.nodes (Text.word? value.toList)).map fun v => { o with nodes := v }
  | "speed-limit" =>
    (once o.speed (Decimal.double? value.toList)).map fun v => { o with speed := v }
  | "timeout-ms" =>
    (once o.timeoutMillis (Text.word? value.toList)).map fun v => { o with timeoutMillis := v }
  | "output-dir" => (once o.outputDir (path? value)).map fun v => { o with outputDir := v }
  | "run-id" => (once o.runId (some value)).map fun v => { o with runId := v }
  | _ => .none

/-- The name of an option and the value that is written with it. -/
def splitOption? (argument : String) : Option (String × Option String) :=
  match argument.toList with
  | '-' :: '-' :: rest =>
    let (name, value?) := Text.cutAt '=' rest
    some (String.ofList name, value?.map String.ofList)
  | _ => none

/-- Whether an argument can stand for a value of its own. -/
def isValue (argument : String) : Bool := argument.toList.head? != some '-' || argument == "-"

/-- Reads arguments after some options. -/
def Options.read? : Options → List String → Option Options
  | o, [] => some o
  | o, argument :: rest =>
    if argument = "--" then (if rest = [] then some o else .none)
    else
      match splitOption? argument with
      | .none => .none
      | some ("legacy-report", .none) =>
        if o.flat then .none else read? { o with flat := true } rest
      | some (name, some value) => (o.set? name value).bind fun o => read? o rest
      | some (name, .none) =>
        match rest with
        | [] => .none
        | value :: rest =>
          if isValue value then (o.set? name value).bind fun o => read? o rest else .none

namespace Arguments

/-- What is asked for by arguments, if they are well-formed and name a trace. -/
def parse? (arguments : List String) : Option Arguments := do
  let o ← Options.none.read? arguments
  let trace ← o.trace
  pure ⟨trace, o.settingsFile, o.nodes, o.speed, o.timeoutMillis, o.outputDir, o.runId, o.flat⟩

/-- The settings with each value given on the command line in its place. -/
def override (a : Arguments) (s : Settings) : Settings where
  totalNodes := a.nodes.or s.totalNodes
  speed := a.speed.getD s.speed
  timeoutMillis := a.timeoutMillis.getD s.timeoutMillis
  markers := s.markers
  speedChange := s.speedChange
  outputDir := a.outputDir.getD s.outputDir
  format := if a.flat then .flat else s.format

end Arguments

end Motewatch.CommandLine
