import Motewatch.CommandLine.Run
import Std.Time.DateTime.Timestamp

/-!
# Entry point

Runs the program on the files of the system. What a run does is decided by `invoke`, in a tree that
is given what the system has on the ways of the run; here such a tree is made, and what the run has
changed in it is carried out. Where the system refuses a change, the tree is told, and the run is
done once more.
-/

namespace Motewatch.CommandLine
open Storage (Entry Tree)

/-- The number that the system gives to a fault, whatever its sign. -/
def systemCode : IO.Error → Nat
  | .alreadyExists _ code _ | .noFileOrDirectory _ code _ | .resourceExhausted _ code _
  | .inappropriateType _ code _ | .invalidArgument _ code _ | .permissionDenied _ code _ =>
    if code < 0x80000000 then code.toNat else 0x100000000 - code.toNat
  | _ => 0

/-- The fault behind an error of the system. -/
def faultOfSystem (e : IO.Error) : Storage.Fault :=
  match systemCode e with
  | 2 => .notFound
  | 17 => .alreadyExists
  | 20 => .notDirectory
  | 21 => .isDirectory
  | 28 => .noSpace
  | 36 => .nameTooLong
  | _ => .other (toString e)

/-- The path of a place in the system. -/
def systemPath (place : List String) : String := "/" ++ "/".intercalate place

/-! ## What the system has -/

/-- What stands in a tree for a file that is not read: bytes that are no text, so that no run writes
them. -/
def unread : ByteArray := ⟨#[0xff]⟩

/-- What the system has at a place. -/
def lookUp (reading : Bool) (place : List String) : IO (Option Entry) := do
  let path := System.mkFilePath [systemPath place]
  if ← path.isDir then return some .directory
  if !reading then return if ← path.pathExists then some (.file unread) else none
  match ← (IO.FS.readBinFile path).toBaseIO with
  | .ok bytes => return some (.file bytes)
  | .error e =>
    let fault := faultOfSystem e
    return if fault = .notFound then none else some (.unusable fault)

/-- The tree with what the system has on the way along a path. -/
def look (reading : Bool) (t : Tree) (path : String) : IO Tree :=
  match Storage.checkPath path with
  | .error _ => pure t
  | .ok () =>
    (Tree.placesFrom (t.startOf path) (Storage.pathParts path)).foldlM (fun t place => do
      if (t.entry? place).isSome then return t
      return match ← lookUp reading place with
        | none => t
        | some e => t.put place e) t

/-- The tree with what the system has on the ways of a run. -/
def survey (a : Arguments) (clock : String) : IO Tree := do
  let here := Storage.pathParts (← IO.currentDir).toString
  let t := (Tree.placesFrom [] here).foldl (fun t place => t.put place .directory) ⟨[], here⟩
  let t ← (a.settingsFile.toList ++ [a.trace]).foldlM (look true) t
  match prepare a t with
  | .error _ => return t
  | .ok (s, _) =>
    let stamp := a.runId.getD clock
    [s.outputDir, rawLogPath s.outputDir stamp, reportPath s.outputDir stamp].foldlM (look false) t

/-! ## What a run changes -/

/-- Makes the system have an entry at a place. Returns what it has instead if that cannot be done. -/
def store (place : List String) (e : Entry) : IO (Option Entry) := do
  match e with
  | .directory =>
    match ← (IO.FS.createDirAll (systemPath place)).toBaseIO with
    | .ok () => return none
    | .error e => return some (.unusable (faultOfSystem e))
  | .file bytes =>
    match ← (IO.FS.Handle.mk (systemPath place) .write).toBaseIO with
    | .error e => return some (.unusable (faultOfSystem e))
    | .ok handle =>
      match ← (do handle.write bytes; handle.flush : IO Unit).toBaseIO with
      | .ok () => return none
      | .error _ => return some .fullDevice
  | _ => return none

/-- Whether something has changed at a place where a run leaves an entry. -/
def isChange : Option Entry → Entry → Bool
  | some (.file old), .file new => old.data != new.data
  | none, _ => true
  | _, _ => false

/-- Carries out what has changed in a tree, up to the first change that the system refuses. -/
def carryOut (before after : Tree) : IO (Option (List String × Entry)) := do
  let changes := after.entries.filter fun (place, e) => isChange (before.entry? place) e
  for (place, e) in changes.mergeSort fun a b => a.1.length ≤ b.1.length do
    if let some instead ← store place e then return some (place, instead)
  return none

/-- Runs the program in a tree of the system and carries out what it changes, with the given number
of attempts. -/
def runIn (arguments : List String) (clock : String) : Nat → Tree → IO Ending
  | 0, t => pure (invoke arguments clock t).1
  | attempts + 1, t => do
    let (ending, after) := invoke arguments clock t
    match ← carryOut t after with
    | none => pure ending
    | some (place, instead) => runIn arguments clock attempts (t.put place instead)

/-- Runs the program and returns its exit code. -/
def runOnFiles (arguments : List String) : IO UInt32 := do
  let now ← Std.Time.Timestamp.now
  let clock := toString now.toMillisecondsSinceUnixEpoch.val
  let t ← match Arguments.parse? arguments with
    | none => pure .empty
    | some a => survey a clock
  -- Every attempt but the last one tells the tree of one more place that a run would change.
  let ending ← runIn arguments clock ((invoke arguments clock t).2.entries.length + 1) t
  match ending with
  | .done text => IO.println text
  | .failed fault => IO.eprintln ("replay-monitor: " ++ fault.message)
  | .noReport => IO.eprintln "replay ended without a report"
  | .usage =>
    IO.eprintln ("usage: replay-monitor --trace <file> [--config <file>] [--nodes <n>] " ++
      "[--speed-limit <x>] [--timeout-ms <n>] [--output-dir <dir>] [--run-id <id>] " ++
      "[--legacy-report]")
  return ending.exitCode.toUInt32

end Motewatch.CommandLine

/-- The entry point. -/
def main (arguments : List String) : IO UInt32 :=
  Motewatch.CommandLine.runOnFiles arguments
