import Motewatch.Storage.Path
import Motewatch.Storage.Sink

/-!
# Directory trees

A tree of directories and files, as far as a run can tell: files are read as a whole, directories
are made, and files are opened for writing, which empties them.

A path is taken apart at its slashes and followed name by name, from the top of the tree or from the
directory in which the run takes place. Every name but the last one has to be that of a directory.

## Main definitions

* `Entry` — what a name stands for.
* `Tree` — the entries below the top, under their names from the top on.
* `Tree.read` — the bytes of a file.
* `Tree.makeDirectories` — makes a directory and those around it.
* `Tree.openNew` — opens a file for writing.
-/

namespace Motewatch.Storage

/-- What a name stands for. -/
inductive Entry
  | directory
  | file (bytes : ByteArray)
  /-- A file on the full device. -/
  | fullDevice
  /-- A file on a device that grants this many more requests. -/
  | fillingFile (bytes : ByteArray) (requests : Nat)
  /-- What cannot be used, and why. -/
  | unusable (fault : Fault)

/-- The entries below the top directory, under their names from the top on. -/
structure Tree where
  entries : List (List String × Entry)
  /-- The directory from which paths lead that do not lead from the top. -/
  here : List String

namespace Tree

/-- The tree of an empty directory. -/
def empty : Tree := ⟨[], []⟩

/-- The entry under names from the top on. -/
def entry? (t : Tree) (names : List String) : Option Entry :=
  if names = [] then some .directory else t.entries.lookup names

/-- Puts an entry under names from the top on, in place of what was there. -/
def put (t : Tree) (names : List String) (e : Entry) : Tree :=
  { t with entries := (names, e) :: t.entries.filter fun old => old.1 ≠ names }

/-- The directory from which a path leads. -/
def startOf (t : Tree) (path : String) : List String := if isFromTop path then [] else t.here

/-- The place that a name leads to from a directory. -/
def placeIn (directory : List String) (name : String) : List String :=
  if name = "." then directory
  else if name = ".." then directory.dropLast
  else directory ++ [name]

/-- The places on the way along names, with the one that the last name leads to. -/
def placesFrom (directory : List String) : List String → List (List String)
  | [] => []
  | name :: rest =>
    placeIn directory name :: placesFrom (placeIn directory name) rest

/-- Follows names from a place in the tree. The place that the last name leads to need not exist. -/
def follow (t : Tree) (place : List String) : List String → Except Fault (List String)
  | [] => .ok place
  | name :: rest =>
    match t.entry? place with
    | none => .error .notFound
    | some .directory =>
      if maxNameSize < name.utf8ByteSize then .error .nameTooLong
      else t.follow (placeIn place name) rest
    | some (.unusable fault) => .error fault
    | some _ => .error .notDirectory

/-- Whether names lead from a place to a directory. -/
def isDirectory (t : Tree) (place names : List String) : Bool :=
  match t.follow place names with
  | .error _ => false
  | .ok place =>
    match t.entry? place with
    | some .directory => true
    | _ => false

/-- The bytes of the file that a path leads to. -/
def read (t : Tree) (path : String) : Except Fault ByteArray := do
  let names ← pathNames path
  let place ← t.follow (t.startOf path) names
  match t.entry? place with
  | none => .error .notFound
  | some .directory => .error .isDirectory
  | some .fullDevice => .error .noSpace
  | some (.file bytes) => .ok bytes
  | some (.fillingFile bytes _) => .ok bytes
  | some (.unusable fault) => .error fault

/-- The text of the file that a path leads to. -/
def readText (t : Tree) (path : String) : Except Fault String := do
  let bytes ← t.read path
  match String.fromUTF8? bytes with
  | none => .error .notText
  | some text => .ok text

/-- Makes one directory from a place on. The names are given from the last one on. -/
def makeDirectory (t : Tree) (start : List String) : List String → Except Fault Tree
  | [] => .error .alreadyExists
  | name :: around => do
    let place ← t.follow start around.reverse
    match t.entry? place with
    | none => .error .notFound
    | some .directory =>
      if name = "." ∨ name = ".." then .error .alreadyExists
      else if maxNameSize < name.utf8ByteSize then .error .nameTooLong
      else
        match t.entry? (place ++ [name]) with
        | none => .ok (t.put (place ++ [name]) .directory)
        | some (.unusable fault) => .error fault
        | some _ => .error .alreadyExists
    | some (.unusable fault) => .error fault
    | some _ => .error .notDirectory

/-- Makes one directory where it does not exist. Should those around it be missing, it is tried
once more in the tree that has them. The names are given from the last one on. -/
def ensureDirectory (t : Tree) (start names : List String) (withAround : Except Fault Tree) :
    Except Fault Tree :=
  let settle (t : Tree) (fault : Fault) : Except Fault Tree :=
    if t.isDirectory start names.reverse then .ok t else .error fault
  match t.makeDirectory start names with
  | .ok t => .ok t
  | .error .notFound =>
    match withAround with
    | .error fault => .error fault
    | .ok t =>
      match t.makeDirectory start names with
      | .ok t => .ok t
      | .error fault => settle t fault
  | .error fault => settle t fault

/-- Makes a directory after those around it, where they do not exist. The names are given from the
last one on. -/
def makeAround (t : Tree) (start : List String) : List String → Except Fault Tree
  | [] => .ok t
  | name :: around => t.ensureDirectory start (name :: around) (t.makeAround start around)

/-- Makes the directory that a path leads to, and those around it, where they do not exist. Dots do
not count as names, but a dot at the end asks for a directory that only its own name makes. -/
def makeDirectories (t : Tree) (path : String) : Except Fault Tree := do
  checkPath path
  let start := t.startOf path
  let names := pathParts path
  let steps := (names.filter (· ≠ ".")).reverse
  if names.getLast? = some "." then
    t.ensureDirectory start ("." :: steps) (t.makeAround start steps.tail)
  else t.makeAround start steps

/-- Opens the file that a path leads to for writing: a file that exists is emptied, one that does
not is made. Returns what the file lies on and its place in the tree. -/
def openNew (t : Tree) (path : String) : Except Fault (Tree × Device × List String) := do
  let names ← pathNames path
  let place ← t.follow (t.startOf path) names
  match t.entry? place with
  | some .directory => .error .isDirectory
  | some .fullDevice => .ok (t, .full, place)
  | some (.fillingFile _ requests) =>
    .ok (t.put place (.fillingFile .empty requests), .filling requests, place)
  | some (.unusable fault) => .error fault
  | _ => .ok (t.put place (.file .empty), .working, place)

/-- Keeps what was written to a file. Nothing is kept on the full device. -/
def keep (t : Tree) (place : List String) (s : Sink) : Tree :=
  match s.device with
  | .working => t.put place (.file s.written.toUTF8)
  | .full => t
  | .filling requests => t.put place (.fillingFile s.written.toUTF8 requests)

end Tree

end Motewatch.Storage
