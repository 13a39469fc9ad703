import Motewatch.Storage.Fault

/-!
# Paths

A path is a text of names with slashes between them. It leads from the top of a tree if a slash
stands before its first name, and otherwise from the place where it is used.

## Main definitions

* `pathParts`, `isFromTop` — the names in a path and where they lead from.
* `samePath` — whether two paths say the same.
* `checkPath` — refuses what no path may be.
* `pathNames` — the names to follow.
-/

namespace Motewatch.Storage

/-- The names in a path as they are written. -/
def pathParts (path : String) : List String :=
  ((path.toList.splitOn '/').filter (· ≠ [])).map String.ofList

/-- Whether a path leads from the top of a tree. -/
def isFromTop (path : String) : Bool := path.toList.head? = some '/'

/-- The names in a path without the dots that say nothing: only a dot that the path begins with
counts. -/
def plainParts (path : String) : List String :=
  match pathParts path with
  | [] => []
  | name :: rest =>
    if name = "." ∧ isFromTop path then rest.filter (· ≠ ".") else name :: rest.filter (· ≠ ".")

/-- Whether two paths say the same: they may differ in how many slashes stand in one place, and in
dots after the first name. -/
def samePath (a b : String) : Bool :=
  isFromTop a == isFromTop b && plainParts a == plainParts b

/-- How many bytes a name may have. -/
def maxNameSize : Nat := 255

/-- How many bytes a path may have. -/
def maxPathSize : Nat := 4095

/-- Refuses a path with a NUL character, and one that is too long. -/
def checkPath (path : String) : Except Fault Unit :=
  if path.toList.contains '\x00' then .error .nulInName
  else if maxPathSize < path.utf8ByteSize then .error .nameTooLong
  else .ok ()

/-- The names that lead to what a path stands for. A slash at the end asks for a directory. -/
def pathNames (path : String) : Except Fault (List String) := do
  checkPath path
  let names := pathParts path
  if path.toList.getLast? = some '/' ∧ names ≠ [] then .ok (names ++ ["."]) else .ok names

end Motewatch.Storage
