/-!
# Faults of storage

## Main definitions

* `Storage.Fault` — why a file could not be used.
* `Storage.Fault.message` — the wording of the operating system.
-/

namespace Motewatch.Storage

/-- Why a file could not be used. -/
inductive Fault
  | notFound
  | alreadyExists
  | notDirectory
  | isDirectory
  | noSpace
  | nameTooLong
  | nulInName
  /-- The file holds bytes that are no UTF-8 text. -/
  | notText
  /-- Any other fault, in the words of the system. -/
  | other (wording : String)
  deriving DecidableEq

/-- The wording of a fault. -/
def Fault.message : Fault → String
  | notFound => "No such file or directory (os error 2)"
  | alreadyExists => "File exists (os error 17)"
  | notDirectory => "Not a directory (os error 20)"
  | isDirectory => "Is a directory (os error 21)"
  | noSpace => "No space left on device (os error 28)"
  | nameTooLong => "File name too long (os error 36)"
  | nulInName => "file name contained an unexpected NUL byte"
  | notText => "stream did not contain valid UTF-8"
  | other wording => wording

end Motewatch.Storage
