/-!
# JSON values

The values that JSON texts stand for. Whole numbers and doubles are kept apart, since they are
written differently; a text can also stand for no value, in one of three ways.

## Main definitions

* `Value` — a JSON value; the members of an object are in the order in which they are written.
* `Fault` — why a text was refused.
-/

namespace Motewatch.Json

/-- A JSON value. -/
inductive Value
  | null
  | bool (b : Bool)
  | int (i : Int)
  | double (x : Float)
  | text (s : String)
  | array (items : List Value)
  | object (members : List (String × Value))
  deriving BEq, Inhabited

/-- Why a text was refused: it breaks the grammar, it holds something else than what was wanted, or
it ends too early. -/
inductive Fault
  | malformed
  | mismatched
  | unfinished
  deriving DecidableEq

/-- The name of the kind of refusal. -/
def Fault.name : Fault → String
  | malformed => "syntax"
  | mismatched => "data"
  | unfinished => "eof"

/-- A reader takes a value off the start of a text and returns what follows it. -/
abbrev Reader (α : Type) := List Char → Except Fault (α × List Char)

end Motewatch.Json
