import Motewatch.Json.Number
import Motewatch.Json.Quoted
import Motewatch.Catalog

/-!
# Reading JSON

Readers go through a text from left to right and stop at the first fault. What is wanted decides
what is a fault: a scalar of another kind is read to its end, so that its own faults come first,
while a bracket where a scalar is wanted is refused at once.

## Main definitions

* `natural`, `double`, `text`, `key`, `flag`, `optional`, `choice` — readers of single values.
* `array`, `members`, `catalog` — readers of what stands between brackets.
* `value` — reads any value, with a bound on how deep brackets may be nested.
* `parse` — reads a whole text.
-/

namespace Motewatch.Json

/-- The characters that may stand between the parts of a text. -/
def isSpace (c : Char) : Bool := c == ' ' || c == '\n' || c == '\t' || c == '\r'

/-- A text from its first character that is not a space on. -/
def dropSpace (s : List Char) : List Char := s.dropWhile isSpace

/-- Takes the given characters off the start of a text. -/
def expect : List Char → List Char → Except Fault (List Char)
  | [], s => .ok s
  | _ :: _, [] => .error .unfinished
  | c :: word, d :: s => if c = d then expect word s else .error .malformed

/-- Takes a colon off a text, with the spaces before it. -/
def colon (s : List Char) : Except Fault (List Char) :=
  match dropSpace s with
  | [] => .error .unfinished
  | c :: rest => if c = ':' then .ok rest else .error .malformed

/-- Whether a number begins with the character. -/
def startsNumber (c : Char) : Bool := c == '-' || c.isDigit

/-- The fault of a scalar that is read only to be refused. -/
def faultOf {α : Type} : Except Fault α → Fault
  | .ok _ => .mismatched
  | .error e => e

/-- The fault of a text whose first value is of another kind than the one wanted. -/
def refusal : List Char → Fault
  | [] => .unfinished
  | c :: rest =>
    if c = 'n' then faultOf (expect "ull".toList rest)
    else if c = 't' then faultOf (expect "rue".toList rest)
    else if c = 'f' then faultOf (expect "alse".toList rest)
    else if c = '"' then faultOf (quoted rest)
    else if startsNumber c then faultOf (number (c :: rest))
    else if c = '[' ∨ c = '{' then .mismatched
    else .malformed

/-! ## Single values -/

/-- Reads an unsigned 64-bit number. -/
def natural : Reader Nat := fun s =>
  match dropSpace s with
  | [] => .error .unfinished
  | c :: rest =>
    if startsNumber c then
      match number (c :: rest) with
      | .error e => .error e
      | .ok (.int i, rest) => if 0 ≤ i then .ok (i.toNat, rest) else .error .mismatched
      | .ok _ => .error .mismatched
    else .error (refusal (c :: rest))

/-- The double nearest to a whole number of at most 64 bits. -/
def ofWhole (i : Int) : Float :=
  let x := i.natAbs.toUInt64.toFloat
  if i < 0 then -x else x

/-- Reads a number as a double. -/
def double : Reader Float := fun s =>
  match dropSpace s with
  | [] => .error .unfinished
  | c :: rest =>
    if startsNumber c then
      match number (c :: rest) with
      | .error e => .error e
      | .ok (.int i, rest) => .ok (ofWhole i, rest)
      | .ok (.double x, rest) => .ok (x, rest)
      | .ok _ => .error .mismatched
    else .error (refusal (c :: rest))

/-- Reads a text between quotation marks. -/
def text : Reader String := fun s =>
  match dropSpace s with
  | [] => .error .unfinished
  | c :: rest => if c = '"' then quoted rest else .error (refusal (c :: rest))

/-- Reads the key of a member. Nothing but a text can be a key, so that what begins otherwise is not
read on. -/
def key : Reader String := fun s =>
  match dropSpace s with
  | [] => .error .unfinished
  | c :: rest => if c = '"' then quoted rest else .error .malformed

/-- Reads a truth value. -/
def flag : Reader Bool := fun s =>
  match dropSpace s with
  | [] => .error .unfinished
  | c :: rest =>
    if c = 't' then (expect "rue".toList rest).map fun rest => (true, rest)
    else if c = 'f' then (expect "alse".toList rest).map fun rest => (false, rest)
    else .error (refusal (c :: rest))

/-- Reads `null`. -/
def nothing : Reader Unit := fun s =>
  match dropSpace s with
  | [] => .error .unfinished
  | c :: rest =>
    if c = 'n' then (expect "ull".toList rest).map fun rest => ((), rest)
    else .error (refusal (c :: rest))

/-- Reads `null` as nothing and everything else as the reader given does. -/
def optional {α : Type} (read : Reader α) : Reader (Option α) := fun s =>
  match dropSpace s with
  | 'n' :: rest => (expect "ull".toList rest).map fun rest => (none, rest)
  | s => (read s).map fun r => (some r.1, r.2)

/-- The choice that a name stands for. -/
def chosen {α : Type} (choices : List (String × α)) (name : String) : Except Fault α :=
  match choices.lookup name with
  | some a => .ok a
  | none => .error .mismatched

/-- Reads one of finitely many choices: its name, or an object whose only key is its name and whose
only value is `null`. -/
def choice {α : Type} (choices : List (String × α)) : Reader α := fun s =>
  match dropSpace s with
  | [] => .error .unfinished
  | c :: rest =>
    if c = '"' then do
      let (name, rest) ← quoted rest
      let a ← chosen choices name
      .ok (a, rest)
    else if c = '{' then do
      let (name, rest) ← key rest
      let a ← chosen choices name
      let rest ← colon rest
      let ((), rest) ← nothing rest
      match dropSpace rest with
      | [] => .error .unfinished
      | d :: rest => if d = '}' then .ok (a, rest) else .error .malformed
    else .error .malformed

/-! ## Brackets -/

/-- Reads the items of an array from the second one on, and its closing bracket. The first argument
bounds the number of items. -/
def itemsAfter {α : Type} (item : Reader α) : Nat → Reader (List α)
  | 0, _ => .error .malformed
  | fuel + 1, s =>
    match dropSpace s with
    | [] => .error .unfinished
    | c :: rest =>
      if c = ']' then .ok ([], rest)
      else if c = ',' then
        match dropSpace rest with
        | [] => .error .unfinished
        | d :: rest =>
          if d = ']' then .error .malformed
          else do
            let (a, rest) ← item (d :: rest)
            let (as, rest) ← itemsAfter item fuel rest
            .ok (a :: as, rest)
      else .error .malformed

/-- Reads the items of an array whose opening bracket has been read. -/
def items {α : Type} (item : Reader α) : Reader (List α) := fun s =>
  match dropSpace s with
  | [] => .error .unfinished
  | c :: rest =>
    if c = ']' then .ok ([], rest)
    else do
      let (a, rest) ← item (c :: rest)
      let (as, rest) ← itemsAfter item (rest.length + 1) rest
      .ok (a :: as, rest)

/-- Reads an array. -/
def array {α : Type} (item : Reader α) : Reader (List α) := fun s =>
  match dropSpace s with
  | [] => .error .unfinished
  | c :: rest => if c = '[' then items item rest else .error (refusal (c :: rest))

/-- Reads the members of an object from the second one on, and its closing bracket. Each key is
given to `member`, which reads on from before the colon and changes what has been gathered. -/
def membersAfter {σ : Type} (member : σ → String → Reader σ) : Nat → σ → Reader σ
  | 0, _, _ => .error .malformed
  | fuel + 1, gathered, s =>
    match dropSpace s with
    | [] => .error .unfinished
    | c :: rest =>
      if c = '}' then .ok (gathered, rest)
      else if c = ',' then
        match dropSpace rest with
        | [] => .error .unfinished
        | d :: rest =>
          if d = '"' then do
            let (key, rest) ← quoted rest
            let (gathered, rest) ← member gathered key rest
            membersAfter member fuel gathered rest
          else .error .malformed
      else .error .malformed

/-- Reads the members of an object whose opening bracket has been read. -/
def members {σ : Type} (member : σ → String → Reader σ) (start : σ) : Reader σ := fun s =>
  match dropSpace s with
  | [] => .error .unfinished
  | c :: rest =>
    if c = '}' then .ok (start, rest)
    else if c = '"' then do
      let (key, rest) ← quoted rest
      let (gathered, rest) ← member start key rest
      membersAfter member (rest.length + 1) gathered rest
    else .error .malformed

/-- Reads the value of a member and files it under the key of the member. -/
def filed {α : Type} (item : Reader α) (c : Catalog α) (key : String) : Reader (Catalog α) :=
  fun s => do
    let rest ← colon s
    let (a, rest) ← item rest
    .ok (c.put key a, rest)

/-- Reads an object whose values are all read in one way. Of several values under one key the last
one counts. -/
def catalog {α : Type} (item : Reader α) : Reader (Catalog α) := fun s =>
  match dropSpace s with
  | [] => .error .unfinished
  | c :: rest => if c = '{' then members (filed item) .empty rest else .error (refusal (c :: rest))

/-! ## Any value -/

/-- Reads any value, given how to read on after an opening bracket. -/
def valueWith (readItems : Reader (List Value)) (readMembers : Reader (Catalog Value)) :
    Reader Value := fun s =>
  match dropSpace s with
  | [] => .error .unfinished
  | c :: rest =>
    if c = 'n' then (expect "ull".toList rest).map fun rest => (.null, rest)
    else if c = 't' then (expect "rue".toList rest).map fun rest => (.bool true, rest)
    else if c = 'f' then (expect "alse".toList rest).map fun rest => (.bool false, rest)
    else if c = '"' then (quoted rest).map fun r => (.text r.1, r.2)
    else if startsNumber c then number (c :: rest)
    else if c = '[' then (readItems rest).map fun r => (.array r.1, r.2)
    else if c = '{' then (readMembers rest).map fun r => (.object r.1.entries, r.2)
    else .error .malformed

/-- Reads a value with brackets nested at most `depth` deep. -/
def value : Nat → Reader Value
  | 0 => valueWith (fun _ => .error .malformed) (fun _ => .error .malformed)
  | depth + 1 => valueWith (items (value depth)) (members (filed (value depth)) .empty)

/-- How deep brackets may be nested in a text. -/
def maxDepth : Nat := 127

/-- Reads a text that holds one value and spaces around it. -/
def parse {α : Type} (read : Reader α) (s : String) : Except Fault α := do
  let (a, rest) ← read s.toList
  if dropSpace rest = [] then .ok a else .error .malformed

end Motewatch.Json
