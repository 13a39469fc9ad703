import Motewatch.Json.Number
import Motewatch.Json.Quoted

/-!
# Writing JSON

## Main definitions

* `Spacing` — the blanks of a text: `compact` has none, `indented` begins a line for each item.
* `Value.write` — the text of a value.
* `Value.compactText`, `Value.indentedText` — the two texts in use.
-/

namespace Motewatch.Json

/-- The blanks of a text: what begins an item at a depth, and what follows a colon. -/
structure Spacing where
  lineAt : Nat → List Char
  afterColon : List Char

/-- No blanks at all. -/
def compact : Spacing where
  lineAt _ := []
  afterColon := []

/-- A line for each item, indented by four blanks for each depth, and a blank after each colon. -/
def indented : Spacing where
  lineAt depth := '\n' :: List.replicate (4 * depth) ' '
  afterColon := [' ']

mutual

/-- The text of a value at a depth. Empty arrays and objects hold no blanks. -/
def Value.write (spacing : Spacing) (depth : Nat) : Value → List Char
  | .null => "null".toList
  | .bool b => if b then "true".toList else "false".toList
  | .int i => writeInt i
  | .double x => writeDouble x
  | .text s => quote s
  | .array [] => ['[', ']']
  | .array (v :: items) =>
    '[' :: spacing.lineAt (depth + 1) ++ v.write spacing (depth + 1) ++
      writeItems spacing depth items
  | .object [] => ['{', '}']
  | .object ((key, v) :: members) =>
    '{' :: spacing.lineAt (depth + 1) ++ quote key ++ ':' :: spacing.afterColon ++
      v.write spacing (depth + 1) ++ writeMembers spacing depth members

/-- The items of an array after the first one, and its end. -/
def writeItems (spacing : Spacing) (depth : Nat) : List Value → List Char
  | [] => spacing.lineAt depth ++ [']']
  | v :: items =>
    ',' :: spacing.lineAt (depth + 1) ++ v.write spacing (depth + 1) ++
      writeItems spacing depth items

/-- The members of an object after the first one, and its end. -/
def writeMembers (spacing : Spacing) (depth : Nat) : List (String × Value) → List Char
  | [] => spacing.lineAt depth ++ ['}']
  | (key, v) :: members =>
    ',' :: spacing.lineAt (depth + 1) ++ quote key ++ ':' :: spacing.afterColon ++
      v.write spacing (depth + 1) ++ writeMembers spacing depth members

end

/-- The text of a value without blanks. -/
def Value.compactText (v : Value) : String := String.ofList (v.write compact 0)

/-- The text of a value with a line for each item. -/
def Value.indentedText (v : Value) : String := String.ofList (v.write indented 0)

end Motewatch.Json
