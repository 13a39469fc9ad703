import Motewatch.Json.Value

/-!
# Quoted texts

A text stands in JSON between quotation marks, with escapes for the characters that may not stand
there as they are.

## Main definitions

* `escape`, `quote` — the written form of a character, of a text.
* `quoted` — reads a text whose opening mark has been read.
* `skipQuoted` — passes over such a text, and also over halves of surrogate pairs that stand alone.
-/

namespace Motewatch.Json

/-- The hexadecimal digit for a number below sixteen, in lower case. -/
def hexDigit (n : Nat) : Char := Nat.digitChar n

/-- The value of a hexadecimal digit of either case. -/
def hexValue? (c : Char) : Option Nat :=
  if c.isDigit then some (c.toNat - '0'.toNat)
  else if 'a' ≤ c ∧ c ≤ 'f' then some (c.toNat - 'a'.toNat + 10)
  else if 'A' ≤ c ∧ c ≤ 'F' then some (c.toNat - 'A'.toNat + 10)
  else none

/-- The number that four hexadecimal digits stand for. -/
def hexValue4? (a b c d : Char) : Option Nat := do
  let a ← hexValue? a
  let b ← hexValue? b
  let c ← hexValue? c
  let d ← hexValue? d
  pure (((a * 16 + b) * 16 + c) * 16 + d)

/-- The written form of a character: quotation marks, backslashes and the controls below the space
are escaped, everything else stands for itself. -/
def escape (c : Char) : List Char :=
  if c = '"' then ['\\', '"']
  else if c = '\\' then ['\\', '\\']
  else if c = '\x08' then ['\\', 'b']
  else if c = '\t' then ['\\', 't']
  else if c = '\n' then ['\\', 'n']
  else if c = '\x0c' then ['\\', 'f']
  else if c = '\r' then ['\\', 'r']
  else if c < ' ' then ['\\', 'u', '0', '0', hexDigit (c.toNat / 16), hexDigit (c.toNat % 16)]
  else [c]

/-- A text between quotation marks. -/
def quote (s : String) : List Char := '"' :: s.toList.flatMap escape ++ ['"']

/-- The character that a backslash and one letter stand for. -/
def unescape? (c : Char) : Option Char :=
  if c = '"' then some '"'
  else if c = '\\' then some '\\'
  else if c = '/' then some '/'
  else if c = 'b' then some '\x08'
  else if c = 'f' then some '\x0c'
  else if c = 'n' then some '\n'
  else if c = 'r' then some '\r'
  else if c = 't' then some '\t'
  else none

/-- Why four hexadecimal digits cannot be read from a text: it has less than four bytes left, or
something else stands there. -/
def hexFault (s : List Char) : Fault :=
  if (String.ofList s).utf8ByteSize < 4 then .unfinished else .malformed

/-- The first and the second half of a surrogate pair. -/
def isHighHalf (n : Nat) : Bool := 0xD800 ≤ n && n ≤ 0xDBFF

@[inherit_doc isHighHalf] def isLowHalf (n : Nat) : Bool := 0xDC00 ≤ n && n ≤ 0xDFFF

/-- The character that the two halves of a surrogate pair stand for. -/
def joinHalves (high low : Nat) : Char :=
  Char.ofNat (0x10000 + (high - 0xD800) * 0x400 + (low - 0xDC00))

/-- The number that the four hexadecimal digits at the start of a text stand for. -/
def hex4 : List Char → Except Fault Nat
  | a :: b :: c :: d :: _ =>
    match hexValue4? a b c d with
    | some n => .ok n
    | none => .error .malformed
  | s => .error (hexFault s)

/-- The second half of a surrogate pair, which has to stand at the start of a text as an escape of
its own. -/
def lowHalf : List Char → Except Fault Nat
  | '\\' :: 'u' :: rest => do
    let low ← hex4 rest
    if isLowHalf low then .ok low else .error .malformed
  | [] => .error .unfinished
  | ['\\'] => .error .unfinished
  | _ => .error .malformed

/-- The character that the escape after a backslash stands for, and how many characters it takes.
The halves of a surrogate pair have to stand together. -/
def readEscape : List Char → Except Fault (Char × Nat)
  | [] => .error .unfinished
  | 'u' :: rest => do
    let n ← hex4 rest
    if isLowHalf n then .error .malformed
    else if isHighHalf n then do
      let low ← lowHalf (rest.drop 4)
      .ok (joinHalves n low, 11)
    else .ok (Char.ofNat n, 5)
  | c :: _ =>
    match unescape? c with
    | some d => .ok (d, 1)
    | none => .error .malformed

/-- How many characters the escape after a backslash takes, where halves of surrogate pairs may
stand alone. -/
def skipEscape : List Char → Except Fault Nat
  | [] => .error .unfinished
  | 'u' :: rest => (hex4 rest).map fun _ => 5
  | c :: _ => if (unescape? c).isSome then .ok 1 else .error .malformed

/-- Reads up to the closing mark, after passing over the given number of characters. -/
def quotedChars : Nat → Reader (List Char)
  | _, [] => .error .unfinished
  | n + 1, _ :: rest => quotedChars n rest
  | 0, c :: rest =>
    if c = '"' then .ok ([], rest)
    else if c = '\\' then
      match readEscape rest with
      | .error e => .error e
      | .ok (d, used) => (quotedChars used rest).map fun r => (d :: r.1, r.2)
    else if c < ' ' then .error .malformed
    else (quotedChars 0 rest).map fun r => (c :: r.1, r.2)

/-- What follows the closing mark, after passing over the given number of characters. -/
def skipQuotedChars : Nat → List Char → Except Fault (List Char)
  | _, [] => .error .unfinished
  | n + 1, _ :: rest => skipQuotedChars n rest
  | 0, c :: rest =>
    if c = '"' then .ok rest
    else if c = '\\' then
      match skipEscape rest with
      | .error e => .error e
      | .ok used => skipQuotedChars used rest
    else if c < ' ' then .error .malformed
    else skipQuotedChars 0 rest

/-- Reads a text whose opening mark has been read. -/
def quoted : Reader String := fun s =>
  (quotedChars 0 s).map fun r => (String.ofList r.1, r.2)

/-- Passes over a text whose opening mark has been read and returns what follows it. -/
def skipQuoted (s : List Char) : Except Fault (List Char) := skipQuotedChars 0 s

example : (quotedChars 0 "a\\u00e9\\ud83d\\ude00\\n\" b".toList).toOption =
    some ("aé😀\n".toList, " b".toList) := by
  decide +kernel

end Motewatch.Json
