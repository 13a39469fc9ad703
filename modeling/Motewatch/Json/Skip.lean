import Motewatch.Json.Reader

/-!
# Passing over a value

A value that nobody asked for is only checked for its grammar: its numbers may be of any size, the
halves of surrogate pairs may stand alone, and brackets may be nested to any depth. The brackets
that are open are kept in a list.

## Main definitions

* `skip` — passes over a value and returns what follows it.
-/

namespace Motewatch.Json

/-- The two kinds of brackets. -/
inductive Bracket
  | square
  | curly
  deriving DecidableEq

/-- The bracket that a character opens. -/
def Bracket.opened? (c : Char) : Option Bracket :=
  if c = '[' then some .square else if c = '{' then some .curly else none

/-- The character that closes a bracket. -/
def Bracket.closing : Bracket → Char
  | square => ']'
  | curly => '}'

/-- Passes over what stands before a value between brackets: nothing in an array, the key and the
colon in an object. -/
def skipKey : Bracket → List Char → Except Fault (List Char)
  | .square, s => .ok s
  | .curly, s =>
    match dropSpace s with
    | [] => .error .unfinished
    | c :: rest =>
      if c = '"' then do
        let rest ← skipQuoted rest
        colon rest
      else .error .malformed

/-- Passes over a value without brackets that begins with a character. -/
def skipScalar (c : Char) (rest : List Char) : Except Fault (List Char) :=
  if c = 'n' then expect "ull".toList rest
  else if c = 't' then expect "rue".toList rest
  else if c = 'f' then expect "alse".toList rest
  else if c = '"' then skipQuoted rest
  else if startsNumber c then skipNumber (c :: rest)
  else .error .malformed

mutual

/-- Passes over a value and all that the open brackets around it still hold. The first argument
bounds the number of steps. -/
def skipInside : Nat → List Bracket → List Char → Except Fault (List Char)
  | 0, _, _ => .error .malformed
  | fuel + 1, around, s =>
    match dropSpace s with
    | [] => .error .unfinished
    | c :: rest =>
      match Bracket.opened? c with
      | none => do
        let rest ← skipScalar c rest
        skipAfter fuel around rest
      | some b =>
        match dropSpace rest with
        | [] => .error .unfinished
        | d :: rest =>
          if d = b.closing then skipAfter fuel around rest
          else do
            let rest ← skipKey b (d :: rest)
            skipInside fuel (b :: around) rest

/-- Passes over all that the open brackets still hold after a value. -/
def skipAfter : Nat → List Bracket → List Char → Except Fault (List Char)
  | 0, _, _ => .error .malformed
  | _ + 1, [], s => .ok s
  | fuel + 1, b :: around, s =>
    match dropSpace s with
    | [] => .error .unfinished
    | c :: rest =>
      if c = b.closing then skipAfter fuel around rest
      else if c = ',' then do
        let rest ← skipKey b rest
        skipInside fuel (b :: around) rest
      else .error .malformed

end

/-- Passes over a value and returns what follows it. -/
def skip (s : List Char) : Except Fault (List Char) := skipInside (2 * s.length + 2) [] s

end Motewatch.Json
