import Motewatch.Json.Skip

/-!
# Reading records

A record is written as an object with its fields in any order, or as an array of its fields in the
order in which they are declared. Keys that are no field of the record are passed over. A field may
be given once.

## Main definitions

* `Field` — a field of a record: its name and how it is read into the record.
* `Shape` — all fields of a record and the record to begin with.
* `Shape.read` — reads a record.
-/

namespace Motewatch.Json

/-- A field of a record under construction. -/
structure Field (ρ : Type) where
  name : String
  /-- Whether an object has to hold the field. -/
  required : Bool
  /-- Reads a value and puts it into the record. -/
  read : ρ → Reader ρ

/-- A field whose value is read on its own and then put into the record. -/
def Field.of {ρ α : Type} (name : String) (required : Bool) (read : Reader α) (put : ρ → α → ρ) :
    Field ρ where
  name := name
  required := required
  read r s := (read s).map fun p => (put r p.1, p.2)

/-- The fields of a record. -/
structure Shape (ρ : Type) where
  fields : List (Field ρ)
  /-- The record before any field is read. -/
  start : ρ
  /-- Whether an array may end before the last field. -/
  mayBeShort : Bool

/-- A record under construction and the names of the fields that it has been given. -/
structure Partial (ρ : Type) where
  record : ρ
  given : List String

/-- Reads the member of an object with the given key. -/
def Shape.member {ρ : Type} (shape : Shape ρ) (p : Partial ρ) (key : String) :
    Reader (Partial ρ) := fun s =>
  match shape.fields.find? (·.name == key) with
  | none => do
    let rest ← colon s
    let rest ← skip rest
    .ok (p, rest)
  | some field =>
    if p.given.contains key then .error .mismatched
    else do
      let rest ← colon s
      let (record, rest) ← field.read p.record rest
      .ok (⟨record, key :: p.given⟩, rest)

/-- The record, if all fields that have to be given are. -/
def Shape.complete {ρ : Type} (shape : Shape ρ) (p : Partial ρ) : Except Fault ρ :=
  if shape.fields.all fun f => !f.required || p.given.contains f.name then .ok p.record
  else .error .mismatched

/-- Reads fields in the given order up to the closing bracket of the array that holds them. -/
def readInOrder {ρ : Type} (mayBeShort : Bool) : List (Field ρ) → Bool → ρ → Reader ρ
  | [], _, r, s =>
    match dropSpace s with
    | [] => .error .unfinished
    | c :: rest => if c = ']' then .ok (r, rest) else .error .malformed
  | field :: fields, first, r, s =>
    match dropSpace s with
    | [] => .error .unfinished
    | c :: rest =>
      if c = ']' then (if mayBeShort then .ok (r, rest) else .error .mismatched)
      else if first then do
        let (r, rest) ← field.read r (c :: rest)
        readInOrder mayBeShort fields false r rest
      else if c = ',' then
        match dropSpace rest with
        | [] => .error .unfinished
        | d :: rest =>
          if d = ']' then .error .malformed
          else do
            let (r, rest) ← field.read r (d :: rest)
            readInOrder mayBeShort fields false r rest
      else .error .malformed

/-- Reads a record. -/
def Shape.read {ρ : Type} (shape : Shape ρ) : Reader ρ := fun s =>
  match dropSpace s with
  | [] => .error .unfinished
  | c :: rest =>
    if c = '{' then do
      let (p, rest) ← members shape.member ⟨shape.start, []⟩ rest
      let record ← shape.complete p
      .ok (record, rest)
    else if c = '[' then readInOrder shape.mayBeShort shape.fields true shape.start rest
    else .error (refusal (c :: rest))

end Motewatch.Json
