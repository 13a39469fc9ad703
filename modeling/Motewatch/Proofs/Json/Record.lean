import Motewatch.Json.Record
import Motewatch.Proofs.Json.Written

/-!
# Records are read back

A record is built up field by field while the members of its object are read. If the members stand
in the order of the fields, then each of them finds its field among those not given yet, and at the
closing bracket none is missing.

## Main definitions

* `Fills` — members hold the fields of a record one after the other.

## Main results

* `Fills.of` — a field that is read on its own.
* `reads_record` — a record is read back from an object with its fields in order.
-/

namespace Motewatch.Json

variable {spacing : Spacing} {ρ α : Type}

/-- Members that hold fields one after the other and turn the first record into the second. -/
inductive Fills (spacing : Spacing) : List (Field ρ) → ρ → List (String × Value) → ρ → Prop
  | nil (r : ρ) : Fills spacing [] r [] r
  | cons {field : Field ρ} {fields : List (Field ρ)} {r r' r'' : ρ} {v : Value}
      {ms : List (String × Value)} (head : Reads spacing (field.read r) v r')
      (tail : Fills spacing fields r' ms r'') :
      Fills spacing (field :: fields) r ((field.name, v) :: ms) r''

/-- A field that is read on its own. -/
theorem Fills.of {name : String} {required : Bool} {read : Reader α} {put : ρ → α → ρ}
    {fields : List (Field ρ)} {r r' : ρ} {v : Value} {a : α} {ms : List (String × Value)}
    (head : Reads spacing read v a) (tail : Fills spacing fields (put r a) ms r') :
    Fills spacing (.of name required read put :: fields) r ((name, v) :: ms) r' := by
  have hread : Reads spacing ((Field.of name required read put).read r) v (put r a) := by
    intro depth before after hb ha
    simp only [Field.of, head depth hb ha, Except.map]
  exact .cons hread tail

section
variable (hs : spacing.IsBlank) {shape : Shape ρ}

include hs in
theorem takes_member {field : Field ρ} {p : Partial ρ} {v : Value} {r : ρ}
    (hfind : shape.fields.find? (·.name == field.name) = some field)
    (hnew : field.name ∉ p.given) (hread : Reads spacing (field.read p.record) v r) :
    Takes spacing shape.member p field.name v ⟨r, field.name :: p.given⟩ := by
  intro depth after ha
  simp [Shape.member, hfind, hnew, colon_cons, hread depth hs.afterColon ha, bind, Except.bind]

include hs in
/-- The fields that are left when some have been given. -/
theorem gathers_member {done fields : List (Field ρ)} (hshape : shape.fields = done ++ fields)
    (hnodup : (shape.fields.map (·.name)).Nodup) {r r' : ρ} {ms : List (String × Value)}
    (h : Fills spacing fields r ms r') :
    Gathers spacing shape.member ⟨r, (done.map (·.name)).reverse⟩ ms
      ⟨r', (shape.fields.map (·.name)).reverse⟩ := by
  induction h generalizing done with
  | nil r =>
    rw [hshape, List.append_nil]
    exact .nil _
  | @cons field fields r r' r'' v ms head tail ih =>
    have hnew : field.name ∉ done.map (·.name) := by
      rw [hshape, List.map_append, List.map_cons] at hnodup
      exact fun hmem => (List.nodup_append.1 hnodup).2.2 _ hmem _ (by simp) rfl
    have hfind : shape.fields.find? (·.name == field.name) = some field := by
      have hdone : done.find? (·.name == field.name) = none :=
        List.find?_eq_none.2 fun f hf heq =>
          hnew (List.mem_map.2 ⟨f, hf, by simpa using heq⟩)
      rw [hshape, List.find?_append, hdone]
      simp
    have hnext := @ih (done ++ [field]) (by rw [hshape]; simp)
    rw [List.map_append, List.reverse_append] at hnext
    exact .cons (takes_member hs hfind (by simpa using hnew) head) hnext

include hs in
/-- **A record is read back** from an object with its fields in the order of the shape. -/
theorem reads_record (hnodup : (shape.fields.map (·.name)).Nodup) {r : ρ}
    {ms : List (String × Value)} (h : Fills spacing shape.fields shape.start ms r) :
    Reads spacing shape.read (.object ms) r := by
  intro depth before after hb _
  have hgathers := gathers_member hs (List.nil_append _).symm hnodup h
  obtain ⟨body, heq, hread⟩ := members_write hs hgathers depth
  have hcomplete : shape.complete ⟨r, (shape.fields.map (·.name)).reverse⟩ = .ok r := by
    rw [Shape.complete, if_pos]
    simp only [List.all_eq_true, List.contains_eq_mem, List.mem_reverse, Bool.or_eq_true,
      decide_eq_true_eq]
    exact fun f hf => .inr (List.mem_map.2 ⟨f, hf, rfl⟩)
  simp only [List.map_nil, List.reverse_nil] at hread
  rw [heq, List.cons_append, Shape.read, hb.dropSpace_cons rfl]
  simp [hread, hcomplete, bind, Except.bind]

end

end Motewatch.Json
