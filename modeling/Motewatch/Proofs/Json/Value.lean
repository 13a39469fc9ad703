import Motewatch.Proofs.Json.Written

/-!
# Any value is read back

The reader of arbitrary values follows the brackets down to a bound and then meets a scalar, or
refuses. So a value is read back if the bound is not below the depth of its brackets and its scalars
are read back; its objects have to come in the order of their keys, in which they are kept.

## Main definitions

* `Value.depth` — how deep brackets are nested in a value.
* `Value.Sound` — the values that texts can hold.

## Main results

* `reads_value` — any sound value is read back.
-/

namespace Motewatch.Json

variable {spacing : Spacing} {s t before : List Char}

/-! ## Depth -/

mutual

/-- How deep brackets are nested in a value. -/
def Value.depth : Value → Nat
  | .array vs => depthOfItems vs + 1
  | .object ms => depthOfMembers ms + 1
  | _ => 0

/-- How deep brackets are nested in the items of an array. -/
def depthOfItems : List Value → Nat
  | [] => 0
  | v :: vs => max v.depth (depthOfItems vs)

/-- How deep brackets are nested in the members of an object. -/
def depthOfMembers : List (String × Value) → Nat
  | [] => 0
  | (_, v) :: ms => max v.depth (depthOfMembers ms)

end

theorem depth_le_depthOfItems {v : Value} {vs : List Value} (h : v ∈ vs) :
    v.depth ≤ depthOfItems vs := by
  induction vs with
  | nil => cases h
  | cons w vs ih =>
    rw [depthOfItems]
    rcases List.mem_cons.1 h with rfl | h
    · exact Nat.le_max_left _ _
    · exact Nat.le_trans (ih h) (Nat.le_max_right _ _)

theorem depth_le_depthOfMembers {m : String × Value} {ms : List (String × Value)} (h : m ∈ ms) :
    m.2.depth ≤ depthOfMembers ms := by
  induction ms with
  | nil => cases h
  | cons n ms ih =>
    rw [depthOfMembers]
    rcases List.mem_cons.1 h with rfl | h
    · exact Nat.le_max_left _ _
    · exact Nat.le_trans (ih h) (Nat.le_max_right _ _)

theorem depth_lt_of_mem_array {v : Value} {vs : List Value} (h : v ∈ vs) :
    v.depth < (Value.array vs).depth := by
  rw [Value.depth]
  exact Nat.lt_succ_of_le (depth_le_depthOfItems h)

theorem depth_lt_of_mem_object {m : String × Value} {ms : List (String × Value)} (h : m ∈ ms) :
    m.2.depth < (Value.object ms).depth := by
  rw [Value.depth]
  exact Nat.lt_succ_of_le (depth_le_depthOfMembers h)

/-! ## Reading -/

/-- A value as it can stand in a text: whole numbers fit a word, doubles are read back, and the
members of an object are in the order of their keys. -/
inductive Value.Sound : Value → Prop
  | null : Sound .null
  | bool (b : Bool) : Sound (.bool b)
  | int {i : Int} (h : FitsWord i) : Sound (.int i)
  | double {x : Float} (h : ReadsBack x) : Sound (.double x)
  | text (s : String) : Sound (.text s)
  | array {vs : List Value} (h : ∀ v ∈ vs, v.Sound) : Sound (.array vs)
  | object {ms : List (String × Value)} (increasing : ms.Pairwise (·.1 < ·.1))
      (h : ∀ m ∈ ms, m.2.Sound) : Sound (.object ms)

section Reading
variable {readItems : Reader (List Value)} {readMembers : Reader (Catalog Value)}

theorem valueWith_of_number {v : Value} (h : number s = .ok (v, t)) (hb : Blank before) :
    valueWith readItems readMembers (before ++ s) = .ok (v, t) := by
  obtain ⟨c, rest, rfl, hc⟩ := exists_cons_of_number h
  rw [valueWith, hb.dropSpace_cons (isSpace_of_startsNumber hc)]
  simp only [ne_of_holds hc (d := 'n') rfl, ne_of_holds hc (d := 't') rfl,
    ne_of_holds hc (d := 'f') rfl, ne_of_holds hc (d := '"') rfl, hc, h, if_false, if_true]

theorem reads_valueWith_null : Reads spacing (valueWith readItems readMembers) .null .null := by
  intro depth before after hb _
  have h := hb.dropSpace_cons (c := 'n') rfl ('u' :: 'l' :: 'l' :: after)
  simp [valueWith, Value.write, h, expect, Except.map]

theorem reads_valueWith_bool (b : Bool) :
    Reads spacing (valueWith readItems readMembers) (.bool b) (.bool b) := by
  intro depth before after hb _
  cases b with
  | true =>
    have h := hb.dropSpace_cons (c := 't') rfl ('r' :: 'u' :: 'e' :: after)
    simp [valueWith, Value.write, h, expect, Except.map]
  | false =>
    have h := hb.dropSpace_cons (c := 'f') rfl ('a' :: 'l' :: 's' :: 'e' :: after)
    simp [valueWith, Value.write, h, expect, Except.map]

theorem reads_valueWith_int {i : Int} (hi : FitsWord i) :
    Reads spacing (valueWith readItems readMembers) (.int i) (.int i) := by
  intro depth before after hb ha
  rw [Value.write]
  exact valueWith_of_number (number_writeInt hi ha) hb

theorem reads_valueWith_double {x : Float} (hx : ReadsBack x) :
    Reads spacing (valueWith readItems readMembers) (.double x) (.double x) := by
  intro depth before after hb ha
  rw [Value.write]
  exact valueWith_of_number (number_writeDouble hx ha) hb

theorem reads_valueWith_text (s : String) :
    Reads spacing (valueWith readItems readMembers) (.text s) (.text s) := by
  intro depth before after hb _
  obtain ⟨body, heq, hread⟩ := quoted_quote s
  rw [Value.write, heq, List.cons_append, valueWith, hb.dropSpace_cons rfl]
  simp [hread, Except.map]

theorem reads_valueWith_array (hs : spacing.IsBlank) {read : Reader Value} {vs : List Value}
    (h : ∀ v ∈ vs, Reads spacing read v v) :
    Reads spacing (valueWith (items read) readMembers) (.array vs) (.array vs) := by
  intro depth before after hb _
  obtain ⟨body, heq, hread⟩ := items_write hs (f := id) h depth
  rw [List.map_id] at heq
  rw [heq, List.cons_append, valueWith, hb.dropSpace_cons rfl]
  simp [startsNumber, hread, Except.map]

theorem reads_valueWith_object (hs : spacing.IsBlank) {read : Reader Value}
    {ms : List (String × Value)} (increasing : ms.Pairwise (·.1 < ·.1))
    (h : ∀ m ∈ ms, Reads spacing read m.2 m.2) :
    Reads spacing (valueWith readItems (members (filed read) .empty)) (.object ms)
      (.object ms) := by
  intro depth before after hb _
  obtain ⟨body, heq, hread⟩ := members_write hs (gathers_filed hs (f := id) h .empty) depth
  rw [← Catalog.ofList] at hread
  simp only [id, List.map_id'] at heq
  rw [heq, List.cons_append, valueWith, hb.dropSpace_cons rfl]
  simp [startsNumber, hread, Catalog.entries_ofList increasing, Except.map]

/-- The depth plays no part where there are no brackets. -/
theorem reads_value_of_valueWith {v : Value}
    (h : ∀ readItems readMembers, Reads spacing (valueWith readItems readMembers) v v) (n : Nat) :
    Reads spacing (value n) v v := by
  cases n with
  | zero => exact h _ _
  | succ n => exact h _ _

/-- **Any value is read back** by a reader that goes as deep as its brackets. -/
theorem reads_value (hs : spacing.IsBlank) {v : Value} (hv : v.Sound) {n : Nat}
    (hn : v.depth ≤ n) : Reads spacing (value n) v v := by
  induction hv generalizing n with
  | @array vs h ih =>
    cases n with
    | zero => simp [Value.depth] at hn
    | succ n =>
      exact reads_valueWith_array hs fun v hv => ih v hv
        (Nat.le_of_lt_succ (Nat.lt_of_lt_of_le (depth_lt_of_mem_array hv) hn))
  | @object ms increasing h ih =>
    cases n with
    | zero => simp [Value.depth] at hn
    | succ n =>
      exact reads_valueWith_object hs increasing fun m hm => ih m hm
        (Nat.le_of_lt_succ (Nat.lt_of_lt_of_le (depth_lt_of_mem_object hm) hn))
  | null => exact reads_value_of_valueWith (fun _ _ => reads_valueWith_null) n
  | bool b => exact reads_value_of_valueWith (fun _ _ => reads_valueWith_bool b) n
  | int h => exact reads_value_of_valueWith (fun _ _ => reads_valueWith_int h) n
  | double h => exact reads_value_of_valueWith (fun _ _ => reads_valueWith_double h) n
  | text s => exact reads_value_of_valueWith (fun _ _ => reads_valueWith_text s) n

end Reading

end Motewatch.Json
