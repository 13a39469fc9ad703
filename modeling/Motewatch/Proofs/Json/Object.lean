import Motewatch.Proofs.Json.Grammar
import Motewatch.Proofs.Json.Prefix

/-!
# Records from objects with members in any order

An object is taken as it is written, as a list of members each of which has a text for its key and
one for its value. Member by member a record is built up: a member with the name of a field sets
that field, and any other one is passed over. If every field comes at most once, then a component
of the record that only one field sets is in the end what the value of this field was taken for, or
what it was at the start. The other members and their order play no part in it.

## Main definitions

* `Member`, `IsObject` — objects as they are written.
* `valuesOf`, `AtMostOne` — the values that members have under a key; that there is at most one, and
  what it is taken for.
* `Turn`, `Turns` — what one member does to a record under construction, and what all of them do.

## Main results

* `Turn.takesText`, `Turns.gathersTexts` — one member is read, all of them are read.
* `accepts_record` — the record that an object is read as.
* `exists_turns` — there is such a record, if the values are accepted.
* `Turns.get_record` — a component of it.
-/

namespace Motewatch.Json

variable {ρ α β : Type} {s : List Char}

/-! ## Objects as they are written -/

/-- A member of an object as it is written, with blanks around its key and around its value. The
key may be spelled in any way that stands for it. -/
structure Member where
  key : String
  keyText : List Char
  value : List Char
  spelled : Accepts Json.key keyText key

/-- The text of a member. -/
def Member.text (m : Member) : List Char := m.keyText ++ ':' :: m.value

/-- The texts of objects with given members, with blanks around them. -/
inductive IsObject : List Member → List Char → Prop
  | empty {before inner after : List Char} (hb : Blank before) (hi : Blank inner)
      (ha : Blank after) : IsObject [] (before ++ '\x7b' :: (inner ++ '\x7d' :: after))
  | filled {before after : List Char} (m : Member) (ms : List Member) (hb : Blank before)
      (ha : Blank after) : IsObject (m :: ms)
        (before ++ '\x7b' :: (m.text ++ (ms.flatMap (',' :: ·.text) ++ '\x7d' :: after)))

/-- The texts of the values that members have under a key. -/
def valuesOf (key : String) (ms : List Member) : List (List Char) :=
  (ms.filter (·.key == key)).map (·.value)

/-- At most one text, and what it is taken for if there is one. -/
inductive AtMostOne (accepts : List Char → α → Prop) : List (List Char) → Option α → Prop
  | absent : AtMostOne accepts [] none
  | present {s : List Char} {a : α} (h : accepts s a) : AtMostOne accepts [s] (some a)

theorem AtMostOne.map {accepts : List Char → α → Prop} {accepts' : List Char → β → Prop} {f : α → β}
    (h : ∀ {s a}, accepts s a → accepts' s (f a)) {vs : List (List Char)} {a? : Option α}
    (hvalues : AtMostOne accepts vs a?) : AtMostOne accepts' vs (a?.map f) := by
  cases hvalues with
  | absent => exact .absent
  | present ha => exact .present (h ha)

theorem AtMostOne.eq_none {accepts : List Char → α → Prop} {a? : Option α}
    (h : AtMostOne accepts [] a?) : a? = none := by
  cases h
  rfl

theorem AtMostOne.perm {accepts : List Char → α → Prop} {vs vs' : List (List Char)} {a? : Option α}
    (h : AtMostOne accepts vs a?) (hperm : vs'.Perm vs) : AtMostOne accepts vs' a? := by
  cases h with
  | absent =>
    obtain rfl := hperm.eq_nil
    exact .absent
  | present ha =>
    obtain rfl := hperm.eq_singleton
    exact .present ha

theorem valuesOf_cons_self (m : Member) (ms : List Member) :
    valuesOf m.key (m :: ms) = m.value :: valuesOf m.key ms := by
  simp [valuesOf]

theorem valuesOf_cons_of_ne {key : String} {m : Member} (h : m.key ≠ key) (ms : List Member) :
    valuesOf key (m :: ms) = valuesOf key ms := by
  simp [valuesOf, h]

theorem ne_of_valuesOf_eq_nil {key : String} {ms : List Member} (h : valuesOf key ms = []) :
    ∀ m ∈ ms, m.key ≠ key := by
  simpa [valuesOf] using h

/-- The values under a key are those of the members that have keys of a kind. -/
theorem perm_valuesOf {known : List String} {ms ms' : List Member}
    (h : (ms'.filter (·.key ∈ known)).Perm (ms.filter (·.key ∈ known))) {key : String}
    (hkey : key ∈ known) : (valuesOf key ms').Perm (valuesOf key ms) := by
  have hfilter (ms : List Member) : valuesOf key ms = valuesOf key (ms.filter (·.key ∈ known)) := by
    rw [valuesOf, valuesOf, List.filter_filter]
    congr 2
    funext m
    by_cases hm : m.key = key
    · simp [hm, hkey]
    · simp [hm]
  rw [hfilter ms', hfilter ms]
  exact (h.filter _).map _

theorem AtMostOne.cons_of_ne {accepts : List Char → α → Prop} {key : String} {m : Member}
    {ms : List Member} {a? : Option α} (h : AtMostOne accepts (valuesOf key ms) a?)
    (hne : m.key ≠ key) : AtMostOne accepts (valuesOf key (m :: ms)) a? := by
  rwa [valuesOf_cons_of_ne hne]

/-- The texts of `null`, with blanks around it. -/
def IsNull (s : List Char) : Prop :=
  ∃ before after, Blank before ∧ Blank after ∧ s = before ++ ("null".toList ++ after)

theorem IsNull.accepts (h : IsNull s) (read : Reader α) : Accepts (optional read) s none := by
  obtain ⟨before, after, hb, ha, rfl⟩ := h
  have hnull := hb.dropSpace_cons (c := 'n') rfl ('u' :: 'l' :: 'l' :: after)
  exact accepts_iff.2 ⟨after, by simp [optional, hnull, expect, Except.map], ha⟩

/-! ## Reading the members -/

section Reading
variable {shape : Shape ρ} {m : Member} {ms : List Member} {p p' : Partial ρ}

/-- What a member does to a record under construction. -/
inductive Turn (shape : Shape ρ) (p : Partial ρ) (m : Member) : Partial ρ → Prop
  | field {field : Field ρ} {r : ρ} (hfind : shape.fields.find? (·.name == m.key) = some field)
      (hnew : m.key ∉ p.given) (hvalue : Accepts (field.read p.record) m.value r) :
      Turn shape p m ⟨r, m.key :: p.given⟩
  | other (hfind : shape.fields.find? (·.name == m.key) = none)
      (hvalue : Derives .element m.value) : Turn shape p m p

/-- What members do one after the other. -/
inductive Turns (shape : Shape ρ) : Partial ρ → List Member → Partial ρ → Prop
  | nil (p : Partial ρ) : Turns shape p [] p
  | cons {p p' p'' : Partial ρ} {m : Member} {ms : List Member} (head : Turn shape p m p')
      (tail : Turns shape p' ms p'') : Turns shape p (m :: ms) p''

/-- The value of a member is read, with the colon before it. -/
theorem Turn.member (h : Turn shape p m p') (hlocal : shape.IsLocal) {front after : List Char}
    (hf : Blank front) (ha : EndsNumber after) :
    ∃ behind, Blank behind ∧
      shape.member p m.key (front ++ ':' :: (m.value ++ after)) = .ok (p', behind ++ after) := by
  cases h with
  | @field field r hfind hnew hvalue =>
    obtain ⟨behind, hb, hread⟩ :=
      hvalue.exists_blank (hlocal field (List.mem_of_find?_eq_some hfind) p.record)
    refine ⟨behind, hb, ?_⟩
    simp [Shape.member, hfind, hnew, hf.colon_append, hread ha, bind, Except.bind]
  | other hfind hvalue =>
    obtain ⟨behind, hb, hskip⟩ := skip_of_element hvalue
    refine ⟨behind, hb, ?_⟩
    simp [Shape.member, hfind, hf.colon_append, hskip ha, bind, Except.bind]

theorem exists_of_key {s t : List Char} {k : String} (h : key s = .ok (k, t)) :
    ∃ rest, dropSpace s = '"' :: rest ∧ quoted rest = .ok (k, t) := by
  unfold key at h
  split at h
  · cases h
  · rename_i c rest hdrop
    split at h
    · rename_i hc
      subst hc
      exact ⟨rest, hdrop, h⟩
    · cases h

/-- A member is read from its opening mark on. -/
theorem Turn.takesText (h : Turn shape p m p') (hlocal : shape.IsLocal) :
    TakesText shape.member p m.text p' := by
  intro after ha
  obtain ⟨front, hf, hkey⟩ := m.spelled.exists_blank local_key
  have hcolon : EndsNumber (':' :: (m.value ++ after)) := endsNumber_cons (by decide) _
  obtain ⟨rest, hdrop, hquoted⟩ := exists_of_key (hkey hcolon)
  obtain ⟨behind, hb, hmember⟩ := h.member hlocal hf ha
  refine ⟨rest, m.key, _, behind, ?_, hquoted, hmember, hb⟩
  rw [Member.text, List.append_assoc, List.cons_append, hdrop]

theorem Turns.gathersTexts (h : Turns shape p ms p') (hlocal : shape.IsLocal) :
    GathersTexts shape.member p (ms.map (·.text)) p' := by
  induction h with
  | nil p => exact .nil p
  | cons head _ ih => exact .cons (head.takesText hlocal) ih

/-- **The record that an object is read as**, where none of the fields is required. -/
theorem accepts_record (hs : IsObject ms s) (h : Turns shape ⟨shape.start, []⟩ ms p)
    (hlocal : shape.IsLocal) (hoptional : ∀ field ∈ shape.fields, field.required = false) :
    Accepts shape.read s p.record := by
  have hcomplete : shape.complete p = .ok p.record := by
    rw [Shape.complete, if_pos]
    exact List.all_eq_true.2 fun field hfield => by simp [hoptional field hfield]
  cases hs with
  | @empty before inner after hb hi ha =>
    cases h
    have hclose := hi.dropSpace_cons (c := '\x7d') rfl after
    refine accepts_iff.2 ⟨after, ?_, ha⟩
    rw [Shape.read, hb.dropSpace_cons rfl]
    simp [members, hclose, hcomplete, bind, Except.bind]
  | @filled before after m ms hb ha =>
    have hmembers := members_of_gathers (h.gathersTexts hlocal) blank_nil after
    rw [List.flatMap_map, List.nil_append] at hmembers
    refine accepts_iff.2 ⟨after, ?_, ha⟩
    rw [Shape.read, hb.dropSpace_cons rfl]
    simp [hmembers, hcomplete, bind, Except.bind]

end Reading

/-! ## The record -/

section Record
variable {shape : Shape ρ} {ms : List Member} {p p' : Partial ρ}

/-- The names of the fields of a record. -/
def Shape.names (shape : Shape ρ) : List String := shape.fields.map (·.name)

theorem find?_eq_none_iff {key : String} :
    shape.fields.find? (·.name == key) = none ↔ key ∉ shape.names := by
  simp [Shape.names]

/-- A field of which at most one value is given, and one that it accepts. -/
def Field.IsGiven (field : Field ρ) (vs : List (List Char)) : Prop :=
  vs = [] ∨ ∃ s, vs = [s] ∧ ∀ r, ∃ r', Accepts (field.read r) s r'

/-- A field that does not touch a component of the record. -/
def Field.Keeps (field : Field ρ) (get : ρ → α) : Prop :=
  ∀ {r r' : ρ} {s : List Char}, Accepts (field.read r) s r' → get r' = get r

section
variable {name : String} {required : Bool} {read : Reader α} {put : ρ → α → ρ}

@[simp] theorem name_fieldOf : (Field.of name required read put).name = name := rfl

@[simp] theorem required_fieldOf : (Field.of name required read put).required = required := rfl

theorem accepts_fieldOf {r r' : ρ} :
    Accepts ((Field.of name required read put).read r) s r' ↔ ∃ a, Accepts read s a ∧ put r a = r' := by
  simp only [accepts_iff, Field.of, map_eq_ok, Prod.exists, Prod.mk.injEq]
  constructor
  · rintro ⟨behind, ⟨a, behind, hread, rfl, rfl⟩, hb⟩
    exact ⟨a, ⟨behind, hread, hb⟩, rfl⟩
  · rintro ⟨a, ⟨behind, hread, hb⟩, rfl⟩
    exact ⟨behind, ⟨a, behind, hread, rfl, rfl⟩, hb⟩

theorem AtMostOne.isGiven {vs : List (List Char)} {a? : Option α} (h : AtMostOne (Accepts read) vs a?) :
    (Field.of name required read put).IsGiven vs := by
  cases h with
  | absent => exact .inl rfl
  | @present s a ha => exact .inr ⟨s, rfl, fun r => ⟨put r a, accepts_fieldOf.2 ⟨a, ha, rfl⟩⟩⟩

@[simp] theorem keeps_fieldOf {get : ρ → β} (h : ∀ r a, get (put r a) = get r) :
    (Field.of name required read put).Keeps get := by
  intro r r' s hread
  obtain ⟨a, -, rfl⟩ := accepts_fieldOf.1 hread
  exact h r a

theorem local_fieldOf (h : Local read) (r : ρ) : Local ((Field.of name required read put).read r) :=
  h.map (put r)

end

/-- **Members can be read** one after the other if the values of the fields are accepted. -/
theorem exists_turns (hfields : ∀ field ∈ shape.fields, field.IsGiven (valuesOf field.name ms))
    (hother : ∀ m ∈ ms, m.key ∉ shape.names → Derives .element m.value)
    (hnew : ∀ m ∈ ms, m.key ∉ p.given) : ∃ p', Turns shape p ms p' := by
  induction ms generalizing p with
  | nil => exact ⟨p, .nil p⟩
  | cons m ms ih =>
    obtain ⟨hm, hms⟩ := List.forall_mem_cons.1 hother
    obtain ⟨hnewm, hnewms⟩ := List.forall_mem_cons.1 hnew
    have hrest : ∀ field ∈ shape.fields, field.IsGiven (valuesOf field.name ms) := by
      intro field hfield
      by_cases hkey : m.key = field.name
      · -- The member has the only value of its field.
        rcases hfields field hfield with h | ⟨s, h, -⟩
        · rw [← hkey, valuesOf_cons_self] at h
          cases h
        · rw [← hkey, valuesOf_cons_self] at h
          exact .inl (by rw [← hkey, (List.cons.inj h).2])
      · have h := hfields field hfield
        rwa [valuesOf_cons_of_ne hkey] at h
    cases hfind : shape.fields.find? (·.name == m.key) with
    | none =>
      obtain ⟨p', hp'⟩ := ih hrest hms hnewms
      exact ⟨p', .cons (.other hfind (hm (find?_eq_none_iff.1 hfind))) hp'⟩
    | some field =>
      have hkey : field.name = m.key := by simpa using List.find?_some hfind
      rcases hfields field (List.mem_of_find?_eq_some hfind) with h | ⟨s, h, hs⟩
      · rw [hkey, valuesOf_cons_self] at h
        cases h
      · rw [hkey, valuesOf_cons_self] at h
        obtain ⟨rfl, hnil⟩ := List.cons.inj h
        obtain ⟨r, hr⟩ := hs p.record
        have hgiven : ∀ m' ∈ ms, m'.key ∉ m.key :: p.given := fun m' hm' =>
          List.not_mem_cons_of_ne_of_not_mem (ne_of_valuesOf_eq_nil hnil m' hm') (hnewms m' hm')
        obtain ⟨p', hp'⟩ := @ih ⟨r, m.key :: p.given⟩ hrest hms hgiven
        exact ⟨p', .cons (.field hfind hnewm hr) hp'⟩

/-- **A component of the record** that one field sets and no other one touches. -/
theorem Turns.get_record {name : String} {required : Bool} {read : Reader α} {put : ρ → α → ρ}
    {get : ρ → α} {a? : Option α} (h : Turns shape p ms p')
    (hfind : shape.fields.find? (·.name == name) = some (.of name required read put))
    (hget : ∀ r a, get (put r a) = a)
    (hkeeps : ∀ field ∈ shape.fields, field.name ≠ name → field.Keeps get)
    (hvalues : AtMostOne (Accepts read) (valuesOf name ms) a?) :
    get p'.record = a?.getD (get p.record) := by
  induction h generalizing a? with
  | nil p =>
    cases hvalues
    rfl
  | @cons p p₁ p₂ m ms head tail ih =>
    cases head with
    | @field field r hfield hnew hvalue =>
      by_cases hkey : m.key = name
      · subst hkey
        rw [valuesOf_cons_self] at hvalues
        obtain rfl := Option.some.inj (hfind.symm.trans hfield)
        obtain ⟨a, ha, rfl⟩ := accepts_fieldOf.1 hvalue
        generalize hvs : m.value :: valuesOf m.key ms = vs at hvalues
        cases hvalues with
        | absent => cases hvs
        | @present s b hb =>
          obtain ⟨rfl, hnil⟩ := List.cons.inj hvs
          obtain rfl := Except.ok.inj (ha.symm.trans hb)
          -- No member behind this one sets the component again.
          rw [ih (by rw [hnil]; exact .absent)]
          exact hget _ _
      · rw [valuesOf_cons_of_ne hkey] at hvalues
        have hname : field.name = m.key := by simpa using List.find?_some hfield
        have hr := hkeeps field (List.mem_of_find?_eq_some hfield) (by rwa [hname]) hvalue
        rw [ih hvalues, hr]
    | other hother _ =>
      have hkey : m.key ≠ name := by
        rintro rfl
        cases hfind.symm.trans hother
      rw [valuesOf_cons_of_ne hkey] at hvalues
      exact ih hvalues

end Record

end Motewatch.Json
