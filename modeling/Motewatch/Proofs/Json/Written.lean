import Motewatch.Json.Writer
import Motewatch.Proofs.Json.Number
import Motewatch.Proofs.Json.Quoted

/-!
# What is written is read back

A value is read back wherever it stands in a text: blanks may come before it, and whatever follows
must not continue a number. This is what a reader promises for one value, and what the readers of
arrays and objects need of the readers of what they hold. An array is read item by item; an object
is read member by member, where each member changes what has been gathered so far.

## Main definitions

* `Spacing.IsBlank` — a spacing that readers pass over.
* `Reads` — a reader takes the text of a value for something.
* `TakesText`, `GathersTexts` — a way of reading members takes the text of one, of all of them.
* `Takes`, `Gathers` — the same for members as they are written.

## Main results

* `reads_natural`, `reads_double`, `reads_flag`, `reads_text`, `reads_choice`,
  `reads_optional_some` — single values.
* `items_write`, `members_write` — what stands between brackets, whatever follows them.
* `reads_array`, `reads_catalog` — lists and catalogs.
* `parse_indentedText`, `parse_compactText` — whole texts.
-/

namespace Motewatch.Json
open Motewatch.Text (digits)

variable {spacing : Spacing} {α σ : Type} {s t before after : List Char}

attribute [simp] Value.write writeItems writeMembers

/-! ## Blanks -/

/-- A text that readers pass over. -/
def Blank (s : List Char) : Prop := ∀ c ∈ s, isSpace c = true

instance (s : List Char) : Decidable (Blank s) := List.decidableBAll (isSpace · = true) s

theorem blank_nil : Blank [] := by simp [Blank]

theorem Blank.dropSpace_append (hb : Blank before) (s : List Char) :
    dropSpace (before ++ s) = dropSpace s :=
  List.dropWhile_append_of_pos hb

theorem Blank.dropSpace_cons (hb : Blank before) {c : Char} (hc : isSpace c = false)
    (s : List Char) : dropSpace (before ++ c :: s) = c :: s := by
  rw [hb.dropSpace_append]
  exact Json.dropSpace_cons hc s

theorem Blank.colon_append (hb : Blank before) (s : List Char) :
    colon (before ++ ':' :: s) = .ok s := by
  simp [colon, hb.dropSpace_cons (c := ':') rfl]

theorem colon_cons (s : List Char) : colon (':' :: s) = .ok s := blank_nil.colon_append s

theorem Blank.endsNumber_append (hb : Blank before) (hs : EndsNumber s) :
    EndsNumber (before ++ s) := by
  cases before with
  | nil => exact hs
  | cons c before =>
    have hc := hb c (by simp)
    refine endsNumber_cons ?_ (before ++ s)
    simp only [isSpace, Bool.or_eq_true, beq_iff_eq] at hc
    rcases hc with ((rfl | rfl) | rfl) | rfl <;> decide

/-- A spacing that puts nothing but blanks into a text. -/
structure Spacing.IsBlank (spacing : Spacing) : Prop where
  lineAt : ∀ depth, Blank (spacing.lineAt depth)
  afterColon : Blank spacing.afterColon

theorem isBlank_indented : indented.IsBlank where
  lineAt depth := by
    intro c hc
    rcases List.mem_cons.1 hc with rfl | hc
    · rfl
    · rw [List.eq_of_mem_replicate hc]
      rfl
  afterColon := by decide

theorem isBlank_compact : compact.IsBlank where
  lineAt _ := blank_nil
  afterColon := blank_nil

/-! ## First characters -/

/-- A text of numbers begins with no blank and no bracket. -/
theorem exists_cons_of_chars (hne : s ≠ []) (h : ∀ c ∈ s, isDoubleChar c = true) :
    ∃ c rest, s = c :: rest ∧ isSpace c = false ∧ c ≠ ']' := by
  obtain ⟨c, rest, rfl⟩ := List.exists_cons_of_ne_nil hne
  have hc := h c (by simp)
  exact ⟨c, rest, rfl, isSpace_eq_false (by decide) hc, ne_of_holds hc (by decide)⟩

/-- Where a value begins, there is neither a blank nor the end of an array. -/
theorem exists_cons_of_write (spacing : Spacing) (depth : Nat) (v : Value) :
    ∃ c rest, v.write spacing depth = c :: rest ∧ isSpace c = false ∧ c ≠ ']' := by
  cases v with
  | null => simp [Value.write, isSpace]
  | bool b => cases b <;> simp [Value.write, isSpace]
  | int i =>
    rw [Value.write]
    have hdigits : ∀ c ∈ digits i.natAbs, isDoubleChar c = true :=
      fun _ hc => isDoubleChar_of_isDigit (Text.isDigit_of_mem_digits hc)
    unfold writeInt
    split
    · exact exists_cons_of_chars (by simp) (List.forall_mem_cons.2 ⟨by decide, hdigits⟩)
    · exact exists_cons_of_chars (Text.digits_ne_nil _) hdigits
  | double x =>
    rw [Value.write]
    obtain ⟨c, hc, -⟩ := (isDouble_writeDouble x).mark
    exact exists_cons_of_chars (List.ne_nil_of_mem hc) (isDouble_writeDouble x).chars
  | text s => simp [Value.write, quote, isSpace]
  | array vs => cases vs <;> simp [Value.write, isSpace]
  | object ms => cases ms <;> simp [Value.write, isSpace]

/-! ## Scalars -/

/-- A reader that takes the text of `v` for `a`, with any blanks before it and whatever follows that
does not continue a number. -/
def Reads (spacing : Spacing) (read : Reader α) (v : Value) (a : α) : Prop :=
  ∀ (depth : Nat) {before after : List Char}, Blank before → EndsNumber after →
    read (before ++ (v.write spacing depth ++ after)) = .ok (a, after)

/-- The same with the first character of the text set apart. -/
theorem Reads.exists_cons {read : Reader α} {v : Value} {a : α} (h : Reads spacing read v a)
    (depth : Nat) :
    ∃ c rest, v.write spacing depth = c :: rest ∧ isSpace c = false ∧ c ≠ ']' ∧
      ∀ {after}, EndsNumber after → read (c :: (rest ++ after)) = .ok (a, after) := by
  obtain ⟨c, rest, heq, hc, hclose⟩ := exists_cons_of_write spacing depth v
  refine ⟨c, rest, heq, hc, hclose, fun {after} ha => ?_⟩
  have hread := h depth blank_nil ha
  rwa [heq] at hread

theorem isSpace_of_startsNumber {c : Char} (h : startsNumber c = true) : isSpace c = false :=
  isSpace_eq_false (by decide) h

theorem natural_of_number {n : Nat} (h : number s = .ok (.int n, t)) (hb : Blank before) :
    natural (before ++ s) = .ok (n, t) := by
  obtain ⟨c, rest, rfl, hc⟩ := exists_cons_of_number h
  simp [natural, hb.dropSpace_cons (isSpace_of_startsNumber hc), hc, h]

theorem double_of_number {x : Float} (h : number s = .ok (.double x, t)) (hb : Blank before) :
    double (before ++ s) = .ok (x, t) := by
  obtain ⟨c, rest, rfl, hc⟩ := exists_cons_of_number h
  simp [double, hb.dropSpace_cons (isSpace_of_startsNumber hc), hc, h]

theorem fitsWord_natCast {n : Nat} (hn : n < wordLimit) : FitsWord n :=
  ⟨by unfold wordLimit; omega, by exact_mod_cast hn⟩

theorem reads_natural {n : Nat} (hn : n < wordLimit) : Reads spacing natural (.int n) n := by
  intro depth before after hb ha
  rw [Value.write]
  exact natural_of_number (number_writeInt (fitsWord_natCast hn) ha) hb

theorem reads_double {x : Float} (hx : ReadsBack x) : Reads spacing double (.double x) x := by
  intro depth before after hb ha
  rw [Value.write]
  exact double_of_number (number_writeDouble hx ha) hb

theorem reads_flag (b : Bool) : Reads spacing flag (.bool b) b := by
  intro depth before after hb _
  cases b with
  | true =>
    have h := hb.dropSpace_cons (c := 't') rfl ('r' :: 'u' :: 'e' :: after)
    simp [flag, Value.write, h, expect, Except.map]
  | false =>
    have h := hb.dropSpace_cons (c := 'f') rfl ('a' :: 'l' :: 's' :: 'e' :: after)
    simp [flag, Value.write, h, expect, Except.map]

theorem reads_text (s : String) : Reads spacing text (.text s) s := by
  intro depth before after hb _
  obtain ⟨body, heq, hread⟩ := quoted_quote s
  rw [Value.write, heq, List.cons_append, text, hb.dropSpace_cons rfl]
  simp [hread]

/-- A choice is read back from its name. -/
theorem reads_choice {choices : List (String × α)} {name : String} {a : α}
    (h : choices.lookup name = some a) : Reads spacing (choice choices) (.text name) a := by
  intro depth before after hb _
  obtain ⟨body, heq, hread⟩ := quoted_quote name
  rw [Value.write, heq, List.cons_append, choice, hb.dropSpace_cons rfl]
  simp [hread, chosen, h, bind, Except.bind]

theorem reads_optional_none (read : Reader α) : Reads spacing (optional read) .null none := by
  intro depth before after hb _
  have h := hb.dropSpace_cons (c := 'n') rfl ('u' :: 'l' :: 'l' :: after)
  simp [optional, Value.write, h, expect, Except.map]

/-- What is not `null` is read as it is without the option of `null`. -/
theorem reads_optional_some {read : Reader α} {v : Value} {a : α} (h : Reads spacing read v a)
    (hv : ∀ depth, ∀ c ∈ (v.write spacing depth).head?, c ≠ 'n') :
    Reads spacing (optional read) v (some a) := by
  intro depth before after hb ha
  obtain ⟨c, rest, heq, hc, -, hread⟩ := h.exists_cons depth
  have hn : c ≠ 'n' := hv depth c (by rw [heq]; rfl)
  rw [heq, List.cons_append, optional, hb.dropSpace_cons hc]
  split
  · exact absurd (List.cons.inj ‹_›).1 hn
  · rw [hread ha]
    rfl

theorem reads_optional_natural {n : Nat} (hn : n < wordLimit) :
    Reads spacing (optional natural) (.int n) (some n) := by
  refine reads_optional_some (reads_natural hn) fun depth c hc => ?_
  obtain ⟨d, rest, heq, hd⟩ := exists_cons_of_number
    (number_writeInt (fitsWord_natCast hn) endsNumber_nil)
  rw [List.append_nil] at heq
  rw [Value.write, heq] at hc
  obtain rfl := Option.some.inj hc
  exact ne_of_holds hd rfl

-- The bound stands behind the colon, so that the match does not take it in.
theorem reads_natural? (n? : Option Nat) : (∀ n ∈ n?, n < wordLimit) →
    Reads spacing (optional natural)
      (match n? with
        | none => .null
        | some n => .int n) n? := by
  intro hn
  cases n? with
  | none => exact reads_optional_none natural
  | some n => exact reads_optional_natural (hn n rfl)

/-! ## Whole texts -/

/-- The text of a value is read as a whole, also with blanks after it. -/
theorem parse_write_append {read : Reader α} {v : Value} {a : α} (h : Reads spacing read v a)
    {ending : List Char} (hb : Blank ending) :
    parse read (String.ofList (v.write spacing 0 ++ ending)) = .ok a := by
  have hends : EndsNumber ending := by
    simpa using hb.endsNumber_append endsNumber_nil
  have hread := h 0 blank_nil hends
  have hrest : dropSpace ending = [] := List.dropWhile_eq_nil_iff.2 hb
  rw [List.nil_append] at hread
  rw [parse, String.toList_ofList, hread]
  simp [hrest, bind, Except.bind]

theorem parse_indentedText_append {read : Reader α} {v : Value} {a : α}
    (h : Reads indented read v a) {ending : String} (hb : Blank ending.toList) :
    parse read (v.indentedText ++ ending) = .ok a := by
  have htext : v.indentedText ++ ending = String.ofList (v.write indented 0 ++ ending.toList) := by
    rw [String.ofList_append, String.ofList_toList, Value.indentedText]
  rw [htext]
  exact parse_write_append h hb

theorem parse_indentedText {read : Reader α} {v : Value} {a : α} (h : Reads indented read v a) :
    parse read v.indentedText = .ok a := by
  have hparse := parse_write_append h blank_nil
  rwa [List.append_nil] at hparse

theorem parse_compactText {read : Reader α} {v : Value} {a : α} (h : Reads compact read v a) :
    parse read v.compactText = .ok a := by
  have hparse := parse_write_append h blank_nil
  rwa [List.append_nil] at hparse

/-! ## Arrays -/

section Items
variable (hs : spacing.IsBlank) {read : Reader α} {f : α → Value}

include hs in
theorem endsNumber_writeItems (depth : Nat) (vs : List Value) (after : List Char) :
    EndsNumber (writeItems spacing depth vs ++ after) := by
  cases vs with
  | nil =>
    rw [writeItems, List.append_assoc]
    exact (hs.lineAt depth).endsNumber_append (endsNumber_cons (by decide) after)
  | cons v vs =>
    simp only [writeItems, List.cons_append]
    exact endsNumber_cons (by decide) _

theorem length_lt_length_writeItems (spacing : Spacing) (depth : Nat) (vs : List Value) :
    vs.length < (writeItems spacing depth vs).length := by
  induction vs with
  | nil => simp [writeItems]
  | cons v vs ih =>
    simp only [writeItems, List.length_cons, List.length_append]
    omega

include hs in
/-- The items after the first one, and the closing bracket. -/
theorem itemsAfter_writeItems {as : List α} (h : ∀ a ∈ as, Reads spacing read (f a) a)
    {fuel : Nat} (hfuel : as.length < fuel) (depth : Nat) (after : List Char) :
    itemsAfter read fuel (writeItems spacing depth (as.map f) ++ after) = .ok (as, after) := by
  induction as generalizing fuel with
  | nil =>
    obtain ⟨fuel, rfl⟩ := Nat.exists_eq_add_one_of_ne_zero (Nat.ne_of_gt hfuel)
    have hclose := (hs.lineAt depth).dropSpace_cons (c := ']') rfl after
    simp [writeItems, itemsAfter, hclose]
  | cons a as ih =>
    obtain ⟨ha, has⟩ := List.forall_mem_cons.1 h
    obtain ⟨fuel, rfl⟩ := Nat.exists_eq_add_one_of_ne_zero (Nat.ne_of_gt (Nat.zero_lt_of_lt hfuel))
    obtain ⟨c, rest, heq, hc, hclose, hread⟩ := ha.exists_cons (depth + 1)
    have hitem := hread (endsNumber_writeItems hs depth (as.map f) after)
    have hrest := ih has (Nat.lt_of_succ_lt_succ hfuel)
    have hcomma := dropSpace_cons (c := ',') rfl
    have hline := (hs.lineAt (depth + 1)).dropSpace_cons hc
    simp [writeItems, heq, itemsAfter, hcomma, hline, hclose, hitem, hrest, bind, Except.bind]

include hs in
/-- **What follows an opening bracket is read up to the closing one**, whatever comes after it. -/
theorem items_write {as : List α} (h : ∀ a ∈ as, Reads spacing read (f a) a) (depth : Nat) :
    ∃ body, (Value.array (as.map f)).write spacing depth = '[' :: body ∧
      ∀ after, items read (body ++ after) = .ok (as, after) := by
  cases as with
  | nil =>
    have hclose := dropSpace_cons (c := ']') rfl
    exact ⟨[']'], by simp [Value.write], fun after => by simp [items, hclose]⟩
  | cons a as =>
    obtain ⟨ha, has⟩ := List.forall_mem_cons.1 h
    refine ⟨spacing.lineAt (depth + 1) ++ (f a).write spacing (depth + 1) ++
      writeItems spacing depth (as.map f), by simp [Value.write], fun after => ?_⟩
    obtain ⟨c, rest, heq, hc, hclose, hread⟩ := ha.exists_cons (depth + 1)
    have hitem := hread (endsNumber_writeItems hs depth (as.map f) after)
    have hfuel : as.length < (writeItems spacing depth (as.map f) ++ after).length + 1 := by
      have := length_lt_length_writeItems spacing depth (as.map f)
      simp only [List.length_map, List.length_append] at this ⊢
      omega
    have hrest := itemsAfter_writeItems hs has hfuel depth after
    have hline := (hs.lineAt (depth + 1)).dropSpace_cons hc
    simp only [heq, List.append_assoc, List.cons_append, items, hline]
    simp only [hclose, hitem, hrest, if_false, bind, Except.bind]

include hs in
theorem reads_array {as : List α} (h : ∀ a ∈ as, Reads spacing read (f a) a) :
    Reads spacing (array read) (.array (as.map f)) as := by
  intro depth before after hb _
  obtain ⟨body, heq, hread⟩ := items_write hs h depth
  rw [heq, List.cons_append, array, hb.dropSpace_cons rfl]
  exact hread after

end Items

/-! ## Objects -/

section Members
variable {member : σ → String → Reader σ} {g g' : σ} {ts : List (List Char)}

/-- A way of reading members that takes the text of one of them, up to blanks behind it, and thereby
comes from `g` to `g'`. -/
def TakesText (member : σ → String → Reader σ) (g : σ) (t : List Char) (g' : σ) : Prop :=
  ∀ {after : List Char}, EndsNumber after → ∃ rest key colon behind,
    dropSpace (t ++ after) = '"' :: rest ∧ quoted rest = .ok (key, colon) ∧
      member g key colon = .ok (g', behind ++ after) ∧ Blank behind

/-- A way of reading members that takes the texts of all of them one after the other. -/
inductive GathersTexts (member : σ → String → Reader σ) : σ → List (List Char) → σ → Prop
  | nil (g : σ) : GathersTexts member g [] g
  | cons {g g' g'' : σ} {t : List Char} {ts : List (List Char)} (head : TakesText member g t g')
      (tail : GathersTexts member g' ts g'') : GathersTexts member g (t :: ts) g''

theorem endsNumber_members {closing : List Char} (hc : Blank closing) (ts : List (List Char))
    (after : List Char) :
    EndsNumber (ts.flatMap (',' :: ·) ++ (closing ++ '}' :: after)) := by
  cases ts with
  | nil => exact hc.endsNumber_append (endsNumber_cons (by decide) after)
  | cons t ts => exact endsNumber_cons (by decide) _

theorem length_le_length_members (ts : List (List Char)) :
    ts.length ≤ (ts.flatMap (',' :: ·)).length := by
  induction ts with
  | nil => simp
  | cons t ts ih =>
    simp only [List.flatMap_cons, List.length_append, List.length_cons]
    omega

/-- The members after the first one, and the closing bracket. -/
theorem membersAfter_of_gathers (h : GathersTexts member g ts g') {fuel : Nat}
    (hfuel : ts.length < fuel) {front closing : List Char} (hf : Blank front) (hc : Blank closing)
    (after : List Char) :
    membersAfter member fuel g (front ++ (ts.flatMap (',' :: ·) ++ (closing ++ '}' :: after))) =
      .ok (g', after) := by
  induction h generalizing fuel front with
  | nil g =>
    obtain ⟨fuel, rfl⟩ := Nat.exists_eq_add_one_of_ne_zero (Nat.ne_of_gt hfuel)
    have hclose := hc.dropSpace_cons (c := '}') rfl after
    simp [membersAfter, hf.dropSpace_append, hclose]
  | @cons g g₁ g₂ t ts head _ ih =>
    obtain ⟨fuel, rfl⟩ := Nat.exists_eq_add_one_of_ne_zero (Nat.ne_of_gt (Nat.zero_lt_of_lt hfuel))
    obtain ⟨rest, key, colon, behind, hdrop, hquoted, hmember, hb⟩ :=
      head (endsNumber_members hc ts after)
    have hrest := ih (Nat.lt_of_succ_lt_succ hfuel) hb
    have hcomma := hf.dropSpace_cons (c := ',') rfl
    simp only [List.flatMap_cons, List.cons_append, List.append_assoc, membersAfter, hcomma, hdrop]
    simp only [hquoted, hmember, hrest, Char.reduceEq, if_false, if_true, bind, Except.bind]

/-- **What follows an opening bracket is read up to the closing one**, whatever comes after it. -/
theorem members_of_gathers {t : List Char} (h : GathersTexts member g (t :: ts) g')
    {closing : List Char} (hc : Blank closing) (after : List Char) :
    members member g (t ++ (ts.flatMap (',' :: ·) ++ (closing ++ '}' :: after))) =
      .ok (g', after) := by
  cases h with
  | cons head tail =>
    obtain ⟨rest, key, colon, behind, hdrop, hquoted, hmember, hb⟩ :=
      head (endsNumber_members hc ts after)
    have hlength := length_le_length_members ts
    have hfuel : ts.length <
        (behind ++ (ts.flatMap (',' :: ·) ++ (closing ++ '}' :: after))).length + 1 := by
      simp only [List.length_append]
      omega
    have hrest := membersAfter_of_gathers tail hfuel hb hc after
    simp only [members, hdrop]
    simp only [hquoted, hmember, hrest, Char.reduceEq, if_false, if_true, bind, Except.bind]

/-- A way of reading members that takes the member `key` with the value `v` and thereby comes from
`g` to `g'`. -/
def Takes (spacing : Spacing) (member : σ → String → Reader σ) (g : σ) (key : String) (v : Value)
    (g' : σ) : Prop :=
  ∀ (depth : Nat) {after : List Char}, EndsNumber after →
    member g key (':' :: (spacing.afterColon ++ (v.write spacing depth ++ after))) = .ok (g', after)

/-- A way of reading members that takes all of them one after the other. -/
inductive Gathers (spacing : Spacing) (member : σ → String → Reader σ) :
    σ → List (String × Value) → σ → Prop
  | nil (g : σ) : Gathers spacing member g [] g
  | cons {g g' g'' : σ} {key : String} {v : Value} {ms : List (String × Value)}
      (head : Takes spacing member g key v g') (tail : Gathers spacing member g' ms g'') :
      Gathers spacing member g ((key, v) :: ms) g''

/-- The text of a member that is written with blanks. -/
def memberText (spacing : Spacing) (depth : Nat) (m : String × Value) : List Char :=
  spacing.lineAt (depth + 1) ++
    (quote m.1 ++ ':' :: (spacing.afterColon ++ m.2.write spacing (depth + 1)))

theorem writeMembers_eq (spacing : Spacing) (depth : Nat) (ms : List (String × Value)) :
    writeMembers spacing depth ms = (ms.map (memberText spacing depth)).flatMap (',' :: ·) ++
      (spacing.lineAt depth ++ ['}']) := by
  induction ms with
  | nil => simp [writeMembers]
  | cons m ms ih => simp [writeMembers, memberText, ih]

variable (hs : spacing.IsBlank)

include hs in
theorem gathersTexts_of_gathers {ms : List (String × Value)} (h : Gathers spacing member g ms g')
    (depth : Nat) : GathersTexts member g (ms.map (memberText spacing depth)) g' := by
  induction h with
  | nil g => exact .nil g
  | @cons g g₁ g₂ key v ms head _ ih =>
    refine .cons (fun {after} ha => ?_) ih
    obtain ⟨body, heq, hkey⟩ := quoted_quote key
    have hquote := (hs.lineAt (depth + 1)).dropSpace_cons (c := '"') rfl
    refine ⟨_, key, _, [], ?_, hkey _, head (depth + 1) ha, blank_nil⟩
    simp [memberText, heq, hquote]

include hs in
/-- An object is read from behind its opening bracket on. -/
theorem members_write {ms : List (String × Value)} (h : Gathers spacing member g ms g')
    (depth : Nat) :
    ∃ body, (Value.object ms).write spacing depth = '{' :: body ∧
      ∀ after, members member g (body ++ after) = .ok (g', after) := by
  cases ms with
  | nil =>
    cases h
    have hclose := dropSpace_cons (c := '}') rfl
    exact ⟨['}'], by simp [Value.write], fun after => by simp [members, hclose]⟩
  | cons m ms =>
    refine ⟨memberText spacing depth m ++ writeMembers spacing depth ms,
      by simp [Value.write, memberText], fun after => ?_⟩
    have hread := members_of_gathers (gathersTexts_of_gathers hs h depth) (hs.lineAt depth) after
    simpa [writeMembers_eq] using hread

end Members

/-! ## Catalogs -/

section Catalogs
variable (hs : spacing.IsBlank) {read : Reader α} {f : α → Value}

include hs in
theorem takes_filed {v : Value} {a : α} (h : Reads spacing read v a) (c : Catalog α)
    (key : String) : Takes spacing (filed read) c key v (c.put key a) := by
  intro depth after ha
  simp only [filed, colon_cons, h depth hs.afterColon ha, bind, Except.bind]

include hs in
theorem gathers_filed {es : List (String × α)} (h : ∀ e ∈ es, Reads spacing read (f e.2) e.2)
    (c : Catalog α) :
    Gathers spacing (filed read) c (es.map fun e => (e.1, f e.2))
      (es.foldl (fun c e => c.put e.1 e.2) c) := by
  induction es generalizing c with
  | nil => exact .nil c
  | cons e es ih =>
    obtain ⟨he, hes⟩ := List.forall_mem_cons.1 h
    exact .cons (takes_filed hs he c e.1) (ih hes _)

include hs in
/-- The entries of a catalog are read back, since they stand in the order of their keys. -/
theorem reads_catalog {c : Catalog α} (h : ∀ e ∈ c.entries, Reads spacing read (f e.2) e.2) :
    Reads spacing (catalog read) (.object (c.entries.map fun e => (e.1, f e.2))) c := by
  intro depth before after hb _
  obtain ⟨body, heq, hread⟩ := members_write hs (gathers_filed hs h .empty) depth
  rw [← Catalog.ofList, Catalog.ofList_entries] at hread
  rw [heq, List.cons_append, catalog, hb.dropSpace_cons rfl]
  exact hread after

end Catalogs

end Motewatch.Json
