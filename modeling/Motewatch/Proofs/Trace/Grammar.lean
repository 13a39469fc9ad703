import Motewatch.Proofs.Trace.Line

/-!
# The grammar of lines

What a line of a trace has to look like is said here without a word on how it is read: two fields
with blanks around them, the first one a number and the second one a number behind `ID:`, and then
perhaps a message, with tabs between. A line is read exactly if it looks like that.

## Main definitions

* `IsWord` — the texts of a number.
* `Padded` — something with blanks around it.
* `IsLine` — the lines that hold an event.

## Main results

* `word?_eq_some_iff`, `padded_iff` — numbers, and what stands between blanks.
* `nodeNumber_eq_ok_iff` — fields for a node.
* `readLine_eq_ok_iff` — lines are read exactly if they are in the grammar.
-/

namespace Motewatch
namespace Text

variable {s core : List Char} {n : Nat}

/-! ## Numbers -/

/-- Digits that stand for the number `n`: there is at least one of them, and any number of zeros in
front. The number fits 64 bits. -/
structure IsNumeral (n : Nat) (ds : List Char) : Prop where
  ne_nil : ds ≠ []
  isDigit : ∀ c ∈ ds, c.isDigit = true
  value : valueOf ds = n
  lt : n < wordLimit

/-- The texts of the number `n`: its digits, with or without a plus sign before them. -/
inductive IsWord (n : Nat) : List Char → Prop
  | bare {ds : List Char} (h : IsNumeral n ds) : IsWord n ds
  | plus {ds : List Char} (h : IsNumeral n ds) : IsWord n ('+' :: ds)

theorem digitsWord?_eq_some_iff {ds : List Char} : digitsWord? ds = some n ↔ IsNumeral n ds := by
  rw [digitsWord?]
  constructor
  · intro h
    split at h
    · rename_i hds
      obtain rfl := Option.some.inj h
      exact ⟨hds.1, List.all_eq_true.1 hds.2.1, rfl, hds.2.2⟩
    · contradiction
  · rintro ⟨hne, hdigit, rfl, hlt⟩
    rw [if_pos ⟨hne, List.all_eq_true.2 hdigit, hlt⟩]

theorem dropPlus_of_ne {c : Char} (h : c ≠ '+') (s : List Char) : dropPlus (c :: s) = c :: s := by
  rw [dropPlus]
  rintro rest ⟨rfl, -⟩
  exact h rfl

/-- **What is read as a number.** -/
theorem word?_eq_some_iff : word? s = some n ↔ IsWord n s := by
  constructor
  · intro h
    cases s with
    | nil => exact .bare (digitsWord?_eq_some_iff.1 h)
    | cons c rest =>
      by_cases hc : c = '+'
      · subst hc
        exact .plus (digitsWord?_eq_some_iff.1 h)
      · rw [word?, dropPlus_of_ne hc] at h
        exact .bare (digitsWord?_eq_some_iff.1 h)
  · intro h
    cases h with
    | plus h => exact digitsWord?_eq_some_iff.2 h
    | bare h =>
      obtain ⟨c, rest, rfl⟩ := List.exists_cons_of_ne_nil h.ne_nil
      have hc : c ≠ '+' := by
        rintro rfl
        exact absurd (h.isDigit '+' (List.mem_cons_self ..)) (by decide)
      rw [word?, dropPlus_of_ne hc]
      exact digitsWord?_eq_some_iff.2 h

theorem IsWord.isBlank_of_mem (h : IsWord n s) {c : Char} (hc : c ∈ s) : isBlank c = false := by
  cases h with
  | bare h => exact isBlank_of_isDigit (h.isDigit c hc)
  | plus h =>
    rcases List.mem_cons.1 hc with rfl | hc
    · decide
    · exact isBlank_of_isDigit (h.isDigit c hc)

/-! ## Blanks around something -/

/-- Something with blanks around it, or without. -/
inductive Padded (p : List Char → Prop) : List Char → Prop
  | intro {before core after : List Char} (hbefore : ∀ c ∈ before, isBlank c = true)
      (hcore : p core) (hafter : ∀ c ∈ after, isBlank c = true) :
      Padded p (before ++ core ++ after)

/-- Blanks around a text without blanks are cut off. -/
theorem trim_append {before after : List Char} (hbefore : ∀ c ∈ before, isBlank c = true)
    (hcore : ∀ c ∈ core, isBlank c = false) (hafter : ∀ c ∈ after, isBlank c = true) :
    trim (before ++ core ++ after) = core := by
  have hreverse : ∀ c ∈ after.reverse, isBlank c = true :=
    fun c hc => hafter c (List.mem_reverse.1 hc)
  have hend : trimEnd (core ++ after) = core := by
    have hself : core.reverse.dropWhile isBlank = core.reverse :=
      dropWhile_eq_self fun c hc => hcore c (List.mem_reverse.1 (List.mem_of_mem_head? hc))
    rw [trimEnd, List.reverse_append, List.dropWhile_append_of_pos hreverse, hself,
      List.reverse_reverse]
  rw [trim, trimStart, List.append_assoc, List.dropWhile_append_of_pos hbefore]
  cases core with
  | nil =>
    rw [List.nil_append, List.dropWhile_eq_nil_iff.2 hafter]
    rfl
  | cons c core =>
    rw [List.cons_append, List.dropWhile_cons_of_neg (by simp [hcore c]), ← List.cons_append, hend]

/-- All that is cut off are blanks at the two ends. -/
theorem exists_append_trim (s : List Char) :
    ∃ before after, s = before ++ trim s ++ after ∧ (∀ c ∈ before, isBlank c = true) ∧
      ∀ c ∈ after, isBlank c = true := by
  obtain ⟨after, hend, hafter⟩ := exists_append_of_dropEnd isBlank (trimStart s)
  refine ⟨s.takeWhile isBlank, after, ?_, fun c hc => List.mem_takeWhile_imp hc, hafter⟩
  rw [List.append_assoc, trim, trimEnd, ← hend, trimStart, List.takeWhile_append_dropWhile]

/-- **What stands between blanks** is what is left without the blanks. -/
theorem padded_iff {p : List Char → Prop} (hp : ∀ core, p core → ∀ c ∈ core, isBlank c = false) :
    Padded p s ↔ p (trim s) := by
  constructor
  · rintro ⟨hbefore, hcore, hafter⟩
    rwa [trim_append hbefore (hp _ hcore) hafter]
  · intro h
    obtain ⟨before, after, hs, hbefore, hafter⟩ := exists_append_trim s
    rw [hs]
    exact .intro hbefore h hafter

end Text

namespace Trace
open Text

variable {line : List Char} {e : Event}

/-- The texts of a node: its number behind `ID:`. Nodes are counted from one. -/
inductive IsNode (n : NodeId) : List Char → Prop
  | intro {number : List Char} (hnumber : IsWord n.number number) (hpos : 1 ≤ n.number) :
      IsNode n ('I' :: 'D' :: ':' :: number)

/-- The two fields in front of the message: the time and the node, with blanks around them. Neither
holds a tab. -/
structure IsFront (a b : List Char) (node : NodeId) (time : Instant) : Prop where
  tab_notMem_left : '\t' ∉ a
  tab_notMem_right : '\t' ∉ b
  time_eq : Padded (IsWord time.micros) a
  node_eq : Padded (IsNode node) b

/-- The lines that hold an event. The message is all that stands behind the second tab, and there is
none if there is no second tab. -/
inductive IsLine : List Char → Event → Prop
  | withoutMessage {a b : List Char} {node : NodeId} {time : Instant} (h : IsFront a b node time) :
      IsLine (a ++ '\t' :: b) ⟨node, time, ""⟩
  | withMessage {a b : List Char} {node : NodeId} {time : Instant} (h : IsFront a b node time)
      (message : List Char) :
      IsLine (a ++ '\t' :: (b ++ '\t' :: message)) ⟨node, time, String.ofList message⟩

/-! ## Fields -/

theorem IsNode.isBlank_of_mem {n : NodeId} {s : List Char} (h : IsNode n s) {c : Char}
    (hc : c ∈ s) : isBlank c = false := by
  obtain ⟨hnumber, -⟩ := h
  simp only [List.mem_cons] at hc
  rcases hc with rfl | rfl | rfl | hc
  · decide
  · decide
  · decide
  · exact hnumber.isBlank_of_mem hc

theorem IsNode.one_le {n : NodeId} {s : List Char} (h : IsNode n s) : 1 ≤ n.number := by
  cases h
  assumption

theorem nodeNumber_mark (number : List Char) :
    nodeNumber ('I' :: 'D' :: ':' :: number) = match word? number with
      | none => .error (.badNode (String.ofList number))
      | some 0 => .error .zeroNode
      | some n => .ok n := rfl

/-- **What is read as a node.** -/
theorem nodeNumber_eq_ok_iff {s : List Char} {n : Nat} : nodeNumber s = .ok n ↔ IsNode ⟨n⟩ s := by
  constructor
  · intro h
    unfold nodeNumber at h
    split at h
    · rename_i number
      split at h
      · contradiction
      · contradiction
      · rename_i m hzero hword
        obtain rfl := Except.ok.inj h
        exact .intro (word?_eq_some_iff.1 hword) (Nat.one_le_iff_ne_zero.2 hzero)
    · contradiction
  · rintro ⟨hnumber, hpos⟩
    rw [nodeNumber_mark, word?_eq_some_iff.2 hnumber]
    obtain ⟨m, rfl⟩ : ∃ m, n = m + 1 := ⟨n - 1, by simp only at hpos; omega⟩
    rfl

/-- What the fields of a line are read as makes up its event. -/
theorem readLine_of_fields {a b : List Char} {rest : List Char} {message? : Option (List Char)}
    (hline : cutAt '\t' line = (a, some rest)) (hrest : cutAt '\t' rest = (b, message?))
    (htime : word? (trim a) = some e.time.micros) (hnode : nodeNumber (trim b) = .ok e.node.number)
    (hmessage : e.message = String.ofList (message?.getD [])) : readLine line = .ok e := by
  simp only [readLine, hline, hrest, htime, hnode, Instant.ofMicros_micros, ← hmessage]

/-- An event that is read from a line is made up from its fields. -/
theorem exists_fields_of_readLine (h : readLine line = .ok e) :
    ∃ a b rest message?, cutAt '\t' line = (a, some rest) ∧ cutAt '\t' rest = (b, message?) ∧
      word? (trim a) = some e.time.micros ∧ nodeNumber (trim b) = .ok e.node.number ∧
      e.message = String.ofList (message?.getD []) := by
  unfold readLine at h
  rcases hline : cutAt '\t' line with ⟨a, rest?⟩
  simp only [hline] at h
  split at h
  · contradiction
  · rename_i time htime
    split at h
    · contradiction
    · rename_i rest
      rcases hrest : cutAt '\t' rest with ⟨b, message?⟩
      simp only [hrest] at h
      split at h
      · contradiction
      · rename_i n hnode
        obtain rfl := Except.ok.inj h
        refine ⟨a, b, rest, message?, rfl, hrest, ?_, hnode, rfl⟩
        rw [Instant.micros_ofMicros_of_lt (lt_of_digitsWord? htime), htime]

/-! ## Lines -/

/-- What the two fields in front are read as. -/
theorem isFront_iff {a b : List Char} {node : NodeId} {time : Instant} :
    IsFront a b node time ↔ '\t' ∉ a ∧ '\t' ∉ b ∧ word? (trim a) = some time.micros ∧
      nodeNumber (trim b) = .ok node.number := by
  have htime : Padded (IsWord time.micros) a ↔ word? (trim a) = some time.micros :=
    (padded_iff fun _ h _ => h.isBlank_of_mem).trans word?_eq_some_iff.symm
  have hnode : Padded (IsNode node) b ↔ nodeNumber (trim b) = .ok node.number :=
    (padded_iff fun _ h _ => h.isBlank_of_mem).trans nodeNumber_eq_ok_iff.symm
  rw [← htime, ← hnode]
  exact ⟨fun h => ⟨h.1, h.2, h.3, h.4⟩, fun ⟨ha, hb, htime, hnode⟩ => ⟨ha, hb, htime, hnode⟩⟩

/-- **A line is read as an event exactly if it is a line of the grammar that holds this event.** -/
theorem readLine_eq_ok_iff : readLine line = .ok e ↔ IsLine line e := by
  constructor
  · intro h
    obtain ⟨a, b, rest, message?, hline, hrest, htime, hnode, hmessage⟩ :=
      exists_fields_of_readLine h
    obtain ⟨ha, rfl⟩ := cutAt_eq_some_iff.1 hline
    obtain ⟨node, time, message⟩ := e
    cases message? with
    | none =>
      obtain ⟨hb, rfl⟩ := cutAt_eq_none_iff.1 hrest
      obtain rfl : message = "" := hmessage
      exact .withoutMessage (isFront_iff.2 ⟨ha, hb, htime, hnode⟩)
    | some message =>
      obtain ⟨hb, rfl⟩ := cutAt_eq_some_iff.1 hrest
      obtain rfl := hmessage
      exact .withMessage (isFront_iff.2 ⟨ha, hb, htime, hnode⟩) message
  · intro h
    cases h with
    | withoutMessage h =>
      obtain ⟨ha, hb, htime, hnode⟩ := isFront_iff.1 h
      exact readLine_of_fields (cutAt_eq_some_iff.2 ⟨ha, rfl⟩) (cutAt_eq_none_iff.2 ⟨hb, rfl⟩)
        htime hnode rfl
    | withMessage h message =>
      obtain ⟨ha, hb, htime, hnode⟩ := isFront_iff.1 h
      exact readLine_of_fields (cutAt_eq_some_iff.2 ⟨ha, rfl⟩) (cutAt_eq_some_iff.2 ⟨hb, rfl⟩)
        htime hnode rfl

example : readLine " +007\t\u2003ID:+01 \t a\tb ".toList =
    .ok ⟨⟨1⟩, .ofMicros 7, " a\tb "⟩ := by decide

end Trace

end Motewatch
