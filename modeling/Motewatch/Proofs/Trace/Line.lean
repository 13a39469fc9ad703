import Mathlib.Data.List.Basic
import Mathlib.Data.List.TakeWhile
import Motewatch.Trace.Line

/-!
# Reading the lines of a trace

The line for an event is cut in three fields by its first two tabs. Neither number field holds a
tab or a blank, so the message is what stands behind the second tab, whatever it holds, and the
fields are read as they were written.

## Main results

* `readLine_writeLine` — the line for an event holds the event.
* `exists_writeLine_eq_cons`, `newline_notMem_writeLine`, `getLast?_writeLine` — how such a line
  begins, goes on, and ends.
-/

namespace Motewatch
namespace Text

/-! ## Blanks and digits -/

theorem isBlank_of_isDigit {c : Char} (h : c.isDigit = true) : isBlank c = false := by
  have hrange : 48 ≤ c.toNat ∧ c.toNat ≤ 57 := by
    simpa [Char.isDigit, UInt32.le_iff_toNat_le] using h
  simp only [isBlank, Bool.or_eq_false_iff, Bool.and_eq_false_iff, decide_eq_false_iff_not,
    beq_eq_false_iff_ne]
  omega

theorem dropWhile_eq_self {p : Char → Bool} {s : List Char} (h : ∀ c ∈ s.head?, p c = false) :
    s.dropWhile p = s := by
  cases s with
  | nil => rfl
  | cons c rest => exact List.dropWhile_cons_of_neg (by simp [h c rfl])

/-- What is dropped off the end of a text is part of it. -/
theorem exists_append_of_dropEnd (p : Char → Bool) (s : List Char) :
    ∃ dropped, s = (s.reverse.dropWhile p).reverse ++ dropped ∧ ∀ c ∈ dropped, p c = true := by
  refine ⟨(s.reverse.takeWhile p).reverse, ?_, fun c hc => ?_⟩
  · rw [← List.reverse_append, List.takeWhile_append_dropWhile, List.reverse_reverse]
  · exact List.mem_takeWhile_imp (List.mem_reverse.1 hc)

/-- A text without blanks is left as it is. -/
theorem trim_eq_self {s : List Char} (h : ∀ c ∈ s, isBlank c = false) : trim s = s := by
  have hstart : trimStart s = s := dropWhile_eq_self fun c hc => h c (List.mem_of_mem_head? hc)
  have hend : s.reverse.dropWhile isBlank = s.reverse :=
    dropWhile_eq_self fun c hc => h c (List.mem_reverse.1 (List.mem_of_mem_head? hc))
  rw [trim, hstart, trimEnd, hend, List.reverse_reverse]

theorem notMem_digits {c : Char} (hc : c.isDigit = false) (n : Nat) : c ∉ digits n := by
  intro h
  rw [isDigit_of_mem_digits h] at hc
  cases hc

theorem isBlank_of_mem_digits {n : Nat} {c : Char} (h : c ∈ digits n) : isBlank c = false :=
  isBlank_of_isDigit (isDigit_of_mem_digits h)

end Text

namespace Trace
open Text

/-! ## The field for a node -/

/-- The field for a node. -/
def nodeField (n : NodeId) : List Char := 'I' :: 'D' :: ':' :: digits n.number

theorem isBlank_of_mem_nodeField {n : NodeId} {c : Char} (h : c ∈ nodeField n) :
    isBlank c = false := by
  simp only [nodeField, List.mem_cons] at h
  rcases h with rfl | rfl | rfl | h
  · decide
  · decide
  · decide
  · exact isBlank_of_mem_digits h

theorem tab_notMem_nodeField (n : NodeId) : '\t' ∉ nodeField n := fun h =>
  absurd (isBlank_of_mem_nodeField h) (by decide)

theorem nodeNumber_nodeField {n : NodeId} (hpos : 1 ≤ n.number) (hlt : n.number < wordLimit) :
    nodeNumber (nodeField n) = .ok n.number := by
  obtain ⟨number⟩ := n
  rw [nodeField, nodeNumber, word?_digits hlt]
  cases number with
  | zero => exact absurd hpos (Nat.not_succ_le_zero 0)
  | succ m => rfl

/-! ## The line for an event -/

theorem writeLine_eq (e : Event) : writeLine e =
    digits e.time.micros ++ '\t' :: (nodeField e.node ++ '\t' :: e.message.toList) := by
  simp [writeLine, nodeField]

/-- The line for an event holds the event, if its node has a number that a line can hold. -/
theorem readLine_writeLine {e : Event} (hpos : 1 ≤ e.node.number)
    (hlt : e.node.number < wordLimit) : readLine (writeLine e) = .ok e := by
  have htimeCut : cutAt '\t' (writeLine e) =
      (digits e.time.micros, some (nodeField e.node ++ '\t' :: e.message.toList)) :=
    cutAt_eq_some_iff.2 ⟨notMem_digits (by decide) _, writeLine_eq e⟩
  have hnodeCut : cutAt '\t' (nodeField e.node ++ '\t' :: e.message.toList) =
      (nodeField e.node, some e.message.toList) :=
    cutAt_eq_some_iff.2 ⟨tab_notMem_nodeField e.node, rfl⟩
  have htime : word? (trim (digits e.time.micros)) = some e.time.micros := by
    rw [trim_eq_self fun _ => isBlank_of_mem_digits, word?_digits e.time.micros_lt]
  have hnode : nodeNumber (trim (nodeField e.node)) = .ok e.node.number := by
    rw [trim_eq_self fun _ => isBlank_of_mem_nodeField, nodeNumber_nodeField hpos hlt]
  simp only [readLine, htimeCut, htime, hnodeCut, hnode, Option.getD_some, Instant.ofMicros_micros,
    String.ofList_toList]

/-- The line for an event begins with a digit. -/
theorem exists_writeLine_eq_cons (e : Event) :
    ∃ c rest, writeLine e = c :: rest ∧ c.isDigit = true := by
  obtain ⟨c, rest, h, hc⟩ := exists_digits_eq_cons e.time.micros
  exact ⟨c, _, by rw [writeLine_eq, h, List.cons_append], hc⟩

/-- The line for an event is one line if the message is. -/
theorem newline_notMem_writeLine {e : Event} (h : '\n' ∉ e.message.toList) :
    '\n' ∉ writeLine e := by
  have htime : '\n' ∉ digits e.time.micros := notMem_digits (by decide) _
  have hnode : '\n' ∉ nodeField e.node := fun hmem =>
    absurd (isBlank_of_mem_nodeField hmem) (by decide)
  simp [writeLine_eq, htime, hnode, h]

/-- The line for an event ends like its message, and in a tab if there is no message. -/
theorem getLast?_writeLine (e : Event) :
    (writeLine e).getLast? = ('\t' :: e.message.toList).getLast? := by
  have hassoc : writeLine e = (digits e.time.micros ++ '\t' :: nodeField e.node) ++
      '\t' :: e.message.toList := by simp [writeLine_eq]
  rw [hassoc, List.getLast?_append_cons]

end Trace

end Motewatch
