import Mathlib.Tactic.MkIffOfInductiveProp
import Motewatch.Proofs.Trace.Line
import Motewatch.Trace.Text

/-!
# Reading the texts of traces

A text is read line by line, and some lines are read after others with the count of lines behind
those. So a text that was written with a line for each event holds these events, however its lines
end.

## Main definitions

* `lines` — the lines of a text.
* `readLines` — the events of lines with the number of the first one.
* `LineEnd`, `writeText` — a text with a line for each event.
* `Writable` — what an event must be like to stand in a line.

## Main results

* `readLines_append` — lines behind others.
* `splitOn_writeEnded` — the lines of a text that was written for events.
* `read_writeText` — a text that was written for events holds these events.
-/

namespace Motewatch
namespace Text

/-! ## Texts in parts -/

theorem length_splitOn (c : Char) (s : List Char) : (s.splitOn c).length = s.count c + 1 := by
  induction s with
  | nil => rfl
  | cons d rest ih =>
      rw [List.splitOn_cons_eq_if_modifyHead]
      by_cases hd : d = c
      · simp [hd, ih]
      · simp [hd, ih]

end Text

namespace Trace
open Text

variable {line : List Char} {ls : List (List Char)} {n : Nat}

/-! ## Lines -/

/-- The lines of a text. -/
def lines (text : String) : List (List Char) := text.toList.splitOn '\n'

theorem length_lines (text : String) : (lines text).length = text.toList.count '\n' + 1 :=
  length_splitOn '\n' text.toList

/-- The events of lines if the first one has the number `n`. -/
def readLines (n : Nat) (ls : List (List Char)) : Except Fault (List Event) :=
  (((ls.map dropReturns).zipIdx n).filter fun line => !isSilent line.1).mapM readNumbered

theorem read_eq_readLines (text : String) : read text = readLines 1 (lines text) := rfl

/-- Carriage returns are blanks, so that a line is silent with and without them. -/
theorem isSilent_dropReturns (line : List Char) : isSilent (dropReturns line) = isSilent line := by
  obtain ⟨returns, hline, hreturns⟩ := exists_append_of_dropEnd (· = '\r') line
  have hblank : returns.all isBlank = true := by
    rw [List.all_eq_true]
    intro c hc
    rw [of_decide_eq_true (hreturns c hc)]
    decide
  conv_rhs => rw [hline]
  rw [← dropReturns]
  cases dropReturns line with
  | nil => simp [isSilent, hblank]
  | cons c front => simp [isSilent, hblank]

theorem readLines_nil (n : Nat) : readLines n [] = .ok [] := rfl

theorem readLines_cons_of_silent (h : isSilent line = true) :
    readLines n (line :: ls) = readLines (n + 1) ls := by
  rw [← isSilent_dropReturns] at h
  simp [readLines, h]

theorem readLines_cons_of_error {cause : LineFault} (h : isSilent line = false)
    (hline : readLine (dropReturns line) = .error cause) :
    readLines n (line :: ls) = .error ⟨n, cause⟩ := by
  rw [← isSilent_dropReturns] at h
  simp [readLines, h, readNumbered, hline, bind, Except.bind]

theorem readLines_cons_of_ok {e : Event} (h : isSilent line = false)
    (hline : readLine (dropReturns line) = .ok e) :
    readLines n (line :: ls) = (readLines (n + 1) ls).map (e :: ·) := by
  rw [← isSilent_dropReturns] at h
  simp [readLines, h, readNumbered, hline, bind, Except.bind, pure, Except.pure, Except.map]

/-- Lines are read one part after the other. -/
theorem readLines_append (n : Nat) (ls more : List (List Char)) :
    readLines n (ls ++ more) = (do
      let first ← readLines n ls
      let second ← readLines (n + ls.length) more
      pure (first ++ second)) := by
  rw [readLines, List.map_append, List.zipIdx_append, List.filter_append, List.mapM_append,
    List.length_map]
  rfl

/-! ## The texts for events -/

/-- How a line ends. -/
inductive LineEnd
  | feed
  | returnFeed
  deriving DecidableEq

/-- What stands between a line and the line feed at its end. -/
def LineEnd.returns : LineEnd → List Char
  | .feed => []
  | .returnFeed => ['\r']

/-- The lines for events, each with its end. -/
def writeEnded (ended : List (Event × LineEnd)) : List Char :=
  ended.flatMap fun line => writeLine line.1 ++ line.2.returns ++ ['\n']

theorem writeEnded_cons (e : Event) (ends : LineEnd) (rest : List (Event × LineEnd)) :
    writeEnded ((e, ends) :: rest) = writeLine e ++ ends.returns ++ '\n' :: writeEnded rest := by
  simp [writeEnded]

/-- A text with a line for each event, each line with its end, and perhaps a last line that goes
without. -/
def writeText (ended : List (Event × LineEnd)) (last : Option Event) : String :=
  String.ofList (writeEnded ended ++ (last.map writeLine).getD [])

/-- The events that a line can hold: the number of the node is that of a node, and the message goes
to the end of the line. -/
@[mk_iff] structure Writable (e : Event) : Prop where
  one_le_number : 1 ≤ e.node.number
  number_lt : e.node.number < wordLimit
  newline_notMem : '\n' ∉ e.message.toList
  getLast?_ne : e.message.toList.getLast? ≠ some '\r'

instance : DecidablePred Writable := fun e => decidable_of_iff' _ (writable_iff e)

theorem dropReturns_append_returns {s : List Char} (h : s.getLast? ≠ some '\r') (ends : LineEnd) :
    dropReturns (s ++ ends.returns) = s := by
  have hs : s.reverse.dropWhile (· = '\r') = s.reverse := by
    refine dropWhile_eq_self fun c hc => decide_eq_false ?_
    rintro rfl
    exact h (List.getLast?_eq_head?_reverse.trans hc)
  cases ends <;> simp [LineEnd.returns, dropReturns, hs]

theorem isSilent_writeLine (e : Event) : isSilent (writeLine e) = false := by
  obtain ⟨c, rest, heq, hc⟩ := exists_writeLine_eq_cons e
  have hhash : c ≠ '#' := by rintro rfl; exact absurd hc (by decide)
  simp [isSilent, heq, isBlank_of_isDigit hc, hhash]

/-- The line for an event does not end in a carriage return. -/
theorem Writable.getLast?_writeLine_ne {e : Event} (he : Writable e) :
    (writeLine e).getLast? ≠ some '\r' := by
  rw [getLast?_writeLine, List.getLast?_cons]
  cases hlast : e.message.toList.getLast? with
  | none => decide
  | some c =>
      intro hc
      exact he.getLast?_ne (hlast.trans hc)

/-- The line for an event is read as the event, with carriage returns at its end and without. -/
theorem Writable.readLines_cons {e : Event} (he : Writable e) (ends : LineEnd) (n : Nat)
    (ls : List (List Char)) :
    readLines n ((writeLine e ++ ends.returns) :: ls) =
      (readLines (n + 1) ls).map (e :: ·) := by
  have hreturns : dropReturns (writeLine e ++ ends.returns) = writeLine e :=
    dropReturns_append_returns he.getLast?_writeLine_ne ends
  apply readLines_cons_of_ok
  · rw [← isSilent_dropReturns, hreturns, isSilent_writeLine]
  · rw [hreturns, readLine_writeLine he.one_le_number he.number_lt]

/-- The line for an event is one line. -/
theorem Writable.newline_notMem_ended {e : Event} (he : Writable e) (ends : LineEnd) :
    '\n' ∉ writeLine e ++ ends.returns := by
  have hreturns : '\n' ∉ ends.returns := by cases ends <;> decide
  simp [hreturns, newline_notMem_writeLine he.newline_notMem]

/-- What goes without an end is one line. -/
theorem newline_notMem_last {last : Option Event} (h : ∀ e ∈ last, Writable e) :
    '\n' ∉ (last.map writeLine).getD [] := by
  cases last with
  | none => simp
  | some e => exact newline_notMem_writeLine (h e rfl).newline_notMem

/-- The lines of a text that was written for events are the lines for these events. -/
theorem splitOn_writeEnded {ended : List (Event × LineEnd)} {last : List Char}
    (hended : ∀ line ∈ ended, Writable line.1) (hlast : '\n' ∉ last) :
    (writeEnded ended ++ last).splitOn '\n' =
      ended.map (fun line => writeLine line.1 ++ line.2.returns) ++ [last] := by
  induction ended with
  | nil => exact List.splitOn_eq_singleton hlast
  | cons line rest ih =>
      obtain ⟨e, ends⟩ := line
      have he : Writable e := hended _ List.mem_cons_self
      have hrest := ih fun line hline => hended line (List.mem_cons_of_mem _ hline)
      rw [writeEnded_cons, List.append_assoc, List.cons_append, List.splitOn_append_cons_self,
        List.splitOn_eq_singleton (he.newline_notMem_ended ends), hrest]
      rfl

theorem readLines_last {last : Option Event} (h : ∀ e ∈ last, Writable e) (n : Nat) :
    readLines n [(last.map writeLine).getD []] = .ok last.toList := by
  cases last with
  | none => exact readLines_cons_of_silent rfl
  | some e =>
      have hline := (h e rfl).readLines_cons .feed n []
      rwa [LineEnd.returns, List.append_nil, readLines_nil] at hline

/-- One more line in front moves the count of all lines behind it, so the count is any number. -/
theorem readLines_ended {ended : List (Event × LineEnd)} {last : Option Event}
    (hended : ∀ line ∈ ended, Writable line.1) (hlast : ∀ e ∈ last, Writable e) (n : Nat) :
    readLines n (ended.map (fun line => writeLine line.1 ++ line.2.returns) ++
        [(last.map writeLine).getD []]) = .ok (ended.map (·.1) ++ last.toList) := by
  induction ended generalizing n with
  | nil => exact readLines_last hlast n
  | cons line rest ih =>
      obtain ⟨e, ends⟩ := line
      have he : Writable e := hended _ List.mem_cons_self
      have hrest := ih fun line hline => hended line (List.mem_cons_of_mem _ hline)
      rw [List.map_cons, List.cons_append, he.readLines_cons, hrest]
      rfl

/-- A text that was written for events holds these events. -/
theorem read_writeText {ended : List (Event × LineEnd)} {last : Option Event}
    (h : ∀ e ∈ ended.map (·.1) ++ last.toList, Writable e) :
    read (writeText ended last) = .ok (ended.map (·.1) ++ last.toList) := by
  have hended : ∀ line ∈ ended, Writable line.1 := fun line hline =>
    h line.1 (List.mem_append_left _ (List.mem_map_of_mem hline))
  have hlast : ∀ e ∈ last, Writable e := fun e he =>
    h e (List.mem_append_right _ (Option.mem_toList.2 he))
  rw [read_eq_readLines, lines, writeText, String.toList_ofList,
    splitOn_writeEnded hended (newline_notMem_last hlast), readLines_ended hended hlast]

/-- The largest numbers, a message with blanks, tabs, a number sign and a carriage return inside,
and no message, in lines with both ends, the last one without. -/
theorem read_writeText_three :
    read (writeText [(⟨⟨wordLimit - 1⟩, Instant.ofMicros wordLimit, " #\t\rx\t "⟩, .feed),
      (⟨⟨1⟩, .zero, ""⟩, .returnFeed)] (some ⟨⟨2⟩, .zero, "#"⟩)) =
    .ok [⟨⟨wordLimit - 1⟩, Instant.ofMicros wordLimit, " #\t\rx\t "⟩, ⟨⟨1⟩, .zero, ""⟩,
      ⟨⟨2⟩, .zero, "#"⟩] :=
  read_writeText (by decide)

end Trace

end Motewatch
