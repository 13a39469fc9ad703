import Motewatch.Proofs.Except
import Motewatch.Proofs.Trace.Text

/-!
# Lines and the texts they make up

A text is read line by line. Its events come from the lines that are not silent, in their order, and
a fault is that of the first line that is refused. Where a line stands decides about nothing but the
number in a fault, so texts can be put together and silent lines can be put in and taken out.

## Main definitions

* `heldLines` — the lines of a text that are there to hold an event.
* `Fault.later` — a fault with its lines counted from further on.

## Main results

* `readLines_later` — where lines stand decides about nothing but the number in a fault.
* `mapError_readLines` — silent lines decide about nothing but that, either.
* `exists_line_of_mem_read` — the events of a text come from its lines.
* `readLines_eq_error_iff` — a fault is that of the first line that is refused.
* `read_append` — a text in two parts, and a text with silent lines.
-/

namespace Motewatch.Trace
open Text

variable {line : List Char} {ls : List (List Char)} {n : Nat} {fault : Fault}

/-! ## Where lines stand -/

/-- The fault if lines are counted from `k` further on. -/
def Fault.later (k : Nat) (fault : Fault) : Fault := ⟨fault.line + k, fault.cause⟩

/-- **Where lines stand decides about nothing but the number in a fault.** -/
theorem readLines_later (k : Nat) (ls : List (List Char)) :
    readLines (n + k) ls = (readLines n ls).mapError (Fault.later k) := by
  induction ls generalizing n with
  | nil => rfl
  | cons line ls ih =>
      have hnext : readLines (n + k + 1) ls = (readLines (n + 1) ls).mapError (Fault.later k) := by
        rw [Nat.add_right_comm, ih]
      cases hsilent : isSilent line with
      | true => rw [readLines_cons_of_silent hsilent, readLines_cons_of_silent hsilent, hnext]
      | false =>
        cases hline : readLine (dropReturns line) with
        | error cause =>
          rw [readLines_cons_of_error hsilent hline, readLines_cons_of_error hsilent hline]
          rfl
        | ok e =>
          rw [readLines_cons_of_ok hsilent hline, readLines_cons_of_ok hsilent hline, hnext]
          cases readLines (n + 1) ls <;> rfl

/-- Apart from the number in a fault, lines are read as those that are not silent, one by one. -/
theorem mapError_readLines (n : Nat) (ls : List (List Char)) :
    (readLines n ls).mapError (·.cause) =
      (ls.filter fun line => !isSilent line).mapM fun line => readLine (dropReturns line) := by
  induction ls generalizing n with
  | nil => rfl
  | cons line ls ih =>
      cases hsilent : isSilent line with
      | true =>
        rw [readLines_cons_of_silent hsilent, ih, List.filter_cons_of_neg (by simp [hsilent])]
      | false =>
        rw [List.filter_cons_of_pos (by simp [hsilent]), List.mapM_cons, ← ih (n + 1)]
        cases hline : readLine (dropReturns line) with
        | error cause =>
          rw [readLines_cons_of_error hsilent hline]
          rfl
        | ok e =>
          rw [readLines_cons_of_ok hsilent hline]
          cases readLines (n + 1) ls <;> rfl

/-- The lines of a text that are there to hold an event: those that are not silent. -/
def heldLines (text : String) : List (List Char) := (lines text).filter fun line => !isSilent line

/-- The events of a text come from its lines. -/
theorem exists_line_of_mem_read {text : String} {events : List Event} {e : Event}
    (h : read text = .ok events) (he : e ∈ events) :
    ∃ line ∈ lines text, readLine (dropReturns line) = .ok e := by
  have hheld : (heldLines text).mapM (fun line => readLine (dropReturns line)) = .ok events := by
    rw [heldLines, ← mapError_readLines 1, ← read_eq_readLines, h]
    rfl
  obtain ⟨line, hmem, hline⟩ := exists_of_mem_mapM hheld e he
  exact ⟨line, List.mem_of_mem_filter hmem, hline⟩

/-! ## Lines that are refused -/

/-- A line that is not refused: it is silent, or it holds an event. -/
def IsTaken (line : List Char) : Prop :=
  isSilent line = true ∨ ∃ e, readLine (dropReturns line) = .ok e

/-- A line that is refused, and why. -/
def IsRefused (line : List Char) (cause : LineFault) : Prop :=
  isSilent line = false ∧ readLine (dropReturns line) = .error cause

theorem IsRefused.not_isTaken {cause : LineFault} (h : IsRefused line cause) : ¬IsTaken line := by
  rintro (hsilent | ⟨e, he⟩)
  · rw [h.1] at hsilent
    contradiction
  · rw [h.2] at he
    contradiction

theorem exists_isRefused (h : ¬IsTaken line) : ∃ cause, IsRefused line cause := by
  obtain ⟨hsilent, hnone⟩ := not_or.1 h
  cases hline : readLine (dropReturns line) with
  | ok e => exact absurd ⟨e, hline⟩ hnone
  | error cause => exact ⟨cause, by simpa using hsilent, hline⟩

/-- A line that is not refused does not keep the lines behind it from being read. -/
theorem IsTaken.readLines_cons_eq_error_iff (h : IsTaken line) :
    readLines n (line :: ls) = .error fault ↔ readLines (n + 1) ls = .error fault := by
  cases hsilent : isSilent line with
  | true => rw [readLines_cons_of_silent hsilent]
  | false =>
    obtain ⟨e, he⟩ := h.resolve_left (by simp [hsilent])
    rw [readLines_cons_of_ok hsilent he]
    cases readLines (n + 1) ls <;> simp [Except.map]

/-- **A fault is that of the first line that is refused**, with the number of this line, in which
all lines before it are counted. -/
theorem readLines_eq_error_iff : readLines n ls = .error fault ↔
    ∃ before line after, ls = before ++ line :: after ∧ (∀ l ∈ before, IsTaken l) ∧
      IsRefused line fault.cause ∧ fault.line = n + before.length := by
  induction ls generalizing n with
  | nil => simp [readLines_nil]
  | cons line ls ih =>
      by_cases htaken : IsTaken line
      · rw [htaken.readLines_cons_eq_error_iff, ih]
        constructor
        · rintro ⟨before, refused, after, rfl, hbefore, hrefused, hnumber⟩
          refine ⟨line :: before, refused, after, rfl, ?_, hrefused, ?_⟩
          · exact List.forall_mem_cons.2 ⟨htaken, hbefore⟩
          · rw [hnumber, List.length_cons]
            omega
        · rintro ⟨before, refused, after, heq, hbefore, hrefused, hnumber⟩
          cases before with
          | nil =>
            obtain ⟨rfl, -⟩ := List.cons.inj heq
            exact absurd htaken hrefused.not_isTaken
          | cons first before =>
            obtain ⟨-, rfl⟩ := List.cons.inj heq
            refine ⟨before, refused, after, rfl, (List.forall_mem_cons.1 hbefore).2, hrefused, ?_⟩
            rw [hnumber, List.length_cons]
            omega
      · obtain ⟨cause, hrefused⟩ := exists_isRefused htaken
        rw [readLines_cons_of_error hrefused.1 hrefused.2]
        constructor
        · rintro ⟨rfl⟩
          exact ⟨[], line, ls, rfl, by simp, hrefused, rfl⟩
        · rintro ⟨before, refused, after, heq, hbefore, hrefused', hnumber⟩
          -- Nothing can stand before the first line, which is refused.
          cases before with
          | cons first before =>
            obtain ⟨rfl, -⟩ := List.cons.inj heq
            exact absurd (hbefore line (List.mem_cons_self ..)) htaken
          | nil =>
            obtain ⟨rfl, -⟩ := List.cons.inj heq
            obtain rfl := Except.error.inj (hrefused.2.symm.trans hrefused'.2)
            exact congrArg (fun k => Except.error (Fault.mk k fault.cause)) hnumber.symm

/-! ## Texts in two parts -/

theorem lines_append_feed (a b : String) : lines (a ++ "\n" ++ b) = lines a ++ lines b := by
  have htext : (a ++ "\n" ++ b).toList = a.toList ++ '\n' :: b.toList := by simp
  rw [lines, htext, List.splitOn_append_cons_self]
  rfl

/-- **A text in two parts** is read part by part: a fault of the first part is one of the whole, a
fault of the second part is one of the whole as well, further on by the lines of the first one, and
without a fault the events of the second part come behind those of the first one. -/
theorem read_append (a b : String) :
    (read (a ++ "\n" ++ b) = match read a, read b with
      | .error fault, _ => .error fault
      | .ok _, .error fault => .error ⟨fault.line + 1 + a.toList.count '\n', fault.cause⟩
      | .ok first, .ok second => .ok (first ++ second)) ∧
    (∀ fault, read a = .error fault ↔
      ∃ before line after, lines a = before ++ line :: after ∧ (∀ l ∈ before, IsTaken l) ∧
        IsRefused line fault.cause ∧ fault.line = before.length + 1) ∧
    ∀ a', heldLines a' = heldLines a →
      (read a').mapError (·.cause) = (read a).mapError (·.cause) := by
  refine ⟨?_, fun fault => ?_, fun a' h => ?_⟩
  · have hsecond : readLines (1 + (lines a).length) (lines b) =
        (read b).mapError (Fault.later (a.toList.count '\n' + 1)) := by
      rw [readLines_later, length_lines, read_eq_readLines]
    rw [read_eq_readLines, lines_append_feed, readLines_append, ← read_eq_readLines, hsecond]
    cases read a with
    | error fault => rfl
    | ok first =>
      cases read b with
      | ok second => rfl
      | error fault =>
        simp only [Except.mapError, Fault.later, Nat.add_comm (a.toList.count '\n') 1,
          Nat.add_assoc]
        rfl
  · rw [read_eq_readLines, readLines_eq_error_iff]
    simp only [Nat.add_comm]
  · rw [read_eq_readLines, read_eq_readLines, mapError_readLines, mapError_readLines]
    exact congrArg _ h

/-- A cut behind a carriage return, before a blank line and a line that is refused; and the same
events with a comment and blank lines between them. -/
theorem read_append_comments :
    heldLines "# log\n\n1\tID:1\ta\n \t\r\n2\tID:2\r\n" = heldLines "1\tID:1\ta\n2\tID:2\r" ∧
      (read "# log\n\n1\tID:1\ta\n \t\r\n2\tID:2\r\n").mapError (·.cause) =
        (read "1\tID:1\ta\n2\tID:2\r").mapError (·.cause) ∧
      read ("1\tID:1\ta\n2\tID:2\r" ++ "\n" ++ "\n3\tID:0") = .error ⟨4, .zeroNode⟩ := by
  have hheld : heldLines "# log\n\n1\tID:1\ta\n \t\r\n2\tID:2\r\n" =
      heldLines "1\tID:1\ta\n2\tID:2\r" := by decide +kernel
  obtain ⟨hparts, -, hsame⟩ := read_append "1\tID:1\ta\n2\tID:2\r" "\n3\tID:0"
  exact ⟨hheld, hsame _ hheld, hparts.trans (by decide +kernel)⟩

end Motewatch.Trace
