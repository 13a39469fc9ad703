import Motewatch.LinkCount
import Motewatch.Proofs.Trace.Grammar

/-!
# Link counts are found in messages

Only the number behind the first mark in a message counts. The mark cannot overlap itself, as its
first letter does not come again in it; so a mark that is put behind a text without one is the first
one, even if the text ends in a part of a mark. Of the digits behind the mark all are read, and a
number that does not fit 64 bits is refused as a whole.

## Main definitions

* `Text.FollowsFirst` — what stands behind the first occurrence of a text.
* `Text.LeadingDigits` — the digits at the start of a text, behind blanks.

## Main results

* `Text.afterFirst?_eq_some_iff` — the search finds the first occurrence.
* `Text.followsFirst_append` — a text that cannot overlap itself is found where it was put.
* `linkCount?_eq_some_iff` — what is read as a link count.
* `LinkCount.of_first_mark` — link counts are read exactly, or not at all.
-/

namespace Motewatch
namespace Text

variable {needle s after ds : List Char} {n : Nat}

/-! ## First occurrences -/

/-- What stands behind a text at the first place where it occurs. -/
def FollowsFirst (needle s after : List Char) : Prop :=
  ∃ before, s = before ++ needle ++ after ∧
    ∀ before' after', s = before' ++ needle ++ after' → before.length ≤ before'.length

theorem followsFirst_of_prefix : FollowsFirst needle (needle ++ after) after := by
  refine ⟨[], rfl, ?_⟩
  intro before' after' _
  exact Nat.zero_le _

/-- A text that begins with the other one has its first occurrence there. -/
theorem FollowsFirst.eq_of_prefix (h : FollowsFirst needle (needle ++ s) after) : after = s := by
  obtain ⟨before, hs, hfirst⟩ := h
  have hlength : before.length ≤ 0 := hfirst [] s rfl
  have hnil : before = [] := List.eq_nil_of_length_eq_zero (by omega)
  rw [hnil, List.nil_append] at hs
  exact (List.append_cancel_left hs).symm

/-- If it does not begin with the other one, its first occurrence is that in what follows its first
character. -/
theorem followsFirst_cons_iff {c : Char} (h : ¬needle <+: c :: s) :
    FollowsFirst needle (c :: s) after ↔ FollowsFirst needle s after := by
  -- No occurrence in `c :: s` stands at its very start.
  have hcons : ∀ before behind, c :: s = before ++ needle ++ behind →
      ∃ front, before = c :: front ∧ s = front ++ needle ++ behind := by
    intro before behind hs
    cases before with
    | nil => exact absurd ⟨behind, hs.symm⟩ h
    | cons d front =>
      obtain ⟨rfl, hrest⟩ := List.cons.inj hs
      exact ⟨front, rfl, hrest⟩
  constructor
  · intro hfollows
    obtain ⟨before, hs, hfirst⟩ := hfollows
    obtain ⟨front, rfl, hrest⟩ := hcons before after hs
    refine ⟨front, hrest, ?_⟩
    intro before' after' hs'
    have hle := hfirst (c :: before') after' (by rw [hs']; rfl)
    rw [List.length_cons, List.length_cons] at hle
    omega
  · intro hfollows
    obtain ⟨front, hs, hfirst⟩ := hfollows
    refine ⟨c :: front, by rw [hs]; rfl, ?_⟩
    intro before' after' hs'
    obtain ⟨front', rfl, hrest⟩ := hcons before' after' hs'
    have hle := hfirst front' after' hrest
    rw [List.length_cons, List.length_cons]
    omega

/-- **The search finds the first occurrence**, and what stands behind it. -/
theorem afterFirst?_eq_some_iff :
    afterFirst? needle s = some after ↔ FollowsFirst needle s after := by
  induction s with
  | nil =>
      rw [afterFirst?]
      by_cases hneedle : needle = []
      · subst hneedle
        rw [if_pos rfl, Option.some.injEq]
        constructor
        · rintro rfl
          exact followsFirst_of_prefix
        · intro h
          exact h.eq_of_prefix.symm
      · rw [if_neg hneedle]
        simp only [reduceCtorEq, false_iff]
        rintro ⟨before, hs, -⟩
        simp [hneedle] at hs
  | cons c rest ih =>
      rw [afterFirst?]
      by_cases hprefix : needle <+: c :: rest
      · rw [if_pos (List.isPrefixOf_iff_prefix.2 hprefix), Option.some.injEq]
        obtain ⟨behind, hs⟩ := hprefix
        rw [← hs, List.drop_left]
        constructor
        · rintro rfl
          exact followsFirst_of_prefix
        · intro h
          exact h.eq_of_prefix.symm
      · rw [if_neg (fun h => hprefix (List.isPrefixOf_iff_prefix.1 h)), ih,
          followsFirst_cons_iff hprefix]

/-- **A text that cannot overlap itself is found where it was put**, if it does not occur before
that. -/
theorem followsFirst_append {c : Char} {tail before : List Char} (hc : c ∉ tail)
    (hbefore : ¬c :: tail <:+: before) (after : List Char) :
    FollowsFirst (c :: tail) (before ++ (c :: tail) ++ after) after := by
  refine ⟨before, rfl, ?_⟩
  intro before' after' hs
  by_contra hlt
  -- The text occurs earlier than behind `before`, and `between` is what lies between the two places.
  rw [List.append_assoc, List.append_assoc] at hs
  rcases List.append_eq_append_iff.1 hs with ⟨between, hlate, -⟩ | ⟨between, hearly, hplaces⟩
  · rw [hlate, List.length_append] at hlt
    omega
  rcases List.append_eq_append_iff.1 hplaces with ⟨rest, hinside, -⟩ | ⟨rest, hoverlap, hbehind⟩
  · -- It lies in `before` as a whole.
    exact hbefore ⟨before', rest, by rw [hearly, hinside, List.append_assoc]⟩
  · cases between with
    | nil =>
      rw [hearly, List.append_nil] at hlt
      omega
    | cons d between =>
      cases rest with
      | nil =>
        rw [List.append_nil] at hoverlap
        exact hbefore ⟨before', [], by rw [hearly, hoverlap, List.append_nil]⟩
      | cons e rest =>
        -- It lies in `before` in part, so that its first character comes again in its other part.
        have hhead : c = e := (List.cons.inj hbehind).1
        have htail : tail = between ++ e :: rest := (List.cons.inj hoverlap).2
        apply hc
        rw [htail, hhead]
        exact List.mem_append_right _ List.mem_cons_self

/-! ## Digits -/

/-- The digits at the start of a text, behind blanks: there is one at least, and what follows them is
no digit. -/
inductive LeadingDigits (ds : List Char) : List Char → Prop
  | intro {blanks rest : List Char} (hblanks : ∀ c ∈ blanks, isBlank c = true) (hne : ds ≠ [])
      (hdigits : ∀ c ∈ ds, c.isDigit = true) (hrest : ∀ c ∈ rest.head?, c.isDigit = false) :
      LeadingDigits ds (blanks ++ ds ++ rest)

/-- A scan for digits stops at the first character that is none. -/
theorem takeWhile_isDigit_eq {rest : List Char} (hdigits : ∀ c ∈ ds, c.isDigit = true)
    (hrest : ∀ c ∈ rest.head?, c.isDigit = false) : (ds ++ rest).takeWhile Char.isDigit = ds := by
  have hnone : rest.takeWhile Char.isDigit = [] := by
    cases rest with
    | nil => rfl
    | cons c rest => exact List.takeWhile_cons_of_neg (by simp [hrest c rfl])
  rw [List.takeWhile_append_of_pos hdigits, hnone, List.append_nil]

/-- **They are what a scan for digits takes** behind the blanks, if that is anything. -/
theorem leadingDigits_iff :
    LeadingDigits ds s ↔ ds ≠ [] ∧ (trimStart s).takeWhile Char.isDigit = ds := by
  constructor
  · intro h
    cases h with
    | @intro blanks rest hblanks hne hdigits hrest =>
      have hstart : trimStart (blanks ++ ds ++ rest) = ds ++ rest := by
        rw [trimStart, List.append_assoc, List.dropWhile_append_of_pos hblanks]
        apply dropWhile_eq_self
        intro c hc
        obtain ⟨d, ds, rfl⟩ := List.exists_cons_of_ne_nil hne
        obtain rfl := Option.some.inj hc
        exact isBlank_of_isDigit (hdigits d List.mem_cons_self)
      exact ⟨hne, by rw [hstart, takeWhile_isDigit_eq hdigits hrest]⟩
  · rintro ⟨hne, rfl⟩
    have hs : s = s.takeWhile isBlank ++ (trimStart s).takeWhile Char.isDigit ++
        (trimStart s).dropWhile Char.isDigit := by
      rw [List.append_assoc, List.takeWhile_append_dropWhile, trimStart,
        List.takeWhile_append_dropWhile]
    have hrest : ∀ c ∈ ((trimStart s).dropWhile Char.isDigit).head?, c.isDigit = false := by
      intro c hc
      have hhead := List.head?_dropWhile_not Char.isDigit (trimStart s)
      rwa [hc] at hhead
    conv => arg 2; rw [hs]
    exact .intro (fun _ => List.mem_takeWhile_imp) hne (fun _ => List.mem_takeWhile_imp) hrest

/-- Zeros in front do not count. -/
theorem valueOf_replicate_zero_append (zeros : Nat) (ds : List Char) :
    valueOf (List.replicate zeros '0' ++ ds) = valueOf ds := by
  induction zeros with
  | zero => rfl
  | succ zeros ih =>
      rw [List.replicate_succ, List.cons_append, ← ih]
      simp [valueOf, Nat.ofDigitChars]

end Text

open Text

/-! ## Link counts -/

variable {message : String} {rest ds : List Char} {n : Nat}

/-- All digits behind the first mark are read, and their number is refused if it does not fit. -/
theorem linkCount?_of_leadingDigits
    (hrest : FollowsFirst LinkCount.mark.toList message.toList rest) (hds : LeadingDigits ds rest) :
    linkCount? message = if valueOf ds < wordLimit then some (valueOf ds) else none := by
  obtain ⟨hne, hrun⟩ := leadingDigits_iff.1 hds
  have hdigits : ds.all Char.isDigit = true := by
    rw [← hrun]
    exact List.all_takeWhile
  rw [linkCount?, afterFirst?_eq_some_iff.2 hrest, Option.bind_eq_bind, Option.bind_some, hrun,
    digitsWord?]
  simp only [hne, hdigits, ne_eq, not_false_eq_true, true_and]

/-- **What is read as a link count**: the number behind the first mark. -/
theorem linkCount?_eq_some_iff :
    linkCount? message = some n ↔ ∃ rest ds,
      FollowsFirst LinkCount.mark.toList message.toList rest ∧ LeadingDigits ds rest ∧
        valueOf ds = n ∧ n < wordLimit := by
  constructor
  · intro h
    rw [linkCount?, Option.bind_eq_bind, Option.bind_eq_some_iff] at h
    obtain ⟨rest, hrest, hword⟩ := h
    have hnumeral := digitsWord?_eq_some_iff.1 hword
    exact ⟨rest, _, afterFirst?_eq_some_iff.1 hrest, leadingDigits_iff.2 ⟨hnumeral.ne_nil, rfl⟩,
      hnumeral.value, hnumeral.lt⟩
  · rintro ⟨rest, ds, hrest, hds, hvalue, hlt⟩
    rw [linkCount?_of_leadingDigits hrest hds, hvalue, if_pos hlt]

/-- The mark cannot overlap itself: its first letter does not come again in it. -/
theorem LinkCount.exists_mark_eq : ∃ c tail, LinkCount.mark.toList = c :: tail ∧ c ∉ tail :=
  ⟨'G', "raph n_links:".toList, by decide, by decide⟩

/-- A mark behind a text without one is the first one, whatever the text ends in. -/
theorem LinkCount.followsFirst_mark {before : String}
    (hbefore : contains before LinkCount.mark = false) (after : List Char) :
    FollowsFirst LinkCount.mark.toList (before.toList ++ LinkCount.mark.toList ++ after) after := by
  obtain ⟨c, tail, hmark, hc⟩ := LinkCount.exists_mark_eq
  have hinfix : ¬LinkCount.mark.toList <:+: before.toList := by
    rw [← contains_iff, hbefore]
    decide
  rw [hmark] at hinfix ⊢
  exact followsFirst_append hc hinfix after

/-- **Link counts are read exactly, or not at all.** A message has the link count `n` exactly if it
holds the mark, and behind the first mark there are blanks, if any, and then digits that stand for
`n`, of which all count, and `n` fits 64 bits. Digits that stand for a larger number make no link
count: neither is the number wrapped, nor are digits left out. So a number that is put behind a mark,
with any blanks and any zeros in front, is read as it is, whatever stands behind it that is no digit,
and whatever stands before the mark that holds no other. -/
theorem LinkCount.of_first_mark :
    (∀ message n, linkCount? message = some n ↔ ∃ rest ds,
      FollowsFirst LinkCount.mark.toList message.toList rest ∧ LeadingDigits ds rest ∧
        valueOf ds = n ∧ n < wordLimit) ∧
    (∀ message rest ds, FollowsFirst LinkCount.mark.toList message.toList rest →
      LeadingDigits ds rest → wordLimit ≤ valueOf ds → linkCount? message = none) ∧
    ∀ before blanks after zeros n, contains before LinkCount.mark = false →
      (∀ c ∈ blanks.toList, isBlank c = true) →
      (∀ c ∈ after.toList.head?, c.isDigit = false) → n < wordLimit →
      linkCount? (before ++ LinkCount.mark ++ blanks ++
        String.ofList (List.replicate zeros '0' ++ digits n) ++ after) = some n := by
  refine ⟨fun message n => linkCount?_eq_some_iff, ?_, ?_⟩
  · intro message rest ds hrest hds hlarge
    rw [linkCount?_of_leadingDigits hrest hds, if_neg (Nat.not_lt.2 hlarge)]
  · intro before blanks after zeros n hbefore hblanks hafter hlt
    have hdigits : ∀ c ∈ List.replicate zeros '0' ++ digits n, c.isDigit = true := by
      intro c hc
      rcases List.mem_append.1 hc with hzero | hdigit
      · rw [List.eq_of_mem_replicate hzero]
        decide
      · exact isDigit_of_mem_digits hdigit
    have hne : List.replicate zeros '0' ++ digits n ≠ [] := by simp [digits_ne_nil]
    have hvalue : valueOf (List.replicate zeros '0' ++ digits n) = n := by
      rw [valueOf_replicate_zero_append, valueOf_digits]
    refine linkCount?_eq_some_iff.2 ⟨_, _, ?_, .intro hblanks hne hdigits hafter, hvalue, hlt⟩
    simpa using LinkCount.followsFirst_mark hbefore
      (blanks.toList ++ (List.replicate zeros '0' ++ digits n) ++ after.toList)

/-- The largest number that fits, with zeros and different blanks in front, a sign and another mark
behind it, and a part of a mark before the first one; and the next number, which does not fit. -/
theorem LinkCount.of_first_mark_largest :
    linkCount? ("Graph n_links Graph" ++ LinkCount.mark ++ " \u2003\t" ++
        String.ofList (List.replicate 3 '0' ++ digits (wordLimit - 1)) ++ "-Graph n_links:7") =
      some (wordLimit - 1) ∧
    linkCount? "Graph n_links:18446744073709551616" = none := by
  obtain ⟨-, hlarge, hread⟩ := LinkCount.of_first_mark
  constructor
  · have hblanks : ∀ c ∈ " \u2003\t".toList, isBlank c = true :=
      List.all_eq_true.1 (by decide)
    have hafter : ∀ c ∈ "-Graph n_links:7".toList.head?, c.isDigit = false := by
      intro c hc
      have hminus : some '-' = some c := hc
      obtain rfl := Option.some.inj hminus
      decide
    exact hread _ _ _ 3 _ (by decide) hblanks hafter (by decide)
  · have hdigits : LeadingDigits "18446744073709551616".toList
        "18446744073709551616".toList :=
      leadingDigits_iff.2 (by decide)
    exact hlarge _ _ _ followsFirst_of_prefix hdigits (by decide)

end Motewatch
