/-!
# Finding a text in a text

## Main definitions

* `occurs` — whether one text is part of another; the empty text is part of every text.
* `afterFirst?` — what follows the first occurrence.
* `fromFirst?` — the text from the first occurrence of a character on.
* `cutAt` — a text cut in two at the first occurrence of a character.
-/

namespace Motewatch.Text

/-- What follows `needle` at its first occurrence in a text, if it occurs. -/
def afterFirst? (needle : List Char) : List Char → Option (List Char)
  | [] => if needle = [] then some [] else none
  | c :: rest =>
    if needle.isPrefixOf (c :: rest) then some ((c :: rest).drop needle.length)
    else afterFirst? needle rest

/-- Whether `needle` is a part of the text. -/
def occurs (needle s : List Char) : Bool := (afterFirst? needle s).isSome

/-- Whether the text `needle` is a part of the text `s`. -/
def contains (s needle : String) : Bool := occurs needle.toList s.toList

/-- A text from the first occurrence of a character on, that character included. -/
def fromFirst? (c : Char) : List Char → Option (List Char)
  | [] => none
  | d :: rest => if d = c then some (d :: rest) else fromFirst? c rest

/-- The text before the first separator, and the text behind it if there is a separator. -/
def cutAt (separator : Char) (s : List Char) : List Char × Option (List Char) :=
  (s.takeWhile (· ≠ separator),
    match s.dropWhile (· ≠ separator) with
    | [] => none
    | _ :: rest => some rest)

/-- A text occurs in another exactly if the other is made of something, it, and something. -/
theorem occurs_iff_infix {needle s : List Char} : occurs needle s = true ↔ needle <:+: s := by
  unfold occurs
  induction s with
  | nil =>
    simp only [afterFirst?, List.infix_nil]
    split <;> simp_all
  | cons c rest ih =>
    rw [afterFirst?, List.infix_cons_iff, ← ih]
    split
    · rename_i h; simp [List.isPrefixOf_iff_prefix.1 h]
    · rename_i h
      have : ¬ needle <+: c :: rest := fun hp => h (List.isPrefixOf_iff_prefix.2 hp)
      simp [this]

theorem contains_iff {s needle : String} :
    contains s needle = true ↔ needle.toList <:+: s.toList := occurs_iff_infix

theorem cutAt_cons_self (c : Char) (s : List Char) : cutAt c (c :: s) = ([], some s) := by
  simp [cutAt]

theorem cutAt_cons_of_ne {separator c : Char} (h : c ≠ separator) (s : List Char) :
    cutAt separator (c :: s) = (c :: (cutAt separator s).1, (cutAt separator s).2) := by
  simp [cutAt, h]

/-- What is cut off before a separator holds none, and nothing is lost. -/
theorem cutAt_eq_some_iff {separator : Char} {s a b : List Char} :
    cutAt separator s = (a, some b) ↔ separator ∉ a ∧ s = a ++ separator :: b := by
  induction s generalizing a with
  | nil => simp [cutAt]
  | cons c rest ih =>
    by_cases hc : c = separator
    · subst hc
      rw [cutAt_cons_self]
      cases a with
      | nil => simp
      | cons d a => grind
    · rw [cutAt_cons_of_ne hc]
      cases a with
      | nil => simp [hc]
      | cons d a =>
        have := @ih a
        grind

/-- A text is left whole exactly if it holds no separator. -/
theorem cutAt_eq_none_iff {separator : Char} {s a : List Char} :
    cutAt separator s = (a, none) ↔ separator ∉ s ∧ s = a := by
  induction s generalizing a with
  | nil => simp [cutAt]
  | cons c rest ih =>
    by_cases hc : c = separator
    · subst hc; simp [cutAt_cons_self]
    · rw [cutAt_cons_of_ne hc]
      cases a with
      | nil => simp
      | cons d a =>
        have := @ih a
        grind

end Motewatch.Text
