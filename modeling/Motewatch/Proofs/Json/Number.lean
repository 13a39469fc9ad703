import Mathlib.Data.List.TakeWhile
import Motewatch.Json.Reader
import Motewatch.Proofs.Except

/-!
# Numbers are read back

A number is scanned run by run, and each run ends before the first character that cannot belong to
it. So what follows a number does not change how it is scanned, unless it begins with a digit, a
point or the mark of an exponent. Whole numbers that fit 64 bits are read back as they were, and
doubles too, provided that their text alone is.

## Main definitions

* `EndsNumber` — texts that cannot continue a number.
* `Stops` — scans that such texts do not change.
* `FitsWord`, `ReadsBack` — the whole numbers and doubles that are read back.

## Main results

* `stops_number` — what follows a number does not change how it is read.
* `IsDouble.number_ne_int` — the text of a double is not read as a whole number.
* `number_writeInt`, `number_writeDouble` — the written forms are read back.
-/

namespace Motewatch.Json
open Motewatch.Text (digits exists_digits_eq_cons valueOf)

variable {s t after : List Char}

/-- A text that cannot continue a number. -/
def EndsNumber (after : List Char) : Prop :=
  ∀ c ∈ after.head?, c.isDigit = false ∧ c ≠ '.' ∧ c ≠ 'e' ∧ c ≠ 'E'

theorem endsNumber_nil : EndsNumber [] := by simp [EndsNumber]

theorem endsNumber_cons {c : Char} (h : c.isDigit = false ∧ c ≠ '.' ∧ c ≠ 'e' ∧ c ≠ 'E')
    (s : List Char) : EndsNumber (c :: s) := by simpa [EndsNumber] using h

theorem dropSpace_cons {c : Char} (h : isSpace c = false) (s : List Char) :
    dropSpace (c :: s) = c :: s := by
  simp [dropSpace, h]

/-! ## Classes of characters -/

theorem ne_of_holds {p : Char → Bool} {c d : Char} (hc : p c = true) (hd : p d = false) : c ≠ d := by
  rintro rfl
  exact Bool.false_ne_true (hd.symm.trans hc)

/-- A class of characters without the four that are spaces. -/
theorem isSpace_eq_false {p : Char → Bool}
    (hp : p ' ' = false ∧ p '\n' = false ∧ p '\t' = false ∧ p '\r' = false) {c : Char}
    (hc : p c = true) : isSpace c = false := by
  obtain ⟨hblank, hline, htab, hreturn⟩ := hp
  simp [isSpace, ne_of_holds hc hblank, ne_of_holds hc hline, ne_of_holds hc htab,
    ne_of_holds hc hreturn]

/-! ## Scanning does not look further -/

theorem takeWhile_isDigit_append (s : List Char) (ha : EndsNumber after) :
    (s ++ after).takeWhile Char.isDigit = s.takeWhile Char.isDigit := by
  induction s with
  | nil =>
    cases after with
    | nil => rfl
    | cons c rest => simp [(ha c rfl).1]
  | cons c s ih => simp only [List.cons_append, List.takeWhile_cons, ih]

theorem dropWhile_isDigit_append (s : List Char) (ha : EndsNumber after) :
    (s ++ after).dropWhile Char.isDigit = s.dropWhile Char.isDigit ++ after := by
  induction s with
  | nil =>
    cases after with
    | nil => rfl
    | cons c rest => simp [(ha c rfl).1]
  | cons c s ih =>
    simp only [List.cons_append, List.dropWhile_cons, ih]
    split <;> rfl

/-- A scan that takes the same off a text whatever follows there, unless that continues a number. -/
def Stops {ε α : Type} (scan : List Char → Except ε (α × List Char)) : Prop :=
  ∀ ⦃s t : List Char⦄ ⦃a : α⦄, scan s = .ok (a, t) →
    ∀ {after : List Char}, EndsNumber after → scan (s ++ after) = .ok (a, t ++ after)

theorem Stops.map {ε α β : Type} {scan : List Char → Except ε (α × List Char)} (h : Stops scan)
    (f : α → β) : Stops fun s => (scan s).map fun r => (f r.1, r.2) := by
  intro s t b hs after ha
  obtain ⟨r, hr, heq⟩ := map_eq_ok.1 hs
  obtain ⟨rfl, rfl⟩ := Prod.mk.inj heq
  exact map_eq_ok.2 ⟨_, h hr ha, rfl⟩

/-- How a run of digits is found. -/
theorem digitRun_eq_ok {ds : List Char} : digitRun s = .ok (ds, t) ↔
    ds ≠ [] ∧ s.takeWhile Char.isDigit = ds ∧ s.dropWhile Char.isDigit = t := by
  simp only [digitRun]
  split <;> grind

theorem stops_digitRun : Stops digitRun := by
  intro s t ds h after ha
  obtain ⟨hne, htake, hdrop⟩ := digitRun_eq_ok.1 h
  exact digitRun_eq_ok.2 ⟨hne, by rw [takeWhile_isDigit_append s ha, htake],
    by rw [dropWhile_isDigit_append s ha, hdrop]⟩

theorem wholeRun_of_ne_zero {c : Char} (h : c ≠ '0') (s : List Char) :
    wholeRun (c :: s) = digitRun (c :: s) := by
  unfold wholeRun
  split
  · rename_i heq
    exact absurd (List.cons.inj heq).1 h
  · rfl

theorem stops_wholeRun : Stops wholeRun := by
  intro s t ds h after ha
  cases s with
  | nil => simp [wholeRun, digitRun] at h
  | cons c s =>
    by_cases hc : c = '0'
    · subst hc
      rw [List.cons_append, wholeRun, takeWhile_isDigit_append s ha]
      rw [wholeRun] at h
      split at h
      · cases h
      · rw [if_neg ‹_›]
        cases h
        rfl
    · rw [List.cons_append, wholeRun_of_ne_zero hc]
      rw [wholeRun_of_ne_zero hc] at h
      exact stops_digitRun h ha

/-- A scan of something that may be missing is settled by the first character. -/
theorem Stops.optional {α : Type} {scan : List Char → Except Gap (Option α × List Char)}
    {mark : Char → Prop} [DecidablePred mark]
    (hnone : ∀ {s}, (∀ c ∈ s.head?, ¬mark c) → scan s = .ok (none, s))
    (hsome : ∀ c, mark c → Stops fun s => scan (c :: s))
    (hends : ∀ {after}, EndsNumber after → ∀ c ∈ after.head?, ¬mark c) : Stops scan := by
  intro s t a h after ha
  cases s with
  | nil =>
    rw [hnone (by simp)] at h
    cases h
    exact hnone (hends ha)
  | cons c s =>
    by_cases hc : mark c
    · exact hsome c hc h ha
    · have hcons (s : List Char) : scan (c :: s) = .ok (none, c :: s) := hnone (by simpa using hc)
      rw [hcons] at h
      cases h
      exact hcons (s ++ after)

theorem fractionRun_of_head_ne (h : ∀ c ∈ s.head?, c ≠ '.') : fractionRun s = .ok (none, s) := by
  unfold fractionRun
  split
  · exact absurd rfl (h '.' rfl)
  · rfl

theorem stops_fractionRun : Stops fractionRun := by
  refine Stops.optional fractionRun_of_head_ne ?_ fun ha c hc => (ha c hc).2.1
  rintro _ rfl
  exact stops_digitRun.map some

theorem stops_signedRun : Stops signedRun := by
  intro s t e h after ha
  cases s with
  | nil => simp [signedRun, digitRun, Except.map] at h
  | cons c s =>
    by_cases hminus : c = '-'
    · subst hminus
      exact stops_digitRun.map (true, ·) h ha
    · by_cases hplus : c = '+'
      · subst hplus
        exact stops_digitRun.map (false, ·) h ha
      · have hrun (s : List Char) :
            signedRun (c :: s) = (digitRun (c :: s)).map fun r => ((false, r.1), r.2) := by
          unfold signedRun
          split <;> simp_all
        rw [hrun] at h
        rw [List.cons_append, hrun]
        exact stops_digitRun.map (false, ·) h ha

theorem exponentRun_of_head_ne (h : ∀ c ∈ s.head?, ¬(c = 'e' ∨ c = 'E')) :
    exponentRun s = .ok (none, s) := by
  unfold exponentRun
  split
  · exact absurd (.inl rfl) (h 'e' rfl)
  · exact absurd (.inr rfl) (h 'E' rfl)
  · rfl

theorem stops_exponentRun : Stops exponentRun := by
  refine Stops.optional exponentRun_of_head_ne ?_ fun ha c hc => not_or.2 (ha c hc).2.2
  rintro _ (rfl | rfl)
  · exact stops_signedRun.map some
  · exact stops_signedRun.map some

/-- How the parts of a number are found. -/
theorem literal_eq_ok {l : Literal} : literal s = .ok (l, t) ↔
    ∃ s₁ s₂, wholeRun (signRun s).2 = .ok (l.whole, s₁) ∧ fractionRun s₁ = .ok (l.fraction, s₂) ∧
      exponentRun s₂ = .ok (l.exponent, t) ∧ (signRun s).1 = l.negative := by
  simp only [literal, bind_eq_ok, Prod.exists]
  constructor
  · rintro ⟨whole, s₁, hwhole, fraction, s₂, hfraction, exponent, s₃, hexponent, h⟩
    cases h
    exact ⟨s₁, s₂, hwhole, hfraction, hexponent, rfl⟩
  · rintro ⟨s₁, s₂, hwhole, hfraction, hexponent, hsign⟩
    exact ⟨_, _, hwhole, _, _, hfraction, _, _, hexponent, by rw [hsign]; rfl⟩

theorem signRun_of_ne_minus {c : Char} (h : c ≠ '-') (s : List Char) :
    signRun (c :: s) = (false, c :: s) := by
  simp [signRun, h]

theorem stops_literal : Stops literal := by
  intro s t l h after ha
  obtain ⟨s₁, s₂, hwhole, hfraction, hexponent, hsign⟩ := literal_eq_ok.1 h
  have hne : s ≠ [] := by rintro rfl; simp [signRun, wholeRun, digitRun] at hwhole
  obtain ⟨c, s, rfl⟩ := List.exists_cons_of_ne_nil hne
  have happend : signRun (c :: s ++ after) =
      ((signRun (c :: s)).1, (signRun (c :: s)).2 ++ after) := by
    by_cases hc : c = '-'
    · subst hc; rfl
    · rw [List.cons_append, signRun_of_ne_minus hc, signRun_of_ne_minus hc]
      rfl
  exact literal_eq_ok.2 ⟨s₁ ++ after, s₂ ++ after, by rw [happend]; exact stops_wholeRun hwhole ha,
    stops_fractionRun hfraction ha, stops_exponentRun hexponent ha, by rw [happend]; exact hsign⟩

theorem stops_number : Stops number := by
  intro s t v h after ha
  unfold number at h
  split at h
  · cases h
  · cases h
  · rename_i l rest hl
    split at h
    · cases h
    · rename_i w hw
      cases h
      simp [number, stops_literal hl ha, hw]

/-! ## The first character -/

theorem isDigit_of_wholeRun_cons {c : Char} {r : List Char × List Char}
    (h : wholeRun (c :: s) = .ok r) : c.isDigit = true := by
  by_cases hc : c = '0'
  · subst hc
    rfl
  · rw [wholeRun_of_ne_zero hc] at h
    obtain ⟨hne, htake, -⟩ := digitRun_eq_ok.1 h
    by_contra hdigit
    exact hne (by rw [← htake, List.takeWhile_cons_of_neg hdigit])

/-- What is read as a number begins like one. -/
theorem exists_cons_of_number {v : Value} (h : number s = .ok (v, t)) :
    ∃ c rest, s = c :: rest ∧ startsNumber c = true := by
  unfold number at h
  split at h
  · cases h
  · cases h
  · rename_i l rest hl
    obtain ⟨s₁, s₂, hwhole, -⟩ := literal_eq_ok.1 hl
    cases s with
    | nil => simp [signRun, wholeRun, digitRun] at hwhole
    | cons c s =>
      refine ⟨c, s, rfl, ?_⟩
      by_cases hc : c = '-'
      · subst hc
        rfl
      · rw [signRun_of_ne_minus hc] at hwhole
        simp [startsNumber, isDigit_of_wholeRun_cons hwhole]

/-! ## Whole numbers -/

/-- Numbers that fit a word with or without a sign. -/
def FitsWord (i : Int) : Prop := -(wordLimit / 2 : Int) ≤ i ∧ i < wordLimit

instance (i : Int) : Decidable (FitsWord i) := inferInstanceAs (Decidable (_ ∧ _))

/-- Only zero is written with a zero in front. -/
theorem eq_nil_of_digits_eq_zero_cons {n : Nat} {rest : List Char} (h : digits n = '0' :: rest) :
    rest = [] := by
  induction n using Nat.strongRecOn generalizing rest with
  | ind n ih =>
    rw [digits, Nat.toDigits_eq_if (by decide)] at h
    split at h
    · exact (List.cons.inj h).2.symm
    · obtain ⟨c, front, hfront, -⟩ := exists_digits_eq_cons (n / 10)
      have hcons : c :: (front ++ [Nat.digitChar (n % 10)]) = '0' :: rest := by
        rw [← h, ← List.cons_append, ← hfront, digits]
      obtain rfl := (List.cons.inj hcons).1
      obtain rfl := ih (n / 10) (by omega) hfront
      -- The digits in front of the last one would be those of zero.
      have hzero : n / 10 = 0 := by rw [← Text.valueOf_digits (n / 10), hfront]; rfl
      omega

theorem wholeRun_digits (n : Nat) : wholeRun (digits n) = .ok (digits n, []) := by
  obtain ⟨c, rest, h, -⟩ := exists_digits_eq_cons n
  by_cases hc : c = '0'
  · subst hc
    obtain rfl := eq_nil_of_digits_eq_zero_cons h
    rw [h]
    rfl
  · have hall : ∀ d ∈ digits n, d.isDigit = true := fun _ => Text.isDigit_of_mem_digits
    rw [h, wholeRun_of_ne_zero hc, ← h]
    exact digitRun_eq_ok.2 ⟨Text.digits_ne_nil n, List.takeWhile_eq_self_iff.2 hall,
      List.dropWhile_eq_nil_iff.2 hall⟩

theorem signRun_writeInt (i : Int) : signRun (writeInt i) = (decide (i < 0), digits i.natAbs) := by
  rw [writeInt]
  split
  · simp [signRun, *]
  · obtain ⟨c, rest, h, hc⟩ := exists_digits_eq_cons i.natAbs
    have hminus : c ≠ '-' := by rintro rfl; simp at hc
    rw [h, signRun_of_ne_minus hminus]
    simp [*]

theorem literal_writeInt (i : Int) :
    literal (writeInt i) = .ok (⟨decide (i < 0), digits i.natAbs, none, none⟩, []) :=
  literal_eq_ok.2 ⟨[], [], by rw [signRun_writeInt, wholeRun_digits], rfl, rfl,
    by rw [signRun_writeInt]⟩

theorem le_ofDigitChars (ds : List Char) (n : Nat) : n ≤ Nat.ofDigitChars 10 ds n := by
  induction ds generalizing n with
  | nil => simp
  | cons c ds ih =>
    rw [Nat.ofDigitChars_cons]
    exact Nat.le_trans (by omega) (ih _)

/-- Digits of a number that fits a word are all taken. -/
theorem absorb_eq {ds : List Char} {n : Nat} (h : Nat.ofDigitChars 10 ds n < wordLimit) :
    absorb n ds = (Nat.ofDigitChars 10 ds n, ds.length) := by
  induction ds generalizing n with
  | nil => simp [absorb]
  | cons c ds ih =>
    have hnext : valueOf [c] + 10 * n = 10 * n + (c.toNat - '0'.toNat) := by
      simp [valueOf, Nat.ofDigitChars_cons, Nat.add_comm]
    rw [Nat.ofDigitChars_cons] at h ⊢
    have hlt := Nat.lt_of_le_of_lt (le_ofDigitChars ds _) h
    rw [absorb, hnext, if_pos hlt, ih h]
    rfl

/-- **A whole number is read back.** -/
theorem number_writeInt {i : Int} (hi : FitsWord i) (ha : EndsNumber after) :
    number (writeInt i ++ after) = .ok (.int i, after) := by
  obtain ⟨hlow, hhigh⟩ := hi
  have hlt : i.natAbs < wordLimit := by unfold wordLimit at *; omega
  have habsorb : absorb 0 (digits i.natAbs) = (i.natAbs, (digits i.natAbs).length) := by
    have hvalue : Nat.ofDigitChars 10 (digits i.natAbs) 0 = i.natAbs := Text.valueOf_digits _
    rw [absorb_eq (by rwa [hvalue]), hvalue]
  have hvalue : Literal.value? ⟨decide (i < 0), digits i.natAbs, none, none⟩ = some (.int i) := by
    have hfits : decide (i < 0) = false ∨ 0 < i.natAbs ∧ i.natAbs ≤ wordLimit / 2 := by
      unfold wordLimit at *
      rw [decide_eq_false_iff_not]
      omega
    have hsign : (if decide (i < 0) = true then -(i.natAbs : Int) else i.natAbs) = i := by
      simp only [decide_eq_true_eq]
      omega
    simp only [Literal.value?, habsorb, Option.getD_none, absorb, Nat.sub_self, true_and]
    rw [if_pos hfits, hsign]
  have hnumber : number (writeInt i) = .ok (.int i, []) := by
    simp [number, literal_writeInt, hvalue]
  exact stops_number hnumber ha

/-! ## Doubles -/

/-- A double whose text is read as the same double. It is finite, since `null` is no double. -/
def ReadsBack (x : Float) : Prop := double (writeDouble x) = .ok (x, [])

instance (x : Float) : Decidable (ReadsBack x) := inferInstanceAs (Decidable (_ = _))

/-- The characters that the texts of doubles are made of, and those of `null`. -/
def isDoubleChar (c : Char) : Bool := c.isDigit || "-+.enul".toList.contains c

/-- A text made of such characters, which cannot be that of a whole number. -/
structure IsDouble (s : List Char) : Prop where
  chars : ∀ c ∈ s, isDoubleChar c = true
  mark : ∃ c ∈ s, c.isDigit = false ∧ c ≠ '-'

theorem isDoubleChar_of_isDigit {c : Char} (h : c.isDigit = true) : isDoubleChar c = true := by
  simp [isDoubleChar, h]

theorem isDoubleChar_of_mem_shortest {m : Nat} {e : Int} {tie : Decimal.Tie} :
    ∀ c ∈ (Decimal.shortest m e tie).1, isDoubleChar c = true := by
  intro c hc
  have hdigits := List.mem_reverse.1
    ((List.dropWhile_sublist _).subset (List.mem_reverse.1 hc))
  exact isDoubleChar_of_isDigit (Text.isDigit_of_mem_digits hdigits)

theorem isDouble_writePlain {ds : List Char} (hds : ∀ c ∈ ds, isDoubleChar c = true)
    (power : Int) : IsDouble (Decimal.writePlain ['.', '0'] ds power) := by
  have hpoint : isDoubleChar '.' = true := by decide
  have hzero : isDoubleChar '0' = true := by decide
  have hzeros (n : Nat) : ∀ c ∈ List.replicate n '0', isDoubleChar c = true :=
    fun c hc => List.eq_of_mem_replicate hc ▸ hzero
  unfold Decimal.writePlain
  constructor
  · split
    · simp only [List.forall_mem_append, List.forall_mem_cons]
      exact ⟨⟨hzero, hpoint, hzeros _⟩, hds⟩
    · split
      · simp only [List.forall_mem_append]
        exact ⟨⟨hds, hzeros _⟩, List.all_eq_true.1 (by decide)⟩
      · simp only [List.forall_mem_append, List.forall_mem_cons]
        exact ⟨fun c hc => hds c (List.mem_of_mem_take hc), hpoint,
          fun c hc => hds c (List.mem_of_mem_drop hc)⟩
  · exact ⟨'.', by split_ifs <;> simp, by decide⟩

theorem isDouble_writeScaled {ds : List Char} (hds : ∀ c ∈ ds, isDoubleChar c = true)
    (power : Int) : IsDouble (Decimal.writeScaled ds power) := by
  have hpoint : isDoubleChar '.' = true := by decide
  have hmark : ∀ c ∈ 'e' :: (if power < 0 then '-' else '+') :: digits power.natAbs,
      isDoubleChar c = true := by
    simp only [List.forall_mem_cons]
    exact ⟨by decide, by split <;> decide,
      fun _ hc => isDoubleChar_of_isDigit (Text.isDigit_of_mem_digits hc)⟩
  unfold Decimal.writeScaled
  constructor
  · rcases ds with _ | ⟨d, _ | ⟨d', rest⟩⟩
    · exact hmark
    · exact List.forall_mem_cons.2 ⟨hds d (by simp), hmark⟩
    · obtain ⟨hd, hrest⟩ := List.forall_mem_cons.1 hds
      exact List.forall_mem_cons.2 ⟨hd, List.forall_mem_cons.2
        ⟨hpoint, List.forall_mem_append.2 ⟨hrest, hmark⟩⟩⟩
  · refine ⟨'e', ?_, by decide⟩
    rcases ds with _ | ⟨d, _ | ⟨d', rest⟩⟩ <;> simp

theorem IsDouble.withSign {s : List Char} (h : IsDouble s) (negative : Bool) :
    IsDouble (Decimal.withSign negative s) := by
  cases negative with
  | false => exact h
  | true =>
    obtain ⟨c, hc, hmark⟩ := h.mark
    exact ⟨List.forall_mem_cons.2 ⟨by decide, h.chars⟩, c, List.mem_cons_of_mem _ hc, hmark⟩

theorem isDouble_writeDouble (x : Float) : IsDouble (writeDouble x) := by
  have hnull : IsDouble "null".toList :=
    ⟨List.all_eq_true.1 (by decide), 'n', by decide, by decide⟩
  have hzero : IsDouble ('0' :: doubleLayout.whole) :=
    ⟨List.all_eq_true.1 (by decide), '.', by decide, by decide⟩
  unfold writeDouble Decimal.Layout.write
  split
  · split
    · exact hnull
    · exact hnull.withSign _
    · refine IsDouble.withSign ?_ _
      split
      · exact hzero
      · simp only
        split
        · exact isDouble_writePlain isDoubleChar_of_mem_shortest _
        · exact isDouble_writeScaled isDoubleChar_of_mem_shortest _
  · exact hnull

theorem eq_of_fractionRun_eq_none (h : fractionRun s = .ok (none, t)) : s = t := by
  unfold fractionRun at h
  split at h
  · simp [map_eq_ok] at h
  · exact (Prod.mk.inj (Except.ok.inj h)).2

theorem eq_of_exponentRun_eq_none (h : exponentRun s = .ok (none, t)) : s = t := by
  unfold exponentRun at h
  split at h
  · simp [map_eq_ok] at h
  · simp [map_eq_ok] at h
  · exact (Prod.mk.inj (Except.ok.inj h)).2

theorem isDigit_of_wholeRun {ds : List Char} (h : wholeRun s = .ok (ds, [])) :
    ∀ c ∈ s, c.isDigit = true := by
  unfold wholeRun at h
  split at h
  · split at h
    · cases h
    · cases h
      simp
  · exact List.dropWhile_eq_nil_iff.1 (digitRun_eq_ok.1 h).2.2

/-- What is written without point and exponent consists of digits and a sign. -/
theorem isDigit_of_literal {l : Literal} (h : literal s = .ok (l, [])) (hf : l.fraction = none)
    (he : l.exponent = none) : ∀ c ∈ s, c.isDigit = true ∨ c = '-' := by
  obtain ⟨s₁, s₂, hwhole, hfraction, hexponent, -⟩ := literal_eq_ok.1 h
  rw [hf] at hfraction
  rw [he] at hexponent
  obtain rfl := eq_of_fractionRun_eq_none hfraction
  obtain rfl := eq_of_exponentRun_eq_none hexponent
  have hdigits := isDigit_of_wholeRun hwhole
  intro c hc
  unfold signRun at hdigits
  split at hdigits
  · rcases List.mem_cons.1 hc with rfl | hc
    · exact .inr rfl
    · exact .inl (hdigits c hc)
  · exact .inl (hdigits c hc)

/-- The text of a double does not stand for a whole number. -/
theorem IsDouble.number_ne_int (hs : IsDouble s) (i : Int) : number s ≠ .ok (.int i, []) := by
  intro h
  obtain ⟨c, hc, hdigit, hminus⟩ := hs.mark
  unfold number at h
  split at h
  · cases h
  · cases h
  · rename_i l rest hl
    split at h
    · cases h
    · rename_i v hv
      cases h
      -- Only a literal without point and exponent has a whole number as its value.
      have hwhole : l.fraction = none ∧ l.exponent = none := by
        unfold Literal.value? at hv
        simp only at hv
        split at hv
        · rename_i hif
          exact ⟨hif.1, hif.2.1⟩
        · simp at hv
      rcases isDigit_of_literal hl hwhole.1 hwhole.2 c hc with h | h
      · simp [h] at hdigit
      · exact hminus h

/-- **A double is read back** if its text is, whatever follows there. -/
theorem number_writeDouble {x : Float} (hx : ReadsBack x) (ha : EndsNumber after) :
    number (writeDouble x ++ after) = .ok (.double x, after) := by
  have hs := isDouble_writeDouble x
  have hdrop : dropSpace (writeDouble x) = writeDouble x := by
    obtain ⟨d, hd, -⟩ := hs.mark
    obtain ⟨c, rest, heq⟩ := List.exists_cons_of_ne_nil (List.ne_nil_of_mem hd)
    rw [heq]
    exact dropSpace_cons (isSpace_eq_false (by decide) (hs.chars c (by simp [heq]))) rest
  have hnumber : number (writeDouble x) = .ok (.double x, []) := by
    unfold ReadsBack double at hx
    rw [hdrop] at hx
    split at hx
    · cases hx
    · rename_i c rest heq
      rw [← heq] at hx
      split at hx
      · split at hx
        · cases hx
        · rename_i i rest h
          cases hx
          exact absurd h (hs.number_ne_int i)
        · rename_i y rest h
          cases hx
          exact h
        · cases hx
      · cases hx
  exact stops_number hnumber ha

end Motewatch.Json
