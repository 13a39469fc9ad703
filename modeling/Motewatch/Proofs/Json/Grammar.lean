import Motewatch.Json.Skip
import Motewatch.Proofs.Json.Written

/-!
# Values that are passed over

The grammar of JSON values is stated by its productions, without regard to what a value stands for:
numbers may be of any size and any four hexadecimal digits may be escaped. Passing over a text that
the grammar derives takes exactly this text off, whatever follows, provided only that a number does
not go on there.

The brackets that are open are kept in a list. A derivation is followed from the outside to the
inside, and for each symbol of the grammar it is said where passing over its text leads: behind a
value the list is as it was before, behind the parts between two brackets it is shorter by these.

## Main definitions

* `IsNumber`, `IsQuoted` — the texts of numbers, and of texts behind their opening mark.
* `Derives` — the texts of values and of what stands between brackets.
* `Symbol.Skipped` — where passing over a text leads.

## Main results

* `Derives.skipped` — what the grammar derives is passed over.
* `skip_of_element` — one value and the blanks before it are taken off the start of a text.
-/

namespace Motewatch.Json

variable {s t after : List Char} {b : Bracket} {fuel : Nat} {around : List Bracket}

/-! ## Numbers -/

/-- One or more digits. -/
def IsDigits (s : List Char) : Prop := s ≠ [] ∧ s.all Char.isDigit = true

instance (s : List Char) : Decidable (IsDigits s) := inferInstanceAs (Decidable (_ ∧ _))

/-- The digits of a number before its point, which do not begin with zero unless this is all. -/
def IsWhole (s : List Char) : Prop := s = ['0'] ∨ IsDigits s ∧ s.head? ≠ some '0'

/-- A point with digits, or nothing. -/
def IsFraction (s : List Char) : Prop := s = [] ∨ ∃ ds, IsDigits ds ∧ s = '.' :: ds

/-- The mark of an exponent with a sign and digits, or nothing. -/
def IsExponent (s : List Char) : Prop :=
  s = [] ∨ ∃ mark ∈ ['e', 'E'], ∃ sign ∈ [[], ['+'], ['-']], ∃ ds, IsDigits ds ∧
    s = mark :: (sign ++ ds)

/-- The texts of numbers. -/
inductive IsNumber : List Char → Prop
  | of {sign whole fraction exponent : List Char} (hsign : sign ∈ [[], ['-']])
      (hwhole : IsWhole whole) (hfraction : IsFraction fraction) (hexponent : IsExponent exponent) :
      IsNumber (sign ++ (whole ++ (fraction ++ exponent)))

theorem IsDigits.exists_cons (h : IsDigits s) : ∃ c rest, s = c :: rest ∧ c.isDigit = true := by
  obtain ⟨c, rest, rfl⟩ := List.exists_cons_of_ne_nil h.1
  exact ⟨c, rest, rfl, List.all_eq_true.1 h.2 c (by simp)⟩

theorem IsWhole.exists_cons (h : IsWhole s) : ∃ c rest, s = c :: rest ∧ c.isDigit = true := by
  rcases h with rfl | ⟨h, -⟩
  · exact ⟨'0', [], rfl, rfl⟩
  · exact h.exists_cons

theorem digitRun_append (h : IsDigits s) (ha : ∀ c ∈ after.head?, c.isDigit = false) :
    digitRun (s ++ after) = .ok (s, after) := by
  have htake : after.takeWhile Char.isDigit = [] ∧ after.dropWhile Char.isDigit = after := by
    cases after with
    | nil => exact ⟨rfl, rfl⟩
    | cons c rest => simp [ha c rfl]
  have hdigits := List.all_eq_true.1 h.2
  refine digitRun_eq_ok.2 ⟨h.1, ?_, ?_⟩
  · rw [List.takeWhile_append_of_pos hdigits, htake.1, List.append_nil]
  · rw [List.dropWhile_append_of_pos hdigits, htake.2]

theorem wholeRun_append (h : IsWhole s) (ha : ∀ c ∈ after.head?, c.isDigit = false) :
    wholeRun (s ++ after) = .ok (s, after) := by
  rcases h with rfl | ⟨h, hzero⟩
  · cases after with
    | nil => rfl
    | cons c rest => simp [wholeRun, ha c rfl]
  · obtain ⟨c, rest, rfl, -⟩ := h.exists_cons
    rw [List.cons_append, wholeRun_of_ne_zero (by simpa using hzero), ← List.cons_append]
    exact digitRun_append h ha

theorem fractionRun_append (h : IsFraction s)
    (ha : ∀ c ∈ after.head?, c.isDigit = false ∧ c ≠ '.') :
    ∃ fraction, fractionRun (s ++ after) = .ok (fraction, after) := by
  rcases h with rfl | ⟨ds, hds, rfl⟩
  · exact ⟨none, fractionRun_of_head_ne fun c hc => (ha c hc).2⟩
  · refine ⟨some ds, ?_⟩
    rw [List.cons_append, fractionRun, digitRun_append hds fun c hc => (ha c hc).1]
    rfl

theorem signedRun_append {sign : List Char} (hsign : sign ∈ [[], ['+'], ['-']]) (h : IsDigits s)
    (ha : EndsNumber after) :
    ∃ negative, signedRun (sign ++ (s ++ after)) = .ok ((negative, s), after) := by
  have hrun := digitRun_append h fun c hc => (ha c hc).1
  simp only [List.mem_cons, List.not_mem_nil, or_false] at hsign
  rcases hsign with rfl | rfl | rfl
  · obtain ⟨c, rest, rfl, hc⟩ := h.exists_cons
    refine ⟨false, ?_⟩
    unfold signedRun
    split
    · rename_i heq
      exact absurd (List.cons.inj heq).1 (ne_of_holds hc (by decide))
    · rename_i heq
      exact absurd (List.cons.inj heq).1 (ne_of_holds hc (by decide))
    · rw [List.nil_append, hrun]
      rfl
  · exact ⟨false, by simp [signedRun, hrun, Except.map]⟩
  · exact ⟨true, by simp [signedRun, hrun, Except.map]⟩

theorem exponentRun_append (h : IsExponent s) (ha : EndsNumber after) :
    ∃ exponent, exponentRun (s ++ after) = .ok (exponent, after) := by
  rcases h with rfl | ⟨mark, hmark, sign, hsign, ds, hds, rfl⟩
  · exact ⟨none, exponentRun_of_head_ne fun c hc => not_or.2 (ha c hc).2.2⟩
  · obtain ⟨negative, hrun⟩ := signedRun_append hsign hds ha
    refine ⟨some (negative, ds), ?_⟩
    rcases List.mem_pair.1 hmark with rfl | rfl <;>
      simp [exponentRun, hrun, Except.map]

/-- Neither a digit nor a point follows the whole digits and the fraction of a number. -/
theorem head_exponent_append (h : IsExponent s) (ha : EndsNumber after) :
    ∀ c ∈ (s ++ after).head?, c.isDigit = false ∧ c ≠ '.' := by
  rcases h with rfl | ⟨mark, hmark, sign, -, ds, -, rfl⟩
  · exact fun c hc => ⟨(ha c hc).1, (ha c hc).2.1⟩
  · rintro c ⟨⟩
    rcases List.mem_pair.1 hmark with rfl | rfl <;> decide

theorem head_fraction_append (h : IsFraction s)
    (ha : ∀ c ∈ after.head?, c.isDigit = false ∧ c ≠ '.') :
    ∀ c ∈ (s ++ after).head?, c.isDigit = false := by
  rcases h with rfl | ⟨ds, -, rfl⟩
  · exact fun c hc => (ha c hc).1
  · rintro c ⟨⟩
    rfl

/-- A number is passed over. -/
theorem skipNumber_append (h : IsNumber s) (ha : EndsNumber after) :
    skipNumber (s ++ after) = .ok after := by
  obtain @⟨sign, whole, fraction, exponent, hsign, hwhole, hfraction, hexponent⟩ := h
  have hhead := head_exponent_append hexponent ha
  obtain ⟨e?, he⟩ := exponentRun_append hexponent ha
  obtain ⟨f?, hf⟩ := fractionRun_append hfraction hhead
  have hw := wholeRun_append hwhole (head_fraction_append hfraction hhead)
  have hsigned : ∃ negative, signRun (sign ++ (whole ++ (fraction ++ (exponent ++ after)))) =
      (negative, whole ++ (fraction ++ (exponent ++ after))) := by
    rcases List.mem_pair.1 hsign with rfl | rfl
    · obtain ⟨c, rest, rfl, hc⟩ := hwhole.exists_cons
      exact ⟨false, signRun_of_ne_minus (ne_of_holds hc (by decide)) _⟩
    · exact ⟨true, rfl⟩
  obtain ⟨negative, hnegative⟩ := hsigned
  have hliteral : literal (sign ++ (whole ++ (fraction ++ exponent)) ++ after) =
      .ok (⟨negative, whole, f?, e?⟩, after) := by
    simp only [List.append_assoc]
    exact literal_eq_ok.2 ⟨_, _, by rw [hnegative]; exact hw, hf, he, by rw [hnegative]⟩
  rw [skipNumber, hliteral]

theorem IsNumber.exists_cons (h : IsNumber s) :
    ∃ c rest, s = c :: rest ∧ startsNumber c = true := by
  obtain ⟨hsign, hwhole, -, -⟩ := h
  rcases List.mem_pair.1 hsign with rfl | rfl
  · obtain ⟨c, rest, rfl, hc⟩ := hwhole.exists_cons
    exact ⟨c, _, rfl, by simp [startsNumber, hc]⟩
  · exact ⟨'-', _, rfl, rfl⟩

/-! ## Texts -/

/-- The letters that stand behind a backslash, and the hexadecimal digits. -/
def escapeLetters : List Char := "\"\\/bfnrt".toList

@[inherit_doc escapeLetters] def hexDigits : List Char := "0123456789abcdefABCDEF".toList

/-- The texts of texts behind their opening mark. -/
inductive IsQuoted : List Char → Prop
  | close : IsQuoted ['"']
  | plain {c : Char} {s : List Char} (hc : c ≠ '"' ∧ c ≠ '\\' ∧ ' ' ≤ c) (h : IsQuoted s) :
      IsQuoted (c :: s)
  | letter {c : Char} {s : List Char} (hc : c ∈ escapeLetters) (h : IsQuoted s) :
      IsQuoted ('\\' :: c :: s)
  | code {w x y z : Char} {s : List Char} (hex : [w, x, y, z] ⊆ hexDigits) (h : IsQuoted s) :
      IsQuoted ('\\' :: 'u' :: w :: x :: y :: z :: s)

theorem isSome_unescape? : ∀ c ∈ escapeLetters, (unescape? c).isSome = true :=
  List.all_eq_true.1 (by decide)

theorem isSome_hexValue? : ∀ c ∈ hexDigits, (hexValue? c).isSome = true :=
  List.all_eq_true.1 (by decide)

theorem hex4_of_hexDigits {w x y z : Char} (h : [w, x, y, z] ⊆ hexDigits) (s : List Char) :
    ∃ n, hex4 (w :: x :: y :: z :: s) = .ok n := by
  have hvalue {c : Char} (hc : c ∈ [w, x, y, z]) := Option.isSome_iff_exists.1
    (isSome_hexValue? c (h hc))
  obtain ⟨w', hw⟩ := @hvalue w (by simp)
  obtain ⟨x', hx⟩ := @hvalue x (by simp)
  obtain ⟨y', hy⟩ := @hvalue y (by simp)
  obtain ⟨z', hz⟩ := @hvalue z (by simp)
  exact ⟨_, by simp [hex4, hexValue4?, hw, hx, hy, hz]; rfl⟩

theorem skipEscape_letter {c : Char} (h : c ∈ escapeLetters) (s : List Char) :
    skipEscape (c :: s) = .ok 1 := by
  have hu : c ≠ 'u' := ne_of_mem_of_not_mem h (by decide)
  rw [skipEscape_of_ne hu, if_pos (isSome_unescape? c h)]

/-- A text is passed over. -/
theorem skipQuoted_append (h : IsQuoted s) (after : List Char) :
    skipQuoted (s ++ after) = .ok after := by
  unfold skipQuoted
  induction h with
  | close => simp [skipQuotedChars]
  | plain hc _ ih => simp [skipQuotedChars, hc.1, hc.2.1, Char.not_lt.2 hc.2.2, ih]
  | letter hc _ ih => simp [skipQuotedChars, skipEscape_letter hc, ih]
  | @code w x y z s hex _ ih =>
    obtain ⟨n, hn⟩ := hex4_of_hexDigits hex (s ++ after)
    simp [skipQuotedChars, skipEscape, hn, ih, Except.map]

/-! ## Values -/

/-- The character that opens a bracket. -/
def Bracket.opening : Bracket → Char
  | square => '['
  | curly => '\x7b'

theorem Bracket.isSpace_closing (b : Bracket) : isSpace b.closing = false := by cases b <;> rfl

/-- The symbols of the grammar. The parts between brackets are elements in square ones and members
in curly ones. -/
inductive Symbol
  | value
  | element
  | part (b : Bracket)
  | parts (b : Bracket)

/-- The texts of values and of what stands between brackets. An element is a value with blanks
around it; parts are one or more, with commas between them. -/
inductive Derives : Symbol → List Char → Prop
  | word {s : List Char} (h : s ∈ ["null".toList, "true".toList, "false".toList]) :
      Derives .value s
  | number {s : List Char} (h : IsNumber s) : Derives .value s
  | text {s : List Char} (h : IsQuoted s) : Derives .value ('"' :: s)
  | empty (b : Bracket) {inner : List Char} (hb : Blank inner) :
      Derives .value (b.opening :: (inner ++ [b.closing]))
  | filled {b : Bracket} {s : List Char} (h : Derives (.parts b) s) :
      Derives .value (b.opening :: (s ++ [b.closing]))
  | element {s before after : List Char} (hb : Blank before) (h : Derives .value s)
      (ha : Blank after) : Derives .element (before ++ (s ++ after))
  | item {s : List Char} (h : Derives .element s) : Derives (.part .square) s
  | member {key s before after : List Char} (hb : Blank before) (hkey : IsQuoted key)
      (ha : Blank after) (h : Derives .element s) :
      Derives (.part .curly) (before ++ '"' :: (key ++ (after ++ ':' :: s)))
  | last {b : Bracket} {s : List Char} (h : Derives (.part b) s) : Derives (.parts b) s
  | more {b : Bracket} {s t : List Char} (h : Derives (.part b) s) (ht : Derives (.parts b) t) :
      Derives (.parts b) (s ++ ',' :: t)

/-- Nothing that the grammar derives begins like a closing bracket, blanks apart. -/
theorem Derives.exists_cons {symbol : Symbol} (h : Derives symbol s) :
    ∃ before c rest, s = before ++ c :: rest ∧ Blank before ∧ isSpace c = false ∧
      ∀ b : Bracket, c ≠ b.closing := by
  have hclosing {c : Char} (h : c ≠ ']' ∧ c ≠ '\x7d') (b : Bracket) : c ≠ b.closing := by
    cases b with
    | square => exact h.1
    | curly => exact h.2
  induction h with
  | word h =>
    simp only [List.mem_cons, List.not_mem_nil, or_false] at h
    rcases h with rfl | rfl | rfl
    · exact ⟨[], 'n', _, rfl, blank_nil, rfl, hclosing (by decide)⟩
    · exact ⟨[], 't', _, rfl, blank_nil, rfl, hclosing (by decide)⟩
    · exact ⟨[], 'f', _, rfl, blank_nil, rfl, hclosing (by decide)⟩
  | number h =>
    obtain ⟨c, rest, rfl, hc⟩ := h.exists_cons
    exact ⟨[], c, rest, rfl, blank_nil, isSpace_of_startsNumber hc,
      hclosing ⟨ne_of_holds hc rfl, ne_of_holds hc rfl⟩⟩
  | text h => exact ⟨[], '"', _, rfl, blank_nil, rfl, hclosing (by decide)⟩
  | empty b hb =>
    cases b <;> exact ⟨[], _, _, rfl, blank_nil, rfl, hclosing (by decide)⟩
  | @filled b s h =>
    cases b <;> exact ⟨[], _, _, rfl, blank_nil, rfl, hclosing (by decide)⟩
  | @element s before after hb h ha ih =>
    obtain ⟨front, c, rest, rfl, hfront, hc⟩ := ih
    exact ⟨before ++ front, c, rest ++ after, by simp, List.forall_mem_append.2 ⟨hb, hfront⟩, hc⟩
  | item _ ih => exact ih
  | member hb => exact ⟨_, '"', _, rfl, hb, rfl, hclosing (by decide)⟩
  | last _ ih => exact ih
  | @more b s t _ _ ih =>
    obtain ⟨front, c, rest, rfl, hrest⟩ := ih
    exact ⟨front, c, rest ++ ',' :: t, by simp, hrest⟩

/-! ## Passing over -/

theorem skipInside_blank {before : List Char} (hb : Blank before) (fuel : Nat)
    (around : List Bracket) (s : List Char) :
    skipInside fuel around (before ++ s) = skipInside fuel around s := by
  cases fuel with
  | zero => rfl
  | succ fuel => simp only [skipInside, hb.dropSpace_append]

theorem skipAfter_blank {before : List Char} (hb : Blank before) (fuel : Nat) (b : Bracket)
    (around : List Bracket) (s : List Char) :
    skipAfter fuel (b :: around) (before ++ s) = skipAfter fuel (b :: around) s := by
  cases fuel with
  | zero => rfl
  | succ fuel => simp only [skipAfter, hb.dropSpace_append]

theorem skipAfter_closing (fuel : Nat) (b : Bracket) (around : List Bracket) (s : List Char) :
    skipAfter (fuel + 1) (b :: around) (b.closing :: s) = skipAfter fuel around s := by
  cases b <;> simp [skipAfter, dropSpace_cons, isSpace, Bracket.closing]

theorem skipAfter_comma (fuel : Nat) (b : Bracket) (around : List Bracket) (s : List Char) :
    skipAfter (fuel + 1) (b :: around) (',' :: s) =
      skipKey b s >>= skipInside fuel (b :: around) := by
  have hcomma := dropSpace_cons (c := ',') rfl s
  cases b <;> simp [skipAfter, hcomma, Bracket.closing]

/-- Where passing over a text leads in a given number of steps: behind a value, behind a part and
its key, behind all parts and their closing bracket. The blanks behind an element are passed over
only between brackets. -/
def Symbol.Skipped (s : List Char) (steps : Nat) : Symbol → Prop
  | .value => ∀ (fuel : Nat) (around : List Bracket) {after : List Char}, EndsNumber after →
      skipInside (fuel + steps) around (s ++ after) = skipAfter fuel around after
  | .element => ∀ (fuel : Nat) (b : Bracket) (around : List Bracket) {after : List Char},
      EndsNumber after →
      skipInside (fuel + steps) (b :: around) (s ++ after) = skipAfter fuel (b :: around) after
  | .part b => ∀ (fuel : Nat) (around : List Bracket) {after : List Char}, EndsNumber after →
      skipKey b (s ++ after) >>= skipInside (fuel + steps) (b :: around) =
        skipAfter fuel (b :: around) after
  | .parts b => ∀ (fuel : Nat) (around : List Bracket) (after : List Char),
      skipKey b (s ++ b.closing :: after) >>= skipInside (fuel + steps) (b :: around) =
        skipAfter fuel around after

theorem skipInside_scalar {c : Char} (hc : isSpace c = false) (hopen : Bracket.opened? c = none)
    (h : skipScalar c s = .ok after) (fuel : Nat) (around : List Bracket) :
    skipInside (fuel + 1) around (c :: s) = skipAfter fuel around after := by
  simp [skipInside, dropSpace_cons hc, hopen, h, bind, Except.bind]

theorem skipScalar_of_startsNumber {c : Char} (hc : startsNumber c = true) (s : List Char) :
    skipScalar c s = skipNumber (c :: s) ∧ Bracket.opened? c = none := by
  simp [skipScalar, Bracket.opened?, hc, ne_of_holds hc (d := 'n') rfl,
    ne_of_holds hc (d := 't') rfl, ne_of_holds hc (d := 'f') rfl, ne_of_holds hc (d := '"') rfl,
    ne_of_holds hc (d := '[') rfl, ne_of_holds hc (d := '\x7b') rfl]

/-- Behind an opening bracket, what stands between it and its closing one is passed over. -/
theorem skipInside_opening (b : Bracket) {before : List Char} {c : Char} (hb : Blank before)
    (hc : isSpace c = false) (fuel : Nat) (around : List Bracket) (s : List Char) :
    skipInside (fuel + 1) around (b.opening :: (before ++ c :: s)) =
      if c = b.closing then skipAfter fuel around s
      else skipKey b (before ++ c :: s) >>= skipInside fuel (b :: around) := by
  have hinner := hb.dropSpace_cons hc s
  cases b with
  | square =>
    have hopen := dropSpace_cons (c := '[') rfl (before ++ c :: s)
    simp only [skipInside, Bracket.opening, hopen, Bracket.opened?, hinner, skipKey, bind,
      Except.bind, if_true, skipInside_blank hb]
  | curly =>
    have hopen := dropSpace_cons (c := '\x7b') rfl (before ++ c :: s)
    simp only [skipInside, Bracket.opening, hopen, Bracket.opened?, hinner, skipKey, bind,
      Except.bind, if_true, dropSpace_cons hc, Char.reduceEq, if_false]

/-- How many steps passing over a text takes at most. The closing bracket behind the last part takes
one more than its characters account for. -/
def Symbol.limit (s : List Char) : Symbol → Nat
  | .parts _ => 2 * s.length + 1
  | _ => 2 * s.length

theorem skipped_scalar {c : Char} (hc : isSpace c = false) (hopen : Bracket.opened? c = none)
    (h : ∀ {after}, EndsNumber after → skipScalar c (s ++ after) = .ok after) :
    Symbol.value.Skipped (c :: s) 1 :=
  fun fuel around _ ha => skipInside_scalar hc hopen (h ha) fuel around

theorem skipped_word (h : s ∈ ["null".toList, "true".toList, "false".toList]) :
    Symbol.value.Skipped s 1 ∧ 0 < s.length := by
  simp only [String.reduceToList, List.mem_cons, List.not_mem_nil, or_false] at h
  rcases h with rfl | rfl | rfl <;>
    exact ⟨skipped_scalar rfl rfl fun _ => by simp [skipScalar, expect], by decide⟩

theorem skipped_number (h : IsNumber s) : Symbol.value.Skipped s 1 ∧ 0 < s.length := by
  obtain ⟨c, rest, rfl, hc⟩ := h.exists_cons
  obtain ⟨hscalar, hopen⟩ := skipScalar_of_startsNumber hc []
  refine ⟨skipped_scalar (isSpace_of_startsNumber hc) hopen fun ha => ?_, Nat.succ_pos _⟩
  rw [(skipScalar_of_startsNumber hc _).1]
  exact skipNumber_append h ha

theorem skipped_text (h : IsQuoted s) : Symbol.value.Skipped ('"' :: s) 1 :=
  skipped_scalar rfl rfl fun {after} _ => by simp [skipScalar, skipQuoted_append h after]

theorem skipped_empty (b : Bracket) {inner : List Char} (hb : Blank inner) :
    Symbol.value.Skipped (b.opening :: (inner ++ [b.closing])) 1 := by
  intro fuel around after _
  have hopening := skipInside_opening b hb b.isSpace_closing fuel around after
  simpa using hopening

theorem skipped_filled (hs : Derives (.parts b) s) {steps : Nat}
    (h : (Symbol.parts b).Skipped s steps) :
    Symbol.value.Skipped (b.opening :: (s ++ [b.closing])) (steps + 1) := by
  intro fuel around after _
  obtain ⟨before, c, rest, rfl, hb, hc, hclosing⟩ := hs.exists_cons
  have hopening := skipInside_opening b hb hc (fuel + steps) around (rest ++ b.closing :: after)
  rw [if_neg (hclosing b)] at hopening
  have hparts := h fuel around after
  simp only [List.append_assoc, List.cons_append] at hparts
  simpa [← Nat.add_assoc] using hopening.trans hparts

theorem skipped_element {before behind : List Char} (hb : Blank before) (ha : Blank behind)
    {steps : Nat} (h : Symbol.value.Skipped s steps) :
    Symbol.element.Skipped (before ++ (s ++ behind)) steps := by
  intro fuel b around after hafter
  simp only [List.append_assoc]
  rw [skipInside_blank hb, h fuel (b :: around) (ha.endsNumber_append hafter), skipAfter_blank ha]

theorem skipKey_member {before key behind : List Char} (hb : Blank before) (hkey : IsQuoted key)
    (ha : Blank behind) (s : List Char) :
    skipKey .curly (before ++ '"' :: (key ++ (behind ++ ':' :: s))) = .ok s := by
  simp [skipKey, hb.dropSpace_cons (c := '"') rfl, skipQuoted_append hkey, ha.colon_append, bind,
    Except.bind]

theorem skipped_member {before key behind : List Char} (hb : Blank before) (hkey : IsQuoted key)
    (ha : Blank behind) {steps : Nat} (h : Symbol.element.Skipped s steps) :
    (Symbol.part .curly).Skipped (before ++ '"' :: (key ++ (behind ++ ':' :: s))) steps := by
  intro fuel around after hafter
  have hkey := skipKey_member hb hkey ha (s ++ after)
  simp only [List.append_assoc, List.cons_append, hkey]
  exact h fuel .curly around hafter

theorem skipped_last {steps : Nat} (h : (Symbol.part b).Skipped s steps) :
    (Symbol.parts b).Skipped s (steps + 1) := by
  intro fuel around after
  have hends : EndsNumber (b.closing :: after) := by cases b <;> exact endsNumber_cons (by decide) _
  rw [Nat.add_comm steps, ← Nat.add_assoc, h (fuel + 1) around hends, skipAfter_closing]

theorem skipped_more {steps steps' : Nat} (h : (Symbol.part b).Skipped s steps)
    (ht : (Symbol.parts b).Skipped t steps') :
    (Symbol.parts b).Skipped (s ++ ',' :: t) (steps' + 1 + steps) := by
  intro fuel around after
  have hcomma : EndsNumber (',' :: (t ++ b.closing :: after)) := endsNumber_cons (by decide) _
  rw [List.append_assoc, List.cons_append, ← Nat.add_assoc, h _ around hcomma, ← Nat.add_assoc,
    skipAfter_comma, ht]

/-- **What the grammar derives is passed over**, in at most two steps for each character. -/
theorem Derives.skipped {symbol : Symbol} (h : Derives symbol s) :
    ∃ steps ≤ symbol.limit s, symbol.Skipped s steps := by
  induction h with
  | word h =>
    obtain ⟨hskipped, hlength⟩ := skipped_word h
    exact ⟨1, by simp only [Symbol.limit]; omega, hskipped⟩
  | number h =>
    obtain ⟨hskipped, hlength⟩ := skipped_number h
    exact ⟨1, by simp only [Symbol.limit]; omega, hskipped⟩
  | text h => exact ⟨1, by simp only [Symbol.limit, List.length_cons]; omega, skipped_text h⟩
  | empty b hb =>
    exact ⟨1, by simp only [Symbol.limit, List.length_cons]; omega, skipped_empty b hb⟩
  | filled h ih =>
    -- The two brackets are two characters, enough for the step at the opening one.
    obtain ⟨steps, hsteps, hskipped⟩ := ih
    refine ⟨_, ?_, skipped_filled h hskipped⟩
    simp only [Symbol.limit, List.length_cons, List.length_append] at hsteps ⊢
    omega
  | element hb _ ha ih =>
    obtain ⟨steps, hsteps, hskipped⟩ := ih
    refine ⟨_, ?_, skipped_element hb ha hskipped⟩
    simp only [Symbol.limit, List.length_append] at hsteps ⊢
    omega
  | item _ ih =>
    obtain ⟨steps, hsteps, hskipped⟩ := ih
    exact ⟨steps, hsteps, fun fuel around _ ha => hskipped fuel .square around ha⟩
  | member hb hkey ha _ ih =>
    obtain ⟨steps, hsteps, hskipped⟩ := ih
    refine ⟨_, ?_, skipped_member hb hkey ha hskipped⟩
    simp only [Symbol.limit, List.length_cons, List.length_append] at hsteps ⊢
    omega
  | last _ ih =>
    obtain ⟨steps, hsteps, hskipped⟩ := ih
    exact ⟨_, Nat.succ_le_succ hsteps, skipped_last hskipped⟩
  | more _ _ ih iht =>
    obtain ⟨steps, hsteps, hskipped⟩ := ih
    obtain ⟨steps', hsteps', hskipped'⟩ := iht
    refine ⟨_, ?_, skipped_more hskipped hskipped'⟩
    simp only [Symbol.limit, List.length_cons, List.length_append] at hsteps hsteps' ⊢
    omega

theorem skip_of_derives {before : List Char} (hb : Blank before) (h : Derives .value s)
    (ha : EndsNumber after) : skip (before ++ (s ++ after)) = .ok after := by
  obtain ⟨steps, hsteps, hskipped⟩ := h.skipped
  have hfuel : ∃ fuel, 2 * (before ++ (s ++ after)).length + 2 = fuel + 1 + steps := by
    refine ⟨2 * (before ++ (s ++ after)).length + 1 - steps, ?_⟩
    simp only [Symbol.limit, List.length_append] at hsteps ⊢
    omega
  obtain ⟨fuel, hfuel⟩ := hfuel
  rw [skip, hfuel, skipInside_blank hb, hskipped (fuel + 1) [] ha]
  rfl

/-- **An element is passed over wherever it stands**, up to the blanks behind it. -/
theorem skip_of_element (h : Derives .element s) :
    ∃ behind, Blank behind ∧
      ∀ {after}, EndsNumber after → skip (s ++ after) = .ok (behind ++ after) := by
  cases h with
  | @element s before behind hb hvalue hbehind =>
    refine ⟨behind, hbehind, fun ha => ?_⟩
    rw [List.append_assoc, List.append_assoc]
    exact skip_of_derives hb hvalue (hbehind.endsNumber_append ha)

end Motewatch.Json
