import Motewatch.Proofs.Json.Grammar
import Motewatch.Proofs.Json.Prefix

/-!
# Readers take a part off a text

A reader that succeeds has taken a part off the start of the text, and takes the same part off other
texts that begin with it. What may stand behind the part in the other text depends on the reader. It
goes back to the last thing that has been read: anything may follow a closing bracket or mark, while
behind a number there must be what ends it, or what stood there before.

Here texts may also become shorter. The bounds on the number of items and members follow the length
of the text; they are high enough because each item and each member takes a character at least.

## Main definitions

* `Anything`, `GoesOn` — what may stand behind the part that has been taken.
* `Cuts` — a scan takes a part off a text wherever it stands.

## Main results

* `Cuts.head`, `Cuts.bind`, `Cuts.fuel` — ways of putting readers together.
* `cuts_number`, `cuts_quoted`, `cuts_items`, `cuts_members` — the readers.
* `cuts_value`, `cuts_catalog` — any value, and objects, behind which anything may follow.
-/

namespace Motewatch.Json

variable {ε α β σ : Type} {s rest after : List Char} {least : Nat}
  {may near : List Char → List Char → Prop}

/-- What stood behind a part of a text may be replaced by anything. -/
def Anything (_rest _after : List Char) : Prop := True

/-- What stood behind a part of a text is replaced by what begins in the same way, or by what cannot
continue a number. -/
def GoesOn (rest after : List Char) : Prop := after.head? = rest.head? ∨ EndsNumber after

/-- What `scan` takes off a text it also takes off another one, where something else stands behind
it that may do so. At least so many characters are taken. -/
def Cuts (least : Nat) (may : List Char → List Char → Prop)
    (scan : List Char → Except ε (α × List Char)) : Prop :=
  ∀ ⦃s rest : List Char⦄ ⦃a : α⦄, scan s = .ok (a, rest) →
    ∃ taken, s = taken ++ rest ∧ least ≤ taken.length ∧
      ∀ ⦃after⦄, may rest after → scan (taken ++ after) = .ok (a, after)

/-! ## What may follow -/

/-- A condition on the first character that holds wherever a number ends. -/
theorem GoesOn.forall_head {p : Char → Prop} (h : GoesOn rest after)
    (hends : ∀ c, (c.isDigit = false ∧ c ≠ '.' ∧ c ≠ 'e' ∧ c ≠ 'E') → p c)
    (hrest : ∀ c ∈ rest.head?, p c) : ∀ c ∈ after.head?, p c := by
  rcases h with heq | h
  · rwa [heq]
  · exact fun c hc => hends c (h c hc)

theorem GoesOn.append (h : GoesOn rest after) (s : List Char) :
    GoesOn (s ++ rest) (s ++ after) := by
  cases s with
  | nil => exact h
  | cons c s => exact .inl rfl

theorem goesOn_append (hs : 1 ≤ s.length) (rest after : List Char) :
    GoesOn (s ++ rest) (s ++ after) := by
  cases s with
  | nil => contradiction
  | cons c s => exact .inl rfl

/-! ## Ways of putting readers together -/

/-- The blanks before the first other character. -/
theorem exists_blank_of_dropSpace {c : Char} (h : dropSpace s = c :: rest) :
    ∃ before, s = before ++ c :: rest ∧ Blank before ∧ isSpace c = false := by
  refine ⟨s.takeWhile isSpace, ?_, fun d hd => List.mem_takeWhile_imp hd, ?_⟩
  · rw [← h, dropSpace, List.takeWhile_append_dropWhile]
  · have hnot := List.head?_dropWhile_not isSpace s
    rw [dropSpace] at h
    rw [h] at hnot
    simpa using hnot

theorem length_of_dropSpace {c : Char} (h : dropSpace s = c :: rest) : rest.length < s.length := by
  obtain ⟨before, rfl, -⟩ := exists_blank_of_dropSpace h
  simp
  omega

namespace Cuts

theorem error (e : List Char → ε) :
    Cuts least may (fun s => .error (e s) : List Char → Except ε (α × List Char)) := by
  intro s rest a h
  cases h

theorem ok (a : α) : Cuts 0 may (fun s => .ok (a, s) : List Char → Except ε (α × List Char)) := by
  intro s rest b h
  cases h
  exact ⟨[], rfl, Nat.le_refl 0, fun after _ => rfl⟩

theorem ite {p : Prop} [Decidable p] {scan scan' : List Char → Except ε (α × List Char)}
    (h : Cuts least may scan) (h' : Cuts least may scan') :
    Cuts least may fun s => if p then scan s else scan' s := by
  by_cases hp : p
  · simpa only [if_pos hp] using h
  · simpa only [if_neg hp] using h'

section
variable {scan : List Char → Except ε (α × List Char)}

theorem least_zero (h : Cuts least may scan) : Cuts 0 may scan := by
  intro s rest a hs
  obtain ⟨taken, heq, -, htaken⟩ := h hs
  exact ⟨taken, heq, Nat.zero_le _, htaken⟩

theorem of_anything (h : Cuts least Anything scan) : Cuts least may scan := by
  intro s rest a hs
  obtain ⟨taken, heq, hleast, htaken⟩ := h hs
  exact ⟨taken, heq, hleast, fun after _ => htaken trivial⟩

/-- The first character is known and has been taken. -/
theorem cons (h : Cuts 1 may scan) (c : Char) : Cuts 0 may fun s => scan (c :: s) := by
  intro s rest a hs
  obtain ⟨taken, heq, hleast, htaken⟩ := h hs
  cases taken with
  | nil => contradiction
  | cons d taken =>
    obtain ⟨rfl, rfl⟩ := List.cons.inj heq
    exact ⟨taken, rfl, Nat.zero_le _, htaken⟩

theorem map (h : Cuts least may scan) (f : α → β) :
    Cuts least may fun s => (scan s).map fun r => (f r.1, r.2) := by
  intro s rest b hs
  obtain ⟨⟨a, t⟩, hscan, heq⟩ := map_eq_ok.1 hs
  cases heq
  obtain ⟨taken, rfl, hleast, htaken⟩ := h hscan
  exact ⟨taken, rfl, hleast, fun after ha => map_eq_ok.2 ⟨_, htaken ha, rfl⟩⟩

end

/-- What depends on the first character that is no blank. -/
theorem head {scan : Char → Reader α} (h : ∀ c, Cuts 0 may (scan c)) :
    Cuts 1 may fun s => match dropSpace s with
      | [] => .error .unfinished
      | c :: rest => scan c rest := by
  intro s rest a hs
  cases hd : dropSpace s with
  | nil =>
    simp only [hd] at hs
    cases hs
  | cons c t =>
    simp only [hd] at hs
    obtain ⟨before, rfl, hb, hc⟩ := exists_blank_of_dropSpace hd
    obtain ⟨taken, rfl, -, htaken⟩ := h c hs
    refine ⟨before ++ c :: taken, by simp, by simp; omega, fun after ha => ?_⟩
    simp only [List.append_assoc, List.cons_append, hb.dropSpace_cons hc]
    exact htaken ha

/-- Reading on behind what a reader has taken. What the second reader has taken, with what may stand
behind that, has to be something that may stand behind what the first reader has taken. -/
theorem bind {read : Reader α} {next : α × List Char → Except Fault (β × List Char)} {least' : Nat}
    (h : Cuts least near read) (hnext : ∀ a, Cuts least' may fun rest => next (a, rest))
    (hnear : ∀ {taken rest after}, least' ≤ taken.length → may rest after →
      near (taken ++ rest) (taken ++ after)) :
    Cuts least may fun s => read s >>= next := by
  intro s rest b hs
  obtain ⟨⟨a, t⟩, hread, hrest⟩ := bind_eq_ok.1 hs
  obtain ⟨taken, rfl, hleast, htaken⟩ := h hread
  obtain ⟨taken', rfl, hleast', htaken'⟩ := hnext a hrest
  refine ⟨taken ++ taken', by simp, by simp; omega, fun after ha => ?_⟩
  rw [List.append_assoc]
  exact bind_eq_ok.2 ⟨_, htaken (hnear hleast' ha), htaken' ha⟩

/-- Behind a closing bracket or mark anything may be read. -/
theorem bind_anything {read : Reader α} {next : α × List Char → Except Fault (β × List Char)}
    (h : Cuts least Anything read) (hnext : ∀ a, Cuts 0 may fun rest => next (a, rest)) :
    Cuts least may fun s => read s >>= next :=
  h.bind hnext fun _ _ => trivial

/-- Behind a value a character has to be read at least, which is the same in both texts. -/
theorem bind_goesOn {read : Reader α} {next : α × List Char → Except Fault (β × List Char)}
    (h : Cuts least GoesOn read) (hnext : ∀ a, Cuts 1 may fun rest => next (a, rest)) :
    Cuts least may fun s => read s >>= next :=
  h.bind hnext fun hleast _ => goesOn_append hleast _ _

/-- A bound on the steps that follows the length of the text, if so many steps are enough. -/
theorem fuel {scan : Nat → Reader α} (h : ∀ n, Cuts least may (scan n))
    (henough : ∀ {n m s r}, scan n s = .ok r → s.length < m → scan m s = .ok r) :
    Cuts least may fun s => scan (s.length + 1) s := by
  intro s rest a hs
  obtain ⟨taken, heq, hleast, htaken⟩ := h _ hs
  exact ⟨taken, heq, hleast, fun after ha => henough (htaken ha) (Nat.lt_succ_self _)⟩

theorem length_le {read : Reader α} {a : α} (h : Cuts least may read)
    (hs : read s = .ok (a, rest)) : rest.length + least ≤ s.length := by
  obtain ⟨taken, rfl, hleast, -⟩ := h hs
  rw [List.length_append]
  omega

end Cuts

/-! ## Numbers -/

theorem cuts_digitRun : Cuts 1 GoesOn digitRun := by
  intro s rest ds h
  obtain ⟨hne, htake, hdrop⟩ := digitRun_eq_ok.1 h
  have hs : s = ds ++ rest := by rw [← htake, ← hdrop, List.takeWhile_append_dropWhile]
  have hds : IsDigits ds := ⟨hne, by rw [← htake]; exact List.all_takeWhile⟩
  have hrest : ∀ c ∈ rest.head?, c.isDigit = false := by
    intro c hc
    have hnot := List.head?_dropWhile_not Char.isDigit s
    rw [hdrop, Option.mem_def.1 hc] at hnot
    simpa using hnot
  refine ⟨ds, hs, List.length_pos_iff.2 hne, fun after ha => ?_⟩
  exact digitRun_append hds (ha.forall_head (fun c hc => hc.1) hrest)

theorem cuts_wholeRun : Cuts 1 GoesOn wholeRun := by
  intro s rest ds h
  cases s with
  | nil => simp [wholeRun, digitRun] at h
  | cons c s =>
    by_cases hc : c = '0'
    · subst hc
      rw [wholeRun] at h
      split at h
      · cases h
      · rename_i hnone
        cases h
        have hrest : ∀ d ∈ rest.head?, d.isDigit = false := by
          cases rest with
          | nil => simp
          | cons d rest => simpa [List.takeWhile_cons] using hnone
        exact ⟨['0'], rfl, Nat.le_refl 1, fun after ha =>
          wholeRun_append (.inl rfl) (ha.forall_head (fun c hc => hc.1) hrest)⟩
    · rw [wholeRun_of_ne_zero hc] at h
      obtain ⟨taken, hs, hleast, htaken⟩ := cuts_digitRun.cons c h
      refine ⟨c :: taken, by rw [hs, List.cons_append], by simp, fun after ha => ?_⟩
      rw [List.cons_append, wholeRun_of_ne_zero hc]
      exact htaken ha

/-- What may be missing is told by the first character. -/
theorem Cuts.optional {scan : List Char → Except Gap (Option α × List Char)}
    {mark : Char → Prop} [DecidablePred mark]
    (hnone : ∀ {s}, (∀ c ∈ s.head?, ¬mark c) → scan s = .ok (none, s))
    (hsome : ∀ c, mark c → Cuts 0 GoesOn fun s => scan (c :: s))
    (hends : ∀ c, (c.isDigit = false ∧ c ≠ '.' ∧ c ≠ 'e' ∧ c ≠ 'E') → ¬mark c) :
    Cuts 0 GoesOn scan := by
  intro s rest a h
  by_cases hs : ∀ c ∈ s.head?, ¬mark c
  · rw [hnone hs] at h
    cases h
    exact ⟨[], rfl, Nat.le_refl 0, fun after ha => hnone (ha.forall_head hends hs)⟩
  · cases s with
    | nil => simp at hs
    | cons c s =>
      have hc : mark c := by simpa using hs
      obtain ⟨taken, rfl, -, htaken⟩ := hsome c hc h
      exact ⟨c :: taken, rfl, Nat.zero_le _, htaken⟩

theorem cuts_fractionRun : Cuts 0 GoesOn fractionRun := by
  refine Cuts.optional fractionRun_of_head_ne ?_ fun c hc => hc.2.1
  rintro _ rfl
  exact (cuts_digitRun.map some).least_zero

theorem cuts_signedRun : Cuts 0 GoesOn signedRun := by
  intro s rest e h
  cases s with
  | nil => simp [signedRun, digitRun, Except.map] at h
  | cons c s =>
    have hcut : Cuts 0 GoesOn fun s => signedRun (c :: s) := by
      by_cases hminus : c = '-'
      · subst hminus
        exact (cuts_digitRun.map (true, ·)).least_zero
      · by_cases hplus : c = '+'
        · subst hplus
          exact (cuts_digitRun.map (false, ·)).least_zero
        · have hrun : (fun s => signedRun (c :: s)) =
              fun s => (digitRun (c :: s)).map fun r => ((false, r.1), r.2) := by
            funext s
            unfold signedRun
            split <;> simp_all
          rw [hrun]
          exact (cuts_digitRun.cons c).map (false, ·)
    obtain ⟨taken, rfl, -, htaken⟩ := hcut h
    exact ⟨c :: taken, rfl, Nat.zero_le _, htaken⟩

theorem cuts_exponentRun : Cuts 0 GoesOn exponentRun := by
  refine Cuts.optional exponentRun_of_head_ne ?_ fun c hc => not_or.2 hc.2.2
  rintro _ (rfl | rfl)
  · exact cuts_signedRun.map some
  · exact cuts_signedRun.map some

theorem cuts_literal : Cuts 1 GoesOn literal := by
  intro s rest l h
  obtain ⟨s₁, s₂, hwhole, hfraction, hexponent, hsign⟩ := literal_eq_ok.1 h
  obtain ⟨whole, hs, hleast, hwhole⟩ := cuts_wholeRun hwhole
  obtain ⟨fraction, rfl, -, hfraction⟩ := cuts_fractionRun hfraction
  obtain ⟨exponent, rfl, -, hexponent⟩ := cuts_exponentRun hexponent
  -- The sign is the first character, or else the digits begin there.
  have hparts : ∃ sign, s = sign ++ (whole ++ (fraction ++ (exponent ++ rest))) ∧
      ∀ t, signRun (sign ++ (whole ++ t)) = (l.negative, whole ++ t) := by
    cases s with
    | nil => simp [signRun] at hs; grind
    | cons c s =>
      by_cases hc : c = '-'
      · subst hc
        exact ⟨['-'], congrArg ('-' :: ·) hs, fun t => Prod.ext hsign rfl⟩
      · rw [signRun_of_ne_minus hc] at hs hsign
        obtain ⟨whole, rfl⟩ : ∃ front, whole = c :: front := by
          cases whole with
          | nil => contradiction
          | cons d whole => exact ⟨whole, by rw [(List.cons.inj hs).1]⟩
        refine ⟨[], hs, fun t => ?_⟩
        rw [List.nil_append, List.cons_append, signRun_of_ne_minus hc]
        exact Prod.ext hsign rfl
  obtain ⟨sign, hs, hsignRun⟩ := hparts
  refine ⟨sign ++ (whole ++ (fraction ++ exponent)), by simp [hs], by simp; omega,
    fun after ha => ?_⟩
  have hafter := ha.append exponent
  have hexp := hexponent ha
  refine literal_eq_ok.2 ⟨fraction ++ (exponent ++ after), exponent ++ after, ?_, ?_, hexp, ?_⟩
  · simp only [List.append_assoc, hsignRun]
    exact hwhole (hafter.append fraction)
  · exact hfraction hafter
  · simp only [List.append_assoc, hsignRun]

theorem cuts_number : Cuts 1 GoesOn number := by
  intro s rest v h
  unfold number at h
  split at h
  · cases h
  · cases h
  · rename_i l t hl
    split at h
    · cases h
    · rename_i w hw
      cases h
      obtain ⟨taken, hs, hleast, htaken⟩ := cuts_literal hl
      exact ⟨taken, hs, hleast, fun after ha => by simp [number, htaken ha, hw]⟩

/-! ## Words and quoted texts -/

/-- A word is followed by anything. -/
theorem cuts_expect (word : List Char) (a : α) :
    Cuts 0 may fun s => (expect word s).map fun rest => (a, rest) := by
  induction word with
  | nil => exact .ok a
  | cons c word ih =>
    intro s rest b h
    cases s with
    | nil => cases h
    | cons d s =>
      simp only [expect] at h
      split at h
      · obtain ⟨taken, rfl, -, htaken⟩ := ih h
        refine ⟨d :: taken, rfl, Nat.zero_le _, fun after ha => ?_⟩
        simp only [List.cons_append, expect, if_pos ‹c = d›]
        exact htaken ha
      · cases h

theorem exists_of_hex4 {n : Nat} (h : hex4 s = .ok n) :
    ∃ code rest, s = code ++ rest ∧ code.length = 4 ∧ ∀ after, hex4 (code ++ after) = .ok n := by
  unfold hex4 at h
  split at h
  · rename_i a b c d rest
    exact ⟨[a, b, c, d], rest, rfl, rfl, fun after => h⟩
  · cases h

theorem exists_of_lowHalf {n : Nat} (h : lowHalf s = .ok n) :
    ∃ code rest, s = code ++ rest ∧ code.length = 6 ∧ ∀ after, lowHalf (code ++ after) = .ok n := by
  unfold lowHalf at h
  split at h
  · rename_i s
    obtain ⟨low, hhex, hlow⟩ := bind_eq_ok.1 h
    obtain ⟨code, rest, rfl, hlength, hcode⟩ := exists_of_hex4 hhex
    refine ⟨'\\' :: 'u' :: code, rest, rfl, by simp [hlength], fun after => ?_⟩
    exact bind_eq_ok.2 ⟨low, hcode after, hlow⟩
  · cases h
  · cases h
  · cases h

/-- An escape is settled by the characters it takes. -/
theorem exists_of_readEscape {c : Char} {used : Nat} (h : readEscape s = .ok (c, used)) :
    ∃ code rest, s = code ++ rest ∧ code.length = used ∧
      ∀ after, readEscape (code ++ after) = .ok (c, used) := by
  unfold readEscape at h
  split at h
  · cases h
  · rename_i s
    obtain ⟨n, hhex, hn⟩ := bind_eq_ok.1 h
    obtain ⟨code, rest, rfl, hlength, hcode⟩ := exists_of_hex4 hhex
    split_ifs at hn with hlow hhigh
    · obtain ⟨low, hhalf, hlast⟩ := bind_eq_ok.1 hn
      rw [List.drop_left' hlength] at hhalf
      obtain ⟨code', rest', rfl, hlength', hcode'⟩ := exists_of_lowHalf hhalf
      obtain ⟨rfl, rfl⟩ := Prod.mk.inj (Except.ok.inj hlast)
      refine ⟨'u' :: (code ++ code'), rest', by simp, by simp [hlength, hlength'], fun after => ?_⟩
      simp only [List.cons_append, List.append_assoc, readEscape]
      refine bind_eq_ok.2 ⟨n, hcode _, ?_⟩
      rw [if_neg hlow, if_pos hhigh, List.drop_left' hlength]
      exact bind_eq_ok.2 ⟨low, hcode' after, rfl⟩
    · obtain ⟨rfl, rfl⟩ := Prod.mk.inj (Except.ok.inj hn)
      refine ⟨'u' :: code, rest, rfl, by simp [hlength], fun after => ?_⟩
      refine bind_eq_ok.2 ⟨n, hcode after, ?_⟩
      rw [if_neg hlow, if_neg hhigh]
  · rename_i d rest hd
    have hu : d ≠ 'u' := hd
    refine ⟨[d], rest, rfl, ?_, fun after => ?_⟩
    · split at h <;> cases h
      rfl
    · rw [List.cons_append, readEscape_of_ne hu]
      exact h

theorem cuts_quotedChars (n : Nat) : Cuts (n + 1) may (quotedChars n) := by
  intro s rest cs h
  induction s generalizing n cs with
  | nil => cases n <;> cases h
  | cons c s ih =>
    cases n with
    | succ n =>
      obtain ⟨taken, rfl, hleast, htaken⟩ := ih n h
      exact ⟨c :: taken, rfl, by simpa using hleast, htaken⟩
    | zero =>
      simp only [quotedChars] at h
      split_ifs at h with hquote hbackslash hcontrol
      · cases h
        exact ⟨[c], rfl, Nat.le_refl 1, fun after _ => by simp [quotedChars, hquote]⟩
      · split at h
        · cases h
        · rename_i d used hescape
          obtain ⟨⟨ds, t⟩, hr, heq⟩ := map_eq_ok.1 h
          cases heq
          obtain ⟨taken, rfl, hleast, htaken⟩ := ih used hr
          obtain ⟨code, behind, hcode, hlength, hread⟩ := exists_of_readEscape hescape
          -- The characters of the escape are among those that have been taken.
          have hprefix : code <+: taken := List.prefix_of_prefix_length_le
            ⟨behind, hcode.symm⟩ (List.prefix_append taken _) (by omega)
          obtain ⟨front, rfl⟩ := hprefix
          refine ⟨c :: (code ++ front), rfl, by simp, fun after ha => ?_⟩
          simp only [List.cons_append, quotedChars, if_neg hquote, if_pos hbackslash]
          rw [List.append_assoc, hread, ← List.append_assoc]
          exact map_eq_ok.2 ⟨_, htaken ha, rfl⟩
      · obtain ⟨⟨ds, t⟩, hr, heq⟩ := map_eq_ok.1 h
        cases heq
        obtain ⟨taken, rfl, hleast, htaken⟩ := ih 0 hr
        refine ⟨c :: taken, rfl, by simp, fun after ha => ?_⟩
        simp only [List.cons_append, quotedChars, if_neg hquote, if_neg hbackslash, if_neg hcontrol]
        exact map_eq_ok.2 ⟨_, htaken ha, rfl⟩

theorem cuts_quoted : Cuts 1 may quoted := (cuts_quotedChars 0).map String.ofList

/-! ## Brackets -/

theorem itemsAfter_of_length_lt {item : Reader α} (h : Cuts 0 may item) {n m : Nat}
    {r : List α × List Char} (hs : itemsAfter item n s = .ok r) (hm : s.length < m) :
    itemsAfter item m s = .ok r := by
  induction n generalizing m s r with
  | zero => cases hs
  | succ n ih =>
    obtain ⟨m, rfl⟩ := Nat.exists_eq_add_one_of_ne_zero (Nat.ne_of_gt (Nat.zero_lt_of_lt hm))
    simp only [itemsAfter] at hs ⊢
    split at hs
    · cases hs
    · rename_i c t hd
      have hlength := length_of_dropSpace hd
      split_ifs at hs ⊢
      · exact hs
      · split at hs
        · cases hs
        · rename_i d t' hd'
          have hlength' := length_of_dropSpace hd'
          split_ifs at hs ⊢
          obtain ⟨⟨a, u⟩, hitem, hs⟩ := bind_eq_ok.1 hs
          obtain ⟨⟨as, v⟩, hafter, hs⟩ := bind_eq_ok.1 hs
          have hshorter : u.length < m := by
            have := h.length_le hitem
            rw [List.length_cons] at this
            omega
          exact bind_eq_ok.2 ⟨_, hitem, bind_eq_ok.2 ⟨_, ih hafter hshorter, hs⟩⟩

theorem cuts_itemsAfter {item : Reader α} (h : Cuts 1 GoesOn item) (n : Nat) :
    Cuts 1 Anything (itemsAfter item n) := by
  induction n with
  | zero => exact .error _
  | succ n ih =>
    refine .head fun c => .ite (.ok []) (.ite ?_ (.error _))
    refine .least_zero (.head fun d => .ite (.error _) ?_)
    exact (h.cons d).bind_goesOn fun a => ih.bind_anything fun as => .ok (a :: as)

theorem cuts_items {item : Reader α} (h : Cuts 1 GoesOn item) : Cuts 1 Anything (items item) := by
  refine .head fun c => .ite (.ok []) ?_
  refine (h.cons c).bind_goesOn fun a => ?_
  exact Cuts.bind_anything (.fuel (cuts_itemsAfter h) (itemsAfter_of_length_lt h.least_zero))
    fun as => .ok (a :: as)

section Members
variable {member : σ → String → Reader σ}

theorem membersAfter_of_length_lt (h : ∀ g key, Cuts 0 may (member g key)) {n m : Nat} {g : σ}
    {r : σ × List Char} (hs : membersAfter member n g s = .ok r) (hm : s.length < m) :
    membersAfter member m g s = .ok r := by
  induction n generalizing m g s r with
  | zero => cases hs
  | succ n ih =>
    obtain ⟨m, rfl⟩ := Nat.exists_eq_add_one_of_ne_zero (Nat.ne_of_gt (Nat.zero_lt_of_lt hm))
    simp only [membersAfter] at hs ⊢
    split at hs
    · cases hs
    · rename_i c t hd
      have hlength := length_of_dropSpace hd
      split_ifs at hs ⊢
      · exact hs
      · split at hs
        · cases hs
        · rename_i d t' hd'
          have hlength' := length_of_dropSpace hd'
          split_ifs at hs ⊢
          obtain ⟨⟨key, u⟩, hkey, hs⟩ := bind_eq_ok.1 hs
          obtain ⟨⟨g', v⟩, hmember, hs⟩ := bind_eq_ok.1 hs
          have hshorter : v.length < m := by
            have hquoted : u.length + 1 ≤ t'.length := Cuts.length_le (@cuts_quoted may) hkey
            have hvalue : v.length + 0 ≤ u.length := (h g key).length_le hmember
            omega
          exact bind_eq_ok.2 ⟨_, hkey, bind_eq_ok.2 ⟨_, hmember, ih hs hshorter⟩⟩

variable (h : ∀ g key, Cuts 1 GoesOn (member g key))
include h

theorem cuts_membersAfter (n : Nat) (g : σ) : Cuts 1 Anything (membersAfter member n g) := by
  induction n generalizing g with
  | zero => exact .error _
  | succ n ih =>
    refine .head fun c => .ite (.ok g) (.ite ?_ (.error _))
    refine .least_zero (.head fun d => .ite ?_ (.error _))
    refine .least_zero (cuts_quoted.bind_anything fun key => ?_)
    exact (h g key).least_zero.bind_goesOn ih

theorem cuts_members (g : σ) : Cuts 1 Anything (members member g) := by
  refine .head fun c => .ite (.ok g) (.ite ?_ (.error _))
  refine .least_zero (cuts_quoted.bind_anything fun key => ?_)
  refine (h g key).least_zero.bind_goesOn fun g' => ?_
  exact .fuel (fun n => cuts_membersAfter h n g')
    (membersAfter_of_length_lt fun g key => (h g key).least_zero)

end Members

theorem cuts_filed {item : Reader α} (h : Cuts 1 GoesOn item) (c : Catalog α) (key : String) :
    Cuts 1 GoesOn (filed item c key) := by
  have heq : filed item c key = fun s => match dropSpace s with
      | [] => .error .unfinished
      | d :: rest =>
        if d = ':' then item rest >>= fun r => .ok (c.put key r.1, r.2)
        else .error .malformed := by
    funext s
    simp only [filed, colon]
    cases dropSpace s with
    | nil => rfl
    | cons d rest =>
      simp only
      split <;> rfl
  rw [heq]
  refine .head fun d => .ite ?_ (.error _)
  exact h.least_zero.bind (fun a => .ok (c.put key a)) fun _ ha => ha.append _

/-! ## Any value -/

theorem cuts_valueWith {readItems : Reader (List Value)} {readMembers : Reader (Catalog Value)}
    (hitems : Cuts 0 Anything readItems) (hmembers : Cuts 0 Anything readMembers) :
    Cuts 1 GoesOn (valueWith readItems readMembers) := by
  refine .head fun c => ?_
  refine .ite (cuts_expect _ _) (.ite (cuts_expect _ _) (.ite (cuts_expect _ _) (.ite ?_ ?_)))
  · exact cuts_quoted.least_zero.map Value.text
  · refine .ite (cuts_number.cons c) (.ite ?_ (.ite ?_ (.error _)))
    · exact hitems.of_anything.map Value.array
    · exact hmembers.of_anything.map fun c => Value.object c.entries

theorem cuts_value (n : Nat) : Cuts 1 GoesOn (value n) := by
  induction n with
  | zero => exact cuts_valueWith (.error _) (.error _)
  | succ n ih =>
    exact cuts_valueWith (cuts_items ih).least_zero (cuts_members (cuts_filed ih) _).least_zero

/-- **An object is read up to its closing bracket**, whatever comes behind it. -/
theorem cuts_catalog {item : Reader α} (h : Cuts 1 GoesOn item) :
    Cuts 1 Anything (catalog item) :=
  .head fun _ => .ite (cuts_members (cuts_filed h) _).least_zero (.error _)

end Motewatch.Json
