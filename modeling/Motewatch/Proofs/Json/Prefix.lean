import Motewatch.Json.Record
import Motewatch.Proofs.Json.Written

/-!
# Readers do not look further

What a reader takes off a text it takes off every longer one, whatever follows there, unless that
continues a number. So a text that is accepted as a whole is read in the same way where it stands
for a part of another one.

Bounds on the number of steps grow with the text. Therefore two ways of reading are compared, one
for the text and one for the longer text; the readers themselves are compared with themselves.

## Main definitions

* `Persists` — what one way of reading does to a text another one does to all longer ones.
* `Local`, `Passes` — readers, and functions that only pass over something, that do not look further.
* `Accepts` — a reader takes a whole text for something.

## Main results

* `local_natural`, `local_double`, `local_text`, `local_optional`, `local_choice`, `local_array`,
  `local_record` — the readers of single values, arrays and records.
* `Accepts.exists_blank` — what is accepted as a whole is read wherever it stands.
-/

namespace Motewatch.Json

variable {α β σ ρ : Type}

/-- Where `scan` succeeds, `more` succeeds on every longer text, and what follows there is left
over. How the result grows by it depends on what is returned. -/
def Persists (extend : ρ → List Char → ρ) (scan more : List Char → Except Fault ρ) : Prop :=
  ∀ ⦃s : List Char⦄ ⦃r : ρ⦄, scan s = .ok r →
    ∀ {after : List Char}, EndsNumber after → more (s ++ after) = .ok (extend r after)

/-- What follows is left over by a reader. -/
def leaving (r : α × List Char) (after : List Char) : α × List Char := (r.1, r.2 ++ after)

/-- A reader that does not look further. -/
def Local (read : Reader α) : Prop := Persists leaving read read

/-- A function that passes over something and does not look further. -/
def Passes (pass : List Char → Except Fault (List Char)) : Prop := Persists (· ++ ·) pass pass

theorem Stops.local {read : Reader α} (h : Stops read) : Local read := fun _ _ hs _ ha => h hs ha

/-! ## Ways of putting readers together -/

theorem dropSpace_append {s rest : List Char} {c : Char} (h : dropSpace s = c :: rest)
    (after : List Char) : dropSpace (s ++ after) = c :: (rest ++ after) := by
  induction s with
  | nil => cases h
  | cons d s ih =>
    simp only [dropSpace, List.cons_append, List.dropWhile_cons] at h ih ⊢
    split
    · rw [if_pos ‹_›] at h
      exact ih h
    · rw [if_neg ‹_›] at h
      cases h
      rfl

namespace Persists
variable {extend : ρ → List Char → ρ} {scan more : List Char → Except Fault ρ}

theorem error (e : List Char → Fault) : Persists extend (fun s => .error (e s)) more := by
  intro s r h
  cases h

theorem ok (a : α) : Persists leaving (fun s => .ok (a, s)) fun s => .ok (a, s) := by
  intro s r h after _
  cases h
  rfl

theorem cons (h : Persists extend scan more) (c : Char) :
    Persists extend (fun s => scan (c :: s)) fun s => more (c :: s) :=
  fun _ _ hs _ ha => h hs ha

theorem ite {p : Prop} [Decidable p] {scan' more' : List Char → Except Fault ρ}
    (h : Persists extend scan more) (h' : Persists extend scan' more') :
    Persists extend (fun s => if p then scan s else scan' s)
      fun s => if p then more s else more' s := by
  by_cases hp : p
  · simpa only [if_pos hp] using h
  · simpa only [if_neg hp] using h'

/-- What depends on the first character that is no blank. -/
theorem head {scan more : Char → List Char → Except Fault ρ}
    (h : ∀ c, Persists extend (scan c) (more c)) :
    Persists extend
      (fun s => match dropSpace s with
        | [] => .error .unfinished
        | c :: rest => scan c rest)
      fun s => match dropSpace s with
        | [] => .error .unfinished
        | c :: rest => more c rest := by
  intro s r hs after ha
  cases hd : dropSpace s with
  | nil =>
    simp only [hd] at hs
    cases hs
  | cons c rest =>
    simp only [hd] at hs
    simp only [dropSpace_append hd]
    exact h c hs ha

/-- Reading on behind what a reader has taken. -/
theorem bind {read read' : Reader α} {next next' : α × List Char → Except Fault ρ}
    (h : Persists leaving read read')
    (hnext : ∀ a, Persists extend (fun rest => next (a, rest)) fun rest => next' (a, rest)) :
    Persists extend (fun s => read s >>= next) fun s => read' s >>= next' := by
  intro s r hs after ha
  obtain ⟨⟨a, rest⟩, hread, hrest⟩ := bind_eq_ok.1 hs
  exact bind_eq_ok.2 ⟨_, h hread ha, hnext a hrest ha⟩

/-- Reading on behind what has been passed over. -/
theorem andThen {pass : List Char → Except Fault (List Char)} (h : Passes pass)
    (hnext : Persists extend scan more) :
    Persists extend (fun s => pass s >>= scan) fun s => pass s >>= more := by
  intro s r hs after ha
  obtain ⟨rest, hpass, hrest⟩ := bind_eq_ok.1 hs
  exact bind_eq_ok.2 ⟨_, h hpass ha, hnext hrest ha⟩

/-- A step that does not concern the text. -/
theorem step {next next' : α → List Char → Except Fault ρ} (x : Except Fault α)
    (hnext : ∀ a, Persists extend (next a) (next' a)) :
    Persists extend (fun s => x >>= fun a => next a s) fun s => x >>= fun a => next' a s := by
  intro s r hs after ha
  obtain ⟨a, rfl, hrest⟩ := bind_eq_ok.1 hs
  exact hnext a hrest ha

theorem map {read read' : Reader α} (h : Persists leaving read read') (f : α → β) :
    Persists leaving (fun s => (read s).map fun r => (f r.1, r.2))
      fun s => (read' s).map fun r => (f r.1, r.2) := by
  intro s r hs after ha
  obtain ⟨⟨a, rest⟩, hread, rfl⟩ := map_eq_ok.1 hs
  exact map_eq_ok.2 ⟨_, h hread ha, rfl⟩

theorem mapPass {pass : List Char → Except Fault (List Char)} (h : Passes pass) (a : α) :
    Persists leaving (fun s => (pass s).map fun rest => (a, rest))
      fun s => (pass s).map fun rest => (a, rest) := by
  intro s r hs after ha
  obtain ⟨rest, hpass, rfl⟩ := map_eq_ok.1 hs
  exact map_eq_ok.2 ⟨_, h hpass ha, rfl⟩

/-- The bound on the steps may grow with the text. -/
theorem fuel {scan : Nat → List Char → Except Fault ρ} (bound : Nat → Nat)
    (h : ∀ {n m}, n ≤ m → Persists extend (scan n) (scan m))
    (hbound : ∀ {n m}, n ≤ m → bound n ≤ bound m) :
    Persists extend (fun s => scan (bound s.length) s) fun s => scan (bound s.length) s := by
  intro s r hs after ha
  have hle : s.length ≤ (s ++ after).length := by simp
  exact h (hbound hle) hs ha

end Persists

/-! ## Single values -/

theorem passes_nothing : Passes .ok := by
  intro s r h after _
  cases h
  rfl

theorem passes_expect (word : List Char) : Passes (expect word) := by
  induction word with
  | nil => exact passes_nothing
  | cons c word ih =>
    intro s r h after ha
    cases s with
    | nil => cases h
    | cons d s =>
      have hrest : Passes fun s => if c = d then expect word s else .error .malformed :=
        .ite ih (.error _)
      exact hrest h ha

theorem passes_colon : Passes colon := .head fun _ => .ite passes_nothing (.error _)

theorem hex4_append {s : List Char} {n : Nat} (h : hex4 s = .ok n) (after : List Char) :
    4 ≤ s.length ∧ hex4 (s ++ after) = .ok n := by
  unfold hex4 at h
  split at h
  · rename_i a b c d rest
    exact ⟨by simp, h⟩
  · cases h

theorem lowHalf_append {s : List Char} {n : Nat} (h : lowHalf s = .ok n) (after : List Char) :
    lowHalf (s ++ after) = .ok n := by
  unfold lowHalf at h
  split at h
  · rename_i rest
    obtain ⟨low, hlow, h⟩ := bind_eq_ok.1 h
    simp only [List.cons_append, lowHalf]
    exact bind_eq_ok.2 ⟨low, (hex4_append hlow after).2, h⟩
  · cases h
  · cases h
  · cases h

theorem readEscape_append {s : List Char} {r : Char × Nat} (h : readEscape s = .ok r)
    (after : List Char) : readEscape (s ++ after) = .ok r := by
  unfold readEscape at h
  split at h
  · cases h
  · rename_i rest
    obtain ⟨n, hn, h⟩ := bind_eq_ok.1 h
    obtain ⟨hlength, hn'⟩ := hex4_append hn after
    simp only [List.cons_append, readEscape]
    refine bind_eq_ok.2 ⟨n, hn', ?_⟩
    split_ifs at h ⊢
    · obtain ⟨low, hlow, h⟩ := bind_eq_ok.1 h
      rw [List.drop_append_of_le_length hlength]
      exact bind_eq_ok.2 ⟨low, lowHalf_append hlow after, h⟩
    · exact h
  · rename_i c rest hc
    have hu : c ≠ 'u' := hc
    rw [List.cons_append, readEscape_of_ne hu]
    exact h

theorem local_quotedChars (n : Nat) : Local (quotedChars n) := by
  intro s r h after ha
  induction s generalizing n r with
  | nil => cases n <;> cases h
  | cons c s ih =>
    cases n with
    | succ n => exact ih n h
    | zero =>
      simp only [List.cons_append, quotedChars] at h ⊢
      split_ifs at h ⊢
      · cases h
        rfl
      · split at h
        · cases h
        · rename_i d used hescape
          obtain ⟨r', hr', rfl⟩ := map_eq_ok.1 h
          rw [readEscape_append hescape]
          exact map_eq_ok.2 ⟨_, ih used hr', rfl⟩
      · obtain ⟨r', hr', rfl⟩ := map_eq_ok.1 h
        exact map_eq_ok.2 ⟨_, ih 0 hr', rfl⟩

theorem local_quoted : Local quoted := (local_quotedChars 0).map String.ofList

theorem local_key : Local key := .head fun _ => .ite local_quoted (.error _)

theorem local_text : Local text := .head fun _ => .ite local_quoted (.error _)

theorem local_nothing : Local nothing :=
  .head fun _ => .ite (.mapPass (passes_expect _) ()) (.error _)

theorem local_number : Local number := stops_number.local

theorem local_natural : Local natural := by
  refine .head fun c => .ite ?_ (.error _)
  intro s r h after ha
  simp only at h ⊢
  split at h
  · cases h
  · rename_i i rest hnumber
    simp only [local_number.cons c hnumber ha, leaving]
    split_ifs at h ⊢
    cases h
    rfl
  · cases h

theorem local_double : Local double := by
  refine .head fun c => .ite ?_ (.error _)
  intro s r h after ha
  simp only at h ⊢
  split at h
  · cases h
  · rename_i i rest hnumber
    cases h
    simp only [local_number.cons c hnumber ha, leaving]
  · rename_i x rest hnumber
    cases h
    simp only [local_number.cons c hnumber ha, leaving]
  · cases h

theorem optional_of_ne {s : List Char} (read : Reader α) (h : ∀ c ∈ (dropSpace s).head?, c ≠ 'n') :
    optional read s = (read (dropSpace s)).map fun r => (some r.1, r.2) := by
  unfold optional
  split
  · rename_i heq
    rw [heq] at h
    exact absurd rfl (h 'n' rfl)
  · rfl

/-- Where `null` may stand for nothing, the reader has to refuse the end of the text. -/
theorem local_optional {read : Reader α} (h : Local read) (hnil : ∀ r, read [] ≠ .ok r) :
    Local (optional read) := by
  intro s r hs after ha
  cases hd : dropSpace s with
  | nil =>
    rw [optional_of_ne read (by simp [hd]), hd] at hs
    obtain ⟨r', hr', -⟩ := map_eq_ok.1 hs
    exact absurd hr' (hnil r')
  | cons c rest =>
    have hd' := dropSpace_append hd after
    by_cases hc : c = 'n'
    · subst hc
      simp only [optional, hd, hd'] at hs ⊢
      exact Persists.mapPass (passes_expect _) none hs ha
    · rw [optional_of_ne read (by simpa [hd] using hc), hd] at hs
      rw [optional_of_ne read (by simpa [hd'] using hc), hd']
      exact (h.map some).cons c hs ha

theorem local_choice (choices : List (String × α)) : Local (choice choices) := by
  refine .head fun c => .ite ?_ (.ite ?_ (.error _))
  · exact .bind local_quoted fun name => .step _ fun a => .ok a
  · refine .bind local_key fun name => .step _ fun a => .andThen passes_colon ?_
    refine .bind local_nothing fun _ => ?_
    exact .head fun _ => .ite (.ok a) (.error _)

/-! ## Brackets -/

theorem persists_itemsAfter {item : Reader α} (h : Local item) {n m : Nat} (hle : n ≤ m) :
    Persists leaving (itemsAfter item n) (itemsAfter item m) := by
  induction n generalizing m with
  | zero => exact .error _
  | succ n ih =>
    obtain ⟨m, rfl⟩ := Nat.exists_eq_add_one_of_ne_zero (Nat.ne_of_gt (Nat.zero_lt_of_lt hle))
    refine .head fun c => .ite (.ok []) (.ite (.head fun d => .ite (.error _) ?_) (.error _))
    exact .bind (h.cons d) fun a => .bind (ih (Nat.le_of_succ_le_succ hle)) fun as => .ok (a :: as)

theorem local_items {item : Reader α} (h : Local item) : Local (items item) := by
  refine .head fun c => .ite (.ok []) ?_
  refine .bind (h.cons c) fun a => ?_
  exact .bind (.fuel (· + 1) (persists_itemsAfter h) Nat.succ_le_succ)
    fun as => .ok (a :: as)

theorem local_array {item : Reader α} (h : Local item) : Local (array item) :=
  .head fun _ => .ite (local_items h) (.error _)

section Members
variable {member : σ → String → Reader σ}

theorem persists_membersAfter (h : ∀ g key, Local (member g key)) {n m : Nat} (hle : n ≤ m)
    (g : σ) : Persists leaving (membersAfter member n g) (membersAfter member m g) := by
  induction n generalizing m g with
  | zero => exact .error _
  | succ n ih =>
    obtain ⟨m, rfl⟩ := Nat.exists_eq_add_one_of_ne_zero (Nat.ne_of_gt (Nat.zero_lt_of_lt hle))
    refine .head fun c => .ite (.ok g) (.ite (.head fun d => .ite ?_ (.error _)) (.error _))
    refine .bind local_quoted fun key => .bind (h g key) fun g' => ?_
    exact ih (Nat.le_of_succ_le_succ hle) g'

theorem local_members (h : ∀ g key, Local (member g key)) (g : σ) : Local (members member g) := by
  refine .head fun c => .ite (.ok g) (.ite ?_ (.error _))
  refine .bind local_quoted fun key => ?_
  refine .bind (h g key) fun g' => ?_
  exact .fuel (· + 1) (fun hle => persists_membersAfter h hle g') Nat.succ_le_succ

end Members

/-! ## Passing over a value -/

theorem passes_skipNumber : Passes skipNumber := by
  intro s r h after ha
  unfold skipNumber at h
  split at h
  · cases h
  · rename_i l rest hl
    cases h
    simp only [skipNumber, stops_literal hl ha]

theorem skipEscape_append {s : List Char} {used : Nat} (h : skipEscape s = .ok used)
    (after : List Char) : skipEscape (s ++ after) = .ok used := by
  unfold skipEscape at h
  split at h
  · cases h
  · obtain ⟨n, hn, rfl⟩ := map_eq_ok.1 h
    exact map_eq_ok.2 ⟨n, (hex4_append hn after).2, rfl⟩
  · rename_i c rest hc
    have hu : c ≠ 'u' := hc
    rw [List.cons_append, skipEscape_of_ne hu]
    exact h

theorem passes_skipQuoted : Passes skipQuoted := by
  have hchars (n : Nat) : Passes (skipQuotedChars n) := by
    intro s r h after ha
    induction s generalizing n with
    | nil => cases n <;> cases h
    | cons c s ih =>
      cases n with
      | succ n => exact ih n h
      | zero =>
        simp only [List.cons_append, skipQuotedChars] at h ⊢
        split_ifs at h ⊢
        · cases h
          rfl
        · split at h
          · cases h
          · rename_i used hescape
            rw [skipEscape_append hescape]
            exact ih used h
        · exact ih 0 h
  exact hchars 0

theorem passes_skipScalar (c : Char) : Passes (skipScalar c) :=
  .ite (passes_expect _) (.ite (passes_expect _) (.ite (passes_expect _) (.ite passes_skipQuoted
    (.ite (passes_skipNumber.cons c) (.error _)))))

theorem passes_skipKey (b : Bracket) : Passes (skipKey b) := by
  cases b with
  | square => exact passes_nothing
  | curly => exact .head fun _ => .ite (.andThen passes_skipQuoted passes_colon) (.error _)

theorem persists_skipInside {n m : Nat} (hle : n ≤ m) (around : List Bracket) :
    Persists (· ++ ·) (skipInside n around) (skipInside m around) ∧
      Persists (· ++ ·) (skipAfter n around) (skipAfter m around) := by
  induction n generalizing m around with
  | zero => exact ⟨.error _, .error _⟩
  | succ n ih =>
    obtain ⟨m, rfl⟩ := Nat.exists_eq_add_one_of_ne_zero (Nat.ne_of_gt (Nat.zero_lt_of_lt hle))
    have ih := @ih m (Nat.le_of_succ_le_succ hle)
    constructor
    · refine .head fun c => ?_
      -- A bracket that opens is put before the others, and the steps go on within it.
      cases Bracket.opened? c with
      | none => exact .andThen (passes_skipScalar c) (ih around).2
      | some b =>
        refine .head fun d => .ite (ih around).2 (.andThen ((passes_skipKey b).cons d) ?_)
        exact (ih (b :: around)).1
    · cases around with
      | nil => exact passes_nothing
      | cons b around =>
        refine .head fun c => .ite (ih around).2 (.ite (.andThen (passes_skipKey b) ?_) (.error _))
        exact (ih (b :: around)).1

theorem passes_skip : Passes skip :=
  .fuel (fun n => 2 * n + 2) (fun hle => (persists_skipInside hle []).1)
    fun hle => by omega

/-! ## Records -/

section Records
variable {shape : Shape ρ}

/-- The fields of a record are read without looking further. -/
def Shape.IsLocal (shape : Shape ρ) : Prop := ∀ field ∈ shape.fields, ∀ r, Local (field.read r)

theorem local_member (h : shape.IsLocal) (p : Partial ρ) (key : String) :
    Local (shape.member p key) := by
  unfold Local Shape.member
  cases hfind : shape.fields.find? (·.name == key) with
  | none => exact .andThen passes_colon (.andThen passes_skip (.ok p))
  | some field =>
    have hfield := h field (List.mem_of_find?_eq_some hfind)
    refine .ite (.error _) (.andThen passes_colon ?_)
    exact .bind (hfield p.record) fun r => .ok _

theorem local_readInOrder {fields : List (Field ρ)} (h : ∀ field ∈ fields, ∀ r, Local (field.read r))
    (mayBeShort first : Bool) (r : ρ) : Local (readInOrder mayBeShort fields first r) := by
  induction fields generalizing first r with
  | nil => exact .head fun c => .ite (.ok r) (.error _)
  | cons field fields ih =>
    obtain ⟨hfield, hfields⟩ := List.forall_mem_cons.1 h
    have hnext := ih hfields false
    refine .head fun c => .ite (.ite (.ok r) (.error _)) (.ite ?_ (.ite ?_ (.error _)))
    · exact .bind ((hfield r).cons c) hnext
    · exact .head fun d => .ite (.error _) (.bind ((hfield r).cons d) hnext)

theorem local_record (h : shape.IsLocal) : Local shape.read := by
  refine .head fun c => .ite ?_ (.ite (local_readInOrder h _ _ _) (.error _))
  exact .bind (local_members (local_member h) _) fun p => .step _ fun r => .ok r

end Records

/-! ## Whole texts -/

/-- A reader takes a whole text for something, with blanks around it. -/
def Accepts (read : Reader α) (s : List Char) (a : α) : Prop :=
  parse read (String.ofList s) = .ok a

theorem accepts_iff {read : Reader α} {s : List Char} {a : α} :
    Accepts read s a ↔ ∃ behind, read s = .ok (a, behind) ∧ Blank behind := by
  simp only [Accepts, parse, String.toList_ofList, bind_eq_ok, Prod.exists]
  constructor
  · rintro ⟨b, behind, hread, h⟩
    split at h
    · cases h
      exact ⟨behind, hread, List.dropWhile_eq_nil_iff.1 ‹_›⟩
    · cases h
  · rintro ⟨behind, hread, hb⟩
    have hrest : dropSpace behind = [] := List.dropWhile_eq_nil_iff.2 hb
    exact ⟨a, behind, hread, if_pos hrest⟩

/-- **What is accepted as a whole is read wherever it stands**, up to the blanks behind it. -/
theorem Accepts.exists_blank {read : Reader α} {s : List Char} {a : α} (h : Accepts read s a)
    (hread : Local read) :
    ∃ behind, Blank behind ∧
      ∀ {after}, EndsNumber after → read (s ++ after) = .ok (a, behind ++ after) := by
  obtain ⟨behind, hs, hb⟩ := accepts_iff.1 h
  exact ⟨behind, hb, fun ha => hread hs ha⟩

end Motewatch.Json
