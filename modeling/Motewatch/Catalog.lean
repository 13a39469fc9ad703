/-!
# Catalogs

A catalog files one entry under each of finitely many keys, which are texts. The entries are kept
in the order of their keys, so that two catalogs with the same entries are equal. Keys are ordered
by the code points of their characters, which is also the order of their UTF-8 bytes.

## Main definitions

* `Catalog` — the entries with a proof that the keys strictly increase.
* `Catalog.put`, `Catalog.erase`, `Catalog.get?` — the entry under one key.
* `Catalog.ofList` — files entries one after the other, the last one under a key wins.
-/

namespace Motewatch

/-- Files `a` under `key` in a list of entries, in place of the entry there and else before the
first larger key. -/
def putEntry {α : Type} (key : String) (a : α) : List (String × α) → List (String × α)
  | [] => [(key, a)]
  | (k, b) :: rest =>
    if key < k then (key, a) :: (k, b) :: rest
    else if key = k then (key, a) :: rest
    else (k, b) :: putEntry key a rest

theorem mem_putEntry {α : Type} {key : String} {a : α} {entries : List (String × α)}
    {e : String × α} (h : e ∈ putEntry key a entries) : e.1 = key ∨ e ∈ entries := by
  induction entries with
  | nil => simp_all [putEntry]
  | cons head rest ih =>
    obtain ⟨k, b⟩ := head
    simp only [putEntry] at h
    split at h
    · simp only [List.mem_cons] at h ⊢
      rcases h with h | h | h <;> simp [h]
    · split at h
      · simp only [List.mem_cons] at h ⊢
        rcases h with h | h <;> simp [h]
      · simp only [List.mem_cons] at h ⊢
        rcases h with h | h
        · simp [h]
        · rcases ih h with h | h <;> simp [h]

theorem pairwise_putEntry {α : Type} (key : String) (a : α) {entries : List (String × α)}
    (h : entries.Pairwise (·.1 < ·.1)) : (putEntry key a entries).Pairwise (·.1 < ·.1) := by
  induction entries with
  | nil => simp [putEntry]
  | cons head rest ih =>
    obtain ⟨k, b⟩ := head
    rw [List.pairwise_cons] at h
    simp only [putEntry]
    split
    · rename_i hlt
      refine List.pairwise_cons.2 ⟨fun e he => ?_, List.pairwise_cons.2 h⟩
      rcases List.mem_cons.1 he with he | he
      · subst he; exact hlt
      · exact String.lt_trans hlt (h.1 e he)
    · split
      · rename_i heq; subst heq
        exact List.pairwise_cons.2 ⟨h.1, h.2⟩
      · rename_i hlt hne
        refine List.pairwise_cons.2 ⟨fun e he => ?_, ih h.2⟩
        rcases mem_putEntry he with he | he
        · show k < e.1
          rw [he]
          exact Std.lt_of_le_of_ne (Std.not_lt.1 hlt) fun hk => hne hk.symm
        · exact h.1 e he

/-- An entry under a key beyond all others is filed at the end. -/
theorem putEntry_eq_append {α : Type} {key : String} {entries : List (String × α)}
    (h : ∀ e ∈ entries, e.1 < key) (a : α) : putEntry key a entries = entries ++ [(key, a)] := by
  induction entries with
  | nil => rfl
  | cons e rest ih =>
    obtain ⟨hlt, hrest⟩ := List.forall_mem_cons.1 h
    rw [putEntry, if_neg (Std.not_lt.2 (Std.le_of_lt hlt)), if_neg (Std.ne_of_lt hlt).symm, ih hrest]
    rfl

/-- Entries under distinct keys, in increasing order of the keys. -/
structure Catalog (α : Type) where
  entries : List (String × α)
  increasing : entries.Pairwise (·.1 < ·.1)

namespace Catalog
variable {α : Type}

@[ext] theorem ext {c d : Catalog α} (h : c.entries = d.entries) : c = d := by
  cases c; cases d; cases h; rfl

/-- The catalog without entries. -/
def empty : Catalog α := ⟨[], List.Pairwise.nil⟩

instance : Inhabited (Catalog α) := ⟨empty⟩

/-- Files `a` under `key`, in place of what was there. -/
def put (c : Catalog α) (key : String) (a : α) : Catalog α :=
  ⟨putEntry key a c.entries, pairwise_putEntry key a c.increasing⟩

/-- The catalog without its entry under `key`. -/
def erase (c : Catalog α) (key : String) : Catalog α :=
  ⟨c.entries.filter (·.1 ≠ key), c.increasing.filter _⟩

/-- The entry under `key`. -/
def get? (c : Catalog α) (key : String) : Option α := c.entries.lookup key

/-- Files entries one after the other. -/
def ofList (entries : List (String × α)) : Catalog α :=
  entries.foldl (fun c e => c.put e.1 e.2) empty

/-- The number of entries. -/
def size (c : Catalog α) : Nat := c.entries.length

@[simp] theorem entries_empty : (empty : Catalog α).entries = [] := rfl

@[simp] theorem entries_put (c : Catalog α) (key : String) (a : α) :
    (c.put key a).entries = putEntry key a c.entries := rfl

@[simp] theorem get?_empty (key : String) : (empty : Catalog α).get? key = none := rfl

/-- What is filed under a key is found there and nothing else changes. -/
theorem get?_put (c : Catalog α) (key other : String) (a : α) :
    (c.put key a).get? other = if other = key then some a else c.get? other := by
  obtain ⟨entries, h⟩ := c
  simp only [get?, entries_put]
  clear h
  induction entries with
  | nil =>
    simp only [putEntry, List.lookup_cons, List.lookup_nil]
    split <;> simp_all
  | cons head rest ih =>
    obtain ⟨k, b⟩ := head
    simp only [putEntry]
    by_cases hk : other = k
    · subst hk; grind
    · grind

/-- Entries that come in the order of their keys are appended. -/
theorem entries_foldl_put (c : Catalog α) {entries : List (String × α)}
    (h : (c.entries ++ entries).Pairwise (·.1 < ·.1)) :
    (entries.foldl (fun c e => c.put e.1 e.2) c).entries = c.entries ++ entries := by
  induction entries generalizing c with
  | nil => simp
  | cons e rest ih =>
    have hlast : ∀ x ∈ c.entries, x.1 < e.1 := fun x hx =>
      (List.pairwise_append.1 h).2.2 x hx e (by simp)
    have hput : (c.put e.1 e.2).entries = c.entries ++ [e] := putEntry_eq_append hlast e.2
    rw [List.foldl_cons, ih _ (by rw [hput, List.append_assoc]; exact h), hput, List.append_assoc]
    rfl

theorem entries_ofList {entries : List (String × α)} (h : entries.Pairwise (·.1 < ·.1)) :
    (ofList entries).entries = entries :=
  entries_foldl_put empty h

/-- A catalog is what its entries are filed as. -/
theorem ofList_entries (c : Catalog α) : ofList c.entries = c := ext (entries_ofList c.increasing)

theorem not_mem_erase (c : Catalog α) (key : String) : ∀ e ∈ (c.erase key).entries, e.1 ≠ key := by
  intro e he
  simpa using (List.mem_filter.1 he).2

end Catalog

end Motewatch
