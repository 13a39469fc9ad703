import Mathlib.Data.List.Basic

/-!
# Lists in the order of a key

A list is sorted by a number that each element has, and elements with the same number stay in the
order in which they were. That fixes the sorted list: it is the only one that is in order and has,
for each number, the same elements in the same order.

## Main definitions

* `sortBy` — a list in the order of a key.

## Main results

* `eq_sortBy_iff` — what the list in order is.
* `sortBy_append_singleton` — where an element that is added at the end comes in.
-/

namespace Motewatch

variable {α : Type} {key : α → Nat} {l l' : List α}

/-- The list in the order of a key. Elements with the same key stay in their order. -/
def sortBy (key : α → Nat) (l : List α) : List α := l.mergeSort fun a b => key a ≤ key b

theorem sortBy_perm (key : α → Nat) (l : List α) : (sortBy key l).Perm l := List.mergeSort_perm l _

theorem key_le_trans (key : α → Nat) (a b c : α) (hab : decide (key a ≤ key b) = true)
    (hbc : decide (key b ≤ key c) = true) : decide (key a ≤ key c) = true := by
  simp only [decide_eq_true_eq] at hab hbc ⊢
  omega

theorem key_le_total (key : α → Nat) (a b : α) :
    (decide (key a ≤ key b) || decide (key b ≤ key a)) = true := by
  simp only [Bool.or_eq_true, decide_eq_true_eq]
  omega

theorem pairwise_sortBy (key : α → Nat) (l : List α) :
    (sortBy key l).Pairwise fun a b => key a ≤ key b := by
  have hsorted := List.pairwise_mergeSort (key_le_trans key) (key_le_total key) l
  exact hsorted.imp fun hab => of_decide_eq_true hab

/-- Elements with the same key stay in their order. -/
theorem filter_sortBy (key : α → Nat) (l : List α) (k : Nat) :
    (sortBy key l).filter (key · = k) = l.filter (key · = k) := by
  have hequal : (l.filter (key · = k)).Pairwise fun a b => decide (key a ≤ key b) = true := by
    rw [List.pairwise_iff_forall_sublist]
    intro a b hab
    have ha := List.of_mem_filter (hab.subset (List.mem_cons_self ..))
    have hb := List.of_mem_filter (hab.subset (List.mem_cons_of_mem _ (List.mem_singleton_self _)))
    simp only [decide_eq_true_eq] at ha hb ⊢
    omega
  have hsub : (l.filter (key · = k)).Sublist (sortBy key l) :=
    List.sublist_mergeSort (key_le_trans key) (key_le_total key) hequal List.filter_sublist
  have hkept := hsub.filter fun a => decide (key a = k)
  rw [List.filter_filter] at hkept
  simp only [Bool.and_self] at hkept
  exact (hkept.eq_of_length ((sortBy_perm key l).filter _).length_eq.symm).symm

theorem mem_iff_of_filter_eq (h : ∀ k, l.filter (key · = k) = l'.filter (key · = k)) (a : α) :
    a ∈ l ↔ a ∈ l' := by
  have ha := congrArg (a ∈ ·) (h (key a))
  simpa using ha

theorem key_head_le {a b : α} (h : (a :: l).Pairwise fun a b => key a ≤ key b)
    (hb : b ∈ a :: l) : key a ≤ key b := by
  rcases List.mem_cons.1 hb with rfl | hb
  · exact Nat.le_refl _
  · exact (List.pairwise_cons.1 h).1 b hb

/-- Two lists in order are equal if they have, for each key, the same elements in the same order. -/
theorem eq_of_filter_eq (hl : l.Pairwise fun a b => key a ≤ key b)
    (hl' : l'.Pairwise fun a b => key a ≤ key b)
    (h : ∀ k, l.filter (key · = k) = l'.filter (key · = k)) : l = l' := by
  induction l generalizing l' with
  | nil =>
    cases l' with
    | nil => rfl
    | cons b rest' => simpa using mem_iff_of_filter_eq h b
  | cons a rest ih =>
    cases l' with
    | nil => simpa using mem_iff_of_filter_eq h a
    | cons b rest' =>
      -- Both heads have the least key, so that they are the first elements with that key.
      have hkey : key a = key b := by
        have hab := key_head_le hl ((mem_iff_of_filter_eq h b).2 (List.mem_cons_self ..))
        have hba := key_head_le hl' ((mem_iff_of_filter_eq h a).1 (List.mem_cons_self ..))
        omega
      have heq : a = b := by
        have hheads := h (key a)
        rw [List.filter_cons_of_pos (by simp), List.filter_cons_of_pos (by simp [hkey])] at hheads
        exact (List.cons.inj hheads).1
      subst heq
      have htails : ∀ k, rest.filter (key · = k) = rest'.filter (key · = k) := by
        intro k
        have hk := h k
        by_cases hak : key a = k
        · rw [List.filter_cons_of_pos (by simp [hak]), List.filter_cons_of_pos (by simp [hak])] at hk
          exact (List.cons.inj hk).2
        · rwa [List.filter_cons_of_neg (by simp [hak]),
            List.filter_cons_of_neg (by simp [hak])] at hk
      rw [ih (List.pairwise_cons.1 hl).2 (List.pairwise_cons.1 hl').2 htails]

/-- **What the list in order is.** -/
theorem eq_sortBy_iff :
    l' = sortBy key l ↔ (l'.Pairwise fun a b => key a ≤ key b) ∧
      ∀ k, l'.filter (key · = k) = l.filter (key · = k) := by
  constructor
  · rintro rfl
    exact ⟨pairwise_sortBy key l, filter_sortBy key l⟩
  · rintro ⟨hsorted, hsame⟩
    refine eq_of_filter_eq hsorted (pairwise_sortBy key l) fun k => ?_
    rw [hsame, filter_sortBy]

/-- Lists that have, for each key, the same elements in the same order are the same in order. -/
theorem sortBy_congr (key : α → Nat) (h : ∀ k, l'.filter (key · = k) = l.filter (key · = k)) :
    sortBy key l' = sortBy key l := by
  rw [eq_sortBy_iff]
  exact ⟨pairwise_sortBy key l', fun k => (filter_sortBy key l' k).trans (h k)⟩

theorem sortBy_map {β : Type} (key : α → Nat) (f : β → α) (l : List β) :
    sortBy key (l.map f) = (sortBy (fun b => key (f b)) l).map f := by
  rw [sortBy, sortBy]
  refine (List.map_mergeSort ?_).symm
  intro a _ b _
  rfl

/-- An element that is added at the end comes behind those whose key is no larger. -/
theorem sortBy_append_singleton (key : α → Nat) (l : List α) (a : α) :
    sortBy key (l ++ [a]) = sortBy key (l.filter (key · ≤ key a)) ++
      a :: sortBy key (l.filter (key a < key ·)) := by
  refine (eq_sortBy_iff.2 ⟨?_, ?_⟩).symm
  · have hbefore : ∀ b ∈ sortBy key (l.filter (key · ≤ key a)), key b ≤ key a := by
      intro b hb
      have := List.of_mem_filter ((sortBy_perm ..).mem_iff.1 hb)
      simpa using this
    have hbehind : ∀ b ∈ sortBy key (l.filter (key a < key ·)), key a < key b := by
      intro b hb
      have := List.of_mem_filter ((sortBy_perm ..).mem_iff.1 hb)
      simpa using this
    rw [List.pairwise_append, List.pairwise_cons]
    refine ⟨pairwise_sortBy .., ⟨fun b hb => ?_, pairwise_sortBy ..⟩, fun b hb c hc => ?_⟩
    · have := hbehind b hb
      omega
    · have hba := hbefore b hb
      rcases List.mem_cons.1 hc with rfl | hc
      · exact hba
      · have := hbehind c hc
        omega
  · intro k
    rw [List.filter_append, List.filter_append, List.filter_cons, filter_sortBy, filter_sortBy,
      List.filter_filter, List.filter_filter, List.filter_singleton]
    by_cases hk : k ≤ key a
    · have hbefore : (l.filter fun b => decide (key b = k) && decide (key b ≤ key a)) =
          l.filter (key · = k) := by
        refine List.filter_congr fun b _ => ?_
        by_cases hb : key b = k <;> simp [hb, hk]
      have hbehind : (l.filter fun b => decide (key b = k) && decide (key a < key b)) = [] := by
        rw [List.filter_eq_nil_iff]
        intro b _
        simp only [Bool.and_eq_true, decide_eq_true_eq]
        omega
      rw [hbefore, hbehind]
      by_cases ha : key a = k <;> simp [ha]
    · have hbefore : (l.filter fun b => decide (key b = k) && decide (key b ≤ key a)) = [] := by
        rw [List.filter_eq_nil_iff]
        intro b _
        simp only [Bool.and_eq_true, decide_eq_true_eq]
        omega
      have hbehind : (l.filter fun b => decide (key b = k) && decide (key a < key b)) =
          l.filter (key · = k) := by
        refine List.filter_congr fun b _ => ?_
        by_cases hb : key b = k <;> simp [hb, Nat.lt_of_not_le hk]
      have ha : key a ≠ k := by omega
      rw [hbefore, hbehind]
      simp [ha]

end Motewatch
