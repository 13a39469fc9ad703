import Mathlib.Data.List.Basic

/-!
# Steps that may fail

What has come of each step, if several steps that may fail have succeeded one after the other, and
what has not, if they have failed.

## Main results

* `bind_eq_ok`, `check_bind_eq_ok`, `exists_of_mem_mapM` — all steps have succeeded.
* `map_ne_error`, `bind_ne_error` — no step has failed in a certain way.
-/

namespace Motewatch

variable {ε α β : Type} {x : Except ε α}

theorem map_eq_ok {f : α → β} {b : β} : x.map f = .ok b ↔ ∃ a, x = .ok a ∧ f a = b := by
  cases x <;> simp [Except.map]

theorem bind_eq_ok {f : α → Except ε β} {b : β} :
    x >>= f = .ok b ↔ ∃ a, x = .ok a ∧ f a = .ok b := by
  cases x <;> simp [bind, Except.bind]

/-- A step that gives nothing but its success. -/
theorem check_bind_eq_ok {x : Except ε Unit} {f : Unit → Except ε β} {b : β} :
    x >>= f = .ok b ↔ x = .ok () ∧ f () = .ok b := by
  cases x <;> simp [bind, Except.bind]

theorem map_ne_error {f : α → β} {fault : ε} (hx : x ≠ .error fault) :
    x.map f ≠ .error fault := by
  cases x with
  | error cause => simpa [Except.map] using hx
  | ok a => simp [Except.map]

theorem bind_ne_error {f : α → Except ε β} {fault : ε} (hx : x ≠ .error fault)
    (hf : ∀ a, f a ≠ .error fault) : x >>= f ≠ .error fault := by
  cases x with
  | error cause => simpa [bind, Except.bind] using hx
  | ok a => exact hf a

/-- What a list of steps has come to has come of the steps. -/
theorem exists_of_mem_mapM {f : α → Except ε β} {xs : List α} {ys : List β}
    (h : xs.mapM f = .ok ys) : ∀ y ∈ ys, ∃ x ∈ xs, f x = .ok y := by
  induction xs generalizing ys with
  | nil =>
      obtain rfl := Except.ok.inj h
      simp
  | cons x rest ih =>
      rw [List.mapM_cons, bind_eq_ok] at h
      obtain ⟨y, hx, h⟩ := h
      obtain ⟨ys', hrest, h⟩ := bind_eq_ok.1 h
      obtain rfl := Except.ok.inj h
      intro z hz
      rcases List.mem_cons.1 hz with rfl | hz
      · exact ⟨x, List.mem_cons_self, hx⟩
      · obtain ⟨x', hx', hz⟩ := ih hrest z hz
        exact ⟨x', List.mem_cons_of_mem _ hx', hz⟩

end Motewatch
