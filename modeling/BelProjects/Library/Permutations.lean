import Mathlib.Data.List.Basic

/-!
# Lists up to the order of their elements

Splitting a list by a property of its elements and putting the parts together again.
-/

namespace Permutations

variable {α : Type*} {p q : α → Bool} {l : List α}

/-- No element has both properties. -/
theorem perm_filter_or (h : ∀ x ∈ l, p x = true → q x = false) :
    (l.filter fun x => p x || q x).Perm (l.filter p ++ l.filter q) := by
  have hsplit := (List.filter_append_perm p (l.filter fun x => p x || q x)).symm
  rw [List.filter_filter, List.filter_filter] at hsplit
  refine hsplit.trans (List.Perm.of_eq (congr_arg₂ _ ?_ ?_))
  · refine List.filter_congr fun x _ => ?_
    cases p x <;> rfl
  · refine List.filter_congr fun x hx => ?_
    cases hp : p x
    · rfl
    · exact (h x hx hp).symm

/-- Some elements are replaced by their images, the others are fixed. -/
theorem perm_map_of_fixed {f : α → α} (h : ∀ x ∈ l, p x = false → f x = x) :
    ((l.filter fun x => !p x) ++ (l.filter p).map f).Perm (l.map f) := by
  have hfixed : (l.filter fun x => !p x).map f = l.filter fun x => !p x := by
    refine (List.map_congr_left fun x hx => ?_).trans (List.map_id _)
    obtain ⟨hin, hx⟩ := List.mem_filter.1 hx
    exact h x hin (by simpa using hx)
  rw [← hfixed, ← List.map_append]
  exact (List.perm_append_comm.trans (List.filter_append_perm p l)).map f

/-- The elements are put together again by their keys. -/
theorem perm_flatMap_filter (key : α → Nat) (l : List α) (n : Nat) :
    ((List.range n).flatMap fun v => l.filter fun x => key x == v).Perm
      (l.filter fun x => key x < n) := by
  induction n with
  | zero => simp
  | succ n ih =>
    rw [List.range_succ, List.flatMap_append, List.flatMap_singleton]
    have hdisjoint : ∀ x ∈ l, decide (key x < n) = true → (key x == n) = false := by
      intro x _ hx
      have hlt : key x < n := of_decide_eq_true hx
      simpa using Nat.ne_of_lt hlt
    refine (ih.append_right _).trans ((perm_filter_or hdisjoint).symm.trans (List.Perm.of_eq ?_))
    refine List.filter_congr fun x _ => ?_
    rw [Bool.eq_iff_iff, Bool.or_eq_true, decide_eq_true_iff, decide_eq_true_iff, beq_iff_eq]
    exact Nat.lt_succ_iff_lt_or_eq.symm

end Permutations
