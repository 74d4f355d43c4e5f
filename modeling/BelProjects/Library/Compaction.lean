import Mathlib.Data.Nat.Count
import Mathlib.Data.List.Nodup

/-!
# Compaction

Elements are removed from a sequence one after the other, and the elements behind a removed
one move down.  What is left has one position for every kept element, in the old order.
-/

namespace Compaction

/-- The position of a kept element once the positions in `D` are removed. -/
def renumbered (D : List Nat) (i : Nat) : Nat := Nat.count (fun j => j ∉ D) i

variable {D : List Nat} {i j v : Nat}

@[simp] theorem renumbered_nil (i : Nat) : renumbered [] i = i := by
  unfold renumbered
  simp only [List.not_mem_nil, not_false_eq_true, Nat.count_true]

theorem renumbered_succ (D : List Nat) (i : Nat) :
    renumbered D (i + 1) = renumbered D i + if i ∉ D then 1 else 0 :=
  Nat.count_succ _ i

theorem renumbered_congr {D' : List Nat} (h : ∀ j, j ∈ D ↔ j ∈ D') : renumbered D = renumbered D' := by
  funext i
  induction i with
  | zero => rfl
  | succ i ih => simp only [renumbered_succ, ih, h]

theorem renumbered_lt (hi : i ∉ D) (h : i < j) : renumbered D i < renumbered D j :=
  Nat.count_strict_mono hi h

theorem renumbered_inj (hi : i ∉ D) (hj : j ∉ D) (h : renumbered D i = renumbered D j) : i = j :=
  Nat.count_injective hi hj h

/-- One more removed position moves down what is behind it. -/
theorem renumbered_cons (hv : v ∉ D) (i : Nat) :
    renumbered (v :: D) i = if v < i then renumbered D i - 1 else renumbered D i := by
  induction i with
  | zero => rfl
  | succ i ih =>
    rw [renumbered_succ, renumbered_succ, ih]
    rcases Nat.lt_trichotomy v i with hlt | rfl | hgt
    · have hpos : 0 < renumbered D i :=
        Nat.lt_of_le_of_lt (Nat.zero_le _) (renumbered_lt hv hlt)
      have hne : i ≠ v := Nat.ne_of_gt hlt
      rw [if_pos hlt, if_pos (Nat.lt_succ_of_lt hlt)]
      by_cases hi : i ∈ D
      · simp [hi]
      · simp [hi, hne]
        omega
    · simp [hv]
    · have hne : i ≠ v := Nat.ne_of_lt hgt
      have hle : ¬ v < i + 1 := Nat.not_lt.2 hgt
      simp only [if_neg (Nat.lt_asymm hgt), if_neg hle, List.mem_cons, hne, false_or]

/-- Every position below is the one of a kept element. -/
theorem exists_renumbered {n : Nat} (h : j < renumbered D n) :
    ∃ i, i < n ∧ i ∉ D ∧ renumbered D i = j := by
  induction n with
  | zero => exact absurd h (Nat.not_lt_zero _)
  | succ n ih =>
    rcases Nat.lt_or_ge j (renumbered D n) with hlt | hge
    · obtain ⟨i, hi, hrest⟩ := ih hlt
      exact ⟨i, Nat.lt_succ_of_lt hi, hrest⟩
    · rw [renumbered_succ] at h
      by_cases hn : n ∈ D
      · rw [if_neg (not_not.2 hn)] at h
        exact absurd h (Nat.not_lt.2 hge)
      · rw [if_pos hn] at h
        exact ⟨n, Nat.lt_succ_self n, hn, Nat.le_antisymm hge (Nat.le_of_lt_succ h)⟩

/-- What is in front of all removed positions stays. -/
theorem renumbered_of_le {D : List Nat} {i : Nat} (h : ∀ d ∈ D, i ≤ d) : renumbered D i = i := by
  induction i with
  | zero => rfl
  | succ i ih =>
    have hi : i ∉ D := fun hi => Nat.not_succ_le_self i (h i hi)
    rw [renumbered_succ, ih fun d hd => Nat.le_of_succ_le (h d hd), if_pos hi]

variable {α : Type*} {l l' : List α}

structure Compacted (D : List Nat) (l l' : List α) : Prop where
  length : l'.length = renumbered D l.length
  get : ∀ i, i ∉ D → i < l.length → l'[renumbered D i]? = l[i]?

theorem Compacted.refl (l : List α) : Compacted [] l l := by
  constructor
  · exact (renumbered_nil _).symm
  · intro i _ _
    rw [renumbered_nil]

theorem Compacted.congr {D' : List Nat} (h : Compacted D l l') (hD : ∀ j, j ∈ D ↔ j ∈ D') :
    Compacted D' l l' := by
  constructor
  · rw [← renumbered_congr hD]
    exact h.length
  · intro i hi hlt
    rw [← renumbered_congr hD]
    exact h.get i (mt (hD i).1 hi) hlt

/-- One more element is removed, from where it is by then. -/
theorem Compacted.eraseIdx (h : Compacted D l l') (hv : v ∉ D) (hlt : v < l.length) :
    Compacted (v :: D) l (l'.eraseIdx (renumbered D v)) := by
  have hpos : renumbered D v < l'.length := h.length ▸ renumbered_lt hv hlt
  constructor
  · rw [List.length_eraseIdx_of_lt hpos, renumbered_cons hv, if_pos hlt, h.length]
  · intro i hi hil
    obtain ⟨hne, hi⟩ := not_or.1 (mt List.mem_cons.2 hi)
    rw [renumbered_cons hv, List.getElem?_eraseIdx, ← h.get i hi hil]
    rcases Nat.lt_or_gt_of_ne hne with hbefore | hbehind
    · rw [if_neg (Nat.lt_asymm hbefore), if_pos (renumbered_lt hi hbefore)]
    · have hmoved := renumbered_lt hv hbehind
      rw [if_pos hbehind, if_neg (by omega)]
      congr 1
      omega

/-- What is left was there before, and kept. -/
theorem Compacted.mem (h : Compacted D l l') {x : α} (hx : x ∈ l') :
    ∃ i, i ∉ D ∧ l[i]? = some x := by
  obtain ⟨j, hj⟩ := List.mem_iff_getElem?.1 hx
  have hlt : j < renumbered D l.length := h.length ▸ (List.getElem?_eq_some_iff.1 hj).1
  obtain ⟨i, hi, hkept, rfl⟩ := exists_renumbered hlt
  exact ⟨i, hkept, (h.get i hkept hi).symm.trans hj⟩

end Compaction
