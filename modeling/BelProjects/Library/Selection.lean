import Mathlib.Data.Finite.Defs
import Mathlib.Data.Prod.Lex
import Mathlib.Data.Fintype.Lattice

/-!
# Selection of a smallest key

A selection network picks one index with the smallest key, the last one if there are
several.  Networks can be nested: select in each group, and then among the groups.
-/

section Selection

variable {ι κ γ α : Type*}

/-- `i` has the smallest key, and is the last index that has it. -/
def Selected [LT ι] [LE ι] [LT α] [LE α] (k : ι → α) (i : ι) : Prop :=
  ∀ j, (j ≤ i → k i ≤ k j) ∧ (i < j → k i < k j)

variable [LinearOrder ι] [LinearOrder κ] [LinearOrder γ] [LinearOrder α]

theorem Selected.le {k : ι → α} {i : ι} (h : Selected k i) (j : ι) : k i ≤ k j := by
  rcases le_or_gt j i with hle | hlt
  · exact (h j).1 hle
  · exact le_of_lt ((h j).2 hlt)

theorem Selected.unique {k : ι → α} {i j : ι} (hi : Selected k i) (hj : Selected k j) : i = j := by
  rcases lt_trichotomy i j with hlt | heq | hlt
  · exact absurd ((hi j).2 hlt) (not_lt.mpr (hj.le i))
  · exact heq
  · exact absurd ((hj i).2 hlt) (not_lt.mpr (hi.le j))

theorem Selected.comp {k : ι → α} {f : κ → ι} (hf : StrictMono f) {j : κ} (h : Selected k (f j)) :
    Selected (fun j => k (f j)) j :=
  fun j' => ⟨fun hle => (h (f j')).1 (hf.monotone hle), fun hlt => (h (f j')).2 (hf hlt)⟩

theorem Selected.exists [Finite ι] [Nonempty ι] (k : ι → α) : ∃ i, Selected k i := by
  obtain ⟨i, hi⟩ := Finite.exists_min fun i : ι => toLex (k i, OrderDual.toDual i)
  refine ⟨i, fun j => ?_⟩
  rcases Prod.Lex.toLex_le_toLex.mp (hi j) with hlt | ⟨heq, hle⟩
  · exact ⟨fun _ => le_of_lt hlt, fun _ => hlt⟩
  · exact ⟨fun _ => le_of_eq heq, fun hij => absurd (OrderDual.toDual_le_toDual.mp hle) (not_le.mpr hij)⟩

/-- **Two levels.**  With the groups in the order of the indices, the selection among the
selected keys of the groups is the selection among all keys. -/
theorem Selected.nested {c : ι → κ → γ} {k : γ → α} {g : ι → α} {i : ι} {j : κ}
    (hall : ∀ x, ∃ i j, x = c i j)
    (hlex : ∀ {i i' j j'}, c i j < c i' j' → i < i' ∨ i = i' ∧ j < j')
    (hgroup : ∀ i, ∃ j, Selected (fun j => k (c i j)) j ∧ g i = k (c i j))
    (hi : Selected g i) (hj : Selected (fun j => k (c i j)) j) : Selected k (c i j) := by
  have hkey : ∀ i' j', g i' ≤ k (c i' j') := by
    intro i' j'
    obtain ⟨j₀, hj₀, heq⟩ := hgroup i'
    rw [heq]
    exact hj₀.le j'
  have hown : g i = k (c i j) := by
    obtain ⟨j₀, hj₀, heq⟩ := hgroup i
    rw [heq, hj₀.unique hj]
  intro x
  obtain ⟨i', j', rfl⟩ := hall x
  constructor
  · intro _
    rw [← hown]
    exact (hi.le i').trans (hkey i' j')
  · intro hlt
    rcases hlex hlt with hii | ⟨rfl, hjj⟩
    · rw [← hown]
      exact lt_of_lt_of_le ((hi i').2 hii) (hkey i' j')
    · exact (hj j').2 hjj

end Selection
