import Mathlib.Data.List.Basic
import Mathlib.Data.Nat.ModEq

/-!
# Ring buffers with overflow counters

A ring of `N` slots is addressed by two counters that run modulo `2 * N`.  A counter
selects the slot with its number modulo `N`; the extra bit tells a full ring, whose
counters differ by `N`, from an empty one, whose counters are equal.
-/

namespace Ring

variable {α : Type*} (N : Nat)

/-- Number of entries between the read counter and the write counter. -/
def count (rd wr : Nat) : Nat := (wr + 2 * N - rd) % (2 * N)

def entries (f : Nat → α) (rd n : Nat) : List α :=
  (List.range n).map fun i => f ((rd + i) % N)

/-! ### Counters -/

variable {N} {rd wr : Nat}

theorem mod_two_mul {x : Nat} (hx : x < 4 * N) :
    x % (2 * N) = if x < 2 * N then x else x - 2 * N := by
  split
  · rename_i hlt
    exact Nat.mod_eq_of_lt hlt
  · rename_i hge
    rw [Nat.mod_eq_sub_mod (by omega), Nat.mod_eq_of_lt (by omega)]

theorem count_eq (hrd : rd < 2 * N) (hwr : wr < 2 * N) :
    count N rd wr = if rd ≤ wr then wr - rd else wr + 2 * N - rd := by
  rw [count, mod_two_mul (by omega)]
  split <;> split <;> omega

theorem count_self (hrd : rd < 2 * N) : count N rd rd = 0 := by
  rw [count_eq hrd hrd, if_pos (Nat.le_refl _), Nat.sub_self]

theorem count_eq_zero (hrd : rd < 2 * N) (hwr : wr < 2 * N) : count N rd wr = 0 ↔ rd = wr := by
  rw [count_eq hrd hwr]
  split <;> omega

/-- Adding an entry. -/
theorem count_push (hrd : rd < 2 * N) (hwr : wr < 2 * N) (h : count N rd wr < 2 * N - 1) :
    count N rd ((wr + 1) % (2 * N)) = count N rd wr + 1 := by
  rw [count_eq hrd hwr] at h ⊢
  rw [mod_two_mul (by omega)]
  split
  · rename_i hlt
    rw [count_eq hrd hlt]
    split at h <;> split <;> omega
  · rename_i hge
    rw [count_eq hrd (by omega)]
    split at h <;> split <;> omega

/-- Removing an entry. -/
theorem count_pop (hrd : rd < 2 * N) (hwr : wr < 2 * N) (h : 0 < count N rd wr) :
    count N ((rd + 1) % (2 * N)) wr = count N rd wr - 1 := by
  rw [count_eq hrd hwr] at h ⊢
  rw [mod_two_mul (by omega)]
  split
  · rename_i hlt
    rw [count_eq hlt hwr]
    split at h <;> split <;> omega
  · rename_i hge
    rw [count_eq (by omega) hwr]
    split at h <;> split <;> omega

theorem count_last (hwr : wr < 2 * N) :
    count N ((wr + 2 * N - 1) % (2 * N)) wr = 1 := by
  rw [mod_two_mul (by omega)]
  split
  · rename_i hlt
    rw [count_eq hlt hwr]
    split <;> omega
  · rename_i hge
    rw [count_eq (by omega) hwr]
    split <;> omega

/-! ### Entries -/

variable {f g : Nat → α} {n : Nat}

@[simp] theorem length_entries : (entries N f rd n).length = n := by
  rw [entries, List.length_map, List.length_range]

theorem entries_zero : entries N f rd 0 = [] := rfl

/-- A counter selects the same slots before and after its reduction. -/
theorem entries_mod : entries N f (rd % (2 * N)) n = entries N f rd n := by
  apply List.map_congr_left
  intro i _
  rw [Nat.add_mod, Nat.mod_mul_left_mod, ← Nat.add_mod]

theorem entries_succ :
    entries N f rd (n + 1) = f (rd % N) :: entries N f (rd + 1) n := by
  rw [entries, List.range_succ_eq_map, List.map_cons, List.map_map, Nat.add_zero, entries]
  congr 1
  apply List.map_congr_left
  intro i _
  rw [Function.comp_apply, Nat.succ_eq_add_one, Nat.add_assoc, Nat.add_comm 1 i]

/-- Popping advances the read counter. -/
theorem entries_tail :
    (entries N f rd n).tail = entries N f ((rd + 1) % (2 * N)) (n - 1) := by
  rw [entries_mod]
  cases n with
  | zero => rfl
  | succ n => rw [entries_succ, List.tail_cons, Nat.add_sub_cancel]

/-- Within a ring every entry has a slot of its own. -/
theorem slot_ne {i j : Nat} (hij : i < j) (hj : j < N) : (rd + i) % N ≠ (rd + j) % N := by
  intro heq
  have hmod : i % N = j % N := Nat.ModEq.add_left_cancel' rd heq
  rw [Nat.mod_eq_of_lt (by omega), Nat.mod_eq_of_lt hj] at hmod
  omega

theorem entries_congr (h : ∀ i, i < n → g ((rd + i) % N) = f ((rd + i) % N)) :
    entries N g rd n = entries N f rd n :=
  List.map_congr_left fun i hi => h i (List.mem_range.mp hi)

/-- Storing into the slot that the write counter selects appends an entry, as long
as the ring is not full. -/
theorem entries_push (hn : n < N) (h : ∀ i, i < N → i ≠ (rd + n) % N → g i = f i) :
    entries N g rd (n + 1) = entries N f rd n ++ [g ((rd + n) % N)] := by
  rw [entries, List.range_succ, List.map_append, List.map_singleton]
  congr 1
  apply List.map_congr_left
  intro i hi
  exact h _ (Nat.mod_lt _ (by omega)) (slot_ne (List.mem_range.mp hi) hn)

/-- Changing the slot that the read counter selects changes the first entry. -/
theorem entries_modify_head (hn : n + 1 ≤ N) (h : ∀ i, i < N → i ≠ rd % N → g i = f i) :
    entries N g rd (n + 1) = g (rd % N) :: (entries N f rd (n + 1)).tail := by
  rw [entries_succ, entries_succ, List.tail_cons]
  congr 1
  apply entries_congr
  intro i hi
  refine h _ (Nat.mod_lt _ (by omega)) ?_
  have hne : (rd + 0) % N ≠ (rd + (i + 1)) % N := slot_ne (by omega) (by omega)
  rw [Nat.add_zero] at hne
  rw [Nat.add_assoc, Nat.add_comm 1 i]
  exact hne.symm

/-! ### Rings with a free slot

The positions of such a ring are below `N`. Equal ones stand for an empty ring, so one slot is
always left free. -/

/-- Number of entries from the read position up to the write position. -/
def fill (N rd wr : Nat) : Nat := (wr + N - rd) % N

def between (N : Nat) (f : Nat → α) (rd wr : Nat) : List α := entries N f rd (fill N rd wr)

section FreeSlot

theorem fill_eq (hrd : rd < N) (hwr : wr < N) :
    fill N rd wr = if rd ≤ wr then wr - rd else wr + N - rd := by
  rw [fill]
  split
  · rw [show wr + N - rd = wr - rd + N by omega, Nat.add_mod_right, Nat.mod_eq_of_lt (by omega)]
  · exact Nat.mod_eq_of_lt (by omega)

theorem succ_mod (hwr : wr < N) : (wr + 1) % N = if wr + 1 = N then 0 else wr + 1 := by
  split
  case isTrue h => rw [h, Nat.mod_self]
  case isFalse h => exact Nat.mod_eq_of_lt (by omega)

theorem fill_lt (hrd : rd < N) (hwr : wr < N) : fill N rd wr < N := by
  rw [fill_eq hrd hwr]
  split <;> omega

theorem fill_eq_zero_iff (hrd : rd < N) (hwr : wr < N) : fill N rd wr = 0 ↔ rd = wr := by
  rw [fill_eq hrd hwr]
  split <;> omega

theorem fill_push (hrd : rd < N) (hwr : wr < N) (h : (wr + 1) % N ≠ rd) :
    fill N rd ((wr + 1) % N) = fill N rd wr + 1 := by
  rw [fill_eq hrd (Nat.mod_lt _ (by omega)), fill_eq hrd hwr]
  rw [succ_mod hwr] at h ⊢
  by_cases hlast : wr + 1 = N
  · simp only [if_pos hlast] at h ⊢
    split <;> split <;> omega
  · simp only [if_neg hlast] at h ⊢
    split <;> split <;> omega

/-- Several entries are appended at once. -/
theorem fill_add {k : Nat} (hrd : rd < N) (hwr : wr < N) (h : fill N rd wr + k < N) :
    fill N rd ((wr + k) % N) = fill N rd wr + k := by
  have hmod : (wr + k) % N = if wr + k < N then wr + k else wr + k - N := by
    split
    case isTrue hlt => exact Nat.mod_eq_of_lt hlt
    case isFalse hge => rw [Nat.mod_eq_sub_mod (by omega), Nat.mod_eq_of_lt (by omega)]
  rw [fill_eq hrd (Nat.mod_lt _ (by omega))]
  rw [fill_eq hrd hwr] at h ⊢
  rw [hmod]
  by_cases hlt : wr + k < N
  · simp only [if_pos hlt]
    split at h <;> split <;> omega
  · simp only [if_neg hlt]
    split at h <;> split <;> omega

theorem fill_pop (hrd : rd < N) (hwr : wr < N) (h : rd ≠ wr) :
    fill N rd wr = fill N ((rd + 1) % N) wr + 1 := by
  rw [fill_eq (Nat.mod_lt _ (by omega)) hwr, fill_eq hrd hwr, succ_mod hrd]
  by_cases hlast : rd + 1 = N
  · simp only [if_pos hlast]
    split <;> split <;> omega
  · simp only [if_neg hlast]
    split <;> split <;> omega

/-- The write position is behind the last entry. -/
theorem add_fill_mod (hrd : rd < N) (hwr : wr < N) : (rd + fill N rd wr) % N = wr := by
  rw [fill_eq hrd hwr]
  split
  · rw [show rd + (wr - rd) = wr by omega, Nat.mod_eq_of_lt hwr]
  · rw [show rd + (wr + N - rd) = wr + N by omega, Nat.add_mod_right, Nat.mod_eq_of_lt hwr]

/-- The free slot does not count. -/
theorem between_congr (hrd : rd < N) (hwr : wr < N) (h : ∀ i, i < N → i ≠ wr → g i = f i) :
    between N g rd wr = between N f rd wr := by
  refine entries_congr fun i hi => h _ (Nat.mod_lt _ (by omega)) ?_
  have hfill := fill_lt hrd hwr
  rw [← add_fill_mod hrd hwr]
  exact slot_ne hi hfill

theorem between_push (hrd : rd < N) (hwr : wr < N) (h : (wr + 1) % N ≠ rd) :
    between N f rd ((wr + 1) % N) = between N f rd wr ++ [f wr] := by
  have hfill := fill_lt hrd hwr
  rw [between, between, fill_push hrd hwr h]
  refine (entries_push hfill fun i _ _ => rfl).trans ?_
  rw [add_fill_mod hrd hwr]

theorem between_pop (hrd : rd < N) (hwr : wr < N) (h : rd ≠ wr) :
    between N f rd wr = f rd :: between N f ((rd + 1) % N) wr := by
  rw [between, between, fill_pop hrd hwr h, entries_succ, Nat.mod_eq_of_lt hrd]
  congr 1
  apply List.map_congr_left
  intro i _
  rw [Nat.mod_add_mod]

end FreeSlot

end Ring
