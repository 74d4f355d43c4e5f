import Mathlib.Data.List.Sort
import Mathlib.Logic.Function.Basic

/-!
# Arrays with checked accesses

The memory of an array is a function from indices to entries.  A program touches only the
entries below a size: every other access is a fault, and so is a division by zero.

Two programs are given.  A loop that only reads is a fold over the entries it reads.  Insertion
sort takes out one entry after the other, moves the larger entries below it up by one, and
stores it in the hole that is left; it touches no entry outside the part it sorts.
-/

namespace CheckedArray

open Function

inductive Fault where
  | divByZero
  | outOfBounds
  deriving DecidableEq, Repr

variable {α β : Type}

def load (size : Nat) (mem : Nat → α) (i : Nat) : Except Fault α :=
  if i < size then .ok (mem i) else .error .outOfBounds

def store (size : Nat) (mem : Nat → α) (i : Nat) (a : α) : Except Fault (Nat → α) :=
  if i < size then .ok (update mem i a) else .error .outOfBounds

def contents (mem : Nat → α) (n : Nat) : List α := (List.range n).map mem

/-! ### Accesses inside the array -/

@[simp] theorem ok_bind (a : α) (f : α → Except Fault β) : (Except.ok a >>= f) = f a := rfl

@[simp] theorem pure_eq_ok (a : α) : (pure a : Except Fault α) = Except.ok a := rfl

theorem load_ok {size : Nat} {i : Nat} (h : i < size) (mem : Nat → α) :
    load size mem i = .ok (mem i) := if_pos h

theorem store_ok {size : Nat} {i : Nat} (h : i < size) (mem : Nat → α) (a : α) :
    store size mem i a = .ok (update mem i a) := if_pos h

@[simp] theorem length_contents (mem : Nat → α) (n : Nat) : (contents mem n).length = n := by
  simp [contents]

theorem contents_succ (mem : Nat → α) (n : Nat) :
    contents mem (n + 1) = contents mem n ++ [mem n] := by
  simp [contents, List.range_succ]

theorem getElem?_contents {mem : Nat → α} {n i : Nat} (h : i < n) :
    (contents mem n)[i]? = some (mem i) := by
  simp [contents, h]

theorem contents_congr {mem mem' : Nat → α} {n : Nat} (h : ∀ i < n, mem i = mem' i) :
    contents mem n = contents mem' n :=
  List.map_congr_left fun i hi => h i (List.mem_range.mp hi)

/-- A loop that only reads is a fold over the entries. -/
theorem foldlM_load {size : Nat} (mem : Nat → α) (f : β → α → β) {is : List Nat}
    (h : ∀ i ∈ is, i < size) (b : β) :
    is.foldlM (fun b i => do let a ← load size mem i; pure (f b a)) b =
      .ok ((is.map mem).foldl f b) := by
  induction is generalizing b with
  | nil => rfl
  | cons i is ih =>
    simp only [List.foldlM_cons, load_ok (h i List.mem_cons_self), ok_bind, pure_eq_ok]
    exact ih (fun k hk => h k (List.mem_cons_of_mem i hk)) (f b (mem i))

/-! ### Insertion sort -/

section Sorting

variable [LinearOrder α]

/-- Move the entries above `tmp` up by one, down from the hole at the second argument. The result
is the place of the hole. -/
def shiftUp (size : Nat) (tmp : α) : Nat → (Nat → α) → Except Fault (Nat × (Nat → α))
  | 0, mem => .ok (0, mem)
  | j + 1, mem => do
      let below ← load size mem j
      if tmp < below then
        let mem ← store size mem (j + 1) below
        shiftUp size tmp j mem
      else .ok (j + 1, mem)

/-- Put the entry at `i` to its place among those below it. -/
def insertAt (size : Nat) (mem : Nat → α) (i : Nat) : Except Fault (Nat → α) := do
  let tmp ← load size mem i
  let (hole, mem) ← shiftUp size tmp i mem
  store size mem hole tmp

def insertionSort (size : Nat) (mem : Nat → α) (n : Nat) : Except Fault (Nat → α) :=
  (List.range' 1 (n - 1)).foldlM (insertAt size) mem

/-- The hole has gone from `j` down to `hole`: the entries between are above `tmp` and one place
higher, and the entry below the hole is not above `tmp`. -/
structure Shifted (tmp : α) (j : Nat) (mem : Nat → α) (hole : Nat) (mem' : Nat → α) : Prop where
  hole_le : hole ≤ j
  below : ∀ k < hole, mem' k = mem k
  moved : ∀ k, hole ≤ k → k < j → mem' (k + 1) = mem k ∧ tmp < mem k
  above : ∀ k, j < k → mem' k = mem k
  stop : ∀ k, k + 1 = hole → mem k ≤ tmp

theorem shiftUp_ok (tmp : α) (j : Nat) (mem : Nat → α) :
    ∃ hole mem', (∀ size, j < size → shiftUp size tmp j mem = .ok (hole, mem')) ∧
      Shifted tmp j mem hole mem' := by
  induction j generalizing mem with
  | zero =>
    refine ⟨0, mem, fun _ _ => rfl, Nat.le_refl 0, ?_, ?_, fun _ _ => rfl, ?_⟩ <;> intro k <;> omega
  | succ j ih =>
    by_cases hlt : tmp < mem j
    · obtain ⟨hole, mem', hrun, hs⟩ := ih (update mem (j + 1) (mem j))
      refine ⟨hole, mem', ?_, Nat.le_succ_of_le hs.hole_le, ?_, ?_, ?_, ?_⟩
      · intro size h
        simp only [shiftUp, load_ok (show j < size by omega), ok_bind, if_pos hlt, store_ok h]
        exact hrun size (by omega)
      · intro k hk
        have hle := hs.hole_le
        rw [hs.below k hk, update_of_ne (by omega)]
      · intro k hlow hhigh
        rcases Nat.lt_or_eq_of_le (Nat.le_of_lt_succ hhigh) with hk | rfl
        · have hmoved := hs.moved k hlow hk
          rwa [update_of_ne (by omega)] at hmoved
        · exact ⟨by rw [hs.above _ (by omega), update_self], hlt⟩
      · intro k hk
        rw [hs.above k (by omega), update_of_ne (by omega)]
      · intro k hk
        have hle := hs.hole_le
        have hstop := hs.stop k hk
        rwa [update_of_ne (by omega)] at hstop
    · refine ⟨j + 1, mem, ?_, Nat.le_refl _, fun _ _ => rfl, ?_, fun _ _ => rfl, ?_⟩
      · intro size h
        simp only [shiftUp, load_ok (show j < size by omega), ok_bind, if_neg hlt]
      · intro k
        omega
      · intro k hk
        obtain rfl : k = j := by omega
        exact not_lt.mp hlt

theorem Shifted.contents_eq {tmp : α} {j : Nat} {mem : Nat → α} {hole : Nat} {mem' : Nat → α}
    (h : Shifted tmp j mem hole mem') :
    contents (update mem' hole tmp) (j + 1) =
      (contents mem j).take hole ++ tmp :: (contents mem j).drop hole := by
  have hle := h.hole_le
  apply List.ext_getElem?
  intro i
  rcases Nat.lt_trichotomy i hole with hi | rfl | hi
  · rw [getElem?_contents (by omega), update_of_ne (by omega), h.below i hi,
      List.getElem?_append_left (by simp; omega), List.getElem?_take_of_lt hi,
      getElem?_contents (by omega)]
  · rw [getElem?_contents (by omega), update_self, List.getElem?_append_right (by simp)]
    simp [Nat.min_eq_left hle]
  · rw [List.getElem?_append_right (by simp; omega), List.length_take, length_contents,
      Nat.min_eq_left hle, show i - hole = i - 1 - hole + 1 by omega, List.getElem?_cons_succ,
      List.getElem?_drop, show hole + (i - 1 - hole) = i - 1 by omega]
    rcases Nat.lt_or_ge i (j + 1) with hj | hj
    · rw [getElem?_contents hj, update_of_ne (by omega), getElem?_contents (by omega),
        show i = i - 1 + 1 by omega, (h.moved (i - 1) (by omega) (by omega)).1]
      rfl
    · rw [List.getElem?_eq_none (by simp; omega), List.getElem?_eq_none (by simp; omega)]

theorem Shifted.ordered {tmp : α} {j : Nat} {mem : Nat → α} {hole : Nat} {mem' : Nat → α}
    (h : Shifted tmp j mem hole mem') (hsorted : (contents mem j).Pairwise (· ≤ ·)) :
    (contents (update mem' hole tmp) (j + 1)).Pairwise (· ≤ ·) := by
  have hle := h.hole_le
  have hparts := hsorted
  rw [← List.take_append_drop hole (contents mem j), List.pairwise_append] at hparts
  obtain ⟨htake, hdrop, hcross⟩ := hparts
  have habove : ∀ b ∈ (contents mem j).drop hole, tmp < b := by
    intro b hb
    obtain ⟨i, hi⟩ := List.mem_iff_getElem?.mp hb
    rw [List.getElem?_drop] at hi
    have hij : hole + i < j := by
      have hlt := (List.getElem?_eq_some_iff.mp hi).1
      simpa using hlt
    rw [getElem?_contents hij] at hi
    exact Option.some.inj hi ▸ (h.moved (hole + i) (by omega) hij).2
  have hbelow : ∀ a ∈ (contents mem j).take hole, a ≤ tmp := by
    intro a ha
    obtain ⟨i, hi⟩ := List.mem_iff_getElem?.mp ha
    have hih : i < hole := by
      have hlt := (List.getElem?_eq_some_iff.mp hi).1
      simp only [List.length_take, length_contents] at hlt
      omega
    rw [List.getElem?_take_of_lt hih, getElem?_contents (by omega)] at hi
    -- the entry just below the hole is the largest of them
    have hlast := h.stop (hole - 1) (by omega)
    refine le_trans ?_ hlast
    obtain rfl : mem i = a := Option.some.inj hi
    rcases Nat.lt_or_ge i (hole - 1) with hlt | hge
    · exact List.pairwise_iff_getElem.mp hsorted i (hole - 1) (by simp; omega) (by simp; omega) hlt
        |>.trans_eq' (by simp [contents]) |>.trans_eq (by simp [contents])
    · rw [show hole - 1 = i by omega]
  rw [h.contents_eq, List.pairwise_append, List.pairwise_cons]
  refine ⟨htake, ⟨fun b hb => le_of_lt (habove b hb), hdrop⟩, ?_⟩
  intro a ha b hb
  rcases List.mem_cons.mp hb with rfl | hb
  · exact hbelow a ha
  · exact hcross a ha b hb

theorem insertAt_ok {i : Nat} {mem : Nat → α} (hsorted : (contents mem i).Pairwise (· ≤ ·)) :
    ∃ mem', (∀ size, i < size → insertAt size mem i = .ok mem') ∧
      (contents mem' (i + 1)).Pairwise (· ≤ ·) ∧
      (contents mem' (i + 1)).Perm (contents mem (i + 1)) ∧ ∀ k, i < k → mem' k = mem k := by
  obtain ⟨hole, mem', hrun, hs⟩ := shiftUp_ok (mem i) i mem
  have hle := hs.hole_le
  refine ⟨update mem' hole (mem i), ?_, hs.ordered hsorted, ?_, ?_⟩
  · intro size h
    simp only [insertAt, load_ok h, ok_bind, hrun size h, store_ok (show hole < size by omega)]
  · have hmiddle : ((contents mem i).take hole ++ mem i :: (contents mem i).drop hole).Perm
        (mem i :: contents mem i) := by
      refine List.perm_middle.trans ?_
      rw [List.take_append_drop]
    rw [hs.contents_eq, contents_succ]
    exact hmiddle.trans (List.perm_append_singleton (mem i) (contents mem i)).symm
  · intro k hk
    rw [update_of_ne (by omega), hs.above k hk]

/-- Insertion sort orders the entries and touches no others: its result is the same in every array
that has these entries. -/
theorem insertionSort_ok (mem : Nat → α) (n : Nat) :
    ∃ mem', (∀ size, n ≤ size → insertionSort size mem n = .ok mem') ∧
      contents mem' n = (contents mem n).insertionSort (· ≤ ·) ∧ ∀ i, n ≤ i → mem' i = mem i := by
  suffices hrun : ∀ m, ∃ mem',
      (∀ size, m + 1 ≤ size → (List.range' 1 m).foldlM (insertAt size) mem = .ok mem') ∧
      (contents mem' (m + 1)).Pairwise (· ≤ ·) ∧
      (contents mem' (m + 1)).Perm (contents mem (m + 1)) ∧ ∀ i, m < i → mem' i = mem i by
    rcases n with _ | n
    · exact ⟨mem, fun _ _ => rfl, rfl, fun _ _ => rfl⟩
    · obtain ⟨mem', hok, hsorted, hperm, hrest⟩ := hrun n
      refine ⟨mem', hok, ?_, hrest⟩
      exact List.Perm.eq_of_pairwise' hsorted (List.pairwise_insertionSort _ _)
        (hperm.trans (List.perm_insertionSort _ _).symm)
  intro m
  induction m with
  | zero => exact ⟨mem, fun _ _ => rfl, by simp [contents], .refl _, fun _ _ => rfl⟩
  | succ m ih =>
    obtain ⟨mem', hok, hsorted, hperm, hrest⟩ := ih
    obtain ⟨mem'', hok', hsorted', hperm', hrest'⟩ := insertAt_ok hsorted
    refine ⟨mem'', ?_, hsorted', ?_, ?_⟩
    · intro size h
      rw [List.range'_1_concat, List.foldlM_append, hok size (by omega), ok_bind, Nat.add_comm 1 m]
      simp only [List.foldlM_cons, List.foldlM_nil, hok' size (by omega), ok_bind, pure_eq_ok]
    · rw [contents_succ mem (m + 1), ← hrest (m + 1) (by omega)]
      refine hperm'.trans ?_
      rw [contents_succ]
      exact hperm.append_right _
    · intro i hi
      rw [hrest' i hi, hrest i (by omega)]

end Sorting

end CheckedArray
