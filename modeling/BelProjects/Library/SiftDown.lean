import Mathlib.Data.List.FinRange
import Mathlib.Order.Defs.LinearOrder
import Mathlib.Logic.Function.Basic

/-!
# Sifting down in a binary heap

The heap is a function from positions to entries; only the first `n` positions
belong to it, and the children of position `p` are `2 * p + 1` and `2 * p + 2`.
An entry that may be too large for its place is taken out and moved down as a
*hole*: the smaller child is copied over the hole as long as it is smaller than
the moving entry, and the moving entry is stored once at the end.

The order proof looks at the heap with the moving entry put back into the hole.
On that heap one round of the loop exchanges two entries, so permutation and
order both follow the exchanges.
-/

namespace SiftDown

open Function

variable {α κ : Type*} [LinearOrder κ] (key : α → κ) (n : Nat)

/-- The position that the moving entry `x` leaves the hole `p` for: the smaller
child if it is smaller than `x`, and `p` itself otherwise. -/
def choice (h : Nat → α) (x : α) (p : Nat) : Nat :=
  if 2 * p + 2 < n ∧ key (h (2 * p + 2)) < key x ∧ key (h (2 * p + 2)) < key (h (2 * p + 1)) then
    2 * p + 2
  else if 2 * p + 1 < n ∧ key (h (2 * p + 1)) < key x then 2 * p + 1
  else p

/-- Move the hole at `p` down and store `x` where it comes to rest. The first
argument bounds the number of rounds. -/
def siftHole (x : α) : Nat → (Nat → α) → Nat → Nat → α
  | 0, h, p => update h p x
  | fuel + 1, h, p =>
      let c := choice key n h x p
      if c = p then update h p x
      else siftHole x fuel (update h p (h c)) c

def sift (h : Nat → α) (p : Nat) : Nat → α := siftHole key n (h p) n h p

/-- The entry at `p` is not larger than its children. -/
def ParentLe (h : Nat → α) (p : Nat) : Prop :=
  (2 * p + 1 < n → key (h p) ≤ key (h (2 * p + 1))) ∧
    (2 * p + 2 < n → key (h p) ≤ key (h (2 * p + 2)))

/-- The heap order holds at every position from `k` on. -/
def HeapFrom (h : Nat → α) (k : Nat) : Prop := ∀ p, k ≤ p → ParentLe key n h p

/-- The heap order holds from `k` on except at `p`, and the entry above `p` is not
larger than the children of `p`. -/
structure HeapExcept (h : Nat → α) (k p : Nat) : Prop where
  start_le : k ≤ p
  others : ∀ q, k ≤ q → q ≠ p → ParentLe key n h q
  grand : ∀ q, k ≤ q → (p = 2 * q + 1 ∨ p = 2 * q + 2) →
    (2 * p + 1 < n → key (h q) ≤ key (h (2 * p + 1))) ∧
      (2 * p + 2 < n → key (h q) ≤ key (h (2 * p + 2)))

/-- The two heaps hold the same entries below `n` up to their order, and agree
everywhere else. -/
structure Rearranged (h h' : Nat → α) : Prop where
  perm : (List.ofFn fun i : Fin n => h' i).Perm (List.ofFn fun i : Fin n => h i)
  beyond : ∀ i, n ≤ i → h' i = h i

/-! ### One round -/

def exchange (h : Nat → α) (p c : Nat) : Nat → α := update (update h p (h c)) c (h p)

theorem exchange_at (h : Nat → α) (p c i : Nat) :
    exchange h p c i = if i = c then h p else if i = p then h c else h i := by
  simp only [exchange, update_apply]

/-- A chosen child is a child of the hole inside the heap, smaller than the moving
entry and not larger than its sibling. -/
theorem choice_child {h : Nat → α} {x : α} {p : Nat} (hc : choice key n h x p ≠ p) :
    let c := choice key n h x p
    (c = 2 * p + 1 ∨ c = 2 * p + 2) ∧ c < n ∧ key (h c) < key x ∧
      (2 * p + 1 < n → key (h c) ≤ key (h (2 * p + 1))) ∧
      (2 * p + 2 < n → key (h c) ≤ key (h (2 * p + 2))) := by
  intro c
  simp only [c, choice] at hc ⊢
  split at hc
  · rename_i hr
    rw [if_pos hr]
    exact ⟨Or.inr rfl, hr.1, hr.2.1, fun _ => hr.2.2.le, fun _ => le_rfl⟩
  · rename_i hr
    split at hc
    · rename_i hl
      rw [if_neg hr, if_pos hl]
      refine ⟨Or.inl rfl, hl.1, hl.2, fun _ => le_rfl, fun hn => ?_⟩
      by_contra hlt
      exact hr ⟨hn, lt_trans (not_le.mp hlt) hl.2, not_le.mp hlt⟩
    · exact absurd rfl hc

/-- When no child is chosen the moving entry fits into the hole. -/
theorem choice_self {h : Nat → α} {p : Nat} (hc : choice key n h (h p) p = p) :
    ParentLe key n h p := by
  simp only [choice] at hc
  split at hc
  · omega
  · rename_i hr
    split at hc
    · omega
    · rename_i hl
      have hleft : 2 * p + 1 < n → key (h p) ≤ key (h (2 * p + 1)) :=
        fun hn => not_lt.mp fun hlt => hl ⟨hn, hlt⟩
      refine ⟨hleft, fun hn => not_lt.mp fun hlt => ?_⟩
      exact hr ⟨hn, hlt, lt_of_lt_of_le hlt (hleft (by omega))⟩

/-- An entry that fits is not moved. -/
theorem choice_of_parentLe {h : Nat → α} {p : Nat} (hp : ParentLe key n h p) :
    choice key n h (h p) p = p := by
  rw [choice, if_neg fun hr => not_lt.mpr (hp.2 hr.1) hr.2.1,
    if_neg fun hl => not_lt.mpr (hp.1 hl.1) hl.2]

theorem HeapExcept.moveDown {h : Nat → α} {k p : Nat} (hx : HeapExcept key n h k p)
    (hc : choice key n h (h p) p ≠ p) :
    HeapExcept key n (exchange h p (choice key n h (h p) p)) k (choice key n h (h p) p) := by
  obtain ⟨hchild, hlt, hsmall, hleft, hright⟩ := choice_child key n hc
  generalize choice key n h (h p) p = c at hc hchild hlt hsmall hleft hright ⊢
  have hstart := hx.start_le
  refine ⟨by omega, ?_, ?_⟩
  · intro q hq hqc
    by_cases hqp : q = p
    · -- the hole now holds the smaller child
      subst hqp
      constructor <;> intro hn <;> simp only [exchange_at, if_neg hqc, if_true]
      · split
        · exact hsmall.le
        · rw [if_neg (by omega)]; exact hleft hn
      · split
        · exact hsmall.le
        · rw [if_neg (by omega)]; exact hright hn
    · have hother := hx.others q hq hqp
      have hqne : exchange h p c q = h q := by
        rw [exchange_at, if_neg hqc, if_neg hqp]
      constructor <;> intro hn <;> rw [hqne, exchange_at]
      · rw [if_neg (by omega)]
        split
        · rename_i hp
          rcases hchild with rfl | rfl
          · exact (hx.grand q hq (Or.inl hp.symm)).1 (by omega)
          · exact (hx.grand q hq (Or.inl hp.symm)).2 (by omega)
        · exact hother.1 hn
      · rw [if_neg (by omega)]
        split
        · rename_i hp
          rcases hchild with rfl | rfl
          · exact (hx.grand q hq (Or.inr hp.symm)).1 (by omega)
          · exact (hx.grand q hq (Or.inr hp.symm)).2 (by omega)
        · exact hother.2 hn
  · intro q hq hqc
    have hqp : q = p := by omega
    subst hqp
    have hbelow := hx.others c (by omega) hc
    constructor <;> intro hn <;>
      simp only [exchange_at, if_neg (Ne.symm hc), if_true] <;>
      rw [if_neg (by omega), if_neg (by omega)]
    · exact hbelow.1 hn
    · exact hbelow.2 hn

theorem Rearranged.refl (h : Nat → α) : Rearranged n h h :=
  ⟨List.Perm.refl _, fun _ _ => rfl⟩

theorem Rearranged.trans {h₁ h₂ h₃ : Nat → α} (h₁₂ : Rearranged n h₁ h₂)
    (h₂₃ : Rearranged n h₂ h₃) : Rearranged n h₁ h₃ :=
  ⟨h₂₃.perm.trans h₁₂.perm, fun i hi => (h₂₃.beyond i hi).trans (h₁₂.beyond i hi)⟩

theorem Rearranged.ofExchange {h : Nat → α} {p c : Nat} (hp : p < n) (hc : c < n) :
    Rearranged n h (exchange h p c) := by
  refine ⟨?_, fun i hi => ?_⟩
  · have hswap : (fun i : Fin n => exchange h p c i) =
        (fun i : Fin n => h i) ∘ Equiv.swap ⟨p, hp⟩ ⟨c, hc⟩ := by
      funext i
      simp only [comp_apply, Equiv.swap_apply_def, exchange_at, Fin.ext_iff]
      split
      · split <;> simp_all
      · split <;> simp_all
    rw [hswap]
    exact Equiv.Perm.ofFn_comp_perm _ _
  · rw [exchange_at, if_neg (by omega), if_neg (by omega)]

/-! ### The whole sift -/

/-- One round of the hole is an exchange of the heap with the hole filled. -/
theorem siftHole_succ (x : α) (fuel : Nat) (h : Nat → α) (p : Nat) :
    siftHole key n x (fuel + 1) h p =
      if choice key n h x p = p then update h p x
      else siftHole key n x fuel (update h p (h (choice key n h x p))) (choice key n h x p) :=
  rfl

theorem choice_update (h : Nat → α) (x : α) (p : Nat) :
    choice key n (update h p x) x p = choice key n h x p := by
  have hl : 2 * p + 1 ≠ p := by omega
  have hr : 2 * p + 2 ≠ p := by omega
  simp only [choice, update_of_ne hl, update_of_ne hr]

theorem update_exchange (h : Nat → α) (x : α) {p c : Nat} (hc : c ≠ p) :
    update (update h p (h c)) c x = exchange (update h p x) p c := by
  funext i
  rw [exchange_at]
  by_cases hic : i = c
  · subst hic; simp
  · by_cases hip : i = p
    · subst hip; simp [hic, hc]
    · simp [hic, hip]

/-- **Sifting a hole keeps the entries and restores the order**: with the moving
entry in the hole, every heap invariant of the exchanges holds at the end. -/
theorem siftHole_spec (x : α) (k : Nat) :
    ∀ (fuel : Nat) (h : Nat → α) (p : Nat), n ≤ p + fuel → p < n →
      Rearranged n (update h p x) (siftHole key n x fuel h p) ∧
        (HeapExcept key n (update h p x) k p →
          HeapFrom key n (siftHole key n x fuel h p) k) := by
  intro fuel
  induction fuel with
  | zero => intro h p hfuel hp; omega
  | succ fuel ih =>
      intro h p hfuel hp
      rw [siftHole_succ]
      by_cases hc : choice key n h x p = p
      · rw [if_pos hc]
        refine ⟨Rearranged.refl n _, fun hx q hq => ?_⟩
        by_cases hqp : q = p
        · subst hqp
          apply choice_self
          rw [update_self, choice_update]
          exact hc
        · exact hx.others q hq hqp
      · rw [if_neg hc]
        obtain ⟨hchild, hlt, -⟩ := choice_child key n hc
        have hround := ih (update h p (h (choice key n h x p))) (choice key n h x p)
          (by omega) hlt
        rw [update_exchange h x hc] at hround
        refine ⟨(Rearranged.ofExchange n hp hlt).trans n hround.1, fun hx => hround.2 ?_⟩
        have hmoved := hx.moveDown key n
        rw [update_self, choice_update] at hmoved
        exact hmoved hc

theorem sift_rearranged (h : Nat → α) {p : Nat} (hp : p < n) :
    Rearranged n h (sift key n h p) := by
  have hspec := (siftHole_spec key n (h p) 0 n h p (by omega) hp).1
  rwa [update_eq_self] at hspec

/-- **Sift down**: if the order holds from `p + 1` on, it holds from `p` on after
sifting the entry at `p`. -/
theorem sift_heapFrom {h : Nat → α} {p : Nat} (hp : p < n) (hh : HeapFrom key n h (p + 1)) :
    HeapFrom key n (sift key n h p) p := by
  refine (siftHole_spec key n (h p) p n h p (by omega) hp).2 ?_
  rw [update_eq_self]
  refine ⟨le_rfl, fun q hq hqp => hh q (by omega), fun q hq hqp => ?_⟩
  omega

theorem sift_fixed {h : Nat → α} {p : Nat} (hn : 0 < n) (hp : ParentLe key n h p) :
    sift key n h p = h := by
  obtain ⟨k, rfl⟩ : ∃ k, n = k + 1 := ⟨n - 1, by omega⟩
  rw [sift, siftHole_succ, if_pos (choice_of_parentLe key (k + 1) hp), update_eq_self]

/-- Positions without children satisfy the order. -/
theorem heapFrom_half (h : Nat → α) : HeapFrom key n h (n / 2) := by
  intro p hp
  constructor <;> intro hn <;> omega

theorem root_le {h : Nat → α} (hh : HeapFrom key n h 0) :
    ∀ i, i < n → key (h 0) ≤ key (h i) := by
  intro i
  induction i using Nat.strongRecOn with
  | ind i ih =>
      intro hi
      rcases Nat.eq_zero_or_pos i with rfl | hpos
      · exact le_rfl
      · have hup := ih ((i - 1) / 2) (by omega) (by omega)
        obtain ⟨hl, hr⟩ := hh ((i - 1) / 2) (Nat.zero_le _)
        have hcases : i = 2 * ((i - 1) / 2) + 1 ∨ i = 2 * ((i - 1) / 2) + 2 := by omega
        rcases hcases with hodd | heven
        · rw [← hodd] at hl
          exact hup.trans (hl hi)
        · rw [← heven] at hr
          exact hup.trans (hr hi)

end SiftDown
