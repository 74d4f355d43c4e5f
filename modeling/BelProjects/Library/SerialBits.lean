import Mathlib.Data.BitVec

/-!
# Words on a serial line

A word is taken from a sequence of bits, the most significant one first, or put together by
writing its bits one after another.
-/

namespace SerialBits

/-- The `w` bits from number `first` on. -/
def word (x : Nat → Bool) : (first w : Nat) → BitVec w
  | _, 0 => 0#0
  | first, w + 1 => BitVec.cons (x first) (word x (first + 1) w)

def writeBit {w : Nat} (v : BitVec w) (i : Nat) (b : Bool) : BitVec w :=
  word (fun k => if w - 1 - k = i then b else v.getLsbD (w - 1 - k)) 0 w

theorem getLsbD_word (x : Nat → Bool) {first w i : Nat} (hi : i < w) :
    (word x first w).getLsbD (w - 1 - i) = x (first + i) := by
  induction w generalizing first i with
  | zero => exact absurd hi (Nat.not_lt_zero i)
  | succ w ih =>
      rw [word, BitVec.getLsbD_cons]
      cases i with
      | zero => exact if_pos rfl
      | succ i =>
          have hrev : w + 1 - 1 - (i + 1) = w - 1 - i := by omega
          have hnext : first + 1 + i = first + (i + 1) := by omega
          rw [hrev, if_neg (by omega), ih (Nat.lt_of_succ_lt_succ hi), hnext]

variable {w : Nat}

theorem eq_word {x : Nat → Bool} {first : Nat} {v : BitVec w}
    (h : ∀ i < w, v.getLsbD (w - 1 - i) = x (first + i)) : v = word x first w := by
  apply BitVec.eq_of_getLsbD_eq
  intro i hi
  have hrev : i = w - 1 - (w - 1 - i) := by omega
  rw [hrev, h (w - 1 - i) (by omega), getLsbD_word x (by omega)]

theorem word_congr {x y : Nat → Bool} {first first' : Nat}
    (h : ∀ i < w, x (first + i) = y (first' + i)) : word x first w = word y first' w :=
  eq_word fun i hi => (getLsbD_word x hi).trans (h i hi)

theorem getLsbD_writeBit (v : BitVec w) (b : Bool) {i j : Nat} (hj : j < w) :
    (writeBit v i b).getLsbD j = if j = i then b else v.getLsbD j := by
  have hrev : j = w - 1 - (w - 1 - j) := by omega
  have hback : w - 1 - (0 + (w - 1 - j)) = j := by omega
  have hbit := @getLsbD_word (fun k => if w - 1 - k = i then b else v.getLsbD (w - 1 - k)) 0 w
    (w - 1 - j) (by omega)
  rw [← hrev] at hbit
  rw [writeBit, hbit, hback]

end SerialBits
