import Mathlib.Data.Int.DivMod
import Mathlib.Tactic.Ring
import Mathlib.Tactic.Linarith

/-!
# Evenly spaced marks

The marks are the multiples of `d`. At time `t` the next one has number `nextMark d t` and
is `untilMark d t` away; both follow time step by step.
-/

namespace Marks

/-- The number of the first mark that is not before `t`. -/
def nextMark (d t : Int) : Int := -(-t / d)

/-- How far the first mark that is not before `t` is away. -/
def untilMark (d t : Int) : Int := -t % d

variable {d : Int}

theorem add_untilMark (t : Int) : t + untilMark d t = d * nextMark d t := by
  have h := Int.mul_ediv_add_emod (-t) d
  rw [nextMark, untilMark]
  linarith

theorem untilMark_nonneg (hd : 0 < d) (t : Int) : 0 ≤ untilMark d t := Int.emod_nonneg _ hd.ne'

theorem untilMark_lt (hd : 0 < d) (t : Int) : untilMark d t < d := Int.emod_lt_of_pos _ hd

theorem mark_unique (hd : 0 < d) {t k u : Int} (h : t + u = d * k) (h0 : 0 ≤ u) (hlt : u < d) :
    nextMark d t = k ∧ untilMark d t = u := by
  have ht : -t = u + d * (-k) := by
    linarith
  constructor
  · rw [nextMark, ht, Int.add_mul_ediv_left _ _ hd.ne', Int.ediv_eq_zero_of_lt h0 hlt]
    ring
  · rw [untilMark, ht, Int.add_mul_emod_self_left, Int.emod_eq_of_lt h0 hlt]

theorem mark_add_of_le (hd : 0 < d) {t s : Int} (hs : 0 ≤ s) (h : s ≤ untilMark d t) :
    nextMark d (t + s) = nextMark d t ∧ untilMark d (t + s) = untilMark d t - s := by
  have hadd := add_untilMark (d := d) t
  have hlt := untilMark_lt hd t
  exact mark_unique hd (by linarith) (by linarith) (by linarith)

theorem mark_add_of_lt (hd : 0 < d) {t s : Int} (hs : s ≤ d) (h : untilMark d t < s) :
    nextMark d (t + s) = nextMark d t + 1 ∧ untilMark d (t + s) = untilMark d t + d - s := by
  have hadd := add_untilMark (d := d) t
  have h0 := untilMark_nonneg hd t
  exact mark_unique hd (by linarith) (by linarith) (by linarith)

@[simp] theorem untilMark_zero : untilMark d 0 = 0 := by
  simp [untilMark]

/-- Time before zero is as far from the marks as time moved forward by whole spacings. -/
theorem mark_add_mul (hd : 0 < d) (t m : Int) :
    nextMark d (t + d * m) = nextMark d t + m ∧ untilMark d (t + d * m) = untilMark d t := by
  have hadd := add_untilMark (d := d) t
  exact mark_unique hd (by linarith) (untilMark_nonneg hd t) (untilMark_lt hd t)

/-! ## Finding the mark by long division

A division that subtracts only while something is left keeps a remainder above zero, so
that it counts the marks before a time. -/

/-- `n` after the rounds with the multiples of `d * 2^m`: quotient `q`, remainder `r`. -/
structure Divided (n d m q r : Nat) : Prop where
  sum : n = q * (d * 2 ^ m) + r
  pos : 0 < r
  le : r ≤ d * 2 ^ m

namespace Divided

variable {n d m q r : Nat}

theorem init (hpos : 0 < n) (hle : n ≤ d * 2 ^ m) : Divided n d m 0 n :=
  ⟨by rw [Nat.zero_mul, Nat.zero_add], hpos, hle⟩

theorem subtract (h : Divided n d (m + 1) q r) (hlt : d * 2 ^ m < r) :
    Divided n d m (2 * q + 1) (r - d * 2 ^ m) := by
  obtain ⟨hsum, -, hle⟩ := h
  have hdouble : d * 2 ^ (m + 1) = 2 * (d * 2 ^ m) := by
    ring
  refine ⟨?_, Nat.sub_pos_of_lt hlt, ?_⟩
  · obtain ⟨e, rfl⟩ := Nat.exists_eq_add_of_le hlt.le
    rw [Nat.add_sub_cancel_left, hsum, hdouble]
    ring
  · rw [hdouble] at hle
    exact (Nat.sub_le_iff_le_add).mpr (by linarith)

theorem keep (h : Divided n d (m + 1) q r) (hge : r ≤ d * 2 ^ m) : Divided n d m (2 * q) r := by
  obtain ⟨hsum, hpos, -⟩ := h
  refine ⟨?_, hpos, hge⟩
  rw [hsum, pow_succ]
  ring

theorem mark (h : Divided n d 0 q r) :
    nextMark d n = q + 1 ∧ untilMark d n = d - r := by
  obtain ⟨hsum, hpos, hle⟩ := h
  rw [pow_zero, Nat.mul_one] at hsum hle
  have hcast : (n : Int) = q * d + r := by
    exact_mod_cast hsum
  have hd : (0 : Int) < d := by
    exact_mod_cast Nat.lt_of_lt_of_le hpos hle
  have hr : (r : Int) ≤ d := by
    exact_mod_cast hle
  have hr0 : (0 : Int) < r := by
    exact_mod_cast hpos
  exact mark_unique hd (by rw [hcast]; ring) (by linarith) (by linarith)

end Divided

end Marks
