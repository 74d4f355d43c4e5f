import Mathlib.Algebra.Order.Group.Int
import Mathlib.Algebra.Order.Ring.Int
import Mathlib.Order.Monotone.Basic
import Mathlib.Tactic.Ring

/-!
# Binary floating-point formats

The pattern of a number without its sign is a number itself: the exponent above `t` bits of
mantissa.  The magnitude is a strictly increasing function of the pattern, and linear between
two neighbouring powers of two.
-/

namespace BinaryFormat

variable (t : Nat)

def mag (p : Nat) : Nat := if p < 2 ^ t then p else (2 ^ t + p % 2 ^ t) * 2 ^ (p / 2 ^ t - 1)

def ulp (p : Nat) : Nat := 2 ^ (p / 2 ^ t - 1)

theorem ulp_pos (p : Nat) : 0 < ulp t p := Nat.two_pow_pos _

@[simp] theorem mag_zero : mag t 0 = 0 := if_pos (Nat.two_pow_pos t)

theorem mag_normal {p : Nat} (h : 2 ^ t ≤ p) :
    mag t p = (2 ^ t + p % 2 ^ t) * 2 ^ (p / 2 ^ t - 1) := if_neg (Nat.not_lt.mpr h)

theorem mag_succ (p : Nat) : mag t (p + 1) = mag t p + ulp t p := by
  have hpos : 0 < 2 ^ t := Nat.two_pow_pos t
  by_cases hlt : p + 1 < 2 ^ t
  · rw [mag, mag, if_pos hlt, if_pos (by omega), ulp, Nat.div_eq_of_lt (by omega), Nat.zero_sub, pow_zero]
  · rw [mag_normal t (Nat.le_of_not_lt hlt)]
    by_cases hmod : p % 2 ^ t + 1 < 2 ^ t
    · -- the same exponent
      have hsplit : p + 1 = (p % 2 ^ t + 1) + 2 ^ t * (p / 2 ^ t) := by
        have hp := Nat.mod_add_div p (2 ^ t)
        omega
      have hdiv : (p + 1) / 2 ^ t = p / 2 ^ t := by
        rw [hsplit, Nat.add_mul_div_left _ _ hpos, Nat.div_eq_of_lt hmod, Nat.zero_add]
      have hmod' : (p + 1) % 2 ^ t = p % 2 ^ t + 1 := by
        rw [hsplit, Nat.add_mul_mod_self_left, Nat.mod_eq_of_lt hmod]
      have hnormal : 2 ^ t ≤ p := by
        rcases Nat.lt_or_ge p (2 ^ t) with hp | hp
        · rw [Nat.mod_eq_of_lt hp] at hmod
          omega
        · exact hp
      rw [mag_normal t hnormal, hdiv, hmod', ulp]
      ring
    · -- the mantissa overflows into the exponent
      have hmax : p % 2 ^ t + 1 = 2 ^ t := by
        have hlt' := Nat.mod_lt p hpos
        omega
      have hsplit : p + 1 = 2 ^ t * (p / 2 ^ t + 1) := by
        have hp := Nat.mod_add_div p (2 ^ t)
        rw [Nat.mul_add, Nat.mul_one]
        omega
      have hdiv : (p + 1) / 2 ^ t = p / 2 ^ t + 1 := by
        rw [hsplit, Nat.mul_div_cancel_left _ hpos]
      have hmod' : (p + 1) % 2 ^ t = 0 := by rw [hsplit, Nat.mul_mod_right]
      rw [hdiv, hmod', Nat.add_zero, Nat.add_sub_cancel]
      rcases Nat.lt_or_ge p (2 ^ t) with hp | hp
      · have hp' : p + 1 = 2 ^ t := by rwa [Nat.mod_eq_of_lt hp] at hmax
        rw [mag, if_pos hp, ulp, Nat.div_eq_of_lt hp, Nat.zero_sub, pow_zero, Nat.mul_one, hp']
      · have hexp : 2 ^ (p / 2 ^ t) = 2 * 2 ^ (p / 2 ^ t - 1) := by
          have hge : 1 ≤ p / 2 ^ t := (Nat.one_le_div_iff hpos).mpr hp
          rw [← pow_succ', Nat.sub_add_cancel hge]
        rw [mag_normal t hp, ulp, hexp, ← Nat.succ_mul, Nat.succ_eq_add_one, Nat.add_assoc, hmax]
        ring

theorem mag_strictMono : StrictMono (mag t) := by
  apply strictMono_nat_of_lt_succ
  intro p
  rw [mag_succ]
  exact Nat.lt_add_of_pos_right (ulp_pos t p)

/-- **Linear pieces**: up to the next power of two, itself included, the magnitude grows by the
same amount. -/
theorem mag_add {p d : Nat} (h : p % 2 ^ t + d ≤ 2 ^ t) : mag t (p + d) = mag t p + d * ulp t p := by
  induction d with
  | zero => rw [Nat.zero_mul, Nat.add_zero, Nat.add_zero]
  | succ d ih =>
      have hulp : ulp t (p + d) = ulp t p := by
        have hsplit : p + d = (p % 2 ^ t + d) + 2 ^ t * (p / 2 ^ t) := by
          have hp := Nat.mod_add_div p (2 ^ t)
          omega
        rw [ulp, hsplit, Nat.add_mul_div_left _ _ (Nat.two_pow_pos t), Nat.div_eq_of_lt (by omega),
          Nat.zero_add, ulp]
      rw [← Nat.add_assoc, mag_succ, ih (by omega), hulp, Nat.succ_mul, Nat.add_assoc]

/-! ### Nearest numbers -/

section Nearest

variable {ι : Type*} {value : ι → Int} {s : Set ι} {v : Int}

/-- None of the numbers is nearer to `v`. -/
def Nearest (value : ι → Int) (s : Set ι) (v : Int) (i : ι) : Prop :=
  ∀ j ∈ s, |v - value i| ≤ |v - value j|

structure Between (value : ι → Int) (s : Set ι) (v : Int) (lo hi : ι) : Prop where
  lo_mem : lo ∈ s
  hi_mem : hi ∈ s
  lo_le : value lo ≤ v
  le_hi : v ≤ value hi
  outside : ∀ j ∈ s, value j ≤ value lo ∨ value hi ≤ value j

theorem Between.nearest_lo {lo hi : ι} (h : Between value s v lo hi) :
    Nearest value s v lo ↔ v - value lo ≤ value hi - v := by
  have hlo := h.lo_le
  have hhi := h.le_hi
  rw [Nearest]
  constructor
  · intro hnear
    have hle := hnear hi h.hi_mem
    rwa [abs_of_nonneg (by omega), abs_of_nonpos (by omega), neg_sub] at hle
  · intro hle j hj
    rw [abs_of_nonneg (by omega)]
    rcases h.outside j hj with hj | hj
    · exact le_trans (by omega) (le_abs_self _)
    · exact le_trans (by omega) (neg_le_abs _)

theorem Between.nearest_hi {lo hi : ι} (h : Between value s v lo hi) :
    Nearest value s v hi ↔ value hi - v ≤ v - value lo := by
  have hlo := h.lo_le
  have hhi := h.le_hi
  rw [Nearest]
  constructor
  · intro hnear
    have hle := hnear lo h.lo_mem
    rwa [abs_of_nonpos (by omega), abs_of_nonneg (by omega), neg_sub] at hle
  · intro hle j hj
    rw [abs_of_nonpos (by omega)]
    rcases h.outside j hj with hj | hj
    · exact le_trans (by omega) (le_abs_self _)
    · exact le_trans (by omega) (neg_le_abs _)

end Nearest

end BinaryFormat
