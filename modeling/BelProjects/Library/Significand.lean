import Mathlib.Algebra.Order.Ring.Nat
import Mathlib.Tactic.Ring

/-!
# Rounding to significant bits

A floating-point number has a fixed number of significant bits.  A natural number is converted
to the nearest such number, ties to even, and is kept exactly when it has no more of them.
-/

namespace Significand

/-- Round to the nearest multiple of `2 ^ k`, ties to an even multiple. -/
def roundAt (k n : Nat) : Nat :=
  let q := n / 2 ^ k
  let r := n % 2 ^ k
  if 2 * r < 2 ^ k ∨ (2 * r = 2 ^ k ∧ q % 2 = 0) then q * 2 ^ k else (q + 1) * 2 ^ k

/-- Round to `p` significant bits. -/
def round (p n : Nat) : Nat := roundAt (n.log2 + 1 - p) n

/-- At most `p` significant bits. -/
def Fits (p n : Nat) : Prop := ∃ m k, m < 2 ^ p ∧ n = m * 2 ^ k

theorem dvd_roundAt (k n : Nat) : 2 ^ k ∣ roundAt k n := by
  rw [roundAt]
  split <;> exact Nat.dvd_mul_left _ _

theorem roundAt_eq_self_iff (k n : Nat) : roundAt k n = n ↔ 2 ^ k ∣ n := by
  constructor
  · intro h
    rw [← h]
    exact dvd_roundAt k n
  · rintro ⟨m, rfl⟩
    have hpos : 0 < 2 ^ k := Nat.two_pow_pos k
    rw [roundAt, Nat.mul_mod_right, Nat.mul_div_cancel_left m hpos]
    exact (if_pos (Or.inl hpos)).trans (Nat.mul_comm _ _)

theorem dvd_iff_fits (p n : Nat) : 2 ^ (n.log2 + 1 - p) ∣ n ↔ Fits p n := by
  constructor
  · rintro ⟨m, hm⟩
    refine ⟨m, n.log2 + 1 - p, ?_, by rw [Nat.mul_comm]; exact hm⟩
    have hlt : n < 2 ^ (n.log2 + 1) := Nat.lt_log2_self
    have hle : 2 ^ (n.log2 + 1) ≤ 2 ^ (n.log2 + 1 - p) * 2 ^ p := by
      rw [← Nat.pow_add]
      exact Nat.pow_le_pow_right (by decide) (by omega)
    have hmul : 2 ^ (n.log2 + 1 - p) * m < 2 ^ (n.log2 + 1 - p) * 2 ^ p := by
      rw [← hm]
      exact Nat.lt_of_lt_of_le hlt hle
    exact Nat.lt_of_mul_lt_mul_left hmul
  · rintro ⟨m, k, hm, rfl⟩
    rcases Nat.eq_zero_or_pos (m * 2 ^ k) with h0 | hpos
    · rw [h0]
      exact Nat.dvd_zero _
    · have hlt : m * 2 ^ k < 2 ^ (p + k) := by
        rw [Nat.pow_add]
        exact Nat.mul_lt_mul_of_pos_right hm (Nat.two_pow_pos k)
      have hlog : (m * 2 ^ k).log2 < p + k := (Nat.log2_lt hpos.ne').mpr hlt
      exact Nat.dvd_trans (Nat.pow_dvd_pow 2 (by omega)) (Nat.dvd_mul_left _ _)

/-- Exactly the numbers with few significant bits are kept. -/
theorem round_eq_self_iff (p n : Nat) : round p n = n ↔ Fits p n :=
  (roundAt_eq_self_iff _ _).trans (dvd_iff_fits p n)

/-- The exponent of a number between two powers of two. -/
theorem round_eq {p n a : Nat} (h : 2 ^ a ≤ n) (h' : n < 2 ^ (a + 1)) :
    round p n = roundAt (a + 1 - p) n := by
  have hne : n ≠ 0 := Nat.ne_of_gt (Nat.lt_of_lt_of_le (Nat.two_pow_pos a) h)
  rw [round, (Nat.log2_eq_iff hne).mpr ⟨h, h'⟩]

theorem roundAt_mono (k : Nat) {n m : Nat} (h : n ≤ m) : roundAt k n ≤ roundAt k m := by
  have hquot : n / 2 ^ k ≤ m / 2 ^ k := Nat.div_le_div_right h
  have hlow : ∀ l, l / 2 ^ k * 2 ^ k ≤ roundAt k l := by
    intro l
    rw [roundAt]
    split
    · exact le_refl _
    · exact Nat.mul_le_mul_right _ (Nat.le_succ _)
  have hhigh : ∀ l, roundAt k l ≤ (l / 2 ^ k + 1) * 2 ^ k := by
    intro l
    rw [roundAt]
    split
    · exact Nat.mul_le_mul_right _ (Nat.le_succ _)
    · exact le_refl _
  rcases Nat.lt_or_eq_of_le hquot with hlt | heq
  · exact (hhigh n).trans ((Nat.mul_le_mul_right _ hlt).trans (hlow m))
  · -- the same multiple below: the remainders decide
    have hn := Nat.div_add_mod n (2 ^ k)
    have hm := Nat.div_add_mod m (2 ^ k)
    rw [heq] at hn
    rw [roundAt, roundAt, heq]
    split
    · split
      · exact le_refl _
      · exact Nat.mul_le_mul_right _ (Nat.le_succ _)
    · rw [if_neg (by omega)]

theorem Fits.of_lt {p n : Nat} (h : n < 2 ^ p) : Fits p n := ⟨n, 0, h, by simp⟩

theorem round_of_lt {p n : Nat} (h : n < 2 ^ p) : round p n = n :=
  (round_eq_self_iff p n).mpr (.of_lt h)

theorem round_mono {p : Nat} (hp : 0 < p) {n m : Nat} (h : n ≤ m) : round p n ≤ round p m := by
  rcases Nat.eq_zero_or_pos n with rfl | hn
  · rw [round_of_lt (Nat.two_pow_pos p)]
    exact Nat.zero_le _
  · have hm : m ≠ 0 := by omega
    have hlog : n.log2 ≤ m.log2 := (Nat.le_log2 hm).mpr ((Nat.log2_self_le hn.ne').trans h)
    rcases Nat.lt_or_eq_of_le hlog with hlt | heq
    · -- a power of two lies between them
      have hup : round p n ≤ 2 ^ (n.log2 + 1) := by
        have hdvd : 2 ^ (n.log2 + 1 - p) ∣ 2 ^ (n.log2 + 1) := Nat.pow_dvd_pow 2 (by omega)
        have hle := roundAt_mono (n.log2 + 1 - p) (Nat.lt_log2_self (n := n)).le
        rwa [(roundAt_eq_self_iff _ _).mpr hdvd] at hle
      have hdown : 2 ^ m.log2 ≤ round p m := by
        have hdvd : 2 ^ (m.log2 + 1 - p) ∣ 2 ^ m.log2 := Nat.pow_dvd_pow 2 (by omega)
        have hle := roundAt_mono (m.log2 + 1 - p) (Nat.log2_self_le hm)
        rwa [(roundAt_eq_self_iff _ _).mpr hdvd] at hle
      exact hup.trans ((Nat.pow_le_pow_right (by decide) hlt).trans hdown)
    · rw [round, round, heq]
      exact roundAt_mono _ h

end Significand
