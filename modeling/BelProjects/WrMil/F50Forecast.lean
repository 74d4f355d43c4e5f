import BelProjects.WrMil.F50Limits
import BelProjects.Library.BitFields
import BelProjects.Library.LinearFit
import Mathlib.Tactic.Linarith

/-!
# The accuracy of the forecast

With stamps that are off a regular grid by a bounded jitter, the forecast of the regression
is off by a multiple of this bound, plus what the divisions cut off.
-/

namespace WrF50

open BitFields (ofInt_sub ofInt_toNat)
open B2b (Word Long SysTime TimingMsg evtGid buildEvtidV1 ebmWriteTM)

/-! ### The regression in integers -/

section Exact

variable (stamps : Stamps)

def offset (i : Fin nStamps) : Int := (stamps i).toNat - ((stamps 0).toNat - 1000000)

def offsetSum : Int := ∑ i, offset stamps i
def momentSum : Int := ∑ i, (i.1 : Int) * offset stamps i

def offsetMean : Int := offsetSum stamps / 21
def exactSlope : Int := (momentSum stamps - 210 * offsetMean stamps) / 770

def exactForecast (k : Int) : Int :=
  (stamps 0).toNat - 1000000 + (offsetMean stamps - exactSlope stamps * 10) + exactSlope stamps * k

/-- No intermediate value of the regression is negative or large. -/
structure Moderate : Prop where
  bounds : ∀ i, 0 ≤ offset stamps i ∧ offset stamps i < 2 ^ 30
  rising : 210 * offsetMean stamps ≤ momentSum stamps

end Exact

theorem foldl_ofInt {α : Type} (g : α → Int) (l : List α) (c : Int) :
    l.foldl (fun sum i => sum + BitVec.ofInt 64 (g i)) (BitVec.ofInt 64 c) =
      BitVec.ofInt 64 (c + (l.map g).sum) := by
  induction l generalizing c with
  | nil => rw [List.foldl_nil, List.map_nil, List.sum_nil, add_zero]
  | cons i l ih => rw [List.foldl_cons, ← BitVec.ofInt_add, ih, List.map_cons, List.sum_cons, add_assoc]

/-- A loop that sums up words sums up integers. -/
theorem total_ofInt (g : Fin nStamps → Int) :
    total (fun i => BitVec.ofInt 64 (g i)) = BitVec.ofInt 64 (∑ i, g i) := by
  have hfold := foldl_ofInt g (List.finRange nStamps) 0
  rw [zero_add] at hfold
  rw [Fin.sum_univ_def]
  exact hfold

/-- A division of two numbers that are not negative. -/
theorem sdiv_ofInt {v w : Int} (hv : 0 ≤ v) (hv' : v < 2 ^ 63) (hw : 0 ≤ w) (hw' : w < 2 ^ 63) :
    (BitVec.ofInt 64 v).sdiv (BitVec.ofInt 64 w) = BitVec.ofInt 64 (v / w) := by
  have hint : ∀ u : Int, 0 ≤ u → u < 2 ^ 63 → (BitVec.ofInt 64 u).toInt = u := by
    intro u hu hu'
    exact BitVec.toInt_ofInt_eq_self (by decide) (by omega) (by omega)
  have hquot : (BitVec.ofInt 64 v).toInt.tdiv (BitVec.ofInt 64 w).toInt = v / w := by
    rw [hint v hv hv', hint w hw hw', Int.tdiv_eq_ediv_of_nonneg hv]
  apply BitVec.eq_of_toInt_eq
  rw [BitVec.toInt_sdiv, hquot, BitVec.toInt_ofInt]

section Words

variable {stamps : Stamps}

theorem origin_ofInt : stamps 0 - 1000000 = BitVec.ofInt 64 ((stamps 0).toNat - 1000000) := by
  rw [ofInt_sub, ofInt_toNat]
  rfl

theorem offset_ofInt (i : Fin nStamps) :
    stamps i - (stamps 0 - 1000000) = BitVec.ofInt 64 (offset stamps i) := by
  rw [offset, ofInt_sub, ofInt_toNat, origin_ofInt]

theorem moment_ofInt (i : Fin nStamps) :
    BitVec.ofNat 64 i.1 * (stamps i - (stamps 0 - 1000000)) =
      BitVec.ofInt 64 ((i.1 : Int) * offset stamps i) := by
  rw [offset_ofInt, BitVec.ofInt_mul, BitVec.ofInt_natCast]

theorem xMean_eq : (total fun i => BitVec.ofNat 64 i.1).sdiv (BitVec.ofNat 64 nStamps) =
    BitVec.ofInt 64 10 := by decide

theorem denom_eq : (total fun i => BitVec.ofNat 64 i.1 * BitVec.ofNat 64 i.1) -
    BitVec.ofNat 64 nStamps * BitVec.ofInt 64 10 * BitVec.ofInt 64 10 = BitVec.ofInt 64 770 := by
  decide

namespace Moderate

variable (h : Moderate stamps)
include h

theorem offsetSum_bounds : 0 ≤ offsetSum stamps ∧ offsetSum stamps ≤ 21 * 2 ^ 30 := by
  constructor
  · exact Finset.sum_nonneg fun i _ => (h.bounds i).1
  · have hsum := Finset.sum_le_card_nsmul Finset.univ (offset stamps) (2 ^ 30)
      fun i _ => (h.bounds i).2.le
    rwa [Finset.card_univ, Fintype.card_fin, nsmul_eq_mul] at hsum

theorem moment_bounds (i : Fin nStamps) :
    0 ≤ (i.1 : Int) * offset stamps i ∧ (i.1 : Int) * offset stamps i ≤ 20 * 2 ^ 30 := by
  obtain ⟨hmin, hmax⟩ := h.bounds i
  have hlt : i.1 < 21 := i.isLt
  have hi : (i.1 : Int) ≤ 20 := by omega
  exact ⟨mul_nonneg (Int.natCast_nonneg _) hmin, mul_le_mul hi hmax.le hmin (by decide)⟩

theorem momentSum_bounds : 0 ≤ momentSum stamps ∧ momentSum stamps ≤ 21 * (20 * 2 ^ 30) := by
  constructor
  · exact Finset.sum_nonneg fun i _ => (h.moment_bounds i).1
  · have hsum := Finset.sum_le_card_nsmul Finset.univ (fun i : Fin nStamps => (i.1 : Int) * offset stamps i)
      (20 * 2 ^ 30) fun i _ => (h.moment_bounds i).2
    rwa [Finset.card_univ, Fintype.card_fin, nsmul_eq_mul] at hsum

theorem offsetMean_bounds : 0 ≤ offsetMean stamps ∧ offsetMean stamps ≤ 2 ^ 30 := by
  have hsum := h.offsetSum_bounds
  rw [offsetMean]
  omega

theorem exactSlope_bounds : 0 ≤ exactSlope stamps ∧ exactSlope stamps ≤ 2 ^ 30 := by
  have hmean := h.offsetMean_bounds
  have hmoment := h.momentSum_bounds
  have hslope := h.rising
  rw [exactSlope]
  omega

theorem yMean_ofInt :
    (total fun i => stamps i - (stamps 0 - 1000000)).sdiv (BitVec.ofNat 64 nStamps) =
      BitVec.ofInt 64 (offsetMean stamps) := by
  have hsum := h.offsetSum_bounds
  have hn : BitVec.ofNat 64 nStamps = BitVec.ofInt 64 21 := rfl
  simp only [offset_ofInt]
  rw [total_ofInt, hn, offsetMean, ← offsetSum, sdiv_ofInt hsum.1 (by omega) (by decide) (by decide)]

theorem slope_ofInt : slope stamps = BitVec.ofInt 64 (exactSlope stamps) := by
  have hmean := h.offsetMean_bounds
  have hmoment := h.momentSum_bounds
  have hslope := h.rising
  have hn : BitVec.ofNat 64 nStamps * BitVec.ofInt 64 10 = BitVec.ofInt 64 210 := rfl
  unfold slope
  simp only []
  rw [xMean_eq, denom_eq, h.yMean_ofInt, hn]
  simp only [moment_ofInt]
  rw [total_ofInt, ← momentSum, ← BitVec.ofInt_mul, ← ofInt_sub, exactSlope,
    sdiv_ofInt (by omega) (by omega) (by decide) (by decide)]

theorem forecast_ofInt (k : Int) :
    forecast stamps (BitVec.ofInt 64 k) = BitVec.ofInt 64 (exactForecast stamps k) := by
  unfold forecast
  simp only []
  rw [xMean_eq, h.yMean_ofInt, h.slope_ofInt, origin_ofInt, exactForecast, BitVec.ofInt_add,
    BitVec.ofInt_add, ofInt_sub _ (exactSlope stamps * 10), BitVec.ofInt_mul, BitVec.ofInt_mul]

end Moderate

end Words

/-! ### Jitter -/

theorem offsetMean_near (stamps : Stamps) :
    (21 * offsetMean stamps : ℝ) ≤ offsetSum stamps ∧
      (offsetSum stamps : ℝ) ≤ 21 * offsetMean stamps + 20 := by
  have hint : 21 * offsetMean stamps ≤ offsetSum stamps ∧
      offsetSum stamps ≤ 21 * offsetMean stamps + 20 := by
    rw [offsetMean]
    omega
  exact_mod_cast hint

theorem exactSlope_near (stamps : Stamps) :
    (770 * exactSlope stamps : ℝ) ≤ momentSum stamps - 210 * offsetMean stamps ∧
      (momentSum stamps - 210 * offsetMean stamps : ℝ) ≤ 770 * exactSlope stamps + 769 := by
  have hint : 770 * exactSlope stamps ≤ momentSum stamps - 210 * offsetMean stamps ∧
      momentSum stamps - 210 * offsetMean stamps ≤ 770 * exactSlope stamps + 769 := by
    rw [exactSlope]
    omega
  exact_mod_cast hint

/-- The stamps are those of a regular grid, up to the jitter. -/
structure Jittered (stamps : Stamps) (t T J : ℝ) : Prop where
  near : ∀ i : Fin nStamps, |((stamps i).toNat : ℝ) - (t + i.1 * T)| ≤ J
  min : 19800000 + 3 * J + 20 ≤ T
  max : T ≤ 20400000 - 3 * J - 20

namespace Jittered

variable {stamps : Stamps} {t T J : ℝ} (h : Jittered stamps t T J)
include h

theorem jitter_nonneg : 0 ≤ J := (abs_nonneg _).trans (h.near 0)

theorem near_offset (i : Fin nStamps) :
    |(offset stamps i : ℝ) - (t - (stamps 0).toNat + 1000000 + ((i.1 : ℤ) : ℝ) * T)| ≤ J := by
  have hnear := h.near i
  rw [offset]
  push_cast
  have hsame : ((stamps i).toNat : ℝ) - ((stamps 0).toNat - 1000000) -
      (t - (stamps 0).toNat + 1000000 + i.1 * T) = (stamps i).toNat - (t + i.1 * T) := by
    ring
  rwa [hsame]

theorem combination (α β : ℤ) {n : ℤ} (hn : ∑ i : Fin nStamps, |α * (i.1 : ℤ) + β| = n) :
    |(α * momentSum stamps + β * offsetSum stamps : ℝ) -
      ((210 * α + 21 * β) * (t - (stamps 0).toNat + 1000000) + (2870 * α + 210 * β) * T)| ≤ n * J := by
  have hline := abs_sum_line_le (fun i : Fin nStamps => α * (i.1 : ℤ) + β) (fun i => (i.1 : ℤ))
    h.near_offset
  have hweights : ∑ i : Fin nStamps, (α * (i.1 : ℤ) + β) = 210 * α + 21 * β := by
    have hsum : ∑ i : Fin nStamps, (i.1 : ℤ) = 210 := by decide
    rw [Finset.sum_add_distrib, ← Finset.mul_sum, hsum]
    simp
    ring
  have hmoments : ∑ i : Fin nStamps, (α * (i.1 : ℤ) + β) * (i.1 : ℤ) = 2870 * α + 210 * β := by
    have hsum : ∑ i : Fin nStamps, (i.1 : ℤ) = 210 := by decide
    have hsquares : ∑ i : Fin nStamps, (i.1 : ℤ) * (i.1 : ℤ) = 2870 := by decide
    simp only [add_mul, mul_assoc]
    rw [Finset.sum_add_distrib, ← Finset.mul_sum, ← Finset.mul_sum, hsum, hsquares]
    ring
  have hsums : ∑ i : Fin nStamps, ((α * (i.1 : ℤ) + β : ℤ) : ℝ) * (offset stamps i : ℝ) =
      α * momentSum stamps + β * offsetSum stamps := by
    rw [momentSum, offsetSum]
    push_cast
    rw [Finset.mul_sum, Finset.mul_sum, ← Finset.sum_add_distrib]
    apply Finset.sum_congr rfl
    intro i _
    ring
  rw [hweights, hmoments, hsums, hn] at hline
  push_cast at hline
  exact hline

theorem jitter_le : J ≤ 99994 := by
  have hmin := h.min
  have hmax := h.max
  linarith

theorem moderate : Moderate stamps := by
  have hJ := h.jitter_nonneg
  have hJ' := h.jitter_le
  have hmin := h.min
  have hmax := h.max
  have hfirst := abs_le.mp (h.near_offset 0)
  have hzero : (offset stamps 0 : ℝ) = 1000000 := by
    rw [offset]
    push_cast
    ring
  rw [hzero] at hfirst
  constructor
  · intro i
    have hi := abs_le.mp (h.near_offset i)
    have hlow : 0 ≤ ((i.1 : ℤ) : ℝ) * T := mul_nonneg (by positivity) (by linarith)
    have hindex : ((i.1 : ℤ) : ℝ) ≤ 20 := by
      have hlt : i.1 < 21 := i.isLt
      exact_mod_cast Nat.le_of_lt_succ hlt
    have hhigh : ((i.1 : ℤ) : ℝ) * T ≤ 20 * T := mul_le_mul_of_nonneg_right hindex (by linarith)
    simp only [Fin.val_zero, Nat.cast_zero, Int.cast_zero, zero_mul, add_zero] at hfirst
    constructor
    · have hreal : (0 : ℝ) ≤ offset stamps i := by linarith
      exact_mod_cast hreal
    · have hreal : (offset stamps i : ℝ) < 2 ^ 30 := by linarith
      exact_mod_cast hreal
  · -- the covariance with the index is about that of the grid
    have hcov := (abs_le.mp (h.combination 1 (-10) (n := 110) (by decide))).1
    push_cast at hcov
    have hreal : (10 * offsetSum stamps : ℝ) ≤ momentSum stamps := by linarith
    have hint : 10 * offsetSum stamps ≤ momentSum stamps := by exact_mod_cast hreal
    rw [offsetMean]
    omega

theorem forecast_near {k : ℤ} (hk : k = 21 ∨ k = 22) :
    |(exactForecast stamps k : ℝ) - (t + k * T)| ≤ 1.87 * J + 12 := by
  have hJ := h.jitter_nonneg
  obtain ⟨hmean, hmean'⟩ := offsetMean_near stamps
  obtain ⟨hslope, hslope'⟩ := exactSlope_near stamps
  have hforecast : (exactForecast stamps k : ℝ) =
      (stamps 0).toNat - 1000000 + (offsetMean stamps - exactSlope stamps * 10) +
        exactSlope stamps * k := by
    rw [exactForecast]
    push_cast
    ring
  rw [hforecast, abs_le]
  rcases hk with rfl | rfl
  · obtain ⟨hlow, hhigh⟩ := abs_le.mp (h.combination 3 (-20) (n := 364) (by decide))
    push_cast at hlow hhigh ⊢
    constructor <;> linarith
  · obtain ⟨hlow, hhigh⟩ := abs_le.mp (h.combination 18 (-125) (n := 2149) (by decide))
    push_cast at hlow hhigh ⊢
    constructor <;> linarith

theorem slope_near : |(exactSlope stamps : ℝ) - T| ≤ J / 7 + 1 := by
  obtain ⟨hmean, hmean'⟩ := offsetMean_near stamps
  obtain ⟨hslope, hslope'⟩ := exactSlope_near stamps
  obtain ⟨hlow, hhigh⟩ := abs_le.mp (h.combination 1 (-10) (n := 110) (by decide))
  push_cast at hlow hhigh
  rw [abs_le]
  constructor <;> linarith

end Jittered

/-! ### The limits leave the forecast alone -/

theorem toNat_ofInt {v : Int} (hmin : 0 ≤ v) (hmax : v < 2 ^ 64) :
    ((BitVec.ofInt 64 v).toNat : Int) = v := by
  rw [BitVec.toNat_ofInt]
  omega

theorem hardLimits_inside {v a : Int} (hmin : 19800000 ≤ v - a) (hmax : v - a ≤ 20400000) :
    hardLimits (BitVec.ofInt 64 v) (BitVec.ofInt 64 a) = BitVec.ofInt 64 v := by
  have hdist : ((BitVec.ofInt 64 v - BitVec.ofInt 64 a).toNat : Int) = v - a := by
    rw [← ofInt_sub]
    exact toNat_ofInt (by omega) (by omega)
  have hlow : ¬ BitVec.ofInt 64 v - BitVec.ofInt 64 a < cycleLenMin := by
    intro hlt
    have hlt' : (BitVec.ofInt 64 v - BitVec.ofInt 64 a).toNat < 19800000 := hlt
    omega
  have hhigh : ¬ cycleLenMax < BitVec.ofInt 64 v - BitVec.ofInt 64 a := by
    intro hlt
    have hlt' : 20400000 < (BitVec.ofInt 64 v - BitVec.ofInt 64 a).toNat := hlt
    omega
  rw [hardLimits, if_neg hlow, if_neg hhigh]

namespace Jittered

variable {stamps : Stamps} {t T J : ℝ} (h : Jittered stamps t T J)
include h

theorem distances :
    (19800000 ≤ exactForecast stamps 21 - (stamps (Fin.last _)).toNat ∧
        exactForecast stamps 21 - (stamps (Fin.last _)).toNat ≤ 20400000) ∧
      19800000 ≤ exactForecast stamps 22 - exactForecast stamps 21 ∧
        exactForecast stamps 22 - exactForecast stamps 21 ≤ 20400000 := by
  have hmin := h.min
  have hmax := h.max
  have hJ := h.jitter_nonneg
  have hlast := abs_le.mp (h.near (Fin.last _))
  have hforecast := abs_le.mp (h.forecast_near (Or.inl rfl))
  have hslope := abs_le.mp h.slope_near
  have hdiff : (exactSlope stamps : ℝ) = exactForecast stamps 22 - exactForecast stamps 21 := by
    rw [exactForecast, exactForecast]
    push_cast
    ring
  rw [hdiff] at hslope
  simp only [Fin.val_last, Nat.cast_ofNat] at hlast
  push_cast at hforecast
  constructor
  · have hreal : (19800000 : ℝ) ≤ exactForecast stamps 21 - (stamps (Fin.last _)).toNat ∧
        (exactForecast stamps 21 - (stamps (Fin.last _)).toNat : ℝ) ≤ 20400000 := by
      constructor <;> linarith
    exact_mod_cast hreal
  · have hreal : (19800000 : ℝ) ≤ exactForecast stamps 22 - exactForecast stamps 21 ∧
        (exactForecast stamps 22 - exactForecast stamps 21 : ℝ) ≤ 20400000 := by
      constructor <;> linarith
    exact_mod_cast hreal

theorem nextStamp_ofInt : nextStamp stamps =
    (BitVec.ofInt 64 (exactForecast stamps 21), BitVec.ofInt 64 (exactForecast stamps 22)) := by
  obtain ⟨⟨hmin, hmax⟩, hmin', hmax'⟩ := h.distances
  have h21 : forecast stamps 21 = BitVec.ofInt 64 (exactForecast stamps 21) :=
    h.moderate.forecast_ofInt 21
  have h22 : forecast stamps 22 = BitVec.ofInt 64 (exactForecast stamps 22) :=
    h.moderate.forecast_ofInt 22
  have hfirst : hardLimits (BitVec.ofInt 64 (exactForecast stamps 21)) (stamps (Fin.last _)) =
      BitVec.ofInt 64 (exactForecast stamps 21) := by
    have hinside := hardLimits_inside hmin hmax
    rwa [ofInt_toNat] at hinside
  rw [nextStamp_eq, h21, h22, hfirst, hardLimits_inside hmin' hmax']

theorem forecast_toNat (hlast : t + 22 * T + 2 * J + 20 < 2 ^ 64) :
    ((nextStamp stamps).1.toNat : Int) = exactForecast stamps 21 ∧
      ((nextStamp stamps).2.toNat : Int) = exactForecast stamps 22 := by
  have hmin := h.min
  have hJ := h.jitter_nonneg
  obtain ⟨hdist, hdist'⟩ := h.distances
  have hupper : (exactForecast stamps 22 : ℝ) < 2 ^ 64 := by
    have hforecast := abs_le.mp (h.forecast_near (Or.inr rfl))
    push_cast at hforecast
    linarith
  have hupper' : exactForecast stamps 22 < 2 ^ 64 := by exact_mod_cast hupper
  rw [h.nextStamp_ofInt]
  exact ⟨toNat_ofInt (by omega) (by omega), toNat_ofInt (by omega) (by omega)⟩

theorem forecast_exact (hJ : J = 0) (k : ℤ) : (exactForecast stamps k : ℝ) = t + k * T := by
  subst hJ
  have hgrid : ∀ i : Fin nStamps, ((stamps i).toNat : ℝ) = t + i.1 * T := by
    intro i
    have hi := h.near i
    exact sub_eq_zero.mp (abs_nonpos_iff.mp hi)
  have hstart : ((stamps 0).toNat : ℝ) = t := by
    rw [hgrid 0]
    simp
  obtain ⟨period, hperiod⟩ : ∃ period : ℤ, T = period := by
    refine ⟨(stamps 1).toNat - (stamps 0).toNat, ?_⟩
    push_cast
    rw [hgrid 1, hstart]
    simp
  have hsum : offsetSum stamps = 21 * 1000000 + 210 * period := by
    have hreal := h.combination 0 1 (n := 21) (by decide)
    rw [mul_zero, abs_nonpos_iff, sub_eq_zero, hperiod, hstart] at hreal
    have hcast : (offsetSum stamps : ℝ) = 21 * 1000000 + 210 * period := by
      push_cast at hreal
      linarith
    exact_mod_cast hcast
  have hmoment : momentSum stamps = 210 * 1000000 + 2870 * period := by
    have hreal := h.combination 1 0 (n := 210) (by decide)
    rw [mul_zero, abs_nonpos_iff, sub_eq_zero, hperiod, hstart] at hreal
    have hcast : (momentSum stamps : ℝ) = 210 * 1000000 + 2870 * period := by
      push_cast at hreal
      linarith
    exact_mod_cast hcast
  have hmean : offsetMean stamps = 1000000 + 10 * period := by
    rw [offsetMean, hsum]
    omega
  have hslope : exactSlope stamps = period := by
    rw [exactSlope, hmoment, hmean]
    omega
  rw [exactForecast, hmean, hslope, hperiod]
  push_cast
  rw [hstart]
  ring

end Jittered

/-! ### The same in checked arithmetic -/

def int64 (v : Int) : Option Int := if -2 ^ 63 ≤ v ∧ v < 2 ^ 63 then some v else none

def uint64 (v : Int) : Option Int := if 0 ≤ v ∧ v < 2 ^ 64 then some v else none

/-- A value that passes from one type to the other. -/
def both (v : Int) : Option Int := uint64 v >>= int64

def accumulate (store : Int → Option Int) (f : Fin nStamps → Option Int) : Option Int :=
  (List.finRange nStamps).foldlM (fun sum i => f i >>= fun v => store (sum + v)) 0

def checkedLimits (nxtStamp actStamp : Int) : Option Int := do
  let nxtStamp ← if (← uint64 (nxtStamp - actStamp)) < 19800000 then uint64 (actStamp + 19800000)
    else some nxtStamp
  if 20400000 < (← uint64 (nxtStamp - actStamp)) then uint64 (actStamp + 20400000)
  else some nxtStamp

/-- `nextStamp` in integers.  It ends without a result when a value, also one in between, does
not fit its type. -/
def checkedNextStamp (stamps : Stamps) : Option (Int × Int) := do
  let x0 ← both ((stamps 0).toNat - 1000000)
  let xSum ← accumulate int64 fun i => some i.1
  let ySum ← accumulate both fun i => uint64 ((stamps i).toNat - x0)
  let xMean ← both (xSum.tdiv nStamps)
  let yMean ← both (ySum.tdiv nStamps)
  let num ← accumulate both fun i =>
    uint64 ((stamps i).toNat - x0) >>= fun y => uint64 (i.1 * y)
  let denom ← accumulate int64 fun i => int64 (i.1 * i.1)
  let nxMean ← int64 (nStamps * xMean)
  let num ← int64 (num - (← int64 (nxMean * yMean)))
  let denom ← int64 (denom - (← int64 (nxMean * xMean)))
  let b ← both (num.tdiv denom)
  let a ← uint64 (yMean - (← uint64 (b * xMean)))
  let origin ← uint64 (x0 + a)
  let t1 ← checkedLimits (← uint64 (origin + (← uint64 (b * nStamps)))) (stamps (Fin.last _)).toNat
  let t2 ← checkedLimits (← uint64 (origin + (← uint64 (b * (nStamps + 1))))) t1
  return (t1, t2)

theorem int64_of_lt {v : Int} (hmin : 0 ≤ v) (hmax : v < 2 ^ 63) : int64 v = some v :=
  if_pos ⟨by omega, hmax⟩

theorem uint64_of_lt {v : Int} (hmin : 0 ≤ v) (hmax : v < 2 ^ 64) : uint64 v = some v :=
  if_pos ⟨hmin, hmax⟩

theorem both_of_lt {v : Int} (hmin : 0 ≤ v) (hmax : v < 2 ^ 63) : both v = some v := by
  rw [both, uint64_of_lt hmin (by omega)]
  exact int64_of_lt hmin hmax

theorem bind_of_some {α β : Type} {x : Option α} {f : α → Option β} {a : α} {r : Option β}
    (hx : x = some a) (hf : f a = r) : (x >>= f) = r := by
  rw [hx]
  exact hf

/-- A sum of values that are not negative grows up to the last one. -/
theorem accumulate_eq {store : Int → Option Int} {f : Fin nStamps → Option Int}
    {g : Fin nStamps → Int} {bound : Int}
    (hstore : ∀ {v : Int}, 0 ≤ v → v < 2 ^ 63 → store v = some v) (hf : ∀ i, f i = some (g i))
    (hg : ∀ i, 0 ≤ g i ∧ g i ≤ bound) (hbound : 21 * bound < 2 ^ 63) :
    accumulate store f = some (∑ i, g i) := by
  have hloop : ∀ (l : List (Fin nStamps)) (c : Int), 0 ≤ c → c + l.length * bound < 2 ^ 63 →
      l.foldlM (fun sum i => f i >>= fun v => store (sum + v)) c = some (c + (l.map g).sum) := by
    intro l
    induction l with
    | nil =>
        intro c _ _
        rw [List.foldlM_nil, List.map_nil, List.sum_nil, add_zero]
        rfl
    | cons i l ih =>
        intro c hc hlt
        obtain ⟨hmin, hmax⟩ := hg i
        have hlength : ((i :: l).length : Int) * bound = l.length * bound + bound := by
          rw [List.length_cons]
          push_cast
          ring
        have hrest : 0 ≤ (l.length : Int) * bound :=
          mul_nonneg (Int.natCast_nonneg _) (hmin.trans hmax)
        have hstep : (f i >>= fun v => store (c + v)) = some (c + g i) := by
          rw [hf]
          exact hstore (by omega) (by omega)
        rw [List.foldlM_cons, hstep, List.map_cons, List.sum_cons, ← add_assoc]
        exact ih _ (by omega) (by omega)
  have hall := hloop (List.finRange nStamps) 0 (le_refl 0) (by
    rw [List.length_finRange]
    push_cast
    omega)
  rw [zero_add] at hall
  rw [accumulate, hall, Fin.sum_univ_def]

theorem checkedLimits_inside {v a : Int} (hmin : 19800000 ≤ v - a) (hmax : v - a ≤ 20400000) :
    checkedLimits v a = some v := by
  have hdist : uint64 (v - a) = some (v - a) := uint64_of_lt (by omega) (by omega)
  rw [checkedLimits, hdist]
  simp only [Option.bind_eq_bind, Option.bind_some]
  rw [if_neg (by omega), hdist, Option.bind_some, if_neg (by omega)]

theorem checkedDenom : (accumulate int64 fun i => int64 (i.1 * i.1)) = some 2870 := by decide

theorem checkedIndexSum : (accumulate int64 fun i => some i.1) = some 210 := by decide

namespace Jittered

variable {stamps : Stamps} {t T J : ℝ} (h : Jittered stamps t T J)
include h

theorem origin_le : exactSlope stamps * 10 ≤ offsetMean stamps := by
  have hJ := h.jitter_le
  have hmax := h.max
  have hmin := h.min
  have hnonneg := h.jitter_nonneg
  have hfirst := abs_le.mp (h.near_offset 0)
  have hzero : (offset stamps 0 : ℝ) = 1000000 := by
    rw [offset]
    push_cast
    ring
  rw [hzero] at hfirst
  simp only [Fin.val_zero, Nat.cast_zero, Int.cast_zero, zero_mul, add_zero] at hfirst
  obtain ⟨hmean, hmean'⟩ := offsetMean_near stamps
  obtain ⟨hslope, hslope'⟩ := exactSlope_near stamps
  -- the mean of the grid is ten periods after its start
  obtain ⟨hlow, hhigh⟩ := abs_le.mp (h.combination 1 (-10) (n := 110) (by decide))
  obtain ⟨hlow', hhigh'⟩ := abs_le.mp (h.combination 0 1 (n := 21) (by decide))
  push_cast at hlow hhigh hlow' hhigh'
  have hreal : (exactSlope stamps * 10 : ℝ) ≤ offsetMean stamps := by linarith
  exact_mod_cast hreal

/-- **No value overflows**, and the result is that of the code. -/
theorem checkedNextStamp_eq (hfirst : 1000000 ≤ (stamps 0).toNat)
    (hlast : (stamps 0).toNat < 2 ^ 63 + 1000000) :
    checkedNextStamp stamps = some (exactForecast stamps 21, exactForecast stamps 22) := by
  have hm := h.moderate
  obtain ⟨hmean, hmean'⟩ := hm.offsetMean_bounds
  obtain ⟨hslope, hslope'⟩ := hm.exactSlope_bounds
  obtain ⟨hsum, hsum'⟩ := hm.offsetSum_bounds
  obtain ⟨hmoment, hmoment'⟩ := hm.momentSum_bounds
  have hrising := hm.rising
  have horigin := h.origin_le
  obtain ⟨⟨hmin, hmax⟩, hmin', hmax'⟩ := h.distances
  have hx0 : both ((stamps 0).toNat - 1000000) = some (((stamps 0).toNat : Int) - 1000000) :=
    both_of_lt (by omega) (by omega)
  have hy : ∀ i, uint64 ((stamps i).toNat - ((stamps 0).toNat - 1000000)) = some (offset stamps i) :=
    fun i => uint64_of_lt (hm.bounds i).1 ((hm.bounds i).2.trans (by decide))
  have hySum : (accumulate both fun i => uint64 ((stamps i).toNat - ((stamps 0).toNat - 1000000))) =
      some (offsetSum stamps) :=
    accumulate_eq both_of_lt hy (fun i => ⟨(hm.bounds i).1, (hm.bounds i).2.le⟩) (by decide)
  have hnum : (accumulate both fun i => uint64 ((stamps i).toNat - ((stamps 0).toNat - 1000000)) >>=
      fun y => uint64 (i.1 * y)) = some (momentSum stamps) := by
    have hbounds := hm.moment_bounds
    refine accumulate_eq both_of_lt (fun i => ?_) hbounds (by decide)
    rw [hy i]
    exact uint64_of_lt (hbounds i).1 (by have := (hbounds i).2; omega)
  have hyMean : both ((offsetSum stamps).tdiv nStamps) = some (offsetMean stamps) := by
    have hquot : (offsetSum stamps).tdiv nStamps = offsetMean stamps := Int.tdiv_eq_ediv_of_nonneg hsum
    rw [hquot]
    exact both_of_lt hmean (by omega)
  have hxMean : both (Int.tdiv 210 nStamps) = some 10 := rfl
  have hnx : int64 (nStamps * 10) = some 210 := rfl
  have hproduct : int64 (210 * offsetMean stamps) = some (210 * offsetMean stamps) :=
    int64_of_lt (by omega) (by omega)
  have hdiff : int64 (momentSum stamps - 210 * offsetMean stamps) =
      some (momentSum stamps - 210 * offsetMean stamps) := int64_of_lt (by omega) (by omega)
  have hxx : int64 (210 * 10) = some 2100 := rfl
  have hdenom : int64 (2870 - 2100) = some 770 := rfl
  have hb : both ((momentSum stamps - 210 * offsetMean stamps).tdiv 770) = some (exactSlope stamps) := by
    rw [Int.tdiv_eq_ediv_of_nonneg (by omega)]
    exact both_of_lt hslope (by omega)
  have hbx : uint64 (exactSlope stamps * 10) = some (exactSlope stamps * 10) :=
    uint64_of_lt (by omega) (by omega)
  have ha : uint64 (offsetMean stamps - exactSlope stamps * 10) =
      some (offsetMean stamps - exactSlope stamps * 10) := uint64_of_lt (by omega) (by omega)
  have hline : uint64 ((stamps 0).toNat - 1000000 + (offsetMean stamps - exactSlope stamps * 10)) =
      some ((stamps 0).toNat - 1000000 + (offsetMean stamps - exactSlope stamps * 10) : Int) :=
    uint64_of_lt (by omega) (by omega)
  have hrange : ∀ k : Int, 0 ≤ k → k ≤ 22 →
      0 ≤ exactSlope stamps * k ∧ exactSlope stamps * k ≤ 2 ^ 30 * 22 := fun k hk hk' =>
    ⟨mul_nonneg hslope hk, mul_le_mul hslope' hk' hk (by decide)⟩
  have hbk : ∀ k : Int, 0 ≤ k → k ≤ 22 →
      uint64 (exactSlope stamps * k) = some (exactSlope stamps * k) := by
    intro k hk hk'
    obtain ⟨hlow, hhigh⟩ := hrange k hk hk'
    exact uint64_of_lt hlow (by omega)
  have hforecast : ∀ k : Int, 0 ≤ k → k ≤ 22 →
      uint64 ((stamps 0).toNat - 1000000 + (offsetMean stamps - exactSlope stamps * 10) +
        exactSlope stamps * k) = some (exactForecast stamps k) := by
    intro k hk hk'
    obtain ⟨hlow, hhigh⟩ := hrange k hk hk'
    exact uint64_of_lt (by omega) (by omega)
  have hlimits := checkedLimits_inside hmin hmax
  have hlimits' := checkedLimits_inside hmin' hmax'
  unfold checkedNextStamp
  refine bind_of_some hx0 (bind_of_some checkedIndexSum (bind_of_some hySum ?_))
  refine bind_of_some hxMean (bind_of_some hyMean (bind_of_some hnum (bind_of_some checkedDenom ?_)))
  refine bind_of_some hnx (bind_of_some hproduct (bind_of_some hdiff ?_))
  refine bind_of_some hxx (bind_of_some hdenom (bind_of_some hb ?_))
  refine bind_of_some hbx (bind_of_some ha (bind_of_some hline ?_))
  refine bind_of_some (hbk 21 (by decide) (by decide)) ?_
  refine bind_of_some (hforecast 21 (by decide) (by decide)) (bind_of_some hlimits ?_)
  refine bind_of_some (hbk 22 (by decide) (by decide)) ?_
  exact bind_of_some (hforecast 22 (by decide) (by decide)) (bind_of_some hlimits' rfl)

end Jittered

/-- **Accuracy of the forecast**, for every jitter: with 64 bits for the predicted cycles it is
off by at most twice the jitter and 20 ns, and exact without jitter; and with an origin that
fits a signed word no value overflows. -/
theorem nextStamp_accurate (stamps : Stamps) (t T J : ℝ) (h : Jittered stamps t T J) :
    (t + 22 * T + 2 * J + 20 < 2 ^ 64 →
        |((nextStamp stamps).1.toNat : ℝ) - (t + 21 * T)| ≤ 2 * J + 20 ∧
          |((nextStamp stamps).2.toNat : ℝ) - (t + 22 * T)| ≤ 2 * J + 20 ∧
          (J = 0 → ((nextStamp stamps).1.toNat : ℝ) = t + 21 * T ∧
            ((nextStamp stamps).2.toNat : ℝ) = t + 22 * T)) ∧
      (1000000 ≤ (stamps 0).toNat → (stamps 0).toNat < 2 ^ 63 + 1000000 →
        checkedNextStamp stamps =
          some (((nextStamp stamps).1.toNat : Int), ((nextStamp stamps).2.toNat : Int))) := by
  have hJ := h.jitter_nonneg
  have hmax := h.max
  constructor
  · intro hlast
    obtain ⟨hfirst, hsecond⟩ := h.forecast_toNat hlast
    have hfirst' : ((nextStamp stamps).1.toNat : ℝ) = exactForecast stamps 21 := by
      exact_mod_cast hfirst
    have hsecond' : ((nextStamp stamps).2.toNat : ℝ) = exactForecast stamps 22 := by
      exact_mod_cast hsecond
    have hnear := h.forecast_near (Or.inl rfl)
    have hnear' := h.forecast_near (Or.inr rfl)
    rw [hfirst', hsecond']
    push_cast at hnear hnear'
    refine ⟨by linarith, by linarith, fun hzero => ?_⟩
    exact ⟨by exact_mod_cast h.forecast_exact hzero 21, by exact_mod_cast h.forecast_exact hzero 22⟩
  · intro hfirst hlast
    have hstart := abs_le.mp (h.near 0)
    have hfits : t + 22 * T + 2 * J + 20 < 2 ^ 64 := by
      have hreal : ((stamps 0).toNat : ℝ) < 2 ^ 63 + 1000000 := by exact_mod_cast hlast
      simp only [Fin.val_zero, Nat.cast_zero, zero_mul, add_zero] at hstart
      linarith
    obtain ⟨h21, h22⟩ := h.forecast_toNat hfits
    rw [h21, h22]
    exact h.checkedNextStamp_eq hfirst hlast

def grid (start : Nat) : Stamps := fun i => BitVec.ofNat 64 (start + i.1 * 20000000)

theorem grid_jittered {start : Nat} (h : start + 400000000 < 2 ^ 64) :
    Jittered (grid start) start 20000000 0 := by
  refine ⟨fun i => ?_, by norm_num, by norm_num⟩
  have hi : i.1 < 21 := i.isLt
  have hvalue : (grid start i).toNat = start + i.1 * 20000000 := by
    rw [grid, BitVec.toNat_ofNat, Nat.mod_eq_of_lt (by omega)]
  rw [hvalue]
  push_cast
  rw [sub_self, abs_zero]

theorem nextStamp_accurate_grid :
    Jittered (grid 1800000000000000000) (1800000000000000000 : Nat) 20000000 0 ∧
      ((nextStamp (grid 1800000000000000000)).1.toNat : ℝ) =
        (1800000000000000000 : Nat) + 21 * 20000000 := by
  have hgrid : Jittered (grid 1800000000000000000) (1800000000000000000 : Nat) 20000000 0 :=
    grid_jittered (by decide)
  exact ⟨hgrid, (((nextStamp_accurate _ _ _ _ hgrid).1 (by norm_num)).2.2 rfl).1⟩

/-- **No forecast beyond 64 bits**: after the last stamps that fit, the predicted one is not
that of the grid. -/
theorem forecast_beyond_word :
    ¬ ∀ (stamps : Stamps) (t T J : ℝ), Jittered stamps t T J →
      |((nextStamp stamps).1.toNat : ℝ) - (t + 21 * T)| ≤ 2 * J + 20 := by
  intro h
  have hgrid : Jittered (grid (2 ^ 64 - 400000001)) (2 ^ 64 - 400000001 : Nat) 20000000 0 :=
    grid_jittered (by norm_num)
  have hnear := (abs_le.mp (h _ _ _ _ hgrid)).1
  have hword : ((nextStamp (grid (2 ^ 64 - 400000001))).1.toNat : ℝ) < 2 ^ 64 := by
    exact_mod_cast (nextStamp (grid (2 ^ 64 - 400000001))).1.isLt
  have hstart : ((2 ^ 64 - 400000001 : Nat) : ℝ) = 2 ^ 64 - 400000001 := by norm_num
  rw [hstart] at hnear
  linarith

end WrF50
