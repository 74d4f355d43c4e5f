import BelProjects.WrUnipz.Operation
import Mathlib.Algebra.Group.Nat.Defs

/-!
# The prediction of the next cycle

The start of the next cycle is the average of four extrapolations from the last syncs, kept
between the shortest and the longest period after the last one.  Without overflow the average
that is computed is that of the extrapolations up to what the shifts cut off.  The comparison
with the longest period is one of unsigned numbers, so an average before the last sync is taken
for one far behind it.
-/

namespace WrUnipz

/-- The times of the last syncs, in order and below `2 ^ 63`. -/
structure Firmware.SyncOrdered (s : Firmware) : Prop where
  t01 : s.syncPrevT0.toNat ≤ s.syncPrevT1.toNat
  t12 : s.syncPrevT1.toNat ≤ s.syncPrevT2.toNat
  t23 : s.syncPrevT2.toNat ≤ s.syncPrevT3.toNat
  t34 : s.syncPrevT3.toNat ≤ s.syncPrevT4.toNat
  bound : s.syncPrevT4.toNat < 2 ^ 63

namespace Firmware

variable (s : Firmware)

/-- Sixteen times the average of the extrapolations, each of which is a sync and some quarters of
the time from the first to the last. -/
def average16 : Int :=
  4 * ((s.syncPrevT1.toNat : Int) + s.syncPrevT2.toNat + s.syncPrevT3.toNat +
    s.syncPrevT4.toNat) + (1 + 2 + 3 + 4) * ((s.syncPrevT4.toNat : Int) - s.syncPrevT0.toNat)

/-- Sixteen times the average, kept between the limits. -/
def limited16 : Int :=
  max (16 * ((s.syncPrevT4.toNat : Int) + unilacPeriodMin.toNat))
    (min (16 * ((s.syncPrevT4.toNat : Int) + unilacPeriodMax.toNat)) s.average16)

/-- The syncs follow each other with one period. -/
structure Periodic (period : Nat) : Prop where
  t01 : s.syncPrevT1.toNat = s.syncPrevT0.toNat + period
  t12 : s.syncPrevT2.toNat = s.syncPrevT1.toNat + period
  t23 : s.syncPrevT3.toNat = s.syncPrevT2.toNat + period
  t34 : s.syncPrevT4.toNat = s.syncPrevT3.toNat + period

/-- The prediction is the average within its limits, up to 8 ns. -/
structure Predicts : Prop where
  near : (16 * (s.predictNxtCycle.toNat : Int) - s.limited16).natAbs ≤ 16 * 8
  periodic : ∀ period : Nat, unilacPeriodMin.toNat ≤ period → period ≤ unilacPeriodMax.toNat →
    s.Periodic period →
      ((s.predictNxtCycle.toNat : Int) - (s.syncPrevT4.toNat + period)).natAbs ≤ 8
  latest : s.predictNxtCycle.toNat ≤ s.syncPrevT4.toNat + unilacPeriodMax.toNat

/-- The sum of the quarters of the extrapolations, as the divisions leave it. -/
def meanPrediction : Nat :=
  let predictLen := (s.syncPrevT4.toNat - s.syncPrevT0.toNat) / 4
  (s.syncPrevT4.toNat + 1 * predictLen) / 4 + (s.syncPrevT3.toNat + 2 * predictLen) / 4 +
    (s.syncPrevT2.toNat + 3 * predictLen) / 4 + (s.syncPrevT1.toNat + 4 * predictLen) / 4

end Firmware

/-! ### The average -/

theorem toNat_extrapolation (t : Long) {len : Long} (k : Nat) (ht : t.toNat < 2 ^ 63)
    (hlen : len.toNat < 2 ^ 61) (hk : k ≤ 4) :
    ((t + BitVec.ofNat 64 k * len) >>> 2).toNat = (t.toNat + k * len.toNat) / 4 := by
  have hmul : k * len.toNat ≤ 4 * len.toNat := Nat.mul_le_mul_right _ hk
  have hprod : (BitVec.ofNat 64 k * len).toNat = k * len.toNat := by
    rw [BitVec.toNat_mul, BitVec.toNat_ofNat, Nat.mod_eq_of_lt (by omega : k < 2 ^ 64),
      Nat.mod_eq_of_lt (by omega)]
  rw [BitVec.toNat_ushiftRight, BitVec.toNat_add, hprod, Nat.mod_eq_of_lt (by omega),
    Nat.shiftRight_eq_div_pow]

namespace Firmware

variable {s : Firmware}

def average (s : Firmware) : Long :=
  let predictLen := (s.syncPrevT4 - s.syncPrevT0) >>> 2
  ((s.syncPrevT4 + 1 * predictLen) >>> 2) + ((s.syncPrevT3 + 2 * predictLen) >>> 2) +
    ((s.syncPrevT2 + 3 * predictLen) >>> 2) + ((s.syncPrevT1 + 4 * predictLen) >>> 2)

theorem toNat_average (h : s.SyncOrdered) : s.average.toNat = s.meanPrediction := by
  obtain ⟨h01, h12, h23, h34, hbound⟩ := h
  have hlen : ((s.syncPrevT4 - s.syncPrevT0) >>> 2).toNat =
      (s.syncPrevT4.toNat - s.syncPrevT0.toNat) / 4 := by
    rw [BitVec.toNat_ushiftRight, BitVec.toNat_sub_of_le (by rw [BitVec.le_def]; omega),
      Nat.shiftRight_eq_div_pow]
  have hsmall : ((s.syncPrevT4 - s.syncPrevT0) >>> 2).toNat < 2 ^ 61 := by omega
  have h4 : ((s.syncPrevT4 + (1 : Long) * ((s.syncPrevT4 - s.syncPrevT0) >>> 2)) >>> 2).toNat = _ :=
    toNat_extrapolation s.syncPrevT4 1 hbound hsmall (by omega)
  have h3 : ((s.syncPrevT3 + (2 : Long) * ((s.syncPrevT4 - s.syncPrevT0) >>> 2)) >>> 2).toNat = _ :=
    toNat_extrapolation s.syncPrevT3 2 (by omega) hsmall (by omega)
  have h2 : ((s.syncPrevT2 + (3 : Long) * ((s.syncPrevT4 - s.syncPrevT0) >>> 2)) >>> 2).toNat = _ :=
    toNat_extrapolation s.syncPrevT2 3 (by omega) hsmall (by omega)
  have h1 : ((s.syncPrevT1 + (4 : Long) * ((s.syncPrevT4 - s.syncPrevT0) >>> 2)) >>> 2).toNat = _ :=
    toNat_extrapolation s.syncPrevT1 4 (by omega) hsmall (by omega)
  rw [average, BitVec.toNat_add, BitVec.toNat_add, BitVec.toNat_add, h1, h2, h3, h4, hlen,
    meanPrediction]
  have hquarter : ∀ t k : Nat, t < 2 ^ 63 → k ≤ 4 →
      (t + k * ((s.syncPrevT4.toNat - s.syncPrevT0.toNat) / 4)) / 4 < 2 ^ 62 := by
    intro t k ht hk
    have hmul := Nat.mul_le_mul_right ((s.syncPrevT4.toNat - s.syncPrevT0.toNat) / 4) hk
    omega
  have q4 := hquarter s.syncPrevT4.toNat 1 hbound (by omega)
  have q3 := hquarter s.syncPrevT3.toNat 2 (by omega) (by omega)
  have q2 := hquarter s.syncPrevT2.toNat 3 (by omega) (by omega)
  have q1 := hquarter s.syncPrevT1.toNat 4 (by omega) (by omega)
  omega

/-- The divisions cut off less than 5 ns. -/
theorem meanPrediction_near (h : s.SyncOrdered) :
    16 * (s.meanPrediction : Int) ≤ s.average16 ∧
      s.average16 ≤ 16 * (s.meanPrediction : Int) + 80 := by
  obtain ⟨h01, h12, h23, h34, -⟩ := h
  rw [meanPrediction, average16]
  constructor <;> omega

/-- The limits, as the comparisons of unsigned numbers find them. -/
theorem predictNxtCycle_eq :
    s.predictNxtCycle =
      let predictT :=
        if unilacPeriodMax < s.average - s.syncPrevT4 then s.syncPrevT4 + unilacPeriodMax
        else s.average
      if predictT - s.syncPrevT4 < unilacPeriodMin then s.syncPrevT4 + unilacPeriodMin
      else predictT := rfl

section Limits

variable {m t : Nat} (h : ¬ m < t)

include h

theorem limit_late (hfar : 20200000 < m - t) :
    max (t + 19800000) (min (t + 20200000) m) = t + 20200000 := by omega

theorem limit_early (hnear : m - t < 19800000) :
    max (t + 19800000) (min (t + 20200000) m) = t + 19800000 := by omega

theorem limit_between (hfar : ¬ 20200000 < m - t) (hnear : ¬ m - t < 19800000) :
    max (t + 19800000) (min (t + 20200000) m) = m := by omega

end Limits

theorem toNat_predictNxtCycle (h : s.SyncOrdered) :
    s.predictNxtCycle.toNat =
      if s.meanPrediction < s.syncPrevT4.toNat then s.syncPrevT4.toNat + 20200000
      else max (s.syncPrevT4.toNat + 19800000)
        (min (s.syncPrevT4.toNat + 20200000) s.meanPrediction) := by
  have hbound := h.bound
  have havg := toNat_average h
  have hmax : unilacPeriodMax.toNat = 20200000 := rfl
  have hmin : unilacPeriodMin.toNat = 19800000 := rfl
  have hlatest : (s.syncPrevT4 + unilacPeriodMax).toNat = s.syncPrevT4.toNat + 20200000 := by
    rw [BitVec.toNat_add, hmax, Nat.mod_eq_of_lt (by omega)]
  have hearliest : (s.syncPrevT4 + unilacPeriodMin).toNat = s.syncPrevT4.toNat + 19800000 := by
    rw [BitVec.toNat_add, hmin, Nat.mod_eq_of_lt (by omega)]
  have hnot : ¬ s.syncPrevT4 + unilacPeriodMax - s.syncPrevT4 < unilacPeriodMin := by
    rw [BitVec.add_comm, BitVec.add_sub_cancel]
    decide
  by_cases hbefore : s.meanPrediction < s.syncPrevT4.toNat
  · -- the difference wraps, and exceeds the longest period
    have hfar : unilacPeriodMax < s.average - s.syncPrevT4 := by
      rw [BitVec.lt_def, BitVec.toNat_sub, havg, hmax]
      omega
    have hleft : s.predictNxtCycle = s.syncPrevT4 + unilacPeriodMax := by
      rw [predictNxtCycle_eq]
      dsimp only
      rw [if_pos hfar, if_neg hnot]
    rw [hleft, hlatest, if_pos hbefore]
  · have hdiff : (s.average - s.syncPrevT4).toNat = s.meanPrediction - s.syncPrevT4.toNat := by
      rw [BitVec.toNat_sub_of_le (by rw [BitVec.le_def]; omega), havg]
    by_cases hfar : unilacPeriodMax < s.average - s.syncPrevT4
    · have hleft : s.predictNxtCycle = s.syncPrevT4 + unilacPeriodMax := by
        rw [predictNxtCycle_eq]
        dsimp only
        rw [if_pos hfar, if_neg hnot]
      rw [BitVec.lt_def, hdiff, hmax] at hfar
      rw [hleft, hlatest, if_neg hbefore, limit_late hbefore hfar]
    by_cases hnear : s.average - s.syncPrevT4 < unilacPeriodMin
    · have hleft : s.predictNxtCycle = s.syncPrevT4 + unilacPeriodMin := by
        rw [predictNxtCycle_eq]
        dsimp only
        rw [if_neg hfar, if_pos hnear]
      rw [BitVec.lt_def, hdiff, hmin] at hnear
      rw [hleft, hearliest, if_neg hbefore, limit_early hbefore hnear]
    · have hleft : s.predictNxtCycle = s.average := by
        rw [predictNxtCycle_eq]
        dsimp only
        rw [if_neg hfar, if_neg hnear]
      rw [BitVec.lt_def, hdiff, hmax] at hfar
      rw [BitVec.lt_def, hdiff, hmin] at hnear
      rw [hleft, havg, if_neg hbefore, limit_between hbefore hfar hnear]

section Near

variable {m t : Nat} {a : Int}

/-- Limits bring two numbers no further apart. -/
theorem limited_near (hlo : 16 * (m : Int) ≤ a) (hhi : a ≤ 16 * (m : Int) + 80) :
    (16 * ((max (t + 19800000) (min (t + 20200000) m) : Nat) : Int) -
      max (16 * ((t : Int) + (19800000 : Nat)))
        (min (16 * ((t : Int) + (20200000 : Nat))) a)).natAbs ≤ 16 * 8 := by
  omega

/-- An average before the last sync should give the lower limit. -/
theorem not_limited_near (hhi : a ≤ 16 * (m : Int) + 80) (hlt : m < t) :
    ¬ (16 * ((t + 20200000 : Nat) : Int) -
      max (16 * ((t : Int) + (19800000 : Nat)))
        (min (16 * ((t : Int) + (20200000 : Nat))) a)).natAbs ≤ 16 * 8 := by
  omega

theorem limited_periodic {period : Nat} (hshort : 19800000 ≤ period) (hlong : period ≤ 20200000)
    (hlo : 16 * (m : Int) ≤ 16 * (t + period)) (hhi : 16 * ((t : Int) + period) ≤ 16 * m + 80) :
    (((max (t + 19800000) (min (t + 20200000) m) : Nat) : Int) - (t + period)).natAbs ≤ 8 := by
  omega

end Near

theorem Periodic.average16_eq {period : Nat} (h : s.Periodic period) :
    s.average16 = 16 * (s.syncPrevT4.toNat + period) := by
  obtain ⟨h01, h12, h23, h34⟩ := h
  rw [average16]
  omega

/-- Where the average is not before the last sync the prediction is right, and only there. -/
theorem predicts_iff (s : Firmware) (h : s.SyncOrdered) :
    s.Predicts ↔ s.syncPrevT4.toNat ≤ s.meanPrediction := by
  have hres := toNat_predictNxtCycle h
  have hmax : unilacPeriodMax.toNat = 20200000 := rfl
  have hmin : unilacPeriodMin.toNat = 19800000 := rfl
  obtain ⟨hlo, hhi⟩ := meanPrediction_near h
  constructor
  · intro hp
    have hnear := hp.near
    by_contra hlt
    have hbefore := Nat.lt_of_not_le hlt
    rw [hres, if_pos hbefore, limited16, hmax, hmin] at hnear
    exact not_limited_near hhi hbefore hnear
  · intro hle
    rw [if_neg (Nat.not_lt.mpr hle)] at hres
    refine ⟨?_, fun period hshort hlong hperiod => ?_, ?_⟩
    · rw [hres, limited16, hmax, hmin]
      exact limited_near hlo hhi
    · rw [hperiod.average16_eq] at hlo hhi
      rw [hres]
      exact limited_periodic hshort hlong hlo hhi
    · rw [hres, hmax]
      exact max_le (Nat.add_le_add_left (by decide) _) (min_le_left _ _)

section Sample

def syncedAt (t0 t1 t2 t3 t4 : Long) : Firmware where
  bigData := fun _ _ => .cleared
  actVacc := fun _ => noVacc
  actChan := fun _ => 0
  nextVacc := fun _ => noVacc
  nextChan := fun _ => 0
  nextChopNo := fun _ => 0
  nextChopShort := fun _ => 0
  syncPrevT0 := t0
  syncPrevT1 := t1
  syncPrevT2 := t2
  syncPrevT3 := t3
  syncPrevT4 := t4
  flagClearAllPZ := false

/-- Five syncs at 50 Hz. -/
theorem predicts_at_50Hz :
    (syncedAt 0 20000000 40000000 60000000 80000000).SyncOrdered ∧
      ((syncedAt 0 20000000 40000000 60000000 80000000).Predicts ↔
        (syncedAt 0 20000000 40000000 60000000 80000000).syncPrevT4.toNat ≤
          (syncedAt 0 20000000 40000000 60000000 80000000).meanPrediction) := by
  have h : (syncedAt 0 20000000 40000000 60000000 80000000).SyncOrdered :=
    ⟨by decide, by decide, by decide, by decide, by decide⟩
  exact ⟨h, predicts_iff _ h⟩

/-- After the first sync the average lies before it. -/
theorem first_prediction :
    ¬ ∀ s : Firmware, s.SyncOrdered → s.Predicts := by
  intro h
  have hnear := (h (syncedAt 0 0 0 0 1600000000000000000)
    ⟨by decide, by decide, by decide, by decide, by decide⟩).near
  exact absurd hnear (by decide +kernel)

end Sample

end Firmware

end WrUnipz
