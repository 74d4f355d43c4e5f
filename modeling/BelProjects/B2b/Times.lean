import BelProjects.B2b.Operation
import Mathlib.Data.Int.ModEq
import Mathlib.Tactic.Linarith
import Mathlib.Tactic.Ring

/-!
# Times with a sub-ns part

`fwlib_cleanB2bt` moves whole nanoseconds from the ps part of a time to its ns part, and
`fwlib_advanceTimePs` advances a time by whole periods beyond another one.  Both calculate with
words; the value of a time is its distance from zero in picoseconds.
-/

namespace B2b

/-! ### Signed words -/

theorem Word.toInt_add_of_neg {x : Word} (h : x.toInt < 0) : (x + 1000).toInt = x.toInt + 1000 := by
  have hbound := BitVec.le_toInt x
  rw [BitVec.toInt_add, Int.bmod_eq_of_le] <;> simp at hbound ⊢ <;> omega

theorem Word.toInt_sub_of_nonneg {x : Word} (h : 0 ≤ x.toInt) :
    (x - 1000).toInt = x.toInt - 1000 := by
  have hbound := BitVec.toInt_lt (x := x)
  rw [BitVec.toInt_sub, Int.bmod_eq_of_le] <;> simp at hbound ⊢ <;> omega

/-! ### The routines -/

/-- The first loop of `fwlib_cleanB2bt`. -/
def B2bt.raisePs (t : B2bt) : B2bt :=
  if t.ps.toInt < -500 then raisePs { t with ns := t.ns - 1, ps := t.ps + 1000 } else t
termination_by (-500 - t.ps.toInt).toNat
decreasing_by
  have hps := Word.toInt_add_of_neg (x := t.ps) (by omega)
  simp only [hps]
  omega

/-- The second loop of `fwlib_cleanB2bt`. -/
def B2bt.lowerPs (t : B2bt) : B2bt :=
  if 500 ≤ t.ps.toInt then lowerPs { t with ns := t.ns + 1, ps := t.ps - 1000 } else t
termination_by t.ps.toInt.toNat
decreasing_by
  have hps := Word.toInt_sub_of_nonneg (x := t.ps) (by omega)
  simp only [hps]
  omega

def cleanB2bt (t : B2bt) : B2bt := t.raisePs.lowerPs

/-- Nine orders of magnitude. -/
def nineO : Long := 1000000000

/-- An interval in full nanoseconds and a signed fraction, rounded to the nearest nanosecond. -/
def splitNs (intervalAs : Long) : Long × Long :=
  let half := nineO >>> 1
  let intervalNs := intervalAs / nineO
  let fractionAs := intervalAs % nineO
  if half < fractionAs then (intervalNs + 1, fractionAs - nineO) else (intervalNs, fractionAs)

def advanceTimePs (t1 t2 : B2bt) (period : Long) : B2bt :=
  if period = 0 then ⟨0, 0, 0⟩
  else if t2.ns < t1.ns then ⟨0, 0, 0⟩
  else if nineO < t2.ns - t1.ns then ⟨0, 0, 0⟩
  else
    let dtPs := (t2.ns - t1.ns) * 1000 + (t2.ps - t1.ps).signExtend 64
    let dtAs := dtPs * 1000000
    let nPeriods := dtAs / period + 1
    let intervalAs := nPeriods * period
    let (intervalNs, fractionAs) := splitNs intervalAs
    { ns := t1.ns + intervalNs
      ps := (t1.ps.signExtend 64 + fractionAs.sdiv 1000000).setWidth 32
      dps := t1.dps }

/-! ### Clean times -/

def B2bt.value (t : B2bt) : ℤ := t.ns.toNat * 1000 + t.ps.toInt

def B2bt.Clean (t : B2bt) : Prop := -500 ≤ t.ps.toInt ∧ t.ps.toInt < 500

/-- The values after which the ns part starts again at zero. -/
def turn : ℤ := 2 ^ 64 * 1000

/-- The picoseconds that a clean time can show. -/
def Shown (v : ℤ) : Prop := -500 ≤ v ∧ v < turn - 500

instance (v : ℤ) : Decidable (Shown v) := inferInstanceAs (Decidable (_ ∧ _))

theorem B2bt.Clean.shown {t : B2bt} (h : t.Clean) : Shown t.value := by
  have hns := t.ns.isLt
  obtain ⟨hlow, hhigh⟩ := h
  unfold Shown value turn
  omega

/-- Two values that a clean time can show are equal when they are equal up to turns. -/
theorem Shown.eq_of_modEq {v w : ℤ} (hv : Shown v) (hw : Shown w) (h : v ≡ w [ZMOD turn]) :
    v = w := by
  obtain ⟨k, hk⟩ := h.dvd
  unfold Shown turn at *
  omega

theorem toNat_add_modEq (a b : Long) : ((a + b).toNat : ℤ) ≡ a.toNat + b.toNat [ZMOD 2 ^ 64] := by
  rw [BitVec.toNat_add, Int.natCast_mod, Int.natCast_add]
  exact Int.mod_modEq _ _

theorem toNat_sub_modEq (a b : Long) : ((a - b).toNat : ℤ) ≡ a.toNat - b.toNat [ZMOD 2 ^ 64] := by
  have h := (toNat_add_modEq (a - b) b).sub_right b.toNat
  rw [BitVec.sub_add_cancel, add_sub_cancel_right] at h
  exact h.symm

theorem value_modEq {t t' : B2bt} {d : ℤ} (hns : (t'.ns.toNat : ℤ) ≡ t.ns.toNat + d [ZMOD 2 ^ 64])
    (hps : t'.ps.toInt = t.ps.toInt - d * 1000) : t'.value ≡ t.value [ZMOD turn] := by
  have hscaled := (hns.mul_right' (c := 1000)).add_right t'.ps.toInt
  have hsum : (t.ns.toNat + d) * 1000 + t'.ps.toInt = t.value := by
    rw [hps, B2bt.value]
    ring
  rw [hsum] at hscaled
  exact hscaled

theorem raisePs_spec (t : B2bt) :
    t.raisePs.value ≡ t.value [ZMOD turn] ∧ -500 ≤ t.raisePs.ps.toInt := by
  induction t using B2bt.raisePs.induct with
  | case1 t hlow ih =>
    rw [B2bt.raisePs, if_pos hlow]
    have hps := Word.toInt_add_of_neg (x := t.ps) (by omega)
    obtain ⟨hvalue, hge⟩ := ih
    refine ⟨hvalue.trans (value_modEq (d := -1) ?_ ?_), hge⟩
    · exact toNat_sub_modEq t.ns 1
    · rw [hps]
      ring
  | case2 t hhigh =>
    rw [B2bt.raisePs, if_neg hhigh]
    exact ⟨Int.ModEq.rfl, by omega⟩

theorem lowerPs_spec (t : B2bt) (h : -500 ≤ t.ps.toInt) :
    t.lowerPs.value ≡ t.value [ZMOD turn] ∧ t.lowerPs.Clean := by
  induction t using B2bt.lowerPs.induct with
  | case1 t hhigh ih =>
    rw [B2bt.lowerPs, if_pos hhigh]
    have hps := Word.toInt_sub_of_nonneg (x := t.ps) (by omega)
    obtain ⟨hvalue, hclean⟩ := ih (by rw [hps]; omega)
    refine ⟨hvalue.trans (value_modEq (d := 1) ?_ ?_), hclean⟩
    · exact toNat_add_modEq t.ns 1
    · rw [hps]
      ring
  | case2 t hlow =>
    rw [B2bt.lowerPs, if_neg hlow]
    exact ⟨Int.ModEq.rfl, h, by omega⟩

theorem cleanB2bt_spec (t : B2bt) :
    (cleanB2bt t).value ≡ t.value [ZMOD turn] ∧ (cleanB2bt t).Clean := by
  obtain ⟨hraise, hlow⟩ := raisePs_spec t
  obtain ⟨hlower, hclean⟩ := lowerPs_spec t.raisePs hlow
  exact ⟨hlower.trans hraise, hclean⟩

theorem cleanB2bt_value_iff (t : B2bt) : (cleanB2bt t).value = t.value ↔ Shown t.value := by
  obtain ⟨hvalue, hclean⟩ := cleanB2bt_spec t
  constructor
  · intro heq
    rw [← heq]
    exact hclean.shown
  · intro hshown
    exact hclean.shown.eq_of_modEq hshown hvalue

/-! ### Whole periods -/

/-- The first whole number of periods that leads beyond `t2`, in attoseconds. -/
def periodsBeyond (t1 t2 : B2bt) (period : Long) : ℕ :=
  ((t2.value - t1.value).toNat * 1000000 / period.toNat + 1) * period.toNat

/-- Attoseconds in whole picoseconds, on the side of the nearest nanosecond. -/
def roundPs (d : ℕ) : ℕ := if d % 1000000000 ≤ 500000000 then d / 1000000 else (d + 999999) / 1000000

structure Advancing (t1 t2 : B2bt) (period : Long) : Prop where
  ps1 : |t1.ps.toInt| < 1000
  ps2 : |t2.ps.toInt| < 1000
  ordered : t1.value ≤ t2.value
  near : (t2.ns.toNat : ℤ) - t1.ns.toNat ≤ 1000000000
  pos : 0 < period.toNat
  small : period.toNat ≤ 10000000000000000000

section Advance

variable {t1 t2 : B2bt} {period : Long}

theorem roundPs_near (d : ℕ) : (roundPs d : ℤ) * 1000000 - d < 1000000 ∧
    (d : ℤ) - roundPs d * 1000000 < 1000000 := by
  unfold roundPs
  split <;> omega

theorem periodsBeyond_gt (hpos : 0 < period.toNat) (h : t1.value ≤ t2.value) :
    (t2.value - t1.value) * 1000000 < periodsBeyond t1 t2 period := by
  have hlt := Nat.lt_div_mul_add hpos (a := (t2.value - t1.value).toNat * 1000000)
  have heq : periodsBeyond t1 t2 period =
      (t2.value - t1.value).toNat * 1000000 / period.toNat * period.toNat + period.toNat := by
    rw [periodsBeyond]
    ring
  omega

theorem periodsBeyond_le (period : Long) (h : t1.value ≤ t2.value) :
    (periodsBeyond t1 t2 period : ℤ) ≤ (t2.value - t1.value) * 1000000 + period.toNat := by
  have hle := Nat.div_mul_le_self ((t2.value - t1.value).toNat * 1000000) period.toNat
  have heq : periodsBeyond t1 t2 period =
      (t2.value - t1.value).toNat * 1000000 / period.toNat * period.toNat + period.toNat := by
    rw [periodsBeyond]
    ring
  omega

theorem toInt_setWidth_of_small {x : Long} (hlow : -1000000 < x.toInt) (hhigh : x.toInt < 1000000) :
    (x.setWidth 32).toInt = x.toInt := by
  have hx := x.isLt
  rw [BitVec.toInt_setWidth]
  rw [BitVec.toInt_eq_toNat_cond] at *
  unfold Int.bmod
  dsimp only
  split at hlow <;> split <;> omega

theorem toInt_sdiv_million (x : Long) : (x.sdiv 1000000).toInt = x.toInt.tdiv 1000000 :=
  BitVec.toInt_sdiv_of_ne_or_ne x 1000000 (Or.inr (by decide))

theorem splitNs_spec (d : Long) :
    ((splitNs d).1.toNat : ℤ) * 1000 + ((splitNs d).2.sdiv 1000000).toInt = roundPs d.toNat ∧
      |((splitNs d).2.sdiv 1000000).toInt| ≤ 500 := by
  have hd := d.isLt
  have hnine : nineO.toNat = 1000000000 := rfl
  have hdiv : (d / nineO).toNat = d.toNat / 1000000000 := by rw [BitVec.toNat_udiv, hnine]
  have hmod : (d % nineO).toNat = d.toNat % 1000000000 := by rw [BitVec.toNat_umod, hnine]
  have hfrac : (d % nineO).toInt = d.toNat % 1000000000 := by
    rw [BitVec.toInt_eq_toNat_of_lt (by omega), hmod]
    omega
  unfold splitNs roundPs
  dsimp only
  by_cases hhalf : d.toNat % 1000000000 ≤ 500000000
  case pos =>
    have hle : ¬ nineO >>> 1 < d % nineO := by
      rw [BitVec.lt_def, hmod, show (nineO >>> 1).toNat = 500000000 from rfl]
      omega
    rw [if_neg hle, if_pos hhalf, toInt_sdiv_million, hfrac, hdiv,
      Int.tdiv_eq_ediv_of_nonneg (by omega)]
    exact ⟨by omega, by rw [abs_le]; omega⟩
  case neg =>
    have hlt : nineO >>> 1 < d % nineO := by
      rw [BitVec.lt_def, hmod, show (nineO >>> 1).toNat = 500000000 from rfl]
      omega
    have hup : (d / nineO + 1).toNat = d.toNat / 1000000000 + 1 := by
      rw [BitVec.toNat_add, hdiv, show (1 : Long).toNat = 1 from rfl]
      omega
    -- the rest to the next nanosecond, which is negative
    have hrest : (d % nineO - nineO).toInt = -((1000000000 - d.toNat % 1000000000 : ℕ) : ℤ) := by
      rw [BitVec.toInt_sub, hfrac, show nineO.toInt = 1000000000 from rfl, Int.bmod_eq_of_le] <;>
        omega
    rw [if_pos hlt, if_neg hhalf, toInt_sdiv_million, hup, hrest, Int.neg_tdiv,
      Int.tdiv_eq_ediv_of_nonneg (by omega)]
    exact ⟨by omega, by rw [abs_le]; omega⟩

theorem elapsed_toNat (h : Advancing t1 t2 period) (hns : t1.ns ≤ t2.ns) :
    ((t2.ns - t1.ns) * 1000 + (t2.ps - t1.ps).signExtend 64).toNat =
      (t2.value - t1.value).toNat := by
  have hps1 := abs_lt.mp h.ps1
  have hps2 := abs_lt.mp h.ps2
  have hle := BitVec.le_def.mp hns
  have hordered := h.ordered
  have hnear := h.near
  have hvalue : t2.value - t1.value =
      (t2.ns.toNat - t1.ns.toNat) * 1000 + (t2.ps.toInt - t1.ps.toInt) := by
    unfold B2bt.value
    ring
  have hsub := BitVec.toNat_sub_of_le hns
  have hmul : ((t2.ns - t1.ns) * 1000).toNat = (t2.ns.toNat - t1.ns.toNat) * 1000 := by
    rw [BitVec.toNat_mul, hsub, show (1000 : Long).toNat = 1000 from rfl]
    omega
  have hns' : ((t2.ns - t1.ns) * 1000).toInt = (t2.ns.toNat - t1.ns.toNat) * 1000 := by
    rw [BitVec.toInt_eq_toNat_of_lt (by omega), hmul]
    omega
  have hps' : ((t2.ps - t1.ps).signExtend 64).toInt = t2.ps.toInt - t1.ps.toInt := by
    rw [BitVec.toInt_signExtend_of_le (by omega), BitVec.toInt_sub, Int.bmod_eq_of_le] <;> omega
  have hsum : ((t2.ns - t1.ns) * 1000 + (t2.ps - t1.ps).signExtend 64).toInt =
      t2.value - t1.value := by
    rw [BitVec.toInt_add, hns', hps', hvalue, Int.bmod_eq_of_le] <;> omega
  rw [BitVec.toInt_eq_toNat_cond] at hsum
  split at hsum <;> omega

theorem interval_toNat (h : Advancing t1 t2 period) (hns : t1.ns ≤ t2.ns) :
    ((((t2.ns - t1.ns) * 1000 + (t2.ps - t1.ps).signExtend 64) * 1000000 / period + 1) *
      period).toNat = periodsBeyond t1 t2 period := by
  have hps1 := abs_lt.mp h.ps1
  have hps2 := abs_lt.mp h.ps2
  have hnear := h.near
  have hordered := h.ordered
  have hsmall := h.small
  have hle := periodsBeyond_le period hordered
  have hfar : t2.value - t1.value ≤ 1000000002000 := by
    unfold B2bt.value
    omega
  have has : (((t2.ns - t1.ns) * 1000 + (t2.ps - t1.ps).signExtend 64) * 1000000).toNat =
      (t2.value - t1.value).toNat * 1000000 := by
    rw [BitVec.toNat_mul, elapsed_toNat h hns, show (1000000 : Long).toNat = 1000000 from rfl]
    omega
  have hquot := Nat.div_le_self ((t2.value - t1.value).toNat * 1000000) period.toNat
  have hn : (((t2.ns - t1.ns) * 1000 + (t2.ps - t1.ps).signExtend 64) * 1000000 / period + 1).toNat =
      (t2.value - t1.value).toNat * 1000000 / period.toNat + 1 := by
    rw [BitVec.toNat_add, BitVec.toNat_udiv, has, show (1 : Long).toNat = 1 from rfl]
    generalize (t2.value - t1.value).toNat * 1000000 / period.toNat = n at hquot ⊢
    omega
  rw [BitVec.toNat_mul, hn, ← periodsBeyond, Nat.mod_eq_of_lt (by omega)]

theorem advanceTimePs_value (h : Advancing t1 t2 period) (hns : t1.ns ≤ t2.ns) :
    (advanceTimePs t1 t2 period).value ≡
      t1.value + roundPs (periodsBeyond t1 t2 period) [ZMOD turn] := by
  have hps1 := abs_lt.mp h.ps1
  have hle := BitVec.le_def.mp hns
  have hnear := h.near
  have hpos : period ≠ 0 := by
    rintro rfl
    exact absurd h.pos (by decide)
  have hfar : ¬ nineO < t2.ns - t1.ns := by
    rw [BitVec.lt_def, BitVec.toNat_sub_of_le hns, show nineO.toNat = 1000000000 from rfl]
    omega
  have hlt : ¬ t2.ns < t1.ns := by
    rw [BitVec.lt_def]
    omega
  rw [advanceTimePs, if_neg hpos, if_neg hlt, if_neg hfar]
  extract_lets dtPs dtAs nPeriods intervalAs
  have hspec := splitNs_spec intervalAs
  rw [interval_toNat h hns] at hspec
  obtain ⟨hsum, hfrac⟩ := hspec
  generalize splitNs intervalAs = parts at hsum hfrac ⊢
  obtain ⟨intervalNs, fractionAs⟩ := parts
  dsimp only at hsum hfrac ⊢
  have hfrac := abs_le.mp hfrac
  have hps : (t1.ps.signExtend 64 + fractionAs.sdiv 1000000).toInt =
      t1.ps.toInt + (fractionAs.sdiv 1000000).toInt := by
    rw [BitVec.toInt_add, BitVec.toInt_signExtend_of_le (by omega), Int.bmod_eq_of_le] <;> omega
  have hscaled := ((toNat_add_modEq t1.ns intervalNs).mul_right' (c := 1000)).add_right
    (t1.ps.toInt + (fractionAs.sdiv 1000000).toInt)
  rw [B2bt.value, toInt_setWidth_of_small (by omega) (by omega), hps]
  have hvalue : (t1.ns.toNat + intervalNs.toNat) * 1000 +
      (t1.ps.toInt + (fractionAs.sdiv 1000000).toInt) = t1.value + roundPs (periodsBeyond t1 t2 period) := by
    rw [← hsum, B2bt.value]
    ring
  rw [← hvalue]
  exact hscaled

end Advance

/-! ### Phase advance -/

/-- The advanced time lies on the periods of `t1`, at most one period after `t2`. -/
def AdvanceExact (t1 t2 : B2bt) (period : Long) : Prop :=
  let t := cleanB2bt (advanceTimePs t1 t2 period)
  t.Clean ∧
    ∃ n : ℤ, |t.value * 1000000 - (t1.value * 1000000 + n * period.toNat)| < 1000000 ∧
      t2.value - 1 < t.value ∧ t.value * 1000000 ≤ t2.value * 1000000 + period.toNat + 1000000

/-- The order of the times shows in full nanoseconds, and the advanced time can be shown. -/
def Reaches (t1 t2 : B2bt) (period : Long) : Prop :=
  t1.ns ≤ t2.ns ∧ Shown (t1.value + roundPs (periodsBeyond t1 t2 period))

section Exact

variable {t1 t2 : B2bt} {period : Long}

theorem Reaches.advanceExact (h : Advancing t1 t2 period) (hreach : Reaches t1 t2 period) :
    AdvanceExact t1 t2 period := by
  obtain ⟨hvalue, hclean⟩ := cleanB2bt_spec (advanceTimePs t1 t2 period)
  have hvalue := hclean.shown.eq_of_modEq hreach.2
    (hvalue.trans (advanceTimePs_value h hreach.1))
  obtain ⟨hup, hdown⟩ := roundPs_near (periodsBeyond t1 t2 period)
  have hgt := periodsBeyond_gt h.pos h.ordered
  have hle := periodsBeyond_le period h.ordered
  refine ⟨hclean, ((t2.value - t1.value).toNat * 1000000 / period.toNat + 1 : ℕ), ?_, ?_, ?_⟩
  · rw [← Nat.cast_mul, ← periodsBeyond, hvalue, abs_lt]
    omega
  · rw [hvalue]
    omega
  · rw [hvalue]
    omega

theorem AdvanceExact.reaches (h : Advancing t1 t2 period) (hexact : AdvanceExact t1 t2 period) :
    Reaches t1 t2 period := by
  obtain ⟨hclean, n, -, hafter, hbefore⟩ := hexact
  obtain ⟨hvalue, -⟩ := cleanB2bt_spec (advanceTimePs t1 t2 period)
  have hps1 := abs_lt.mp h.ps1
  have hordered := h.ordered
  have hsmall := h.small
  by_cases hns : t1.ns ≤ t2.ns
  case pos =>
    refine ⟨hns, ?_⟩
    obtain ⟨hup, hdown⟩ := roundPs_near (periodsBeyond t1 t2 period)
    have hgt := periodsBeyond_gt h.pos hordered
    have hle := periodsBeyond_le period hordered
    -- a turn is longer than the distance that is left between the two values
    obtain ⟨k, hk⟩ := (hvalue.trans (advanceTimePs_value h hns)).dvd
    have heq : t1.value + roundPs (periodsBeyond t1 t2 period) =
        (cleanB2bt (advanceTimePs t1 t2 period)).value := by
      unfold turn at hk
      omega
    rw [heq]
    exact hclean.shown
  case neg =>
    have hlt : t2.ns.toNat < t1.ns.toNat := Nat.lt_of_not_le hns
    have hzero : advanceTimePs t1 t2 period = ⟨0, 0, 0⟩ := by
      have hpos : period ≠ 0 := by
        rintro rfl
        exact absurd h.pos (by decide)
      rw [advanceTimePs, if_neg hpos, if_pos (BitVec.lt_def.mpr hlt)]
    rw [hzero] at hvalue hafter hclean
    have hshown : Shown (⟨0, 0, 0⟩ : B2bt).value := by decide
    have hresult := hclean.shown.eq_of_modEq hshown hvalue
    have hvalue0 : (⟨0, 0, 0⟩ : B2bt).value = 0 := by decide
    unfold B2bt.value at hordered hafter hresult hvalue0
    omega

/-- A phase is advanced exactly if the order of the times shows in full nanoseconds and the
advanced time can be shown; cleaning keeps the value of the times that can be shown. -/
theorem phase_advance_iff (h : Advancing t1 t2 period) (t : B2bt) :
    (AdvanceExact t1 t2 period ↔ Reaches t1 t2 period) ∧
      ((cleanB2bt t).value = t.value ↔ Shown t.value) :=
  ⟨⟨AdvanceExact.reaches h, Reaches.advanceExact h⟩, cleanB2bt_value_iff t⟩

end Exact

/-- A phase measured at 1 ms and a kick at 3 ms, with a period of 811.3 ns. -/
theorem phase_advance_kick :
    (AdvanceExact ⟨1000000, -250, 0⟩ ⟨3000000, 0, 0⟩ 811300000000 ↔
        Reaches ⟨1000000, -250, 0⟩ ⟨3000000, 0, 0⟩ 811300000000) ∧
      ((cleanB2bt ⟨1000000, 1700, 0⟩).value = (⟨1000000, 1700, 0⟩ : B2bt).value ↔
        Shown (⟨1000000, 1700, 0⟩ : B2bt).value) :=
  phase_advance_iff ⟨by decide, by decide, by decide, by decide, by decide, by decide⟩ _

/-- The second time is 400 ps after the first one, but its ns part is smaller. -/
theorem order_hidden_in_ps :
    ¬ ∀ (t1 t2 : B2bt) (period : Long), Advancing t1 t2 period → ∀ t : B2bt,
      AdvanceExact t1 t2 period ∧ (cleanB2bt t).value = t.value := by
  intro hall
  have hadvancing : Advancing ⟨11, -900, 0⟩ ⟨10, 500, 0⟩ 200000000000 :=
    ⟨by decide, by decide, by decide, by decide, by decide, by decide⟩
  have hexact := (hall _ _ _ hadvancing ⟨0, 0, 0⟩).1
  exact absurd (hexact.reaches hadvancing).1 (by decide)

end B2b
