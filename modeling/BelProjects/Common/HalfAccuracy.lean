import BelProjects.Common.HalfPrecision
import BelProjects.Library.BinaryFormat
import Mathlib

/-!
# The accuracy of the conversion to half precision

Seen as numbers, the result should be the nearest half number, an infinity or a zero.  Which
patterns are converted so follows from the two roundings, and from the early returns that leave
the sign out.
-/

namespace Comcore

open BinaryFormat (mag ulp Nearest Between)

/-! ### Values -/

/-- The value of a single precision number, in units of the smallest one. -/
def value (f : Single) : Int := if f.toNat < 2 ^ 31 then mag 23 (absPat f) else -mag 23 (absPat f)

def halfPat (h : Half) : Nat := h.toNat % 2 ^ 15

def halfMagnitude (q : Nat) : Int := mag 10 q * 2 ^ 125

/-- The value of a half number; infinity counts as a number above all others. -/
def halfValue (h : Half) : Int :=
  if h.toNat < 2 ^ 15 then halfMagnitude (halfPat h) else -halfMagnitude (halfPat h)

def HalfFinite (h : Half) : Prop := halfPat h < 0x7c00

/-- The normal half numbers are those of the same pattern, with another exponent. -/
theorem mag_half {q : Nat} (h : 2 ^ 10 ≤ q) :
    mag 10 q * 2 ^ 125 = mag 23 ((q + 112 * 2 ^ 10) * 0x2000) := by
  have hdiv : (q + 112 * 2 ^ 10) * 0x2000 / 2 ^ 23 = q / 2 ^ 10 + 112 := by omega
  have hmod : (q + 112 * 2 ^ 10) * 0x2000 % 2 ^ 23 = q % 2 ^ 10 * 2 ^ 13 := by omega
  have hexp : q / 2 ^ 10 + 112 - 1 = q / 2 ^ 10 - 1 + 112 := by omega
  rw [BinaryFormat.mag_normal 10 h, BinaryFormat.mag_normal 23 (by omega), hdiv, hmod, hexp, pow_add]
  ring

theorem halfMagnitude_strictMono : StrictMono halfMagnitude := by
  intro q q' h
  have hmag : mag 10 q < mag 10 q' := BinaryFormat.mag_strictMono 10 h
  have hmag' : (mag 10 q : Int) < mag 10 q' := by exact_mod_cast hmag
  exact mul_lt_mul_of_pos_right hmag' (by decide)

theorem halfMagnitude_zero : halfMagnitude 0 = 0 := rfl

theorem halfMagnitude_nonneg (q : Nat) : 0 ≤ halfMagnitude q :=
  halfMagnitude_zero ▸ halfMagnitude_strictMono.monotone (Nat.zero_le q)

theorem mag_between {c d : Nat} (hc : 113 * 2 ^ 10 ≤ c) (hd : d ≤ 0x2000) :
    (mag 23 (c * 0x2000 + d) : Int) =
      halfMagnitude (c - 112 * 2 ^ 10) + d * ulp 23 (c * 0x2000) := by
  have hsame : c - 112 * 2 ^ 10 + 112 * 2 ^ 10 = c := by omega
  have hhalf := mag_half (q := c - 112 * 2 ^ 10) (by omega)
  rw [hsame] at hhalf
  have hadd := BinaryFormat.mag_add 23 (p := c * 0x2000) (d := d) (by omega)
  rw [halfMagnitude, hadd]
  have hcast : ((mag 10 (c - 112 * 2 ^ 10) * 2 ^ 125 : Nat) : Int) = mag 23 (c * 0x2000) :=
    congrArg Nat.cast hhalf
  rw [Nat.cast_add, Nat.cast_mul, ← hcast, Nat.cast_mul, Nat.cast_pow]
  rfl

/-- The pattern lies in the range of the normal half numbers. -/
def InRange (p : Nat) : Prop := 0x38800000 ≤ p ∧ p ≤ 0x477fe000

section Neighbours

variable {p : Nat} (hp : InRange p)
include hp

theorem halfMagnitude_lo : (mag 23 p : Int) =
    halfMagnitude (p / 0x2000 - 112 * 2 ^ 10) + (p % 0x2000 : Nat) * ulp 23 (p / 0x2000 * 0x2000) := by
  have hsplit : p = p / 0x2000 * 0x2000 + p % 0x2000 := by omega
  obtain ⟨hmin, -⟩ := hp
  have hbetween := mag_between (c := p / 0x2000) (d := p % 0x2000) (by omega) (by omega)
  rwa [← hsplit] at hbetween

theorem halfMagnitude_hi : halfMagnitude (p / 0x2000 + 1 - 112 * 2 ^ 10) =
    halfMagnitude (p / 0x2000 - 112 * 2 ^ 10) + 0x2000 * ulp 23 (p / 0x2000 * 0x2000) := by
  obtain ⟨hmin, -⟩ := hp
  have hend := mag_between (c := p / 0x2000) (d := 0x2000) (by omega) (le_refl _)
  have hnext := mag_between (c := p / 0x2000 + 1) (d := 0) (by omega) (by omega)
  have hsame : (p / 0x2000 + 1) * 0x2000 + 0 = p / 0x2000 * 0x2000 + 0x2000 := by omega
  rw [hsame, hend] at hnext
  rw [Nat.cast_zero, zero_mul, add_zero] at hnext
  exact hnext.symm

theorem between_halves (hd : 0 < p % 0x2000) :
    Between halfMagnitude {q | q < 0x7c00} (mag 23 p) (p / 0x2000 - 112 * 2 ^ 10)
      (p / 0x2000 + 1 - 112 * 2 ^ 10) := by
  have hlo := halfMagnitude_lo hp
  have hhi := halfMagnitude_hi hp
  obtain ⟨hmin, hmax⟩ := hp
  have hulp : (0 : Int) < ulp 23 (p / 0x2000 * 0x2000) := by
    exact_mod_cast BinaryFormat.ulp_pos 23 _
  have hstep : ((p % 0x2000 : Nat) : Int) * ulp 23 (p / 0x2000 * 0x2000) ≤
      0x2000 * ulp 23 (p / 0x2000 * 0x2000) :=
    mul_le_mul_of_nonneg_right (by omega) hulp.le
  have hnonneg : 0 ≤ ((p % 0x2000 : Nat) : Int) * ulp 23 (p / 0x2000 * 0x2000) :=
    mul_nonneg (Int.natCast_nonneg _) hulp.le
  refine ⟨?_, ?_, by omega, by omega, fun j _ => ?_⟩
  · show p / 0x2000 - 112 * 2 ^ 10 < 0x7c00
    omega
  · show p / 0x2000 + 1 - 112 * 2 ^ 10 < 0x7c00
    omega
  · rcases Nat.lt_or_ge (p / 0x2000 - 112 * 2 ^ 10) j with hj | hj
    · exact Or.inr (halfMagnitude_strictMono.monotone (by omega))
    · exact Or.inl (halfMagnitude_strictMono.monotone hj)

/-- The distances from the number to the half numbers around it. -/
theorem gaps : ∃ u : Int, 0 < u ∧
    (mag 23 p : Int) - halfMagnitude (p / 0x2000 - 112 * 2 ^ 10) = (p % 0x2000 : Nat) * u ∧
      halfMagnitude (p / 0x2000 + 1 - 112 * 2 ^ 10) - mag 23 p =
        (0x2000 - (p % 0x2000 : Nat)) * u := by
  refine ⟨ulp 23 (p / 0x2000 * 0x2000), by exact_mod_cast BinaryFormat.ulp_pos 23 _, ?_, ?_⟩
  · rw [halfMagnitude_lo hp]
    ring
  · rw [halfMagnitude_hi hp, halfMagnitude_lo hp]
    ring

theorem nearest_lo_iff :
    Nearest halfMagnitude {q | q < 0x7c00} (mag 23 p) (p / 0x2000 - 112 * 2 ^ 10) ↔
      p % 0x2000 ≤ 0x1000 := by
  obtain ⟨u, hu, hleft, hright⟩ := gaps hp
  rcases Nat.eq_zero_or_pos (p % 0x2000) with hzero | hpos
  · rw [hzero, Nat.cast_zero, zero_mul, sub_eq_zero] at hleft
    rw [hzero, Nearest, hleft]
    simp
  · rw [(between_halves hp hpos).nearest_lo, hleft, hright, mul_le_mul_iff_left₀ hu]
    omega

theorem nearest_hi_iff (hd : 0 < p % 0x2000) :
    Nearest halfMagnitude {q | q < 0x7c00} (mag 23 p) (p / 0x2000 + 1 - 112 * 2 ^ 10) ↔
      0x1000 ≤ p % 0x2000 := by
  obtain ⟨u, hu, hleft, hright⟩ := gaps hp
  rw [(between_halves hp hd).nearest_hi, hleft, hright, mul_le_mul_iff_left₀ hu]
  omega

end Neighbours

/-! ### What the conversion keeps -/

/-- A half number for a single precision number: the nearest one in the range of the normal half
numbers, else infinity or zero, with the sign. -/
structure Converted (f : Single) (h : Half) : Prop where
  sign : h.toNat < 2 ^ 15 ↔ f.toNat < 2 ^ 31
  nearest : 2 ^ 135 ≤ |value f| → |value f| ≤ 65504 * 2 ^ 149 →
    HalfFinite h ∧ Nearest halfValue {h | HalfFinite h} (value f) h
  above : 65504 * 2 ^ 149 < |value f| → halfPat h = 0x7c00
  below : |value f| < 2 ^ 135 → halfPat h = 0

section Ranges

variable (f : Single)

theorem abs_value : |value f| = mag 23 (absPat f) := by
  rw [value]
  split
  · exact abs_of_nonneg (Int.natCast_nonneg _)
  · rw [abs_neg]
    exact abs_of_nonneg (Int.natCast_nonneg _)

theorem minNormal_le_iff : 2 ^ 135 ≤ |value f| ↔ 0x38800000 ≤ absPat f := by
  have hmin : (2 ^ 135 : Int) = mag 23 0x38800000 := rfl
  rw [abs_value, hmin, Nat.cast_le]
  exact (BinaryFormat.mag_strictMono 23).le_iff_le

theorem le_maxHalf_iff : |value f| ≤ 65504 * 2 ^ 149 ↔ absPat f ≤ 0x477fe000 := by
  have hmax : (65504 * 2 ^ 149 : Int) = mag 23 0x477fe000 := rfl
  rw [abs_value, hmax, Nat.cast_le]
  exact (BinaryFormat.mag_strictMono 23).le_iff_le

end Ranges

theorem halfPat_ofNat {s q : Nat} (hs : s ≤ 1) (hq : q < 2 ^ 15) :
    halfPat (BitVec.ofNat 16 (s * 2 ^ 15 + q)) = q ∧
      ((BitVec.ofNat 16 (s * 2 ^ 15 + q)).toNat < 2 ^ 15 ↔ s = 0) := by
  rw [halfPat, BitVec.toNat_ofNat]
  omega

theorem abs_sub_halfValue {f : Single} {h : Half} (hsame : h.toNat < 2 ^ 15 ↔ f.toNat < 2 ^ 31) :
    |value f - halfValue h| = |(mag 23 (absPat f) : Int) - halfMagnitude (halfPat h)| := by
  rw [value, halfValue]
  by_cases hpos : f.toNat < 2 ^ 31
  · rw [if_pos hpos, if_pos (hsame.mpr hpos)]
  · rw [if_neg hpos, if_neg (mt hsame.mp hpos), neg_sub_neg, abs_sub_comm]

/-- Numbers with the other sign are farther away than zero. -/
theorem le_abs_sub_halfValue {f : Single} {h : Half} (hother : ¬ (h.toNat < 2 ^ 15 ↔ f.toNat < 2 ^ 31)) :
    (mag 23 (absPat f) : Int) ≤ |value f - halfValue h| := by
  have hnonneg := halfMagnitude_nonneg (halfPat h)
  rw [value, halfValue]
  by_cases hpos : f.toNat < 2 ^ 31
  · have hneg : ¬ h.toNat < 2 ^ 15 := fun hh => hother (iff_of_true hh hpos)
    rw [if_pos hpos, if_neg hneg, sub_neg_eq_add]
    exact le_trans (by omega) (le_abs_self _)
  · have hh : h.toNat < 2 ^ 15 := by
      by_contra hneg
      exact hother (iff_of_false hneg hpos)
    rw [if_neg hpos, if_pos hh]
    exact le_trans (by omega) (neg_le_abs _)

theorem nearest_halfValue_iff {f : Single} {h : Half} (hsame : h.toNat < 2 ^ 15 ↔ f.toNat < 2 ^ 31) :
    Nearest halfValue {h | HalfFinite h} (value f) h ↔
      Nearest halfMagnitude {q | q < 0x7c00} (mag 23 (absPat f)) (halfPat h) := by
  rw [Nearest, Nearest, abs_sub_halfValue hsame]
  constructor
  · intro hnear q hq
    have hlt : q < 0x7c00 := hq
    by_cases hpos : f.toNat < 2 ^ 31
    · obtain ⟨hpat, hsign⟩ := halfPat_ofNat (s := 0) (q := q) (by decide) (by omega)
      have hle := hnear (BitVec.ofNat 16 (0 * 2 ^ 15 + q)) (show halfPat _ < 0x7c00 by rwa [hpat])
      rwa [abs_sub_halfValue (iff_of_true (hsign.mpr rfl) hpos), hpat] at hle
    · obtain ⟨hpat, hsign⟩ := halfPat_ofNat (s := 1) (q := q) (by decide) (by omega)
      have hle := hnear (BitVec.ofNat 16 (1 * 2 ^ 15 + q)) (show halfPat _ < 0x7c00 by rwa [hpat])
      rwa [abs_sub_halfValue (iff_of_false (mt hsign.mp (by decide)) hpos), hpat] at hle
  · intro hnear h' hh'
    by_cases hsame' : h'.toNat < 2 ^ 15 ↔ f.toNat < 2 ^ 31
    · rw [abs_sub_halfValue hsame']
      exact hnear (halfPat h') hh'
    · have hzero := hnear 0 (by decide)
      rw [halfMagnitude_zero, sub_zero, abs_of_nonneg (Int.natCast_nonneg _)] at hzero
      exact hzero.trans (le_abs_sub_halfValue hsame')

/-! ### When the conversion is right -/

theorem halfMag_le (r : Nat) : halfMag r ≤ 0x7c00 := by
  rw [halfMag]
  split_ifs <;> omega

theorem halfMag_eq_zero_iff (r : Nat) : halfMag r = 0 ↔ kept r < 113 * 2 ^ 10 := by
  rw [halfMag]
  by_cases hunder : kept r < 113 * 2 ^ 10
  · rw [if_pos hunder]
    exact iff_of_true rfl hunder
  · rw [if_neg hunder]
    refine iff_of_false ?_ hunder
    split <;> omega

theorem halfMag_eq_inf_iff (r : Nat) : halfMag r = 0x7c00 ↔ 143 * 2 ^ 10 ≤ kept r := by
  rw [halfMag]
  by_cases hover : 143 * 2 ^ 10 ≤ kept r
  · rw [if_neg (by omega), if_pos hover]
    exact iff_of_true rfl hover
  · rw [if_neg hover]
    refine iff_of_false ?_ hover
    split <;> omega

section Result

variable {f : Single} (hf : Finite f)
include hf

theorem halfPat_float2half : halfPat (float2half f) = halfMag (rounded f) := by
  have hle := halfMag_le (rounded f)
  rw [halfPat]
  rcases Nat.lt_or_ge f.toNat (2 ^ 31) with hpos | hneg
  · have habs : absPat f = f.toNat := Nat.mod_eq_of_lt hpos
    rw [float2half_pos (habs ▸ hf)]
    split
    case isTrue hunder =>
      rw [halfMag, if_pos hunder.2]
      rfl
    case isFalse => exact Nat.mod_eq_of_lt (by omega)
  · rw [float2half_neg hneg hf]
    split
    case isTrue hover =>
      rw [halfMag, if_neg (by omega), if_pos hover.1]
      rfl
    case isFalse => omega

/-- A positive number loses its sign when it is too small. -/
theorem float2half_pos_sign (hpos : f.toNat < 2 ^ 31) :
    (float2half f).toNat < 2 ^ 15 ↔ ¬ (rounded f ≠ 0 ∧ kept (rounded f) < 113 * 2 ^ 10) := by
  have habs : absPat f = f.toNat := Nat.mod_eq_of_lt hpos
  have hle := halfMag_le (rounded f)
  rw [float2half_pos (habs ▸ hf)]
  split
  case isTrue hunder => exact iff_of_false (by decide) (not_not_intro hunder)
  case isFalse hunder => exact iff_of_true (by omega) hunder

/-- A negative number loses its sign when it is too large. -/
theorem float2half_neg_sign (hneg : ¬ f.toNat < 2 ^ 31) :
    (float2half f).toNat < 2 ^ 15 ↔ 143 * 2 ^ 10 ≤ kept (rounded f) ∧ rounded f ≠ 0x7f800000 := by
  rw [float2half_neg (Nat.not_lt.mp hneg) hf]
  split
  case isTrue hover => exact iff_of_true (by decide) hover
  case isFalse hover => exact iff_of_false (by omega) hover

theorem kept_inRange (hp : InRange (absPat f)) :
    kept (rounded f) =
        absPat f / 0x2000 + (if 0x1000 - tie f ≤ absPat f % 0x2000 then 1 else 0) ∧
      113 * 2 ^ 10 ≤ kept (rounded f) ∧ kept (rounded f) < 143 * 2 ^ 10 := by
  obtain ⟨hmin, hmax⟩ := hp
  have hle : absPat f ≤ f.toNat := Nat.mod_le _ _
  have htie : tie f ≤ 128 := by
    rw [tie]
    split_ifs <;> omega
  have hkept := kept_rounded hf (by omega)
  refine ⟨hkept, ?_⟩
  rw [hkept]
  split_ifs <;> omega

theorem sign_inRange (hp : InRange (absPat f)) :
    (float2half f).toNat < 2 ^ 15 ↔ f.toNat < 2 ^ 31 := by
  obtain ⟨-, hlow, hhigh⟩ := kept_inRange hf hp
  by_cases hpos : f.toNat < 2 ^ 31
  · rw [float2half_pos_sign hf hpos]
    exact iff_of_true (fun h => absurd h.2 (Nat.not_lt.mpr hlow)) hpos
  · rw [float2half_neg_sign hf hpos]
    exact iff_of_false (fun h => absurd h.1 (Nat.not_le.mpr hhigh)) hpos

/-- In the range of the normal half numbers the result is a nearest one, unless the first
rounding has brought the pattern to the middle. -/
theorem converted_inRange_iff (hp : InRange (absPat f)) :
    Converted f (float2half f) ↔
      ¬ (0x1000 - tie f ≤ absPat f % 0x2000 ∧ absPat f % 0x2000 < 0x1000) := by
  obtain ⟨hkept, hlow, hhigh⟩ := kept_inRange hf hp
  have hsame := sign_inRange hf hp
  have hpat : halfPat (float2half f) = kept (rounded f) - 112 * 2 ^ 10 := by
    rw [halfPat_float2half hf, halfMag, if_neg (Nat.not_lt.mpr hlow), if_neg (Nat.not_le.mpr hhigh)]
  have hnearest : Converted f (float2half f) ↔
      Nearest halfMagnitude {q | q < 0x7c00} (mag 23 (absPat f)) (kept (rounded f) - 112 * 2 ^ 10) := by
    rw [← hpat, ← nearest_halfValue_iff hsame]
    constructor
    · exact fun h => (h.nearest ((minNormal_le_iff f).mpr hp.1) ((le_maxHalf_iff f).mpr hp.2)).2
    · intro h
      refine ⟨hsame, fun _ _ => ⟨?_, h⟩, fun habove => ?_, fun hbelow => ?_⟩
      · rw [HalfFinite, hpat]
        omega
      · exact absurd ((le_maxHalf_iff f).mpr hp.2) (not_le.mpr habove)
      · exact absurd ((minNormal_le_iff f).mpr hp.1) (not_le.mpr hbelow)
  have htie : 0 < tie f ∧ tie f ≤ 128 := by
    rw [tie]
    split_ifs <;> omega
  rw [hnearest, hkept]
  by_cases hup : 0x1000 - tie f ≤ absPat f % 0x2000
  · rw [if_pos hup, nearest_hi_iff hp (by omega)]
    omega
  · rw [if_neg hup, Nat.add_zero, nearest_lo_iff hp]
    omega

theorem kept_below (hpos : f.toNat < 2 ^ 31) (hp : absPat f < 0x38800000) (hne : f.toNat ≠ 0) :
    rounded f ≠ 0 := by
  have habs : absPat f = f.toNat := Nat.mod_eq_of_lt hpos
  have hone := Significand.round_mono (p := 24) (by decide) (Nat.one_le_iff_ne_zero.mpr hne)
  have hfits : Significand.round 24 1 = 1 := by decide
  rw [rounded_pos (habs ▸ hf)]
  omega

theorem converted_below_iff (hp : absPat f < 0x38800000) :
    Converted f (float2half f) ↔
      if f.toNat < 2 ^ 31 then f.toNat = 0 else absPat f < 0x387fef80 := by
  have hsmall : ¬ 2 ^ 135 ≤ |value f| := mt (minNormal_le_iff f).mp (Nat.not_le.mpr hp)
  have hbelow : Converted f (float2half f) ↔
      ((float2half f).toNat < 2 ^ 15 ↔ f.toNat < 2 ^ 31) ∧ halfMag (rounded f) = 0 := by
    rw [← halfPat_float2half hf]
    constructor
    · exact fun h => ⟨h.sign, h.below (not_le.mp hsmall)⟩
    · rintro ⟨hsign, hzero⟩
      refine ⟨hsign, fun hmin => absurd hmin hsmall, fun habove => ?_, fun _ => hzero⟩
      exact absurd ((le_maxHalf_iff f).mpr (by omega)) (not_le.mpr habove)
  rw [hbelow, halfMag_eq_zero_iff]
  split
  case isTrue hpos =>
    rw [float2half_pos_sign hf hpos, iff_true_right hpos]
    constructor
    · rintro ⟨hsign, hunder⟩
      by_contra hne
      exact hsign ⟨kept_below hf hpos hp hne, hunder⟩
    · intro hzero
      have hr : rounded f = 0 := by
        rw [rounded, hzero]
        rfl
      rw [hr]
      exact ⟨fun h => h.1 rfl, by decide⟩
  case isFalse hneg =>
    have hkept := kept_rounded hf (by omega)
    have htie : tie f = 128 := if_pos (Nat.not_lt.mp hneg)
    rw [float2half_neg_sign hf hneg, iff_false_right hneg, hkept, htie]
    constructor
    · rintro ⟨-, hunder⟩
      split at hunder <;> omega
    · intro hlt
      have hunder : absPat f / 0x2000 + (if 0x1000 - 128 ≤ absPat f % 0x2000 then 1 else 0) <
          113 * 2 ^ 10 := by
        split <;> omega
      exact ⟨fun h => by omega, hunder⟩

theorem converted_above_iff (hp : 0x477fe000 < absPat f) :
    Converted f (float2half f) ↔
      if f.toNat < 2 ^ 31 then 0x477fefc0 ≤ absPat f else 0x7f7fff80 ≤ absPat f := by
  have hlarge : ¬ |value f| ≤ 65504 * 2 ^ 149 := mt (le_maxHalf_iff f).mp (Nat.not_le.mpr hp)
  have habove : Converted f (float2half f) ↔
      ((float2half f).toNat < 2 ^ 15 ↔ f.toNat < 2 ^ 31) ∧ halfMag (rounded f) = 0x7c00 := by
    rw [← halfPat_float2half hf]
    constructor
    · exact fun h => ⟨h.sign, h.above (not_le.mp hlarge)⟩
    · rintro ⟨hsign, hinf⟩
      refine ⟨hsign, fun _ hmax => absurd hmax hlarge, fun _ => hinf, fun hbelow => ?_⟩
      exact absurd ((minNormal_le_iff f).mpr (by omega)) (not_le.mpr hbelow)
  have hle : absPat f ≤ f.toNat := Nat.mod_le _ _
  have hkept := kept_rounded hf (by omega)
  rw [habove, halfMag_eq_inf_iff]
  split
  case isTrue hpos =>
    have habs : absPat f = f.toNat := Nat.mod_eq_of_lt hpos
    have htie : tie f = 64 := by
      rw [tie, if_neg (by omega), if_neg (by omega)]
    rw [float2half_pos_sign hf hpos, iff_true_right hpos, hkept, htie]
    constructor
    · rintro ⟨-, hover⟩
      split at hover <;> omega
    · intro hlt
      have hover : 143 * 2 ^ 10 ≤
          absPat f / 0x2000 + if 0x1000 - 64 ≤ absPat f % 0x2000 then 1 else 0 := by
        split <;> omega
      exact ⟨fun h => by omega, hover⟩
  case isFalse hneg =>
    have hfin : absPat f < 0x7f800000 := hf
    have hinf : rounded f = 0x7f800000 ↔ 0x7f7fff80 ≤ absPat f := by
      rw [rounded_neg (Nat.not_lt.mp hneg) hf, Significand.roundAt]
      split_ifs <;> omega
    rw [float2half_neg_sign hf hneg, iff_false_right hneg, ← hinf]
    constructor
    · rintro ⟨hsign, hover⟩
      by_contra hne
      exact hsign ⟨hover, hne⟩
    · intro heq
      rw [heq]
      exact ⟨fun h => h.2 rfl, by decide⟩

end Result

/-- The patterns that are converted to what they should be. -/
def WellConverted (f : Single) : Prop :=
  if absPat f < 0x38800000 then if f.toNat < 2 ^ 31 then f.toNat = 0 else absPat f < 0x387fef80
  else if absPat f ≤ 0x477fe000 then
    ¬ (0x1000 - tie f ≤ absPat f % 0x2000 ∧ absPat f % 0x2000 < 0x1000)
  else if f.toNat < 2 ^ 31 then 0x477fefc0 ≤ absPat f else 0x7f7fff80 ≤ absPat f

theorem converted_iff {f : Single} (hf : Finite f) :
    Converted f (float2half f) ↔ WellConverted f := by
  rw [WellConverted]
  by_cases hbelow : absPat f < 0x38800000
  · rw [if_pos hbelow, converted_below_iff hf hbelow]
  · rw [if_neg hbelow]
    by_cases hmax : absPat f ≤ 0x477fe000
    · rw [if_pos hmax, converted_inRange_iff hf ⟨Nat.not_lt.mp hbelow, hmax⟩]
    · rw [if_neg hmax, converted_above_iff hf (Nat.not_le.mp hmax)]

/-! ### Order -/

/-- A negative number that is converted to the positive infinity. -/
def LosesSign (f : Single) : Prop :=
  2 ^ 31 ≤ f.toNat ∧ 0x477fef80 ≤ absPat f ∧ absPat f < 0x7f7fff80

def ToInfinity (f : Single) : Prop := LosesSign f ∨ f.toNat < 2 ^ 31 ∧ 0x477fefc0 ≤ absPat f

section Order

variable {f : Single} (hf : Finite f)
include hf

theorem losesSign_iff (hneg : ¬ f.toNat < 2 ^ 31) :
    (float2half f).toNat < 2 ^ 15 ↔ LosesSign f := by
  have hfin : absPat f < 0x7f800000 := hf
  have hkept := kept_rounded hf (by omega)
  have htie : tie f = 128 := if_pos (Nat.not_lt.mp hneg)
  have hinf : rounded f = 0x7f800000 ↔ 0x7f7fff80 ≤ absPat f := by
    rw [rounded_neg (Nat.not_lt.mp hneg) hf, Significand.roundAt]
    split_ifs <;> omega
  have hover : 143 * 2 ^ 10 ≤ kept (rounded f) ↔ 0x477fef80 ≤ absPat f := by
    rw [hkept, htie]
    split <;> omega
  rw [float2half_neg_sign hf hneg, hover, ne_eq, hinf, not_le, LosesSign,
    and_iff_right (Nat.not_lt.mp hneg)]

theorem halfValue_pos (hpos : f.toNat < 2 ^ 31) :
    halfValue (float2half f) = halfMagnitude (halfMag (rounded f)) := by
  rw [halfValue, halfPat_float2half hf]
  split
  case isTrue => rfl
  case isFalse hsign =>
    -- only a zero loses its sign
    rw [float2half_pos_sign hf hpos, not_not] at hsign
    rw [(halfMag_eq_zero_iff _).mpr hsign.2, halfMagnitude_zero, neg_zero]

theorem halfValue_neg (hneg : ¬ f.toNat < 2 ^ 31) (hkeeps : ¬ LosesSign f) :
    halfValue (float2half f) = -halfMagnitude (halfMag (rounded f)) := by
  rw [halfValue, halfPat_float2half hf, if_neg (mt (losesSign_iff hf hneg).mp hkeeps)]

theorem halfValue_loses (hloses : LosesSign f) :
    halfValue (float2half f) = halfMagnitude 0x7c00 := by
  have hneg : ¬ f.toNat < 2 ^ 31 := Nat.not_lt.mpr hloses.1
  have hsign := (losesSign_iff hf hneg).mpr hloses
  have hover := ((float2half_neg_sign hf hneg).mp hsign).1
  rw [halfValue, halfPat_float2half hf, if_pos hsign, (halfMag_eq_inf_iff _).mpr hover]

theorem halfMag_pos_iff (hpos : f.toNat < 2 ^ 31) :
    halfMag (rounded f) = 0x7c00 ↔ 0x477fefc0 ≤ absPat f := by
  have habs : absPat f = f.toNat := Nat.mod_eq_of_lt hpos
  have hlt : f.toNat < 0x7f800000 := habs ▸ hf
  rw [halfMag_eq_inf_iff]
  rcases Nat.lt_or_ge f.toNat (2 ^ 30) with hsmall | hlarge
  · have hround : Significand.round 24 (2 ^ 30) = 2 ^ 30 := by decide
    have hmono := Significand.round_mono (p := 24) (by decide) hsmall.le
    rw [hround] at hmono
    rw [kept, rounded_pos hlt]
    exact iff_of_false (by omega) (by omega)
  · have htie : tie f = 64 := by rw [tie, if_neg (by omega), if_neg (by omega)]
    rw [kept_rounded hf (by omega), htie]
    split <;> omega

theorem halfValue_le : halfValue (float2half f) ≤ halfMagnitude 0x7c00 := by
  have hle := halfMagnitude_strictMono.monotone (halfMag_le (rounded f))
  have hnonneg := halfMagnitude_nonneg (halfMag (rounded f))
  rw [halfValue, halfPat_float2half hf]
  split <;> omega

theorem halfValue_top_iff : halfMagnitude 0x7c00 ≤ halfValue (float2half f) ↔ ToInfinity f := by
  have htop : 0 < halfMagnitude 0x7c00 := halfMagnitude_strictMono (by decide : 0 < 0x7c00)
  have hle := halfMag_le (rounded f)
  by_cases hpos : f.toNat < 2 ^ 31
  · have hkeeps : ¬ LosesSign f := fun h => Nat.not_lt.mpr h.1 hpos
    rw [halfValue_pos hf hpos, halfMagnitude_strictMono.le_iff_le, ToInfinity, or_iff_right hkeeps,
      and_iff_right hpos, ← halfMag_pos_iff hf hpos]
    omega
  · rw [ToInfinity, or_iff_left (fun h => hpos h.1)]
    by_cases hloses : LosesSign f
    · rw [halfValue_loses hf hloses]
      exact iff_of_true (le_refl _) hloses
    · have hnonneg := halfMagnitude_nonneg (halfMag (rounded f))
      rw [halfValue_neg hf hpos hloses]
      exact iff_of_false (by omega) hloses

end Order

theorem rounded_mono_pos {f g : Single} (hf : Finite f) (hg : Finite g) (hposf : f.toNat < 2 ^ 31)
    (hposg : g.toNat < 2 ^ 31) (hle : absPat f ≤ absPat g) : rounded f ≤ rounded g := by
  have habsf : absPat f = f.toNat := Nat.mod_eq_of_lt hposf
  have habsg : absPat g = g.toNat := Nat.mod_eq_of_lt hposg
  rw [rounded_pos (habsf ▸ hf), rounded_pos (habsg ▸ hg)]
  exact Significand.round_mono (by decide) (by omega)

theorem rounded_mono_neg {f g : Single} (hf : Finite f) (hg : Finite g) (hnegf : ¬ f.toNat < 2 ^ 31)
    (hnegg : ¬ g.toNat < 2 ^ 31) (hle : absPat f ≤ absPat g) : rounded f ≤ rounded g := by
  rw [rounded_neg (Nat.not_lt.mp hnegf) hf, rounded_neg (Nat.not_lt.mp hnegg) hg]
  exact Significand.roundAt_mono 8 hle

/-- **The order** of two numbers is kept unless the smaller one loses its sign. -/
theorem halfValue_mono_iff {f g : Single} (hf : Finite f) (hg : Finite g) (hle : value f ≤ value g) :
    halfValue (float2half f) ≤ halfValue (float2half g) ↔ (LosesSign f → ToInfinity g) := by
  have hmag : ∀ {p p' : Nat}, (mag 23 p : Int) ≤ mag 23 p' → p ≤ p' := by
    intro p p' h
    have h' : mag 23 p ≤ mag 23 p' := by exact_mod_cast h
    exact (BinaryFormat.mag_strictMono 23).le_iff_le.mp h'
  by_cases hloses : LosesSign f
  · rw [halfValue_loses hf hloses, halfValue_top_iff hg]
    exact ⟨fun h _ => h, fun h => h hloses⟩
  · refine iff_of_true ?_ (fun h => absurd h hloses)
    by_cases htop : ToInfinity g
    · exact (halfValue_le hf).trans ((halfValue_top_iff hg).mpr htop)
    · have hkeeps : ¬ LosesSign g := fun h => htop (Or.inl h)
      have hnonneg := halfMagnitude_nonneg (halfMag (rounded f))
      have hnonneg' := halfMagnitude_nonneg (halfMag (rounded g))
      rw [value, value] at hle
      by_cases hposf : f.toNat < 2 ^ 31
      · rw [if_pos hposf] at hle
        by_cases hposg : g.toNat < 2 ^ 31
        · rw [if_pos hposg] at hle
          rw [halfValue_pos hf hposf, halfValue_pos hg hposg]
          exact halfMagnitude_strictMono.monotone
            (halfMag_mono (rounded_mono_pos hf hg hposf hposg (hmag hle)))
        · -- both are zero
          rw [if_neg hposg] at hle
          have hzero : mag 23 (absPat f) = mag 23 0 := by
            rw [BinaryFormat.mag_zero]
            omega
          have hzero' : mag 23 (absPat g) = mag 23 0 := by
            rw [BinaryFormat.mag_zero]
            omega
          have hf0 := (BinaryFormat.mag_strictMono 23).injective hzero
          have hg0 := (BinaryFormat.mag_strictMono 23).injective hzero'
          have hr : rounded f = 0 := by
            have habs : absPat f = f.toNat := Nat.mod_eq_of_lt hposf
            rw [rounded, ← habs, hf0]
            rfl
          have hr' : rounded g = 0 := by
            rw [rounded_neg (Nat.not_lt.mp hposg) hg, hg0]
            rfl
          rw [halfValue_pos hf hposf, halfValue_neg hg hposg hkeeps, hr, hr']
          decide
      · rw [if_neg hposf] at hle
        rw [halfValue_neg hf hposf hloses]
        by_cases hposg : g.toNat < 2 ^ 31
        · rw [halfValue_pos hg hposg]
          omega
        · rw [if_neg hposg, neg_le_neg_iff] at hle
          rw [halfValue_neg hg hposg hkeeps, neg_le_neg_iff]
          exact halfMagnitude_strictMono.monotone
            (halfMag_mono (rounded_mono_neg hg hf hposg hposf (hmag hle)))

/-! ### There and back -/

def ZeroOrNormal (h : Half) : Prop := halfPat h = 0 ∨ 2 ^ 10 ≤ halfPat h ∧ halfPat h < 0x7c00

theorem half2float_toNat {h : Half} (hmin : 2 ^ 10 ≤ halfPat h) (hmax : halfPat h < 0x7c00) :
    (half2float h).toNat = 2 ^ 31 * (h.toNat / 2 ^ 15) + (halfPat h + 112 * 2 ^ 10) * 0x2000 := by
  have hh := h.isLt
  rw [halfPat] at hmin hmax ⊢
  have hne : ∀ c : Half, c.toNat % 2 ^ 15 < 2 ^ 10 ∨ 0x7c00 ≤ c.toNat % 2 ^ 15 → h ≠ c := by
    rintro c hc rfl
    omega
  rw [half2float, if_neg (hne _ (by decide)), if_neg (hne _ (by decide)), if_neg (hne _ (by decide)),
    if_neg (hne _ (by decide)), if_neg (hne _ (by decide))]
  have hs : ((h &&& 0x8000).setWidth 32 <<< 16 : Single).toNat = 2 ^ 31 * (h.toNat / 2 ^ 15) := by
    have hmask : (0x8000 : Half) = BitVec.ofNat 16 (2 ^ 15) := rfl
    rw [BitVec.toNat_shiftLeft, BitVec.toNat_setWidth, hmask, BitFields.toNat_and_bit _ 15 (by decide),
      Nat.shiftLeft_eq]
    omega
  have he : ((((h >>> 10).setWidth 32 &&& 0x1f) + 0x7f - 0x0f) <<< 23 : Single).toNat =
      2 ^ 23 * (h.toNat / 2 ^ 10 % 2 ^ 5 + 112) := by
    have hmask : (0x1f : Single) = BitVec.ofNat 32 (2 ^ 5 - 1) := rfl
    have h7f : (0x7f : Single).toNat = 127 := rfl
    have h0f : (0x0f : Single).toNat = 15 := rfl
    rw [BitVec.toNat_shiftLeft, BitVec.toNat_sub, BitVec.toNat_add, hmask,
      BitFields.toNat_and_lowMask _ 5 (by decide), BitVec.toNat_setWidth, BitVec.toNat_ushiftRight,
      Nat.shiftRight_eq_div_pow, h7f, h0f, Nat.shiftLeft_eq]
    omega
  have hm : ((h &&& 0x03ff).setWidth 32 <<< 13 : Single).toNat = h.toNat % 2 ^ 10 * 2 ^ 13 := by
    have hmask : (0x03ff : Half) = BitVec.ofNat 16 (2 ^ 10 - 1) := rfl
    rw [BitVec.toNat_shiftLeft, BitVec.toNat_setWidth, hmask, BitFields.toNat_and_lowMask _ 10 (by decide),
      Nat.shiftLeft_eq]
    omega
  have hfields := BitFields.toNat_or_fields hs he (by rw [hm]; omega) (by rw [hm]; omega)
  rw [hm] at hfields
  exact hfields.trans (by omega)

/-- **Round trip.** -/
theorem float2half_half2float {h : Half} (hh : ZeroOrNormal h) : float2half (half2float h) = h := by
  have hlt := h.isLt
  rcases hh with hzero | ⟨hmin, hmax⟩
  · rw [halfPat] at hzero
    have hcases : h = 0x0000 ∨ h = 0x8000 := by
      rcases Nat.lt_or_ge h.toNat (2 ^ 15) with hpos | hneg
      · exact Or.inl (BitVec.eq_of_toNat_eq (show h.toNat = 0 by omega))
      · exact Or.inr (BitVec.eq_of_toNat_eq (show h.toNat = 0x8000 by omega))
    rcases hcases with rfl | rfl
    · decide
    · decide
  · have hf := half2float_toNat hmin hmax
    have habs : absPat (half2float h) = (halfPat h + 112 * 2 ^ 10) * 0x2000 := by
      rw [absPat, hf]
      omega
    have hfin : Finite (half2float h) := by
      rw [Finite, habs]
      omega
    have hrange : InRange (absPat (half2float h)) := by
      rw [InRange, habs]
      omega
    obtain ⟨hkept, hlow, hhigh⟩ := kept_inRange hfin hrange
    have htie : tie (half2float h) ≤ 128 := by
      rw [tie]
      split_ifs <;> omega
    have hquot : absPat (half2float h) / 0x2000 = halfPat h + 112 * 2 ^ 10 := by omega
    rw [if_neg (by omega), Nat.add_zero, hquot] at hkept
    have hpat := halfPat_float2half hfin
    rw [halfMag, if_neg (by omega), if_neg (by omega), hkept, Nat.add_sub_cancel] at hpat
    have hsign := sign_inRange hfin hrange
    rw [hf] at hsign
    have hres := (float2half (half2float h)).isLt
    apply BitVec.eq_of_toNat_eq
    rw [halfPat, halfPat] at hpat
    omega

/-- **The codec.**  There and back, a normal half number or zero stays the same.  The
conversion of a finite number gives what it should exactly for the patterns of `WellConverted`,
and keeps the order of two numbers unless the smaller one loses its sign. -/
theorem codec_law (h : Half) (f g : Single) :
    (ZeroOrNormal h → float2half (half2float h) = h) ∧
      (Finite f → (Converted f (float2half f) ↔ WellConverted f)) ∧
      (Finite f → Finite g → value f ≤ value g →
        (halfValue (float2half f) ≤ halfValue (float2half g) ↔ (LosesSign f → ToInfinity g))) :=
  ⟨fun hh => float2half_half2float hh, fun hf => converted_iff hf,
    fun hf hg hle => halfValue_mono_iff hf hg hle⟩

/-- **Lost signs**: the smallest positive number becomes a negative zero, and a large negative
number the positive infinity. -/
theorem sign_lost :
    (¬ ∀ f : Single, Finite f → Converted f (float2half f)) ∧
      ¬ ∀ f g : Single, Finite f → Finite g → value f ≤ value g →
        halfValue (float2half f) ≤ halfValue (float2half g) := by
  constructor
  · intro h
    have hsign := (h 1 (by decide)).sign
    revert hsign
    decide
  · intro h
    have hle := h 0xff7fff7f 0 (by decide) (by decide) (by decide)
    revert hle
    decide

end Comcore
