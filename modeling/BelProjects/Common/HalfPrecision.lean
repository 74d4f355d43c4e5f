import BelProjects.Library.Significand
import BelProjects.Library.BitFields

/-!
# Half precision

Transfer times pass the network as half precision numbers.  The codec works on the patterns of
the numbers; the pattern of a single precision number passes through a helper that returns it
as a single precision number.
-/

namespace Comcore

abbrev Single := BitVec 32

abbrev Half := BitVec 16

/-! ### The codec -/

/-- `comcore_f2u`, and back to an integer: the result is a `float`, with 24 significant bits. -/
def f2u (f : Single) : BitVec 32 := BitVec.ofNat 32 (Significand.round 24 f.toNat)

/-- The default case of `comcore_float2half`, from the sign bit on. -/
def dissect (x : BitVec 32) : Half :=
  let s : Half := (x >>> 16 &&& 0x8000).setWidth 16
  let e : Half := (x >>> 23).setWidth 16
  let e := e &&& 0xff
  if 127 + 15 < e then 0x7c00
  else if e < 127 - 14 then 0x8000
  else
    let e := e - 127
    let e := e + 15
    let e := e <<< 10
    let m : Half := (x >>> 13).setWidth 16
    let m := m &&& 0x03ff
    s ||| e ||| m

/-- `comcore_float2half`, on the pattern of its argument. -/
def float2half (f : Single) : Half :=
  let x := f2u f
  if x = 0x00000000 then 0x0000
  else if x = 0x80000000 then 0x8000
  else if x = 0xffc00001 then 0xfcff
  else if x = 0xff800001 then 0xfcff
  else if x = 0x7fc00000 then 0xfcff
  else if x = 0x7f800000 then 0x7c00
  else if x = 0xff800000 then 0xfc00
  else dissect (x + 0x00001000)

/-- `comcore_half2float`, as a pattern. -/
def half2float (h : Half) : Single :=
  if h = 0x0000 then 0x00000000
  else if h = 0x8000 then 0x80000000
  else if h = 0xfcff then 0x7fc00000
  else if h = 0x7c00 then 0x7f800000
  else if h = 0xfc00 then 0xff800000
  else
    let s : Single := (h &&& 0x8000).setWidth 32
    let s := s <<< 16
    let e : Single := (h >>> 10).setWidth 32
    let e := e &&& 0x1f
    let e := e + 0x7f
    let e := e - 0x0f
    let e := e <<< 23
    let m : Single := (h &&& 0x03ff).setWidth 32
    let m := m <<< 13
    s ||| e ||| m

/-! ### The fields -/

/-- The result of the default case, from the pattern without its low 13 bits. -/
theorem dissect_toNat (x : BitVec 32) :
    (dissect x).toNat =
      if 142 < x.toNat / 2 ^ 23 % 256 then 0x7c00
      else if x.toNat / 2 ^ 23 % 256 < 113 then 0x8000
      else 2 ^ 15 * (x.toNat / 2 ^ 31) +
        (2 ^ 10 * (x.toNat / 2 ^ 23 % 256 - 112) + x.toNat / 2 ^ 13 % 2 ^ 10) := by
  have hx := x.isLt
  have hs : ((x >>> 16 &&& 0x8000).setWidth 16 : Half).toNat = 2 ^ 15 * (x.toNat / 2 ^ 31) := by
    have hbit := BitFields.toNat_and_bit (x >>> 16) 15 (by decide)
    have hmask : (0x8000 : BitVec 32) = BitVec.ofNat 32 (2 ^ 15) := rfl
    rw [BitVec.toNat_setWidth, hmask, hbit, BitVec.toNat_ushiftRight, Nat.shiftRight_eq_div_pow]
    omega
  have he : ((x >>> 23).setWidth 16 &&& 0xff : Half).toNat = x.toNat / 2 ^ 23 % 256 := by
    have hmask : (0xff : Half) = BitVec.ofNat 16 (2 ^ 8 - 1) := rfl
    rw [hmask, BitFields.toNat_and_lowMask _ 8 (by decide), BitVec.toNat_setWidth, BitVec.toNat_ushiftRight,
      Nat.shiftRight_eq_div_pow]
    omega
  have hm : ((x >>> 13).setWidth 16 &&& 0x03ff : Half).toNat = x.toNat / 2 ^ 13 % 2 ^ 10 := by
    have hmask : (0x03ff : Half) = BitVec.ofNat 16 (2 ^ 10 - 1) := rfl
    rw [hmask, BitFields.toNat_and_lowMask _ 10 (by decide), BitVec.toNat_setWidth, BitVec.toNat_ushiftRight,
      Nat.shiftRight_eq_div_pow]
    omega
  unfold dissect
  dsimp only
  generalize ((x >>> 23).setWidth 16 &&& 0xff : Half) = e at he ⊢
  have hhigh : 127 + 15 < e ↔ 142 < x.toNat / 2 ^ 23 % 256 := by
    rw [← he]
    exact BitVec.lt_def
  have hlow : e < 127 - 14 ↔ x.toNat / 2 ^ 23 % 256 < 113 := by
    rw [← he]
    exact BitVec.lt_def
  by_cases hover : 142 < x.toNat / 2 ^ 23 % 256
  · rw [if_pos (hhigh.mpr hover), if_pos hover]
    rfl
  · rw [if_neg (mt hhigh.mp hover), if_neg hover]
    by_cases hunder : x.toNat / 2 ^ 23 % 256 < 113
    · rw [if_pos (hlow.mpr hunder), if_pos hunder]
      rfl
    · rw [if_neg (mt hlow.mp hunder), if_neg hunder]
      have hexp : (e - 127 + 15).toNat = x.toNat / 2 ^ 23 % 256 - 112 := by
        have h127 : (127 : Half).toNat = 127 := rfl
        have h15 : (15 : Half).toNat = 15 := rfl
        rw [BitVec.toNat_add, BitVec.toNat_sub, h127, h15, he]
        omega
      have hshift : ((e - 127 + 15) <<< 10).toNat = 2 ^ 10 * (x.toNat / 2 ^ 23 % 256 - 112) := by
        rw [BitVec.toNat_shiftLeft, hexp, Nat.shiftLeft_eq]
        omega
      rw [BitFields.toNat_or_fields hs hshift (hm ▸ Nat.mod_lt _ (by decide)) (by rw [hm]; omega), hm]

/-- The rounded pattern without its low bits. -/
def kept (r : Nat) : Nat := (r + 0x1000) / 0x2000

/-- The magnitude that remains: zero below the normal half numbers, infinity above. -/
def halfMag (r : Nat) : Nat :=
  if kept r < 113 * 2 ^ 10 then 0 else if 143 * 2 ^ 10 ≤ kept r then 0x7c00 else kept r - 112 * 2 ^ 10

theorem halfMag_mono {r r' : Nat} (h : r ≤ r') : halfMag r ≤ halfMag r' := by
  have hkept : kept r ≤ kept r' := Nat.div_le_div_right (Nat.add_le_add_right h _)
  rw [halfMag, halfMag]
  split_ifs <;> omega

theorem dissect_pos {r : Nat} (hr : r ≤ 0x7f800000) :
    (dissect (BitVec.ofNat 32 r + 0x00001000)).toNat =
      if kept r < 113 * 2 ^ 10 then 0x8000 else halfMag r := by
  have hsum : (BitVec.ofNat 32 r + 0x00001000).toNat = r + 0x1000 := by
    have hc : (0x00001000 : BitVec 32).toNat = 0x1000 := rfl
    rw [BitVec.toNat_add, BitVec.toNat_ofNat, hc]
    omega
  rw [dissect_toNat, hsum, halfMag, kept]
  split
  · rw [if_neg (by omega), if_neg (by omega), if_pos (by omega)]
  · split
    · rw [if_pos (by omega)]
    · rw [if_neg (by omega), if_neg (by omega), if_neg (by omega)]
      omega

theorem dissect_neg {r : Nat} (hr : r ≤ 0x7f800000) :
    (dissect (BitVec.ofNat 32 (2 ^ 31 + r) + 0x00001000)).toNat =
      if 143 * 2 ^ 10 ≤ kept r then 0x7c00 else 0x8000 + halfMag r := by
  have hsum : (BitVec.ofNat 32 (2 ^ 31 + r) + 0x00001000).toNat = 2 ^ 31 + (r + 0x1000) := by
    have hc : (0x00001000 : BitVec 32).toNat = 0x1000 := rfl
    rw [BitVec.toNat_add, BitVec.toNat_ofNat, hc]
    omega
  rw [dissect_toNat, hsum, halfMag, kept]
  split
  · rw [if_pos (by omega)]
  · split
    · rw [if_neg (by omega), if_pos (by omega)]
    · rw [if_neg (by omega), if_neg (by omega), if_neg (by omega)]
      omega

/-! ### The conversion to half precision -/

def absPat (f : Single) : Nat := f.toNat % 2 ^ 31

def Finite (f : Single) : Prop := absPat f < 0x7f800000

instance (f : Single) : Decidable (Finite f) := inferInstanceAs (Decidable (_ < _))

/-- The pattern without its sign, rounded to a `float`. -/
def rounded (f : Single) : Nat := Significand.round 24 f.toNat % 2 ^ 31

theorem round_neg {p : Nat} (hp : p < 2 ^ 31) :
    Significand.round 24 (2 ^ 31 + p) = 2 ^ 31 + Significand.roundAt 8 p := by
  have hround := Significand.round_eq (p := 24) (n := 2 ^ 31 + p) (a := 31) (by omega) (by omega)
  rw [hround, Significand.roundAt, Significand.roundAt]
  split_ifs <;> omega

theorem roundAt_le {p : Nat} (hp : p < 0x7f800000) : Significand.roundAt 8 p ≤ 0x7f800000 := by
  have hmono := Significand.roundAt_mono 8 hp.le
  rwa [(Significand.roundAt_eq_self_iff 8 0x7f800000).mpr (by decide)] at hmono

theorem round_le {p : Nat} (hp : p < 0x7f800000) : Significand.round 24 p ≤ 0x7f800000 := by
  have hmono := Significand.round_mono (p := 24) (by decide) hp.le
  have hfits : Significand.Fits 24 0x7f800000 := ⟨0xff, 23, by decide, by decide⟩
  rwa [(Significand.round_eq_self_iff 24 0x7f800000).mpr hfits] at hmono

def cases : List (BitVec 32) :=
  [0x00000000, 0x80000000, 0xffc00001, 0xff800001, 0x7fc00000, 0x7f800000, 0xff800000]

theorem float2half_default {f : Single} (h : f2u f ∉ cases) :
    float2half f = dissect (f2u f + 0x00001000) := by
  simp only [cases, List.mem_cons, List.not_mem_nil, or_false, not_or] at h
  obtain ⟨h0, h1, h2, h3, h4, h5, h6⟩ := h
  rw [float2half, if_neg h0, if_neg h1, if_neg h2, if_neg h3, if_neg h4, if_neg h5, if_neg h6]

theorem float2half_of_f2u {f : Single} {x : BitVec 32} (h : f2u f = x) (hx : x ∈ cases) :
    float2half f = if x = 0x00000000 then 0x0000 else if x = 0x80000000 then 0x8000
      else if x = 0x7f800000 then 0x7c00 else if x = 0xff800000 then 0xfc00 else 0xfcff := by
  rw [float2half, h]
  simp only [cases, List.mem_cons, List.not_mem_nil, or_false] at hx
  rcases hx with rfl | rfl | rfl | rfl | rfl | rfl | rfl <;> rfl

theorem not_mem_cases {r : Nat} (hr : r < 2 ^ 32) (h : r ∉ cases.map BitVec.toNat) :
    BitVec.ofNat 32 r ∉ cases := by
  intro hmem
  have hx : (BitVec.ofNat 32 r).toNat = r := by
    rw [BitVec.toNat_ofNat, Nat.mod_eq_of_lt hr]
  exact h (hx ▸ List.mem_map_of_mem hmem)

theorem rounded_pos {f : Single} (hf : f.toNat < 0x7f800000) :
    rounded f = Significand.round 24 f.toNat := by
  have hr := round_le hf
  rw [rounded]
  omega

theorem toNat_neg {f : Single} (hsign : 2 ^ 31 ≤ f.toNat) : f.toNat = 2 ^ 31 + absPat f := by
  have hlt := f.isLt
  rw [absPat]
  omega

theorem round_toNat_neg {f : Single} (hsign : 2 ^ 31 ≤ f.toNat) :
    Significand.round 24 f.toNat = 2 ^ 31 + Significand.roundAt 8 (absPat f) := by
  rw [toNat_neg hsign]
  exact round_neg (Nat.mod_lt _ (by decide))

theorem rounded_neg {f : Single} (hsign : 2 ^ 31 ≤ f.toNat) (hf : Finite f) :
    rounded f = Significand.roundAt 8 (absPat f) := by
  have hr := roundAt_le hf
  rw [rounded, round_toNat_neg hsign]
  omega

/-- The special cases do not differ from the default one for a positive finite number, but for
zero. -/
theorem float2half_pos {f : Single} (hf : f.toNat < 0x7f800000) :
    (float2half f).toNat =
      if rounded f ≠ 0 ∧ kept (rounded f) < 113 * 2 ^ 10 then 0x8000 else halfMag (rounded f) := by
  have hr := round_le hf
  have hrounded := rounded_pos hf
  rw [← hrounded] at hr
  have hx : f2u f = BitVec.ofNat 32 (rounded f) := by rw [f2u, hrounded]
  rcases Nat.eq_zero_or_pos (rounded f) with hzero | hpos
  · rw [float2half_of_f2u hx (by rw [hzero]; decide), hzero]
    rfl
  · rcases Nat.lt_or_eq_of_le hr with hlt | hinf
    · have hnot : BitVec.ofNat 32 (rounded f) ∉ cases := by
        apply not_mem_cases (by omega)
        simp [cases]
        omega
      rw [float2half_default (hx ▸ hnot), hx, dissect_pos hr]
      simp only [ne_eq, hpos.ne', not_false_eq_true, true_and]
    · rw [float2half_of_f2u hx (by rw [hinf]; decide), hinf]
      rfl

/-- A negative finite number keeps its sign, but for an overflow that is not that of the
rounding to a `float`. -/
theorem float2half_neg {f : Single} (hsign : 2 ^ 31 ≤ f.toNat) (hf : Finite f) :
    (float2half f).toNat =
      if 143 * 2 ^ 10 ≤ kept (rounded f) ∧ rounded f ≠ 0x7f800000 then 0x7c00
      else 0x8000 + halfMag (rounded f) := by
  have hround := round_toNat_neg hsign
  have hr := roundAt_le hf
  have hrounded := rounded_neg hsign hf
  rw [← hrounded] at hr hround
  have hx : f2u f = BitVec.ofNat 32 (2 ^ 31 + rounded f) := by rw [f2u, hround]
  rcases Nat.eq_zero_or_pos (rounded f) with hzero | hpos
  · rw [float2half_of_f2u hx (by rw [hzero]; decide), hzero]
    rfl
  · rcases Nat.lt_or_eq_of_le hr with hlt' | hinf
    · have hnot : BitVec.ofNat 32 (2 ^ 31 + rounded f) ∉ cases := by
        apply not_mem_cases (by omega)
        simp [cases]
        omega
      rw [float2half_default (hx ▸ hnot), hx, dissect_neg hr]
      simp only [ne_eq, hlt'.ne, not_false_eq_true, and_true]
    · rw [float2half_of_f2u hx (by rw [hinf]; decide), hinf]
      rfl

/-- Half of the distance of the patterns that are left by the rounding to a `float`. -/
def tie (f : Single) : Nat := if 2 ^ 31 ≤ f.toNat then 128 else if f.toNat < 2 ^ 30 then 32 else 64

theorem kept_roundAt6 (p : Nat) :
    kept (Significand.roundAt 6 p) = p / 0x2000 + if 0x1000 - 32 ≤ p % 0x2000 then 1 else 0 := by
  rw [kept, Significand.roundAt]
  split_ifs <;> omega

theorem kept_roundAt7 (p : Nat) :
    kept (Significand.roundAt 7 p) = p / 0x2000 + if 0x1000 - 64 ≤ p % 0x2000 then 1 else 0 := by
  have hquot : p / 2 ^ 7 = 64 * (p / 0x2000) + p % 0x2000 / 128 := by omega
  rw [kept, Significand.roundAt, hquot]
  split_ifs <;> omega

theorem kept_roundAt8 (p : Nat) :
    kept (Significand.roundAt 8 p) = p / 0x2000 + if 0x1000 - 128 ≤ p % 0x2000 then 1 else 0 := by
  have hquot : p / 2 ^ 8 = 32 * (p / 0x2000) + p % 0x2000 / 256 := by omega
  rw [kept, Significand.roundAt, hquot]
  split_ifs <;> omega

/-- **The two roundings**: from the middle between two half numbers, less half of the distance
of the patterns that the first rounding leaves, a pattern is rounded up. -/
theorem kept_rounded {f : Single} (hf : Finite f) (h : 2 ^ 29 ≤ f.toNat) :
    kept (rounded f) =
      absPat f / 0x2000 + if 0x1000 - tie f ≤ absPat f % 0x2000 then 1 else 0 := by
  rcases Nat.lt_or_ge f.toNat (2 ^ 31) with hpos | hneg
  · have habs : absPat f = f.toNat := Nat.mod_eq_of_lt hpos
    have hlt : f.toNat < 0x7f800000 := habs ▸ hf
    rw [rounded_pos hlt, tie, if_neg (Nat.not_le.mpr hpos), habs]
    rcases Nat.lt_or_ge f.toNat (2 ^ 30) with h30 | h30
    · rw [Significand.round_eq (a := 29) h h30, if_pos h30]
      exact kept_roundAt6 _
    · rw [Significand.round_eq (a := 30) h30 hpos, if_neg (Nat.not_lt.mpr h30)]
      exact kept_roundAt7 _
  · rw [rounded_neg hneg hf, tie, if_pos hneg]
    exact kept_roundAt8 _

end Comcore
