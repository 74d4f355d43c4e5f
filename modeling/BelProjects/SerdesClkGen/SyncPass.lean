import BelProjects.Library.Marks
import BelProjects.SerdesClkGen.Edges
import BelProjects.SerdesClkGen.SyncFsm

/-!
# One pass of the synchronisation machine

A pass takes 74 clocks. It loads what the counter holds in a word that begins at the time
the machine has read in its third clock.
-/

namespace SerdesClkGen

open Marks

/-! ## The state of a counter at a time -/

def Bank.time (b : Bank) (setLoCount : Bool) (ecaTime : BitVec 64) : Int :=
  (ecaTime <<< 3).toNat - ((b.phofsh ++ b.phofsl) + Sync.phaseAddend b setLoCount).toNat

/-- The distance from `time` to the next edge, in units of `2^-32` bits. -/
def Bank.toGo (b : Bank) (time : Int) : Int := untilMark b.period (time * 2 ^ 32)

/-- The edge before lies in the word before, and the fraction has run over since. -/
def Bank.carryAt (b : Bank) (time : Int) : Bool :=
  b.period - b.toGo time < 8 * 2 ^ 32 ∧ b.toGo time % 2 ^ 32 < b.frac.toNat

def Bank.countAt (b : Bank) (time : Int) : BitVec 32 :=
  BitVec.ofInt 32 (b.toGo time / 2 ^ 32 - (b.carryAt time).toNat)

/-- The counter in a word that begins at `time`. -/
def Bank.counterAt (b : Bank) (time : Int) : Counter where
  perCount := b.countAt time
  fracCount := BitVec.ofInt 32 (b.toGo time)
  fracCarry := b.carryAt time
  outpD0 := (patternParity b.bitpattNormal && decide (nextMark b.period (time * 2 ^ 32) % 2 = 1)) ^^
    delayedBit b.bitpattNormal (b.countAt time)

namespace Sync

variable {n : Nat}

/-! ## The division -/

/-- What the division keeps of the registers loaded before. -/
structure Working (b : Bank) (s : Sync n) : Prop where
  int : s.int = b.per
  fraction : s.fraction = b.frac
  bitpatt : s.bitpatt = b.bitpattNormal

/-- The division of `num` after `k` of its 64 rounds. -/
structure Dividing (b : Bank) (num k : Nat) (s : Sync n) : Prop where
  state : s.state = if k < 64 then .divideTimeByPer else .setFracCounter
  count : s.divCount.toNat = k % 64
  denominator : k < 64 → s.denominator.toNat = b.period * 2 ^ (63 - k)
  divided : ∃ q, Divided num b.period (64 - k) q s.numerator.toNat ∧
    (0 < k → s.didSubtract = decide (q % 2 = 1))

variable {b : Bank} {num k : Nat} {s : Sync n} {bank : Fin n → Bank} {ecaTime : BitVec 64}

theorem Dividing.next (h : Dividing b num k s) (hk : k < 64) :
    Dividing b num (k + 1) (s.next bank ecaTime) := by
  have hstate := h.state
  rw [if_pos hk] at hstate
  have hcount : s.divCount.toNat = k := by
    rw [h.count, Nat.mod_eq_of_lt hk]
  have hden := h.denominator hk
  obtain ⟨q, hdivided, -⟩ := h.divided
  have hrounds : 64 - k = (64 - (k + 1)) + 1 := by
    omega
  have hexp : 63 - k = 64 - (k + 1) := by
    omega
  rw [hrounds] at hdivided
  rw [hexp] at hden
  simp only [Sync.next, hstate]
  constructor
  · by_cases hlast : k = 63
    · have hval : s.divCount = 63 := BitVec.eq_of_toNat_eq (hcount.trans hlast)
      simp [hval, hlast]
    · have hval : s.divCount ≠ 63 := fun heq => hlast (hcount.symm.trans (congrArg BitVec.toNat heq))
      have hmore : k + 1 < 64 := by
        omega
      rw [if_pos hmore]
      exact if_neg hval
  · change (s.divCount + 1).toNat = _
    rw [BitVec.toNat_add, hcount]
    rfl
  · intro hk'
    change (s.denominator >>> 1).toNat = _
    rw [BitVec.toNat_ushiftRight, hden, Nat.shiftRight_eq_div_pow]
    have hexp' : 64 - (k + 1) = (63 - (k + 1)) + 1 := by
      omega
    rw [hexp', pow_succ, ← Nat.mul_assoc]
    simp
  · by_cases hlt : s.denominator < s.numerator
    · have hnat : b.period * 2 ^ (64 - (k + 1)) < s.numerator.toNat := by
        rw [← hden]
        exact hlt
      refine ⟨2 * q + 1, ?_, fun _ => ?_⟩
      · have hsub : (s.numerator - s.denominator).toNat =
            s.numerator.toNat - b.period * 2 ^ (64 - (k + 1)) := by
          rw [BitVec.toNat_sub_of_le (BitVec.le_of_lt hlt), hden]
        rw [if_pos hlt, hsub]
        exact hdivided.subtract hnat
      · simp [hlt]
    · have hnat : s.numerator.toNat ≤ b.period * 2 ^ (64 - (k + 1)) := by
        rw [← hden]
        exact Nat.not_lt.mp hlt
      refine ⟨2 * q, ?_, fun _ => ?_⟩
      · rw [if_neg hlt]
        exact hdivided.keep hnat
      · simp [hlt]

theorem Working.divide (h : Working b s) (hstate : s.state = .divideTimeByPer) :
    Working b (s.next bank ecaTime) := by
  simp only [Sync.next, hstate]
  exact ⟨h.int, h.fraction, h.bitpatt⟩

end Sync

/-! ## The numerator -/

theorem toNat_denominator (b : Bank) :
    (b.per ++ b.frac ++ 0#63).toNat = b.period * 2 ^ 63 := by
  rw [toNat_append, toNat_append, Bank.period, BitVec.toNat_zero, Nat.add_zero]

/-- The difference of two unsigned times with its sign in the top bit. -/
theorem subTime_spec (x y : BitVec 64) :
    (((0#1 ++ x) - (0#1 ++ y) : BitVec 65).msb = true ↔ x.toNat < y.toNat) ∧
      ((0#1 ++ x) - (0#1 ++ y) : BitVec 65).toNat = (x.toNat + 2 ^ 65 - y.toNat) % 2 ^ 65 := by
  have hx := x.isLt
  have hy := y.isLt
  have hval : ((0#1 ++ x) - (0#1 ++ y) : BitVec 65).toNat = (x.toNat + 2 ^ 65 - y.toNat) % 2 ^ 65 := by
    rw [BitVec.toNat_sub, toNat_append, toNat_append]
    simp
    omega
  refine ⟨?_, hval⟩
  rw [BitVec.msb_eq_decide, hval, decide_eq_true_iff]
  omega

/-- The numerator when the division begins. -/
def numeratorOf (subTime : BitVec 65) (denominator : BitVec 127) : BitVec 127 :=
  let numerator := (if subTime.msb then BitVec.allOnes 31 else 0#31) ++ subTime.extractLsb' 0 64 ++ 0#32
  if subTime.msb ∨ subTime = 0 then numerator + denominator else numerator

theorem numeratorOf_spec {b : Bank} (hper : 8 ≤ b.per.toNat) (x y : BitVec 64) :
    ((numeratorOf ((0#1 ++ x) - (0#1 ++ y)) (b.per ++ b.frac ++ 0#63)).toNat : Int) =
      (x.toNat - y.toNat) * 2 ^ 32 + (if x.toNat ≤ y.toNat then (b.period * 2 ^ 63 : Nat) else 0) := by
  have hx := x.isLt
  have hy := y.isLt
  obtain ⟨hmsb, hval⟩ := subTime_spec x y
  have hden := toNat_denominator b
  have hwide : 2 ^ 35 ≤ b.period := by
    simp only [Bank.period]
    omega
  have hlimit : b.period < 2 ^ 64 := by
    have := b.per.isLt
    have := b.frac.isLt
    simp only [Bank.period]
    omega
  have hlow : (((0#1 ++ x) - (0#1 ++ y) : BitVec 65).extractLsb' 0 64).toNat =
      (x.toNat + 2 ^ 65 - y.toNat) % 2 ^ 64 := by
    rw [BitVec.extractLsb'_toNat, hval, Nat.shiftRight_zero]
    omega
  generalize ((0#1 ++ x) - (0#1 ++ y) : BitVec 65) = subTime at hmsb hval hlow
  have hzero : subTime = 0 ↔ x.toNat = y.toNat := by
    rw [← BitVec.toNat_inj, hval]
    simp
    omega
  rw [numeratorOf]
  rcases lt_trichotomy x.toNat y.toNat with hlt | heq | hgt
  · rw [if_pos (Or.inl (hmsb.mpr hlt)), if_pos (hmsb.mpr hlt), if_pos hlt.le, BitVec.toNat_add,
      toNat_append, toNat_append, hden, hlow]
    simp
    omega
  · have hmsb' : subTime.msb = false := by
      simpa [heq] using hmsb
    rw [if_pos (Or.inr (hzero.mpr heq)), hmsb', if_pos heq.le, BitVec.toNat_add, toNat_append,
      toNat_append, hden, hlow]
    simp
    omega
  · have hmsb' : ¬ subTime.msb = true := by
      rw [hmsb]
      omega
    have hneither : ¬ (subTime.msb = true ∨ subTime = 0) := by
      rw [hmsb, hzero]
      omega
    rw [if_neg hneither, if_neg hmsb', if_neg (by omega), toNat_append, toNat_append, hlow]
    simp
    omega

/-- The division of `num` finds the edges around `time`. -/
structure Counts (b : Bank) (time : Int) (num : Nat) : Prop where
  pos : 0 < num
  le : num ≤ b.period * 2 ^ 64
  toGo : untilMark b.period num = b.toGo time
  parity : nextMark b.period num % 2 = nextMark b.period (time * 2 ^ 32) % 2

theorem numeratorOf_counts {b : Bank} (hper : 8 ≤ b.per.toNat) (x y : BitVec 64) :
    Counts b (x.toNat - y.toNat)
      (numeratorOf ((0#1 ++ x) - (0#1 ++ y)) (b.per ++ b.frac ++ 0#63)).toNat := by
  have hspec := numeratorOf_spec (b := b) hper x y
  have hx := x.isLt
  have hy := y.isLt
  have hpos := Counter.period_pos hper
  have hwide : 2 ^ 35 ≤ b.period := by
    simp only [Bank.period]
    omega
  generalize (numeratorOf ((0#1 ++ x) - (0#1 ++ y)) (b.per ++ b.frac ++ 0#63)).toNat = num at hspec
  by_cases hle : x.toNat ≤ y.toNat
  · rw [if_pos hle] at hspec
    have hshift : (num : Int) = (x.toNat - y.toNat) * 2 ^ 32 + b.period * 2 ^ 63 := by
      rw [hspec]
      push_cast
      rfl
    obtain ⟨hnext, huntil⟩ := mark_add_mul hpos ((x.toNat - y.toNat : Int) * 2 ^ 32) (2 ^ 63)
    rw [← hshift] at hnext huntil
    refine ⟨by omega, by omega, huntil, ?_⟩
    rw [hnext]
    omega
  · rw [if_neg hle, Nat.cast_zero, Int.add_zero] at hspec
    refine ⟨by omega, by omega, ?_, ?_⟩
    · rw [hspec, Bank.toGo]
    · rw [hspec]

/-! ## The values of a pass -/

section Values

variable {b : Bank} {time : Int} {num q r : Nat}

theorem Counts.remainder (h : Counts b time num) (hdivided : Divided num b.period 0 q r) :
    (r : Int) = b.period - b.toGo time ∧ r ≤ b.period ∧
      decide (nextMark b.period (time * 2 ^ 32) % 2 = 1) = !decide (q % 2 = 1) := by
  obtain ⟨hnext, huntil⟩ := hdivided.mark
  have hle := hdivided.le
  have htoGo := h.toGo
  have hparity := h.parity
  rw [pow_zero, Nat.mul_one] at hle
  rw [huntil] at htoGo
  rw [hnext] at hparity
  refine ⟨by omega, hle, ?_⟩
  rw [← hparity, ← decide_not, decide_eq_decide]
  omega

theorem toNat_extract_high {x : BitVec 127} (h : x.toNat < 2 ^ 64) :
    (x.extractLsb' 32 32).toNat = x.toNat / 2 ^ 32 := by
  rw [BitVec.extractLsb'_toNat, Nat.shiftRight_eq_div_pow]
  omega

theorem toNat_extract_low (x : BitVec 127) : (x.extractLsb' 0 32).toNat = x.toNat % 2 ^ 32 := by
  rw [BitVec.extractLsb'_toNat, Nat.shiftRight_zero]

/-- The fraction minus the remainder's, with the borrow in the top bit. -/
theorem countFraction_spec (x y : BitVec 32) :
    (((0#1 ++ x) - (0#1 ++ y) : BitVec 33).msb = decide (x.toNat < y.toNat)) ∧
      (((0#1 ++ x) - (0#1 ++ y) : BitVec 33).extractLsb' 0 32).toNat =
        (x.toNat + 2 ^ 32 - y.toNat) % 2 ^ 32 := by
  have hx := x.isLt
  have hy := y.isLt
  have hval : ((0#1 ++ x) - (0#1 ++ y) : BitVec 33).toNat = (x.toNat + 2 ^ 33 - y.toNat) % 2 ^ 33 := by
    rw [BitVec.toNat_sub, toNat_append, toNat_append]
    simp
    omega
  constructor
  · rw [BitVec.msb_eq_decide, hval, decide_eq_decide]
    omega
  · rw [BitVec.extractLsb'_toNat, hval, Nat.shiftRight_zero]
    omega

theorem toNat_subCarries : ∀ borrow carry : Bool,
    (0#30 ++ BitVec.ofBool (borrow && carry) ++ BitVec.ofBool (borrow ^^ carry) : BitVec 32).toNat =
      borrow.toNat + carry.toNat := by
  decide

theorem period_lt (b : Bank) : b.period < 2 ^ 64 := by
  have hper := b.per.isLt
  have hfrac := b.frac.isLt
  simp only [Bank.period]
  omega

/-- What the last states of a pass make of the remainder `r`. -/
theorem fraction_of_remainder {x : BitVec 127} (hr : (x.toNat : Int) = b.period - b.toGo time) :
    ((0#1 ++ b.frac) - (0#1 ++ x.extractLsb' 0 32) : BitVec 33).extractLsb' 0 32 =
      BitVec.ofInt 32 (b.toGo time) := by
  have hfrac := b.frac.isLt
  have hperiod : (b.period : Int) = b.per.toNat * 2 ^ 32 + b.frac.toNat := by
    simp [Bank.period]
  apply BitVec.eq_of_toNat_eq
  rw [(countFraction_spec _ _).2, toNat_extract_low, BitVec.toNat_ofInt]
  omega

theorem carry_of_remainder {x : BitVec 127} (hr : (x.toNat : Int) = b.period - b.toGo time)
    (hle : x.toNat ≤ b.period) :
    decide (x.extractLsb' 32 32 < 8 ∧
      ((0#1 ++ b.frac) - (0#1 ++ x.extractLsb' 0 32) : BitVec 33).extractLsb' 0 32 < b.frac) =
      b.carryAt time := by
  have hlimit := period_lt b
  have hperiod : (b.period : Int) = b.per.toNat * 2 ^ 32 + b.frac.toNat := by
    simp [Bank.period]
  rw [Bank.carryAt, decide_eq_decide, BitVec.lt_def, BitVec.lt_def, (countFraction_spec _ _).2,
    toNat_extract_low, toNat_extract_high (by omega)]
  change x.toNat / 2 ^ 32 < 8 ∧ _ ↔ _
  have hfrac := b.frac.isLt
  constructor
  · rintro ⟨hword, hover⟩
    exact ⟨by omega, by omega⟩
  · rintro ⟨hword, hover⟩
    exact ⟨by omega, by omega⟩

theorem count_of_remainder {x : BitVec 127} (hr : (x.toNat : Int) = b.period - b.toGo time)
    (hle : x.toNat ≤ b.period) {borrow : Bool} (hborrow : borrow = decide (b.frac.toNat < x.toNat % 2 ^ 32)) :
    b.per - x.extractLsb' 32 32 - (0#30 ++ BitVec.ofBool (borrow && b.carryAt time) ++
      BitVec.ofBool (borrow ^^ b.carryAt time)) = b.countAt time := by
  have hlimit := period_lt b
  have hperiod : (b.period : Int) = b.per.toNat * 2 ^ 32 + b.frac.toNat := by
    simp [Bank.period]
  have hper := b.per.isLt
  have hfrac := b.frac.isLt
  have hcarry := Bool.toNat_le (b.carryAt time)
  apply BitVec.eq_of_toNat_eq
  rw [Bank.countAt, BitVec.toNat_sub, BitVec.toNat_sub, toNat_subCarries, toNat_extract_high (by omega),
    BitVec.toNat_ofInt]
  generalize (b.carryAt time).toNat = carry at hcarry
  by_cases hlt : b.frac.toNat < x.toNat % 2 ^ 32
  · rw [hborrow, decide_eq_true hlt, Bool.toNat_true]
    omega
  · rw [hborrow, decide_eq_false hlt, Bool.toNat_false]
    omega

end Values

namespace Sync

variable {n : Nat}

/-- The machine runs with these inputs. -/
def Follows (inp : Nat → Inputs n) (s : Nat → Sync n) : Prop :=
  ∀ t, s (t + 1) = (s t).next (inp t).bank (inp t).ecaTime

variable {inp : Nat → Inputs n} {s : Nat → Sync n} {s₀ : Sync n} {t : Nat} {b : Bank}

/-- Five clocks from the beginning of a pass to its division. -/
theorem prologue (hrun : Follows inp s) (hstart : (s t).state = .start)
    (hbank : (inp (t + 1)).bank (s t).channelCount = b) (hper : 8 ≤ b.per.toNat) :
    Working b (s (t + 5)) ∧
      ∃ num, Counts b (b.time (s t).setLoCount (inp (t + 2)).ecaTime) num ∧
        Dividing b num 0 (s (t + 5)) := by
  have h1 : s (t + 1) = { s t with
      ldLo := fun _ => false, ldHi := fun _ => false, fracCarry := false, divCount := 0,
      state := .loadRegs } := by
    rw [hrun t]
    simp only [next, hstart]
  have h2 : s (t + 2) = { s (t + 1) with
      int := b.per, fraction := b.frac,
      phase := (b.phofsh ++ b.phofsl) + phaseAddend b (s t).setLoCount,
      bitpatt := b.bitpattNormal, state := .subPhaseFromTime } := by
    rw [hrun (t + 1), h1, ← hbank]
    rfl
  have h3 : s (t + 3) = { s (t + 2) with
      subTime := (0#1 ++ ((inp (t + 2)).ecaTime <<< 3)) - (0#1 ++ (s (t + 2)).phase),
      state := .loadDiv } := by
    rw [hrun (t + 2), h2]
    rfl
  have h4 : s (t + 4) = { s (t + 3) with
      numerator := (if (s (t + 3)).subTime.msb then BitVec.allOnes 31 else 0#31) ++
        (s (t + 3)).subTime.extractLsb' 0 64 ++ 0#32,
      denominator := b.per ++ b.frac ++ 0#63, state := .checkTime } := by
    rw [hrun (t + 3), h3, h2]
    rfl
  have h5 : s (t + 5) = { s (t + 4) with
      numerator := numeratorOf (s (t + 3)).subTime (b.per ++ b.frac ++ 0#63),
      state := .divideTimeByPer } := by
    rw [hrun (t + 4), h4]
    rfl
  have hsub : (s (t + 3)).subTime = (0#1 ++ ((inp (t + 2)).ecaTime <<< 3)) -
      (0#1 ++ ((b.phofsh ++ b.phofsl) + phaseAddend b (s t).setLoCount)) := by
    rw [h3, h2]
  rw [hsub] at h5
  refine ⟨?_, _, numeratorOf_counts hper ((inp (t + 2)).ecaTime <<< 3)
    ((b.phofsh ++ b.phofsl) + phaseAddend b (s t).setLoCount), ?_⟩
  · rw [h5, h4, h3, h2, h1]
    exact ⟨rfl, rfl, rfl⟩
  · have hcounts := numeratorOf_counts (b := b) hper ((inp (t + 2)).ecaTime <<< 3)
      ((b.phofsh ++ b.phofsl) + phaseAddend b (s t).setLoCount)
    rw [h5, h4, h3, h2, h1]
    exact ⟨rfl, rfl, fun _ => toNat_denominator b,
      ⟨0, Divided.init hcounts.pos hcounts.le, fun h => absurd h (Nat.lt_irrefl 0)⟩⟩

theorem divide_run (hrun : Follows inp s) {num : Nat} (hworking : Working b (s t))
    (hdividing : Dividing b num 0 (s t)) : ∀ k ≤ 64, Working b (s (t + k)) ∧ Dividing b num k (s (t + k)) := by
  intro k
  induction k with
  | zero => exact fun _ => ⟨hworking, hdividing⟩
  | succ k ih =>
      intro hk
      obtain ⟨hworking', hdividing'⟩ := ih (Nat.le_of_succ_le hk)
      have hstate := hdividing'.state
      rw [if_pos (Nat.lt_of_succ_le hk)] at hstate
      rw [← Nat.add_assoc, hrun]
      exact ⟨hworking'.divide hstate, hdividing'.next hk⟩

/-- Five clocks from the end of the division to the load. -/
theorem epilogue (hrun : Follows inp s) {num : Nat} {time : Int} (hcounts : Counts b time num)
    (hworking : Working b (s t)) (hdividing : Dividing b num 64 (s t)) :
    (s (t + 5)).values = b.counterAt time := by
  have hstate := hdividing.state
  rw [if_neg (Nat.lt_irrefl 64)] at hstate
  obtain ⟨q, hdivided, hsubtract⟩ := hdividing.divided
  obtain ⟨hr, hle, hparity⟩ := hcounts.remainder hdivided
  obtain ⟨hint, hfraction, hbitpatt⟩ := hworking
  have h1 : s (t + 1) = { s t with
      countFraction := (0#1 ++ b.frac) - (0#1 ++ (s t).numerator.extractLsb' 0 32)
      state := .predictCounterState } := by
    rw [hrun t]
    simp only [next, hstate, hfraction]
  have h2 : s (t + 2) = { s (t + 1) with
      fracCarry := (s t).numerator.extractLsb' 32 32 < 8 ∧
        (s (t + 1)).countFraction.extractLsb' 0 32 < b.frac
      state := .setPerCounter } := by
    rw [hrun (t + 1), h1, ← hfraction]
    rfl
  have h3 : s (t + 3) = { s (t + 2) with
      countInteger := b.per - (s t).numerator.extractLsb' 32 32 - (s (t + 2)).subCarries
      state := .setDelayedBit } := by
    rw [hrun (t + 2), h2, h1, ← hint]
    rfl
  have h4 : s (t + 4) = { s (t + 3) with
      bitpattBit0 := delayedBit b.bitpattNormal (s (t + 3)).countInteger
      parity := patternParity b.bitpattNormal
      state := .applyCounterVals } := by
    rw [hrun (t + 3), h3, h2, h1, ← hbitpatt]
    rfl
  have h5 : s (t + 5) = (s (t + 4)).next (inp (t + 4)).bank (inp (t + 4)).ecaTime := hrun (t + 4)
  have hfrac := fraction_of_remainder hr
  have hborrow := (countFraction_spec b.frac ((s t).numerator.extractLsb' 0 32)).1
  rw [toNat_extract_low] at hborrow
  have hcount : (s (t + 3)).countInteger = b.countAt time := by
    rw [h3, h2, h1]
    change b.per - _ - (0#30 ++ BitVec.ofBool (_ && decide _) ++ BitVec.ofBool (_ ^^ decide _)) = _
    rw [carry_of_remainder hr hle]
    exact count_of_remainder hr hle hborrow
  have hbit : (s (t + 5)).lastBit =
      (((s (t + 4)).parity && (s t).didSubtract) ^^ (s (t + 4)).bitpattBit0 ^^ (s (t + 4)).parity) := by
    rw [h5, h4, h3, h2, h1]
    rfl
  have hlast : (s (t + 5)).lastBit = (b.counterAt time).outpD0 := by
    rw [hbit, h4, hcount, Bank.counterAt, hparity, hsubtract (by decide)]
    change ((patternParity b.bitpattNormal && _) ^^ delayedBit _ _ ^^ patternParity b.bitpattNormal) = _
    cases patternParity b.bitpattNormal <;> cases decide (q % 2 = 1) <;>
      cases delayedBit b.bitpattNormal (b.countAt time) <;> rfl
  refine Counter.ext ?_ ?_ ?_ hlast
  · rw [h5, h4]
    exact hcount
  · rw [h5, h4, h3, h2, h1]
    exact hfrac
  · rw [h5, h4, h3, h2, h1]
    exact carry_of_remainder hr hle

theorem pass_values (hrun : Follows inp s) (hstart : (s t).state = .start)
    (hbank : (inp (t + 1)).bank (s t).channelCount = b) (hper : 8 ≤ b.per.toNat) :
    (s (t + 74)).values = b.counterAt (b.time (s t).setLoCount (inp (t + 2)).ecaTime) := by
  obtain ⟨hworking, num, hcounts, hdividing⟩ := prologue hrun hstart hbank hper
  obtain ⟨hworking', hdividing'⟩ := divide_run hrun hworking hdividing 64 le_rfl
  exact epilogue hrun hcounts hworking' hdividing'

/-! ## How long a pass takes -/

/-- The clocks until the machine is back in `START`. -/
def remaining (s : Sync n) : Nat :=
  match s.state with
  | .start => 74
  | .loadRegs => 73
  | .subPhaseFromTime => 72
  | .loadDiv => 71
  | .checkTime => 70
  | .divideTimeByPer => 69 - s.divCount.toNat
  | .setFracCounter => 5
  | .predictCounterState => 4
  | .setPerCounter => 3
  | .setDelayedBit => 2
  | .applyCounterVals => 1

/-- The counter of rounds is clear before the division. -/
def Timed (s : Sync n) : Prop := 69 < remaining s → s.state ≠ .start → s.divCount = 0

theorem remaining_next (hs : Timed s₀) (hstate : s₀.state ≠ .start) (bank : Fin n → Bank)
    (ecaTime : BitVec 64) :
    Timed (s₀.next bank ecaTime) ∧
      (remaining s₀ = 1 → (s₀.next bank ecaTime).state = .start) ∧
      (1 < remaining s₀ → (s₀.next bank ecaTime).state ≠ .start ∧
        remaining (s₀.next bank ecaTime) = remaining s₀ - 1) := by
  cases hst : s₀.state with
  | start => exact absurd hst hstate
  | divideTimeByPer =>
      have hbound := s₀.divCount.isLt
      by_cases hlast : s₀.divCount = 63
      · simp [Timed, remaining, next, hst, hlast]
      · have hne : s₀.divCount.toNat ≠ 63 := fun heq => hlast (BitVec.eq_of_toNat_eq heq)
        have hsucc : (s₀.divCount + 1).toNat = s₀.divCount.toNat + 1 := by
          rw [BitVec.toNat_add]
          exact Nat.mod_eq_of_lt (by change s₀.divCount.toNat + 1 < 64; omega)
        simp only [Timed, remaining, next, hst, hlast, if_false, hsucc]
        refine ⟨fun h => ?_, fun h => ?_, fun _ => ⟨by simp, by omega⟩⟩
        · omega
        · omega
  | checkTime =>
      have hzero : s₀.divCount = 0 := hs (by simp [remaining, hst]) hstate
      simp [Timed, remaining, next, hst, hzero]
  | loadRegs | subPhaseFromTime | loadDiv =>
      have hzero : s₀.divCount = 0 := hs (by simp [remaining, hst]) hstate
      simp [Timed, remaining, next, hst, hzero]
  | setFracCounter | predictCounterState | setPerCounter | setDelayedBit | applyCounterVals =>
      simp [Timed, remaining, next, hst]

/-- Between the two ends of a pass the machine is not in `START`. -/
theorem busy (hrun : Follows inp s) (hstart : (s t).state = .start) :
    ∀ k, 0 < k → k < 74 → Timed (s (t + k)) ∧ (s (t + k)).state ≠ .start ∧
      remaining (s (t + k)) = 74 - k := by
  intro k hk
  induction k, hk using Nat.le_induction with
  | base =>
      intro _
      rw [hrun t]
      simp [Timed, remaining, next, hstart]
  | succ k hk ih =>
      intro hlt
      obtain ⟨htimed, hne, hrem⟩ := ih (Nat.lt_of_succ_lt hlt)
      obtain ⟨htimed', -, hmore⟩ := remaining_next htimed hne (inp (t + k)).bank (inp (t + k)).ecaTime
      obtain ⟨hne', hrem'⟩ := hmore (by omega)
      rw [← Nat.add_assoc, hrun]
      exact ⟨htimed', hne', by omega⟩

theorem start_again (hrun : Follows inp s) (hstart : (s t).state = .start) :
    (s (t + 74)).state = .start := by
  obtain ⟨htimed, hne, hrem⟩ := busy hrun hstart 73 (by decide) (by decide)
  have hback := (remaining_next htimed hne (inp (t + 73)).bank (inp (t + 73)).ecaTime).2.1 (by omega)
  rwa [← hrun (t + 73)] at hback

theorem start_before (hrun : Follows inp s) (hstart : (s 0).state = .start) {u : Nat} (hu : 0 < u)
    (hstate : (s u).state = .start) : ∃ t, u = t + 74 ∧ (s t).state = .start := by
  obtain ⟨t, htu, ht, hnone⟩ := Clocked.exists_last (p := fun t => (s t).state = .start) ⟨0, hu, hstart⟩
  refine ⟨t, ?_, ht⟩
  rcases lt_trichotomy u (t + 74) with hlt | heq | hgt
  · obtain ⟨k, rfl⟩ := Nat.exists_eq_add_of_le htu.le
    exact absurd hstate (busy hrun ht k (by omega) (by omega)).2.1
  · exact heq
  · exact absurd (start_again hrun ht) (hnone _ (by omega) hgt)

/-- A load pulse is only on in `START`. -/
def Quiet (s : Sync n) : Prop := s.state ≠ .start → ∀ i, s.ldHi i = false ∧ s.ldLo i = false

theorem quiet_next (h : Quiet s₀) (bank : Fin n → Bank) (ecaTime : BitVec 64) :
    Quiet (s₀.next bank ecaTime) := by
  intro hne i
  cases hst : s₀.state with
  | start => simp [next, hst]
  | applyCounterVals =>
      refine absurd ?_ hne
      simp [next, hst]
  | loadRegs | subPhaseFromTime | loadDiv | checkTime | divideTimeByPer | setFracCounter
  | predictCounterState | setPerCounter | setDelayedBit =>
      have hquiet := h (by rw [hst]; decide) i
      simpa [next, hst] using hquiet

theorem pass_frame (hrun : Follows inp s) (hstart : (s t).state = .start) : ∀ k < 74,
    (s (t + k)).setLoCount = (s t).setLoCount ∧ (s (t + k)).channelCount = (s t).channelCount ∧
      Quiet (s (t + k)) := by
  intro k
  induction k with
  | zero => exact fun _ => ⟨rfl, rfl, fun hne => absurd hstart hne⟩
  | succ k ih =>
      intro hk
      obtain ⟨hset, hch, hquiet⟩ := ih (Nat.lt_of_succ_lt hk)
      have hbefore : (s (t + k)).state ≠ .applyCounterVals := by
        intro hstate
        rcases Nat.eq_zero_or_pos k with rfl | hpos
        · exact absurd (hstart.symm.trans hstate) (by decide)
        · have hrem := (busy hrun hstart k hpos (Nat.lt_of_succ_lt hk)).2.2
          simp only [remaining, hstate] at hrem
          omega
      rw [← Nat.add_assoc, hrun, ← hset, ← hch]
      refine ⟨?_, ?_, quiet_next hquiet _ _⟩
      · cases hst : (s (t + k)).state with
        | applyCounterVals => exact absurd hst hbefore
        | _ => simp only [next, hst]
      · cases hst : (s (t + k)).state with
        | applyCounterVals => exact absurd hst hbefore
        | _ => simp only [next, hst]

/-- The load pulse that ends a pass, and the half the next pass is over. -/
structure Marked (setLoCount : Bool) (ch : Fin n) (s : Sync n) : Prop where
  state : s.state = .start
  setLo : s.setLoCount = !setLoCount
  channel : s.channelCount = if setLoCount then nextChannel ch else ch
  ldHi : ∀ i, s.ldHi i = (!setLoCount && decide (i = ch))
  ldLo : ∀ i, s.ldLo i = (setLoCount && decide (i = ch))

theorem pass_marked (hrun : Follows inp s) (hstart : (s t).state = .start) :
    Marked (s t).setLoCount (s t).channelCount (s (t + 74)) := by
  obtain ⟨hset, hch, hquiet⟩ := pass_frame hrun hstart 73 (by decide)
  obtain ⟨-, hne, hrem⟩ := busy hrun hstart 73 (by decide) (by decide)
  have happly : (s (t + 73)).state = .applyCounterVals := by
    rw [remaining] at hrem
    have hbound := (s (t + 73)).divCount.isLt
    cases hst : (s (t + 73)).state with
    | applyCounterVals => rfl
    | _ =>
        simp only [hst] at hrem
        omega
  have hoff := hquiet hne
  have h74 : s (t + 74) = (s (t + 73)).next (inp (t + 73)).bank (inp (t + 73)).ecaTime := hrun (t + 73)
  simp only [next, happly, hset, hch] at h74
  rw [h74]
  refine ⟨rfl, rfl, rfl, fun i => ?_, fun i => ?_⟩
  · cases (s t).setLoCount
    · simp [Function.update_apply, hoff]
    · simp [hoff]
  · cases (s t).setLoCount
    · simp [hoff]
    · simp [Function.update_apply, hoff]

end Sync

end SerdesClkGen
