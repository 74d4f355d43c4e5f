import BelProjects.Library.Marks
import BelProjects.SerdesClkGen.Generator
import Mathlib.Order.Monotone.Basic
import Mathlib.Tactic.IntervalCases

/-!
# Where the edges of a clock generator lie

A counter measures the distance to the next multiple of the period, rounded down to whole
bits. What one clock does to that distance gives the edges of the whole bit stream.
-/

namespace SerdesClkGen

open Marks

/-- The period in units of `2^-32` bits. -/
def Bank.period (b : Bank) : Nat := b.per.toNat * 2 ^ 32 + b.frac.toNat

/-- The bits from the beginning of the word to the next edge. -/
def Counter.ahead (c : Counter) : Nat := c.perCount.toNat + c.fracCarry.toNat

/-! ## One clock in numbers -/

theorem toNat_append {v w : Nat} (x : BitVec v) (y : BitVec w) :
    (x ++ y).toNat = x.toNat * 2 ^ w + y.toNat := by
  rw [BitVec.toNat_append, ← Nat.shiftLeft_add_eq_or_of_lt y.isLt, Nat.shiftLeft_eq]

namespace Counter

variable (b : Bank) (c : Counter)

theorem toNat_perAdd : c.perAdd.toNat =
    (2 * c.ahead + 1 + (2 ^ 34 - 16) - c.fracCarry.toNat) % 2 ^ 34 := by
  have hcarry : (BitVec.ofBool c.fracCarry).toNat = c.fracCarry.toNat := by
    cases c.fracCarry <;> rfl
  have hbits : (BitVec.ofInt 32 (-8)).toNat = 2 ^ 32 - 8 := by
    decide
  rw [perAdd, BitVec.toNat_add, toNat_append, toNat_append, toNat_append, toNat_append, hcarry, hbits]
  have := Bool.toNat_le c.fracCarry
  simp [ahead]
  omega

theorem msb_perAdd : c.perAdd.msb = decide (c.ahead < 8) := by
  have hcarry := Bool.toNat_le c.fracCarry
  have hcount := c.perCount.isLt
  rw [BitVec.msb_eq_decide, toNat_perAdd, decide_eq_decide]
  simp only [ahead]
  omega

theorem toNat_perAdd_extract : (c.perAdd.extractLsb' 1 32).toNat = (c.ahead + (2 ^ 32 - 8)) % 2 ^ 32 := by
  have hcarry := Bool.toNat_le c.fracCarry
  have hcount := c.perCount.isLt
  rw [BitVec.extractLsb'_toNat, toNat_perAdd, Nat.shiftRight_eq_div_pow]
  simp only [ahead]
  omega

theorem toNat_fracAdd : (c.fracAdd b).toNat = c.fracCount.toNat + b.frac.toNat := by
  rw [fracAdd, BitVec.toNat_add, toNat_append, toNat_append]
  have hfrac := b.frac.isLt
  have hcount := c.fracCount.isLt
  simp
  omega

theorem msb_fracAdd : (c.fracAdd b).msb = decide (2 ^ 32 ≤ c.fracCount.toNat + b.frac.toNat) := by
  rw [BitVec.msb_eq_decide, toNat_fracAdd]

theorem toNat_fracAdd_extract : ((c.fracAdd b).extractLsb' 0 32).toNat =
    (c.fracCount.toNat + b.frac.toNat) % 2 ^ 32 := by
  rw [BitVec.extractLsb'_toNat, toNat_fracAdd]
  simp

variable {b c}

/-- The word holds an edge: the counter goes on to the one after it. -/
theorem count_of_lt (h : c.ahead < 8) (hper : 8 ≤ b.per.toNat) :
    (c.count b).perCount.toNat = c.ahead + b.per.toNat - 8 ∧
      (c.count b).fracCount.toNat = (c.fracCount.toNat + b.frac.toNat) % 2 ^ 32 ∧
      (c.count b).fracCarry = decide (2 ^ 32 ≤ c.fracCount.toNat + b.frac.toNat) ∧
      (c.count b).outpD0 = outp c.outpD0 (c.bitPattern b) 7 := by
  have hmsb : c.perAdd.msb = true := by
    rw [msb_perAdd, decide_eq_true h]
  have hbound := b.per.isLt
  rw [count, if_pos hmsb]
  refine ⟨?_, toNat_fracAdd_extract b c, msb_fracAdd b c, rfl⟩
  rw [BitVec.toNat_add, toNat_perAdd_extract]
  omega

/-- The word holds none: the counter comes eight bits closer. -/
theorem count_of_le (h : 8 ≤ c.ahead) :
    (c.count b).perCount.toNat = c.ahead - 8 ∧ (c.count b).fracCount = c.fracCount ∧
      (c.count b).fracCarry = false ∧
      (c.count b).outpD0 = outp c.outpD0 (c.bitPattern b) 7 := by
  have hmsb : c.perAdd.msb = false := by
    rw [msb_perAdd, decide_eq_false (Nat.not_lt.mpr h)]
  have hcarry := Bool.toNat_le c.fracCarry
  have hcount := c.perCount.isLt
  rw [count, hmsb]
  refine ⟨?_, rfl, rfl, rfl⟩
  change (c.perAdd.extractLsb' 1 32).toNat = _
  rw [toNat_perAdd_extract]
  simp only [ahead] at h ⊢
  omega

theorem count_outpD0 : (c.count b).outpD0 = outp c.outpD0 (c.bitPattern b) 7 := by
  rw [count]
  split <;> rfl

end Counter

/-! ## The distance over time -/

/-- The counter is in a word that begins `time` bits after edge 0. -/
structure Counter.Tracks (b : Bank) (time : Int) (c : Counter) : Prop where
  distance : (c.ahead * 2 ^ 32 + c.fracCount.toNat : Int) = untilMark b.period (time * 2 ^ 32)
  below : c.perCount.toNat < b.per.toNat

namespace Counter

variable {b : Bank} {c : Counter} {time : Int}

theorem period_pos (hper : 8 ≤ b.per.toNat) : (0 : Int) < b.period := by
  simp only [Bank.period]
  omega

/-- The whole bits to the next edge. -/
theorem Tracks.ahead_eq (h : c.Tracks b time) :
    (c.ahead : Int) = untilMark b.period (time * 2 ^ 32) / 2 ^ 32 := by
  have hfrac := c.fracCount.isLt
  have hdistance := h.distance
  omega

theorem Tracks.count (hper : 8 ≤ b.per.toNat) (h : c.Tracks b time) :
    (c.count b).Tracks b (time + 8) := by
  have hdistance := h.distance
  have hfrac := c.fracCount.isLt
  have htime : (time + 8) * 2 ^ 32 = time * 2 ^ 32 + 8 * 2 ^ 32 := by
    ring
  have hperiod : (b.period : Int) = b.per.toNat * 2 ^ 32 + b.frac.toNat := by
    simp [Bank.period]
  rcases Nat.lt_or_ge c.ahead 8 with hlt | hle
  · obtain ⟨hcount, hfrac', hcarry, -⟩ := count_of_lt (b := b) hlt hper
    have hnext := (mark_add_of_lt (period_pos hper) (s := 8 * 2 ^ 32) (t := time * 2 ^ 32)
      (by omega) (by omega)).2
    constructor
    · have hahead : (c.count b).ahead = c.ahead + b.per.toNat - 8 +
          (decide (2 ^ 32 ≤ c.fracCount.toNat + b.frac.toNat)).toNat := by
        rw [Counter.ahead, hcount, hcarry]
      rw [htime, hnext, hahead, hfrac', ← hdistance, hperiod]
      have hbound := b.frac.isLt
      by_cases hover : 2 ^ 32 ≤ c.fracCount.toNat + b.frac.toNat
      · rw [decide_eq_true hover, Bool.toNat_true]
        omega
      · rw [decide_eq_false hover, Bool.toNat_false]
        omega
    · rw [hcount]
      omega
  · obtain ⟨hcount, hfrac', hcarry, -⟩ := count_of_le (b := b) hle
    have hnext := (mark_add_of_le (period_pos hper) (s := 8 * 2 ^ 32) (t := time * 2 ^ 32)
      (by omega) (by omega)).2
    constructor
    · rw [htime, hnext, ← hdistance, Counter.ahead, hcount, hcarry, hfrac', Bool.toNat_false]
      omega
    · have hbelow := h.below
      have hcarry' := Bool.toNat_le c.fracCarry
      rw [hcount]
      simp only [Counter.ahead] at hle ⊢
      omega

theorem Tracks.run (hper : 8 ≤ b.per.toNat) (h : c.Tracks b time) :
    ∀ k, (c.run b k).Tracks b (time + 8 * k)
  | 0 => by simpa [Counter.run] using h
  | k + 1 => by
      have hstep := (h.run hper k).count hper
      rwa [show time + 8 * (k : Int) + 8 = time + 8 * ((k + 1 : Nat) : Int) by push_cast; ring] at hstep

theorem tracks_loadReg (hper : 8 ≤ b.per.toNat) (hcarry : c.fracCarry = false) :
    (c.loadReg 0).Tracks b 0 where
  distance := by
    simp [Counter.ahead, loadReg, hcarry]
  below := by
    simp only [loadReg, BitVec.ofNat_eq_ofNat, BitVec.toNat_ofNat]
    omega

end Counter

/-! ## The bit stream -/

/-- Bit `n` differs from the one before it, which is `last` for the first bit. -/
def Toggles (last : Bool) (s : Nat → Bool) : (n : Nat) → Prop
  | 0 => s 0 ≠ last
  | n + 1 => s (n + 1) ≠ s n

/-- Edge `k` of the exact clock, at `k*(P + F/2^32)` bits rounded down. -/
def Bank.edge (b : Bank) (k : Nat) : Nat := k * b.period / 2 ^ 32

/-- Toggle `k` of the stream lies exactly at edge `k`. -/
structure ExactEdges (b : Bank) (last : Bool) (s : Nat → Bool) : Prop where
  increasing : StrictMono b.edge
  toggles : ∀ n, Toggles last s n ↔ ∃ k, b.edge k = n

theorem ahead_iff {b : Bank} (hper : 8 ≤ b.per.toNat) {c : Counter} {time j : Nat}
    (h : c.Tracks b time) (hj : j < 8) : c.ahead = j ↔ ∃ k, b.edge k = time + j := by
  have hpos := Counter.period_pos hper
  have hahead := h.ahead_eq
  have hmark := add_untilMark (d := b.period) (time * 2 ^ 32)
  have hwide : 8 * 2 ^ 32 ≤ b.period := by
    simp only [Bank.period]
    omega
  have hnonneg := untilMark_nonneg hpos (time * 2 ^ 32)
  have hlt := untilMark_lt hpos (time * 2 ^ 32)
  generalize untilMark b.period (time * 2 ^ 32) = u at hahead hmark hnonneg hlt
  generalize nextMark b.period (time * 2 ^ 32) = next at hmark
  have hnext : 0 ≤ next := by
    by_contra hneg
    have : (b.period : Int) * next ≤ b.period * (-1) :=
      Int.mul_le_mul_of_nonneg_left (by omega) hpos.le
    omega
  obtain ⟨next, rfl⟩ := Int.eq_ofNat_of_zero_le hnext
  have hplace : ((next * b.period : Nat) : Int) = time * 2 ^ 32 + u := by
    rw [Nat.cast_mul, mul_comm, ← hmark]
  constructor
  · rintro rfl
    refine ⟨next, ?_⟩
    rw [Bank.edge]
    omega
  · rintro ⟨k, hk⟩
    rw [Bank.edge] at hk
    rcases lt_trichotomy k next with hbefore | rfl | hafter
    · -- an earlier edge lies before the word
      have : (k + 1) * b.period ≤ next * b.period := Nat.mul_le_mul_right _ hbefore
      rw [Nat.succ_mul] at this
      omega
    · omega
    · -- a later one lies at least eight bits after the next
      have : (next + 1) * b.period ≤ k * b.period := Nat.mul_le_mul_right _ hafter
      rw [Nat.succ_mul] at this
      omega

/-! ## Bits of the patterns -/

theorem getLsbD_skipPattern (m : BitVec 16) (i : Nat) :
    (skipPattern m).getLsbD i = if i < 7 then m.getLsbD (i + 1) else if i = 7 then false else m.getLsbD i := by
  rcases Nat.lt_or_ge i 16 with hlt | hge
  · interval_cases i <;> simp [skipPattern]
  · rw [BitVec.getLsbD_of_ge _ _ hge, if_neg (by omega), if_neg (by omega), BitVec.getLsbD_of_ge _ _ hge]

theorem Bank.Configured.getLsbD_patt {b : Bank} {control : Control} (h : b.Configured control)
    (c : Counter) (i : Nat) : (c.patt b).getLsbD i =
      (if c.fracCarry then skipPattern control.bitPattern else control.bitPattern).getLsbD i := by
  have hwide (m : BitVec 16) : (m.setWidth 32).getLsbD i = m.getLsbD i := by
    rcases Nat.lt_or_ge i 32 with hlt | hge
    · simp [hlt]
    · rw [BitVec.getLsbD_of_ge _ _ hge, BitVec.getLsbD_of_ge _ _ (by omega)]
  rw [Counter.patt, h.normal, h.skip]
  split <;> exact hwide _

theorem Counter.getLsbD_bitPattern (b : Bank) (c : Counter) {i : Nat} (hi : i < 8) :
    (c.bitPattern b).getLsbD i =
      (decide (c.perCount.toNat < 16) && (c.patt b).getLsbD (i + c.perCount.toNat)) := by
  rw [bitPattern, BitVec.getLsbD_extractLsb', decide_eq_true hi, Bool.true_and, shpatt]
  by_cases hsmall : c.perCount.toNat < 16
  · have hlt : c.perCount < 16 := hsmall
    have hlow : (c.perCount.extractLsb' 0 4).toNat = c.perCount.toNat := by
      rw [BitVec.extractLsb'_toNat, Nat.shiftRight_zero]
      exact Nat.mod_eq_of_lt hsmall
    rw [if_pos hlt, hlow, BitVec.getLsbD_ushiftRight, decide_eq_true hsmall, Bool.true_and, Nat.zero_add,
      Nat.add_comm]
  · have hge : ¬ c.perCount < 16 := hsmall
    rw [if_neg hge, decide_eq_false hsmall]
    simp

/-- With one edge per word the pattern holds bit 7, and bit 15 when the period is eight. -/
theorem getLsbD_clkPattern_one {P : Nat} (hper : 8 ≤ P) (i : Nat) :
    (clkPattern 1 P).getLsbD i = decide (i = 7 ∨ i = 15 ∧ P = 8) := by
  have hpattern : clkPattern 1 P = if P = 8 then 0x8080 else 0x80 := by
    rcases eq_or_ne P 8 with rfl | hne
    · decide
    · have hgt : ¬ P ≤ 8 := by
        omega
      simp [clkPattern, edgeBits, offset, hne, hgt]
  rcases Nat.lt_or_ge i 16 with hlt | hge
  · rw [hpattern]
    rcases eq_or_ne P 8 with rfl | hne
    · interval_cases i <;> decide
    · rw [if_neg hne]
      interval_cases i <;> simp [hne]
  · rw [BitVec.getLsbD_of_ge _ _ hge]
    simp
    omega

theorem getLsbD_bitPattern_one {b : Bank} (hper : 8 ≤ b.per.toNat)
    (hb : b.Configured (clk 1 b.per b.frac)) {c : Counter} (hbelow : c.perCount.toNat < b.per.toNat)
    {j : Nat} (hj : j < 8) : (c.bitPattern b).getLsbD (7 - j) = decide (c.ahead = j) := by
  rw [Counter.getLsbD_bitPattern _ _ (by omega), hb.getLsbD_patt]
  cases hcarry : c.fracCarry
  · simp only [Bool.false_eq_true, if_false, clk, getLsbD_clkPattern_one hper, Counter.ahead, hcarry,
      Bool.toNat_false, ← Bool.decide_and, decide_eq_decide]
    omega
  · simp only [if_true, getLsbD_skipPattern, clk, getLsbD_clkPattern_one hper, Counter.ahead, hcarry,
      Bool.toNat_true]
    split
    · rw [← Bool.decide_and, decide_eq_decide]
      omega
    · split
      · rw [Bool.and_false, eq_comm, decide_eq_false_iff_not]
        omega
      · rw [← Bool.decide_and, decide_eq_decide]
        omega

/-! ## The stream toggles where the patterns have bits -/

theorem Counter.toggles_iff (b : Bank) (c : Counter) (n : Nat) : Toggles c.outpD0 (c.bitStream b) n ↔
    ((c.run b (n / 8)).bitPattern b).getLsbD (7 - n % 8) = true := by
  have hxor : ∀ x y : Bool, (x ^^ y) ≠ x ↔ y = true := by
    decide
  cases n with
  | zero => exact hxor _ _
  | succ n =>
      rw [Toggles, bitStream, bitStream]
      by_cases hword : n % 8 = 7
      · have hdiv : (n + 1) / 8 = n / 8 + 1 := by
          omega
        have hmod : (n + 1) % 8 = 0 := by
          omega
        rw [hdiv, hmod, hword, Counter.run, Counter.count_outpD0]
        exact hxor _ _
      · have hdiv : (n + 1) / 8 = n / 8 := by
          omega
        have hmod : (n + 1) % 8 = n % 8 + 1 := by
          omega
        have hindex : 7 - (n % 8 + 1) = 6 - n % 8 := by
          omega
        rw [hdiv, hmod, hindex]
        exact hxor _ _

theorem Bank.edge_strictMono {b : Bank} (hper : 8 ≤ b.per.toNat) : StrictMono b.edge := by
  refine strictMono_nat_of_lt_succ fun k => ?_
  have hwide : 2 ^ 32 ≤ b.period := by
    simp only [Bank.period]
    omega
  rw [Bank.edge, Bank.edge, Nat.succ_mul]
  omega

theorem Counter.Tracks.exactEdges {b : Bank} (hper : 8 ≤ b.per.toNat)
    (hb : b.Configured (clk 1 b.per b.frac)) {c : Counter} (h : c.Tracks b 0) :
    ExactEdges b c.outpD0 (c.bitStream b) where
  increasing := Bank.edge_strictMono hper
  toggles n := by
    have htracks := h.run hper (n / 8)
    have htime : ((0 : Int) + 8 * (n / 8 : Nat)) = (8 * (n / 8) : Nat) := by
      push_cast
      ring
    rw [htime] at htracks
    have hj : n % 8 < 8 := Nat.mod_lt _ (by decide)
    rw [Counter.toggles_iff, getLsbD_bitPattern_one hper hb htracks.below hj, decide_eq_true_iff,
      ahead_iff hper htracks hj, Nat.div_add_mod]

/-! ## The software model -/

namespace ClockGen

/-- The software model and the counter are in the same state. -/
structure Matches (state : ClockGen) (c : Counter) : Prop where
  integer : state.counterInteger = c.perCount
  fraction : state.counterFraction = c.fracCount
  carry : state.counterCarry = c.fracCarry
  last : state.lastBit = c.outpD0

/-- The doubling lines compute the XOR chain. -/
theorem getLsbD_chained : ∀ (lastBit : Bool) (m : BitVec 8) (j : Fin 8),
    (chained lastBit (m.setWidth 16)).getLsbD (7 - j) = outp lastBit m j := by
  decide +kernel

variable {b : Bank} {control : Control} {state : ClockGen} {c : Counter}

theorem high_bits_iff (x : BitVec 32) : x &&& ~~~15#32 ≠ 0 ↔ ¬ x.toNat < 16 := by
  have hmask (i : Nat) (hi : i < 32) : (~~~15#32).getLsbD i = decide (4 ≤ i) := by
    interval_cases i <;> rfl
  refine not_congr ⟨fun hzero => ?_, fun hsmall => ?_⟩
  · refine Nat.lt_pow_two_of_testBit (n := 4) x.toNat fun i hi => ?_
    rcases Nat.lt_or_ge i 32 with hlt | hge
    · have hbit := congrArg (fun y => y.getLsbD i) hzero
      rw [BitVec.getLsbD_and, hmask i hlt, decide_eq_true hi, Bool.and_true] at hbit
      exact hbit.trans BitVec.getLsbD_zero
    · exact BitVec.getLsbD_of_ge x i hge
  · refine BitVec.eq_of_getLsbD_eq fun i hi => ?_
    rw [BitVec.getLsbD_and, hmask i hi]
    by_cases hlow : 4 ≤ i
    · have hpow : 2 ^ 4 ≤ 2 ^ i := Nat.pow_le_pow_right (by decide) hlow
      have hbit : x.getLsbD i = false := Nat.testBit_lt_two_pow (lt_of_lt_of_le hsmall hpow)
      rw [hbit]
      simp
    · simp [hlow]

theorem shifted_eq (hb : b.Configured control) (h : Matches state c) :
    shifted control state = (c.bitPattern b).setWidth 16 := by
  apply BitVec.eq_of_getLsbD_eq
  intro i hi
  have hmask : (0xFF#16).getLsbD i = decide (i < 8) := by
    interval_cases i <;> rfl
  have hmask' : (0xFF : BitVec 16) = 0xFF#16 := rfl
  rw [shifted, h.integer, h.carry, BitVec.getLsbD_and, BitVec.getLsbD_setWidth, hmask', hmask,
    decide_eq_true hi, Bool.true_and]
  by_cases hword : i < 8
  · rw [Counter.getLsbD_bitPattern _ _ hword, hb.getLsbD_patt, decide_eq_true hword, Bool.and_true]
    by_cases hsmall : c.perCount.toNat < 16
    · have hlow : (c.perCount &&& 15#32).toNat = c.perCount.toNat := by
        rw [BitVec.toNat_and]
        exact Nat.and_two_pow_sub_one_of_lt_two_pow (n := 4) hsmall
      rw [if_neg (fun hhigh => (high_bits_iff _).mp hhigh hsmall), BitVec.getLsbD_ushiftRight, hlow,
        decide_eq_true hsmall, Bool.true_and, Nat.add_comm]
    · rw [if_pos ((high_bits_iff _).mpr hsmall), decide_eq_false hsmall]
      simp
  · rw [decide_eq_false hword, Bool.and_false, BitVec.getLsbD_of_ge _ _ (by omega)]

theorem toNat_decrement : ∀ carry : Bool,
    (BitVec.ofNat 32 carry.toNat - 8).toNat = carry.toNat + (2 ^ 32 - 8) := by
  decide

theorem overflow_iff (c : Counter) :
    c.perCount ≤ c.perCount + (BitVec.ofNat 32 c.fracCarry.toNat - 8) ↔ c.perAdd.msb = true := by
  have hcount := c.perCount.isLt
  have hcarry := Bool.toNat_le c.fracCarry
  rw [Counter.msb_perAdd, decide_eq_true_iff, BitVec.le_def, BitVec.toNat_add, toNat_decrement,
    Counter.ahead]
  omega

theorem integer_eq (c : Counter) :
    c.perCount + (BitVec.ofNat 32 c.fracCarry.toNat - 8) = c.perAdd.extractLsb' 1 32 := by
  apply BitVec.eq_of_toNat_eq
  rw [Counter.toNat_perAdd_extract, BitVec.toNat_add, toNat_decrement, Counter.ahead, Nat.add_assoc]

theorem carry_eq (b : Bank) (c : Counter) :
    decide (c.fracCount + b.frac < b.frac) = (c.fracAdd b).msb := by
  have hcount := c.fracCount.isLt
  have hfrac := b.frac.isLt
  rw [Counter.msb_fracAdd, decide_eq_decide, BitVec.lt_def, BitVec.toNat_add]
  omega

theorem fraction_eq (b : Bank) (c : Counter) : c.fracCount + b.frac = (c.fracAdd b).extractLsb' 0 32 := by
  apply BitVec.eq_of_toNat_eq
  rw [Counter.toNat_fracAdd_extract, BitVec.toNat_add]

theorem clock_matches (hb : b.Configured control) (h : Matches state c) :
    (∀ j < 8, (clock control state).1.getLsbD (7 - j) = outp c.outpD0 (c.bitPattern b) j) ∧
      Matches (clock control state).2 (c.count b) := by
  have hout (j : Nat) (hj : j < 8) : (chained state.lastBit (shifted control state)).getLsbD (7 - j) =
      outp c.outpD0 (c.bitPattern b) j := by
    rw [shifted_eq hb h, h.last]
    exact getLsbD_chained _ _ ⟨j, hj⟩
  constructor
  · intro j hj
    have hindex : 7 - j < 8 := by
      omega
    rw [clock, BitVec.getLsbD_setWidth, hout j hj, decide_eq_true hindex, Bool.true_and]
  · have hlast : (chained state.lastBit (shifted control state)).getLsbD 0 =
        outp c.outpD0 (c.bitPattern b) 7 := hout 7 (by decide)
    simp only [clock, hlast]
    rw [h.integer, h.fraction, h.carry, ← hb.per, ← hb.frac]
    by_cases hover : c.perAdd.msb = true
    · rw [if_pos ((overflow_iff c).mpr hover), Counter.count, if_pos hover]
      exact ⟨by rw [integer_eq], fraction_eq b c, carry_eq b c, rfl⟩
    · rw [if_neg (fun hle => hover ((overflow_iff c).mp hle)), Counter.count, if_neg hover]
      exact ⟨integer_eq c, rfl, rfl, rfl⟩

theorem run_matches (hb : b.Configured control) (h : Matches state c) :
    ∀ k, Matches (state.run control k) (c.run b k)
  | 0 => h
  | k + 1 => (clock_matches hb (run_matches hb h k)).2

theorem bitStream_eq (hb : b.Configured control) (h : Matches state c) (n : Nat) :
    state.bitStream control n = c.bitStream b n :=
  (clock_matches hb (run_matches hb h (n / 8))).1 _ (Nat.mod_lt _ (by decide))

end ClockGen

/-! ## After a register load -/

theorem not_exactEdges_of_carry {b : Bank} (hper : 8 ≤ b.per.toNat)
    (hb : b.Configured (clk 1 b.per b.frac)) {c : Counter} (hcarry : c.fracCarry = true) :
    ¬ ExactEdges b false ((c.loadReg 0).bitStream b) := by
  intro hexact
  have hfirst : Toggles (c.loadReg 0).outpD0 ((c.loadReg 0).bitStream b) 0 :=
    (hexact.toggles 0).mpr ⟨0, by simp [Bank.edge]⟩
  have hbelow : (c.loadReg 0).perCount.toNat < b.per.toNat := by
    simp only [Counter.loadReg, BitVec.ofNat_eq_ofNat, BitVec.toNat_ofNat]
    omega
  have hahead : (c.loadReg 0).ahead = 1 := by
    simp [Counter.ahead, Counter.loadReg, hcarry]
  rw [Counter.toggles_iff, Nat.zero_div, Nat.zero_mod, Counter.run,
    getLsbD_bitPattern_one hper hb hbelow (by decide), hahead] at hfirst
  exact absurd hfirst (by decide)

/-- The bits after a register load toggle exactly at the edges, and are those of the software
model, when no carry is pending at the load. -/
theorem edges_exact_iff (b : Bank) (hper : 8 ≤ b.per.toNat) (hb : b.Configured (clk 1 b.per b.frac))
    (c : Counter) (ld : Bool) (sync : Counter) :
    (ExactEdges b false ((c.onClk b 0 true ld sync).bitStream b) ∧
      ∀ n, ClockGen.rise.bitStream (clk 1 b.per b.frac) n =
        (c.onClk b 0 true ld sync).bitStream b n) ↔ c.fracCarry = false := by
  constructor
  · rintro ⟨hexact, -⟩
    by_contra hcarry
    exact not_exactEdges_of_carry hper hb (Bool.not_eq_false _ ▸ hcarry) hexact
  · intro hcarry
    exact ⟨(Counter.tracks_loadReg hper hcarry).exactEdges hper hb,
      ClockGen.bitStream_eq hb ⟨rfl, rfl, hcarry.symm, rfl⟩⟩

def halfBit : Bank where
  per := 8
  perHi := 4
  frac := 0x80000000
  bitpattNormal := 0x8080
  bitpattSkip := 0x8040
  phofsl := 0
  phofsh := 0

theorem halfBit_configured : halfBit.Configured (clk 1 halfBit.per halfBit.frac) where
  per := rfl
  frac := rfl
  normal := by decide
  skip := by decide

/-- The counter of `halfBit` two clocks after a load. -/
def halfBitRunning : Counter := (Counter.loadReg 0 ⟨0, 0, false, false⟩).run halfBit 2

theorem edges_exact_iff_halfBit :
    (ExactEdges halfBit false ((halfBitRunning.onClk halfBit 0 true false halfBitRunning).bitStream halfBit) ∧
      ∀ n, ClockGen.rise.bitStream (clk 1 halfBit.per halfBit.frac) n =
        (halfBitRunning.onClk halfBit 0 true false halfBitRunning).bitStream halfBit n) ↔
      halfBitRunning.fracCarry = false :=
  edges_exact_iff halfBit (by decide) halfBit_configured halfBitRunning false halfBitRunning

/-- A load in a clock with a pending carry: the first edge comes one bit late. -/
theorem late_first_edge :
    ¬ ExactEdges halfBit false ((halfBitRunning.onClk halfBit 0 true false halfBitRunning).bitStream halfBit) :=
  not_exactEdges_of_carry (by decide) halfBit_configured (by decide)

end SerdesClkGen
