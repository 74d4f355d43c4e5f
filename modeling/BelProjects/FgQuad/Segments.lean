import BelProjects.FgQuad.Datapath
import BelProjects.Library.Clocked
import Mathlib.Data.Nat.Choose.Basic
import Mathlib.Tactic.Ring

/-!
# The segments of a ramp

Between two ticks of the frequency counter the registers hold one sample of one segment. A
tick moves on to the next sample, and in the last one of a segment to the first of the next.
-/

namespace FgQuad

/-! ## Tuples and their parabolas -/

structure Tuple where
  a : BitVec 16
  b : BitVec 16
  c : BitVec 32
  shiftA : Nat
  shiftB : Nat
  stepSel : BitVec 3
  freqSel : BitVec 3

namespace Tuple

variable (p : Tuple)

def steps : Nat := 250 * 2 ^ p.stepSel.toNat

def a64 : BitVec 64 := p.a.signExtend 64 <<< p.shiftA

def b64 : BitVec 64 := p.b.signExtend 64 <<< p.shiftB

def c64 : BitVec 64 := p.c.signExtend 64 <<< 32

/-- The linear term before step `j`. -/
def slope (j : Nat) : BitVec 64 := p.b64 + BitVec.ofNat 64 j * p.a64

def value (j : Nat) : BitVec 64 :=
  p.c64 + BitVec.ofNat 64 j * p.b64 + BitVec.ofNat 64 (j * (j - 1) / 2) * p.a64

theorem slope_zero : p.slope 0 = p.b64 := by
  simp [slope]

theorem value_zero : p.value 0 = p.c64 := by
  simp [value]

theorem ofNat_succ (j : Nat) : BitVec.ofNat 64 (j + 1) = BitVec.ofNat 64 j + 1 := BitVec.ofNat_add j 1

theorem slope_succ (j : Nat) : p.slope (j + 1) = p.slope j + p.a64 := by
  rw [slope, slope, ofNat_succ]
  ring

theorem value_succ (j : Nat) : p.value (j + 1) = p.value j + p.slope j := by
  rw [value, value, slope, Nat.triangle_succ, ofNat_succ, BitVec.ofNat_add]
  ring

theorem shiftLeft_signExtend {w : Nat} (x : BitVec w) (n : Nat) :
    x.signExtend 64 <<< n = BitVec.ofInt 64 (x.toInt * 2 ^ n) := by
  have hpow : BitVec.ofInt 64 (2 ^ n) = BitVec.twoPow 64 n := by
    have hcast : ((2 ^ n : Nat) : Int) = 2 ^ n := by
      push_cast
      rfl
    rw [← hcast, BitVec.ofInt_natCast]
    apply BitVec.eq_of_toNat_eq
    rw [BitVec.toNat_ofNat, BitVec.toNat_twoPow]
  rw [BitVec.shiftLeft_eq_mul_twoPow, BitVec.ofInt_mul, hpow]
  rfl

/-- A sample as a number, modulo `2^64`. -/
theorem value_eq (j : Nat) : p.value j = BitVec.ofInt 64
    (p.c.toInt * 2 ^ 32 + j * (p.b.toInt * 2 ^ p.shiftB) +
      (j * (j - 1) / 2 : Nat) * (p.a.toInt * 2 ^ p.shiftA)) := by
  rw [BitVec.ofInt_add, BitVec.ofInt_add, BitVec.ofInt_mul (j : Int), BitVec.ofInt_mul ((j * (j - 1) / 2 : Nat) : Int),
    BitVec.ofInt_natCast, BitVec.ofInt_natCast, ← shiftLeft_signExtend, ← shiftLeft_signExtend,
    ← shiftLeft_signExtend]
  rfl

end Tuple

/-- The ports show the parameters of a tuple. -/
structure Inputs.Presents (i : Inputs) (p : Tuple) : Prop where
  dataA : i.dataA = p.a
  dataB : i.dataB = p.b
  dataC : i.dataC = p.c
  shiftA : i.shiftA = p.shiftA
  shiftB : i.shiftB = p.shiftB
  stepSel : i.stepSel = p.stepSel
  freqSel : i.freqSel = p.freqSel

/-- Neither reset nor start. -/
structure Inputs.Quiet (i : Inputs) : Prop where
  syncRst : i.syncRst = false
  syncStart : i.syncStart = false

/-! ## The constants -/

theorem cFreqCnt_bounds : ∀ f : BitVec 3, 2 < cFreqCnt f ∧ cFreqCnt f < 2 ^ 13 := by
  decide

theorem cStepCnt_eq : ∀ m : BitVec 3, cStepCnt m = 250 * 2 ^ m.toNat - 2 ∧ cStepCnt m < 2 ^ 15 := by
  decide

/-! ## Places in a chain of tuples -/

structure Place where
  segment : Nat
  sample : Nat

variable (tuple : Nat → Tuple)

/-- The last sample of a segment; the first segment ends one sample early. -/
def lastSample (i : Nat) : Nat := if i = 0 then (tuple i).steps - 2 else (tuple i).steps - 1

def Place.next (p : Place) : Place :=
  if p.sample = lastSample tuple p.segment then ⟨p.segment + 1, 0⟩ else ⟨p.segment, p.sample + 1⟩

/-- Waiting for the next tuple to be taken over: the step counter has expired. -/
def Place.Expired (p : Place) : Prop := 0 < p.segment ∧ p.sample = 0

instance (p : Place) : Decidable p.Expired := inferInstanceAs (Decidable (_ ∧ _))

def Place.stepCnt (p : Place) : BitVec 16 :=
  if p.Expired then BitVec.allOnes 16 else BitVec.ofNat 16 (lastSample tuple p.segment - p.sample)

/-- The registers hold the sample of a place; the machine waits for the next tick. -/
structure Holding (p : Place) (s : Datapath) : Prop where
  state : s.control.state = .quadInc
  incQuad : s.control.incQuad = false
  freqCntEn : s.control.freqCntEn = true
  stepCnt : s.control.stepCnt = p.stepCnt tuple
  a : s.reg.a = (tuple p.segment).a64
  q : s.reg.q = (tuple p.segment).slope p.sample
  x : s.reg.x = (tuple p.segment).value p.sample
  stepSel : p.Expired → s.reg.stepSel = (tuple p.segment).stepSel
  within : p.sample ≤ lastSample tuple p.segment

/-! ## The registers in one clock -/

namespace Datapath

variable {i : Inputs} {s : Datapath}

/-- While the step counter is expired the ports are taken over in every clock. -/
theorem regFile_load (hi : i.syncRst = false) (hload : s.stpReached = true ∨ i.syncStart = true)
    (hinc : s.control.incQuad = false) :
    (s.regFile i).a = shiftedA i ∧ (s.regFile i).q = shiftedB i ∧ (s.regFile i).x = shiftedC i := by
  have hor : (s.stpReached || i.syncStart) = true := by
    rcases hload with h | h <;> simp [h]
  simp only [regFile, hi, hor, hinc, Bool.false_eq_true, if_false, if_true]
  split <;> exact ⟨rfl, rfl, rfl⟩

theorem regFile_keep (hi : i.Quiet) (hstp : s.stpReached = false) (hinc : s.control.incQuad = false) :
    (s.regFile i).a = s.reg.a ∧ (s.regFile i).q = s.reg.q ∧ (s.regFile i).x = s.reg.x := by
  simp only [regFile, hi.syncRst, hi.syncStart, hstp, hinc, Bool.false_eq_true, Bool.or_self, if_false]
  split <;> exact ⟨rfl, rfl, rfl⟩

theorem regFile_inc (hi : i.Quiet) (hinc : s.control.incQuad = true) :
    (s.regFile i).a = (if s.stpReached then shiftedA i else s.reg.a) ∧
      (s.regFile i).q = s.reg.q + s.reg.a ∧ (s.regFile i).x = s.reg.x + s.reg.q := by
  simp only [regFile, hi.syncRst, hi.syncStart, hinc, Bool.false_eq_true, Bool.or_false, if_false, if_true]
  cases s.stpReached <;> cases i.loadStart <;> simp

theorem regFile_stepSel (hi : i.syncRst = false) (hstp : s.stpReached = true) :
    (s.regFile i).stepSel = i.stepSel := by
  simp only [regFile, hi, hstp, Bool.false_eq_true, Bool.true_or, if_false, if_true]
  split <;> rfl

theorem nextFreqCnt_down (hi : i.Quiet) (hfreq : s.freqEn = false) (hen : s.control.freqCntEn = true) :
    s.nextFreqCnt i = s.freqCnt - 1 := by
  simp [nextFreqCnt, hi.syncRst, hi.syncStart, hfreq, hen]

theorem nextFreqCnt_reload (hi : i.Quiet) (hfreq : s.freqEn = true) :
    s.nextFreqCnt i = BitVec.ofNat 14 (cFreqCnt s.reg.freqSel) := by
  simp [nextFreqCnt, hi.syncRst, hi.syncStart, hfreq]

end Datapath

theorem Inputs.Presents.shifted {i : Inputs} {p : Tuple} (h : i.Presents p) :
    shiftedA i = p.a64 ∧ shiftedB i = p.b64 ∧ shiftedC i = p.c64 := by
  rw [shiftedA, shiftedB, shiftedC, h.dataA, h.dataB, h.dataC, h.shiftA, h.shiftB]
  exact ⟨rfl, rfl, rfl⟩

/-! ## Between two ticks -/

section Holding

variable {tuple : Nat → Tuple} {p : Place} {s : Datapath} {i i₁ i₂ : Inputs}

variable (tuple) in
theorem lastSample_lt (n : Nat) : lastSample tuple n < 2 ^ 15 := by
  have hsteps := cStepCnt_eq (tuple n).stepSel
  rw [lastSample, Tuple.steps]
  split <;> omega

theorem msb_stepCnt (p : Place) : (p.stepCnt tuple).msb = decide p.Expired := by
  rw [Place.stepCnt]
  by_cases h : p.Expired
  · rw [if_pos h, decide_eq_true h]
    rfl
  · have hlast := lastSample_lt tuple p.segment
    rw [if_neg h, decide_eq_false h, BitVec.msb_eq_false_iff_two_mul_lt, BitVec.toNat_ofNat]
    omega

theorem Holding.stpReached (h : Holding tuple p s) : s.stpReached = decide p.Expired := by
  rw [Datapath.stpReached, h.stepCnt, msb_stepCnt]

/-- A clock without a tick keeps the sample. -/
theorem Holding.wait (h : Holding tuple p s) (hi : i.Quiet) (hp : p.Expired → i.Presents (tuple p.segment))
    (hfreq : s.freqEn = false) :
    Holding tuple p (s.step i) ∧ (s.step i).freqCnt = s.freqCnt - 1 := by
  have hstp := h.stpReached
  have hcontrol : (s.step i).control = { s.control with
      incQuad := false, addLinQuad := false, freqCntEn := true, isRunning := true,
      signalStateChange := false, segmentFinished := false,
      coeffRcvd := i.aEn || s.control.coeffRcvd } := by
    simp [Datapath.step, Datapath.controlSm, hi.syncRst, h.state, hfreq]
  refine ⟨?_, Datapath.nextFreqCnt_down hi hfreq h.freqCntEn⟩
  have hregs : (s.step i).reg.a = (tuple p.segment).a64 ∧ (s.step i).reg.q = (tuple p.segment).slope p.sample ∧
      (s.step i).reg.x = (tuple p.segment).value p.sample ∧
      (p.Expired → (s.step i).reg.stepSel = (tuple p.segment).stepSel) := by
    by_cases hexp : p.Expired
    · rw [decide_eq_true hexp] at hstp
      obtain ⟨ha, hq, hx⟩ := Datapath.regFile_load hi.syncRst (Or.inl hstp) h.incQuad
      obtain ⟨ha', hq', hx'⟩ := (hp hexp).shifted
      have hstep := Datapath.regFile_stepSel hi.syncRst hstp
      rw [hexp.2, Tuple.slope_zero, Tuple.value_zero]
      exact ⟨ha.trans ha', hq.trans hq', hx.trans hx', fun _ => hstep.trans (hp hexp).stepSel⟩
    · rw [decide_eq_false hexp] at hstp
      obtain ⟨ha, hq, hx⟩ := Datapath.regFile_keep hi hstp h.incQuad
      exact ⟨ha.trans h.a, hq.trans h.q, hx.trans h.x, fun hexp' => absurd hexp' hexp⟩
  obtain ⟨ha, hq, hx, hstep⟩ := hregs
  exact ⟨by rw [hcontrol]; exact h.state, by rw [hcontrol], by rw [hcontrol], by rw [hcontrol]; exact h.stepCnt,
    ha, hq, hx, hstep, h.within⟩

variable (tuple) in
theorem next_expired (p : Place) :
    (p.next tuple).Expired ↔ p.sample = lastSample tuple p.segment := by
  rw [Place.next]
  split
  · next h => exact ⟨fun _ => h, fun _ => ⟨Nat.succ_pos _, rfl⟩⟩
  · next h => exact ⟨fun hexp => absurd hexp.2 (Nat.succ_ne_zero _), fun heq => absurd heq h⟩

variable (tuple) in
theorem two_le_lastSample (n : Nat) : 2 ≤ lastSample tuple n := by
  have hpow : 1 ≤ 2 ^ (tuple n).stepSel.toNat := Nat.one_le_two_pow
  rw [lastSample, Tuple.steps]
  split <;> omega

theorem stepCnt_next (hwithin : p.sample ≤ lastSample tuple p.segment) :
    (p.Expired → BitVec.ofNat 16 (cStepCnt (tuple p.segment).stepSel) = (p.next tuple).stepCnt tuple) ∧
      (¬ p.Expired → p.stepCnt tuple - 1 = (p.next tuple).stepCnt tuple) := by
  have htwo := two_le_lastSample tuple p.segment
  have hlt := lastSample_lt tuple p.segment
  have hnext := next_expired tuple p
  rw [Place.stepCnt, Place.stepCnt]
  constructor
  · intro hexp
    have hne : p.sample ≠ lastSample tuple p.segment := by
      rw [hexp.2]
      omega
    rw [if_neg (fun h => hne (hnext.mp h)), Place.next, if_neg hne, hexp.2, (cStepCnt_eq _).1, lastSample,
      if_neg (Nat.pos_iff_ne_zero.mp hexp.1), Tuple.steps]
    rfl
  · intro hexp
    rw [if_neg hexp]
    by_cases hlast : p.sample = lastSample tuple p.segment
    · rw [if_pos (hnext.mpr hlast), hlast, Nat.sub_self]
      rfl
    · rw [if_neg (fun h => hlast (hnext.mp h)), Place.next, if_neg hlast]
      apply BitVec.eq_of_toNat_eq
      rw [BitVec.toNat_sub, BitVec.toNat_ofNat, BitVec.toNat_ofNat]
      change (2 ^ 16 - 1 + _) % 2 ^ 16 = _
      have hstep : lastSample tuple p.segment - (p.sample + 1) = lastSample tuple p.segment - p.sample - 1 := by
        omega
      simp only [hstep]
      omega

structure Ticked (tuple : Nat → Tuple) (p : Place) (freq : BitVec 3) (s : Datapath) : Prop where
  state : s.control.state = .linInc
  incQuad : s.control.incQuad = true
  freqCntEn : s.control.freqCntEn = true
  freqCnt : s.freqCnt = BitVec.ofNat 14 (cFreqCnt freq)
  stepCnt : s.control.stepCnt = (p.next tuple).stepCnt tuple
  a : s.reg.a = (tuple p.segment).a64
  q : s.reg.q = (tuple p.segment).slope p.sample
  x : s.reg.x = (tuple p.segment).value p.sample

/-- Two clocks after it: the next sample of the same segment is computed. -/
structure Added (tuple : Nat → Tuple) (p : Place) (freq : BitVec 3) (s : Datapath) : Prop where
  state : s.control.state = .addXQ
  incQuad : s.control.incQuad = false
  freqCntEn : s.control.freqCntEn = true
  freqCnt : s.freqCnt = BitVec.ofNat 14 (cFreqCnt freq) - 1
  stepCnt : s.control.stepCnt = (p.next tuple).stepCnt tuple
  a : ¬ (p.next tuple).Expired → s.reg.a = (tuple p.segment).a64
  q : s.reg.q = (tuple p.segment).slope (p.sample + 1)
  x : s.reg.x = (tuple p.segment).value (p.sample + 1)

theorem Holding.tick (h : Holding tuple p s) (hi : i.Quiet) (hp : p.Expired → i.Presents (tuple p.segment))
    (hfreq : s.freqEn = true) (hrcvd : p.Expired → s.control.coeffRcvd = true) :
    Ticked tuple p s.reg.freqSel (s.step i) := by
  have hstp := h.stpReached
  obtain ⟨hload, hcount⟩ := stepCnt_next h.within
  by_cases hexp : p.Expired
  · rw [decide_eq_true hexp] at hstp
    have hcontrol : (s.step i).control = { s.control with
        state := .linInc, incQuad := true, addLinQuad := false, freqCntEn := true, isRunning := true,
        signalStateChange := false, segmentFinished := false, coeffRcvd := false,
        stepCnt := BitVec.ofNat 16 (cStepCnt s.reg.stepSel) } := by
      simp [Datapath.step, Datapath.controlSm, hi.syncRst, h.state, hfreq, hstp, hrcvd hexp]
    obtain ⟨ha, hq, hx⟩ := Datapath.regFile_load hi.syncRst (Or.inl hstp) h.incQuad
    obtain ⟨ha', hq', hx'⟩ := (hp hexp).shifted
    refine ⟨by rw [hcontrol], by rw [hcontrol], by rw [hcontrol], Datapath.nextFreqCnt_reload hi hfreq, ?_,
      ha.trans ha', ?_, ?_⟩
    · rw [hcontrol, ← hload hexp, h.stepSel hexp]
    · rw [hexp.2, Tuple.slope_zero]
      exact hq.trans hq'
    · rw [hexp.2, Tuple.value_zero]
      exact hx.trans hx'
  · rw [decide_eq_false hexp] at hstp
    have hcontrol : (s.step i).control = { s.control with
        state := .linInc, incQuad := true, addLinQuad := false, freqCntEn := true, isRunning := true,
        signalStateChange := false, segmentFinished := false, coeffRcvd := i.aEn || s.control.coeffRcvd,
        stepCnt := s.control.stepCnt - 1 } := by
      simp [Datapath.step, Datapath.controlSm, hi.syncRst, h.state, hfreq, hstp]
    obtain ⟨ha, hq, hx⟩ := Datapath.regFile_keep hi hstp h.incQuad
    refine ⟨by rw [hcontrol], by rw [hcontrol], by rw [hcontrol], Datapath.nextFreqCnt_reload hi hfreq, ?_,
      ha.trans h.a, hq.trans h.q, hx.trans h.x⟩
    rw [hcontrol, ← hcount hexp, ← h.stepCnt]

theorem freqEn_ofNat_sub (f : BitVec 3) : ∀ k < 3,
    (BitVec.ofNat 14 (cFreqCnt f) - BitVec.ofNat 14 k).msb = false := by
  revert f
  decide

theorem Ticked.add {freq : BitVec 3} (h : Ticked tuple p freq s) (hi : i.Quiet) :
    Added tuple p freq (s.step i) := by
  have hfreq : s.freqEn = false := by
    rw [Datapath.freqEn, h.freqCnt]
    simpa using freqEn_ofNat_sub freq 0 (by decide)
  have hcontrol : (s.step i).control = { s.control with
      state := .addXQ, incQuad := false, addLinQuad := false, freqCntEn := true, isRunning := true,
      signalStateChange := false, segmentFinished := s.stpReached,
      coeffRcvd := i.aEn || s.control.coeffRcvd } := by
    simp [Datapath.step, Datapath.controlSm, hi.syncRst, h.state]
  have hstp : s.stpReached = decide (p.next tuple).Expired := by
    rw [Datapath.stpReached, h.stepCnt, msb_stepCnt]
  obtain ⟨ha, hq, hx⟩ := Datapath.regFile_inc hi h.incQuad
  refine ⟨by rw [hcontrol], by rw [hcontrol], by rw [hcontrol], ?_, by rw [hcontrol]; exact h.stepCnt,
    fun hexp => ?_, ?_, ?_⟩
  · exact (Datapath.nextFreqCnt_down hi hfreq h.freqCntEn).trans (by rw [h.freqCnt])
  · rw [decide_eq_false hexp] at hstp
    rw [hstp] at ha
    exact ha.trans h.a
  · rw [Tuple.slope_succ, ← h.q, ← h.a]
    exact hq
  · rw [Tuple.value_succ, ← h.x, ← h.q]
    exact hx

theorem Added.strobe {freq : BitVec 3} (h : Added tuple p freq s) (hi : i.Quiet)
    (hp : (p.next tuple).Expired → i.Presents (tuple (p.next tuple).segment))
    (hwithin : p.sample ≤ lastSample tuple p.segment) :
    Holding tuple (p.next tuple) (s.step i) ∧ (s.step i).swStrobe = true ∧
      (s.step i).freqCnt = BitVec.ofNat 14 (cFreqCnt freq) - 1 - 1 := by
  have hfreq : s.freqEn = false := by
    rw [Datapath.freqEn, h.freqCnt]
    exact freqEn_ofNat_sub freq 1 (by decide)
  have hcontrol : (s.step i).control = { s.control with
      state := .quadInc, incQuad := false, addLinQuad := true, freqCntEn := true, isRunning := true,
      signalStateChange := false, segmentFinished := false,
      coeffRcvd := i.aEn || s.control.coeffRcvd } := by
    simp [Datapath.step, Datapath.controlSm, hi.syncRst, h.state]
  have hstp : s.stpReached = decide (p.next tuple).Expired := by
    rw [Datapath.stpReached, h.stepCnt, msb_stepCnt]
  have hnext := next_expired tuple p
  refine ⟨?_, by rw [Datapath.swStrobe, hcontrol],
    (Datapath.nextFreqCnt_down hi hfreq h.freqCntEn).trans (by rw [h.freqCnt])⟩
  by_cases hexp : (p.next tuple).Expired
  · rw [decide_eq_true hexp] at hstp
    obtain ⟨ha, hq, hx⟩ := Datapath.regFile_load hi.syncRst (Or.inl hstp) h.incQuad
    obtain ⟨ha', hq', hx'⟩ := (hp hexp).shifted
    have hstep := Datapath.regFile_stepSel hi.syncRst hstp
    refine ⟨by rw [hcontrol], by rw [hcontrol], by rw [hcontrol], by rw [hcontrol]; exact h.stepCnt,
      ha.trans ha', ?_, ?_, fun _ => hstep.trans (hp hexp).stepSel, ?_⟩
    · rw [hexp.2, Tuple.slope_zero]
      exact hq.trans hq'
    · rw [hexp.2, Tuple.value_zero]
      exact hx.trans hx'
    · rw [hexp.2]
      exact Nat.zero_le _
  · rw [decide_eq_false hexp] at hstp
    have hne : p.sample ≠ lastSample tuple p.segment := fun heq => hexp (hnext.mpr heq)
    have hplace : p.next tuple = ⟨p.segment, p.sample + 1⟩ := if_neg hne
    obtain ⟨ha, hq, hx⟩ := Datapath.regFile_keep hi hstp h.incQuad
    rw [hplace] at hexp ⊢
    have hsucc : p.sample + 1 ≤ lastSample tuple p.segment := by
      omega
    refine ⟨by rw [hcontrol], by rw [hcontrol], by rw [hcontrol], ?_, ha.trans ?_, hq.trans h.q,
      hx.trans h.x, fun hexp' => absurd hexp' hexp, hsucc⟩
    · rw [hcontrol, ← hplace]
      exact h.stepCnt
    · exact h.a (by rw [hplace]; exact hexp)

end Holding

end FgQuad
