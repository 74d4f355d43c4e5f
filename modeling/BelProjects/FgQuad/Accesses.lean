import BelProjects.FgQuad.Datapath
import Mathlib.Data.Fin.VecNotation
import BelProjects.FgQuad.Segments
import Mathlib.Tactic.FinCases
import Mathlib.Tactic.IntervalCases

/-!
# The bus interface of the quadratic function generator

`fg_quad_scu_bus`: the address decoder, the comparison of the tag, and the registers which are
the ports of the datapath. The firmware writes a tuple with six accesses.
-/

namespace FgQuad

/-- The registers with write access, by the names of their strobes. -/
inductive Register where
  | fgCntrl
  | coeffA
  | coeffB
  | shift
  | startValueH
  | startValueL
  | tagLow
  | tagHigh
  deriving DecidableEq

structure BusInputs where
  adr : BitVec 16
  data : BitVec 16
  adrVal : Bool
  wrActive : Bool
  tag : BitVec 32
  tagValid : Bool
  extTrigger : Bool

structure ScuBus where
  /-- Which of the `wr_` strobes is set. -/
  wr : Option Register
  tagReceived : Bool
  tagStart : Bool
  fgCntrlReg : BitVec 16
  coeffAReg : BitVec 16
  coeffBReg : BitVec 16
  shiftReg : BitVec 16
  startValueReg : BitVec 32
  tagLowReg : BitVec 16
  tagHighReg : BitVec 16
  quadFg : Datapath

/-- `adr_decoder`, its write accesses -/
def adrDecoder (baseAddr : BitVec 16) (i : BusInputs) : Option Register :=
  if i.adrVal && i.wrActive then
    match (i.adr - baseAddr).toNat with
    | 0 => some .fgCntrl
    | 1 => some .coeffA
    | 2 => some .coeffB
    | 4 => some .shift
    | 5 => some .startValueH
    | 6 => some .startValueL
    | 9 => some .tagLow
    | 10 => some .tagHigh
    | _ => none
  else none

namespace ScuBus

/-- The port map of `quad_fg`. -/
def ports (i : BusInputs) (s : ScuBus) : Inputs where
  dataA := s.coeffAReg
  dataB := s.coeffBReg
  dataC := s.startValueReg
  syncRst := s.fgCntrlReg.getLsbD 0
  aEn := s.wr = some .coeffA
  syncStart := (s.tagStart || i.extTrigger) && s.fgCntrlReg.getLsbD 1
  loadStart := s.wr = some .startValueH
  stepSel := s.fgCntrlReg.extractLsb' 10 3
  shiftB := (s.shiftReg.extractLsb' 0 6).toNat
  shiftA := (s.shiftReg.extractLsb' 6 6).toNat
  freqSel := s.fgCntrlReg.extractLsb' 13 3

def nextFgCntrlReg (i : BusInputs) (s : ScuBus) : BitVec 16 :=
  let r := if s.wr = some .fgCntrl then i.data else s.fgCntrlReg
  let r := if s.tagStart && s.fgCntrlReg.getLsbD 1 then r &&& ~~~0x2 else r
  if s.quadFg.dreq then r ||| 0x8
  else if s.wr = some .coeffA then r &&& ~~~0x8
  else r

def nextStartValueReg (i : BusInputs) (s : ScuBus) : BitVec 32 :=
  let hi := if s.wr = some .startValueH then i.data else s.startValueReg.extractLsb' 16 16
  let lo := if s.wr = some .startValueL then i.data else s.startValueReg.extractLsb' 0 16
  hi ++ lo

/-- One clock: `adr_decoder`, `tag_comp` and `cntrl_reg`, where bit 0 of the control register
resets them all. -/
def step (baseAddr : BitVec 16) (i : BusInputs) (s : ScuBus) : ScuBus :=
  let s' := { s with
    wr := adrDecoder baseAddr i
    tagReceived := !s.tagReceived && i.tagValid
    tagStart := s.tagReceived && i.tag = s.tagHighReg ++ s.tagLowReg
    quadFg := s.quadFg.step (s.ports i) }
  if s.fgCntrlReg.getLsbD 0 then
    { s' with
      fgCntrlReg := 0
      coeffAReg := 0
      coeffBReg := 0
      shiftReg := 0
      startValueReg := 0
      tagLowReg := 0xbabe
      tagHighReg := 0xfeed }
  else
    { s' with
      fgCntrlReg := s.nextFgCntrlReg i
      coeffAReg := if s.wr = some .coeffA then i.data else s.coeffAReg
      coeffBReg := if s.wr = some .coeffB then i.data else s.coeffBReg
      shiftReg := if s.wr = some .shift then i.data else s.shiftReg
      startValueReg := s.nextStartValueReg i
      tagLowReg := if s.wr = some .tagLow then i.data else s.tagLowReg
      tagHighReg := if s.wr = some .tagHigh then i.data else s.tagHighReg }

def reset (quadFg : Datapath) : ScuBus where
  wr := none
  tagReceived := false
  tagStart := false
  fgCntrlReg := 0
  coeffAReg := 0
  coeffBReg := 0
  shiftReg := 0
  startValueReg := 0
  tagLowReg := 0xbabe
  tagHighReg := 0xfeed
  quadFg := quadFg

def irq (i : BusInputs) (s : ScuBus) : Bool := s.quadFg.stateChangeIrq (s.ports i) || s.quadFg.dreq

end ScuBus

/-! ## The accesses of the firmware -/

structure ParamSet where
  coeffA : BitVec 16
  coeffB : BitVec 16
  coeffC : BitVec 32
  control : BitVec 32

namespace ParamSet

def fgEnabled : BitVec 16 := 0x2

/-- The block of a tuple, with the bits `keep` in its control word. -/
def blkData (keep : BitVec 16) (pset : ParamSet) : Fin 6 → BitVec 16 :=
  ![keep ||| (((pset.control &&& 0x38) <<< 10) ||| ((pset.control &&& 0x7) <<< 10)).setWidth 16,
    pset.coeffA,
    pset.coeffB,
    ((pset.control &&& 0x3ffc0) >>> 6).setWidth 16,
    pset.coeffC.setWidth 16,
    (pset.coeffC >>> 16).setWidth 16]

/-- `send_fg_param`, for a bus slave -/
def sendFgParam (cntrlReg : BitVec 16) (pset : ParamSet) : Fin 6 → BitVec 16 :=
  pset.blkData (cntrlReg &&& ~~~0xfc07)

/-- The first tuple of a ramp, in `configure_fg_macro` -/
def configureFgMacro (channel : Fin 16) (pset : ParamSet) : Fin 6 → BitVec 16 :=
  pset.blkData (BitVec.ofNat 16 channel <<< 4)

end ParamSet

scoped instance neZero_registers : NeZero 6 := ⟨by decide⟩

def writeOrder : Fin 6 → Register :=
  ![.fgCntrl, .coeffA, .coeffB, .shift, .startValueL, .startValueH]

end FgQuad

/-!
## What the registers show

Each register keeps the word of the last access to it, so between two blocks the ports of the
datapath show one tuple.
-/

namespace FgQuad

def ParamSet.tuple (pset : ParamSet) : Tuple where
  a := pset.coeffA
  b := pset.coeffB
  c := pset.coeffC
  shiftA := (pset.control.extractLsb' 12 6).toNat
  shiftB := (pset.control.extractLsb' 6 6).toNat
  stepSel := pset.control.extractLsb' 0 3
  freqSel := pset.control.extractLsb' 3 3

/-- A write access: the strobe lasts as long as the bus cycle. -/
structure Access where
  opens : Nat
  closes : Nat

def Access.During (acc : Access) (t : Nat) : Prop := acc.opens ≤ t ∧ t ≤ acc.closes

/-- Of the control register only the selections and the reset matter to a tuple. -/
def wordMask : Fin 6 → BitVec 16 := ![0xfc01, 0xffff, 0xffff, 0xffff, 0xffff, 0xffff]

def ScuBus.shown (s : ScuBus) : Fin 6 → BitVec 16 :=
  ![s.fgCntrlReg, s.coeffAReg, s.coeffBReg, s.shiftReg, s.startValueReg.extractLsb' 0 16,
    s.startValueReg.extractLsb' 16 16]

def ScuBus.Shows (s : ScuBus) (i : Fin 6) (word : BitVec 16) : Prop :=
  s.shown i &&& wordMask i = word &&& wordMask i

namespace ScuBus

variable {baseAddr : BitVec 16} {i : BusInputs} {s : ScuBus}

/-- The flags which the process sets and clears lie outside the mask. -/
theorem nextFgCntrlReg_mask : s.nextFgCntrlReg i &&& 0xfc01 =
    (if s.wr = some .fgCntrl then i.data else s.fgCntrlReg) &&& 0xfc01 := by
  have hset (r : BitVec 16) : (r ||| 0x8) &&& 0xfc01 = r &&& 0xfc01 := by
    rw [BitVec.and_or_distrib_right]
    exact BitVec.or_zero
  have hclear (r : BitVec 16) : (r &&& ~~~0x8) &&& 0xfc01 = r &&& 0xfc01 := BitVec.and_assoc _ _ _
  have hdisable (r : BitVec 16) : (r &&& ~~~0x2) &&& 0xfc01 = r &&& 0xfc01 := BitVec.and_assoc _ _ _
  rw [nextFgCntrlReg]
  generalize (if s.wr = some .fgCntrl then i.data else s.fgCntrlReg) = r
  have hstart : (if (s.tagStart && s.fgCntrlReg.getLsbD 1) = true then r &&& ~~~0x2 else r) &&& 0xfc01 =
      r &&& 0xfc01 := by
    split
    · exact hdisable r
    · rfl
  split
  · exact (hset _).trans hstart
  · split
    · exact (hclear _).trans hstart
    · exact hstart

/-- Without a reset a register takes the word of an access to it and keeps its own otherwise. -/
theorem shown_step (hrst : s.fgCntrlReg.getLsbD 0 = false) (r : Fin 6) :
    (s.step baseAddr i).shown r &&& wordMask r =
      (if s.wr = some (writeOrder r) then i.data else s.shown r) &&& wordMask r := by
  simp only [step, hrst, Bool.false_eq_true, if_false]
  have hhi : (s.nextStartValueReg i).extractLsb' 16 16 =
      if s.wr = some .startValueH then i.data else s.startValueReg.extractLsb' 16 16 :=
    BitVec.extractLsb'_append_eq_left
  have hlo : (s.nextStartValueReg i).extractLsb' 0 16 =
      if s.wr = some .startValueL then i.data else s.startValueReg.extractLsb' 0 16 :=
    BitVec.extractLsb'_append_eq_right
  fin_cases r
  · exact nextFgCntrlReg_mask
  · rfl
  · rfl
  · rfl
  · exact congrArg (· &&& wordMask 4) hlo
  · exact congrArg (· &&& wordMask 5) hhi

theorem shows_of_access (hrst : s.fgCntrlReg.getLsbD 0 = false) {r : Fin 6} {word : BitVec 16}
    (hwr : s.wr = some (writeOrder r)) (hdata : i.data &&& wordMask r = word &&& wordMask r) :
    (s.step baseAddr i).Shows r word := by
  rw [Shows, shown_step hrst, if_pos hwr, hdata]

theorem shows_of_none (hrst : s.fgCntrlReg.getLsbD 0 = false) {r : Fin 6} {word : BitVec 16}
    (hwr : s.wr ≠ some (writeOrder r)) (h : s.Shows r word) : (s.step baseAddr i).Shows r word := by
  rw [Shows, shown_step hrst, if_neg hwr]
  exact h

/-- Bit 0 of the control register is under the mask. -/
theorem getLsbD_of_shows {word : BitVec 16} (h : s.Shows 0 word) :
    s.fgCntrlReg.getLsbD 0 = word.getLsbD 0 := by
  have hbit := congrArg (fun x : BitVec 16 => x.getLsbD 0) h
  simpa [shown, wordMask] using hbit

end ScuBus

/-! ## The ports -/

theorem ParamSet.blkData_reset {keep : BitVec 16} (hkeep : keep.getLsbD 0 = false) (pset : ParamSet) :
    (pset.blkData keep 0).getLsbD 0 = false := by
  change (keep ||| _).getLsbD 0 = false
  rw [BitVec.getLsbD_or, hkeep]
  simp

theorem extractLsb'_and_eq {x y m : BitVec 16} {start len : Nat} (h : x &&& m = y &&& m)
    (hm : m.extractLsb' start len = BitVec.allOnes len) : x.extractLsb' start len = y.extractLsb' start len := by
  have hfield := congrArg (fun z => z.extractLsb' start len) h
  simpa only [BitVec.extractLsb'_and, hm, BitVec.and_allOnes] using hfield

theorem eq_of_halves {x y : BitVec 32} (hhi : x.extractLsb' 16 16 = y.extractLsb' 16 16)
    (hlo : x.extractLsb' 0 16 = y.extractLsb' 0 16) : x = y := by
  have hsplit (z : BitVec 32) : z = (z.extractLsb' 16 16 ++ z.extractLsb' 0 16 : BitVec 32) := by
    have hall : (z.extractLsb' 16 16 ++ z.extractLsb' 0 16 : BitVec 32) = z.extractLsb' 0 32 :=
      BitVec.extractLsb'_append_extractLsb'_eq_extractLsb' rfl
    exact (hall.trans BitVec.extractLsb'_eq_self).symm
  rw [hsplit x, hsplit y, hhi, hlo]

/-- The selections in the control word, and the two shifts in theirs. -/
theorem ParamSet.blkData_fields {keep : BitVec 16} (hkeep : keep.extractLsb' 10 6 = 0) (pset : ParamSet) :
    (pset.blkData keep 0).extractLsb' 10 3 = pset.tuple.stepSel ∧
      (pset.blkData keep 0).extractLsb' 13 3 = pset.tuple.freqSel ∧
      ((pset.blkData keep 3).extractLsb' 6 6).toNat = pset.tuple.shiftA ∧
      ((pset.blkData keep 3).extractLsb' 0 6).toNat = pset.tuple.shiftB := by
  have hbit (n : Nat) (hn : n < 6) : keep.getLsbD (10 + n) = false := by
    have h := congrArg (fun x : BitVec 6 => x.getLsbD n) hkeep
    simpa [hn] using h
  have hword : pset.blkData keep 0 =
    keep ||| (((pset.control &&& 0x38) <<< 10) ||| ((pset.control &&& 0x7) <<< 10)).setWidth 16 := rfl
  have hshift : pset.blkData keep 3 = ((pset.control &&& 0x3ffc0) >>> 6).setWidth 16 := rfl
  rw [hword, hshift]
  refine ⟨?_, ?_, congrArg BitVec.toNat ?_, congrArg BitVec.toNat ?_⟩
  all_goals
    apply BitVec.eq_of_getLsbD_eq
    intro n hn
  · have hkept := hbit n (by omega)
    interval_cases n <;> simp_all [tuple]
  · have hkept := hbit (3 + n) (by omega)
    interval_cases n <;> simp_all [tuple]
  · interval_cases n <;> simp
  · interval_cases n <;> simp

theorem ports_stepSel {s : ScuBus} {keep : BitVec 16} {pset : ParamSet} (i : BusInputs)
    (hkeep : keep.extractLsb' 10 6 = 0) (h : s.Shows 0 (pset.blkData keep 0)) :
    (s.ports i).stepSel = pset.tuple.stepSel :=
  (extractLsb'_and_eq h (by decide)).trans (pset.blkData_fields hkeep).1

theorem ports_presents {s : ScuBus} {keep : BitVec 16} {pset : ParamSet} (i : BusInputs)
    (hkeep : keep.extractLsb' 10 6 = 0) (h : ∀ r, s.Shows r (pset.blkData keep r)) :
    (s.ports i).Presents pset.tuple := by
  have hfull {x y : BitVec 16} (hxy : x &&& 0xffff = y &&& 0xffff) : x = y := by
    have hones (z : BitVec 16) : z &&& 0xffff = z := BitVec.and_allOnes
    rwa [hones, hones] at hxy
  obtain ⟨-, hfreq, hshiftA, hshiftB⟩ := pset.blkData_fields hkeep
  have hshift : s.shiftReg = pset.blkData keep 3 := hfull (h 3)
  constructor
  · exact hfull (h 1)
  · exact hfull (h 2)
  · have hlo : s.startValueReg.extractLsb' 0 16 = pset.coeffC.setWidth 16 := hfull (h 4)
    have hhi : s.startValueReg.extractLsb' 16 16 = (pset.coeffC >>> 16).setWidth 16 := hfull (h 5)
    refine eq_of_halves (hhi.trans ?_) (hlo.trans ?_)
    · rfl
    · exact BitVec.setWidth_eq_extractLsb' (by decide)
  · exact (congrArg (fun x : BitVec 16 => (x.extractLsb' 6 6).toNat) hshift).trans hshiftA
  · exact (congrArg (fun x : BitVec 16 => (x.extractLsb' 0 6).toNat) hshift).trans hshiftB
  · exact ports_stepSel i hkeep (h 0)
  · exact (extractLsb'_and_eq (h 0) (by decide)).trans hfreq

end FgQuad
