import BelProjects.Library.Clocked
import BelProjects.SerdesClkGen.Generator

/-!
# The synchronisation machine

`p_sync_fsm` of `wb_serdes_clk_gen` computes from the ECA time what the counters of a
channel should hold, by a long division, first for the high and then for the low half of
each channel in turn.
-/

namespace SerdesClkGen

inductive TState where
  | start
  | loadRegs
  | subPhaseFromTime
  | loadDiv
  | checkTime
  | divideTimeByPer
  | setFracCounter
  | predictCounterState
  | setPerCounter
  | setDelayedBit
  | applyCounterVals
  deriving DecidableEq

/-- The registers of the machine in a module with `n` outputs. -/
structure Sync (n : Nat) where
  state : TState
  channelCount : Fin n
  divCount : BitVec 6
  numerator : BitVec 127
  denominator : BitVec 127
  didSubtract : Bool
  lastBit : Bool
  fracCarry : Bool
  int : BitVec 32
  fraction : BitVec 32
  countInteger : BitVec 32
  countFraction : BitVec 33
  phase : BitVec 64
  bitpatt : BitVec 32
  bitpattBit0 : Bool
  parity : Bool
  setLoCount : Bool
  subTime : BitVec 65
  ldHi : Fin n → Bool
  ldLo : Fin n → Bool

/-- `bitpatt_bit0`: the parity of the past bits that lie before the word. -/
def delayedBit (bitpatt countInteger : BitVec 32) : Bool :=
  let tmpBitpatt := if 16 ≤ countInteger then 0 else
    ((0#24 ++ bitpatt.extractLsb' 8 8) >>> countInteger.toNat) &&& 0xff
  outp false (tmpBitpatt.setWidth 8) 7

/-- `parity`: the parity of the edges in a period. -/
def patternParity (bitpatt : BitVec 32) : Bool :=
  outp false (((bitpatt >>> 7) &&& 0xff).setWidth 8) 7

namespace Sync

variable {n : Nat}

/-- `phase_addend`: the low half lags behind by the high time. -/
def phaseAddend (b : Bank) (setLoCount : Bool) : BitVec 64 :=
  if setLoCount then 0#32 ++ b.perHi else 0

def subCarries (s : Sync n) : BitVec 32 :=
  0#30 ++ BitVec.ofBool (s.countFraction.msb && s.fracCarry) ++
    BitVec.ofBool (s.countFraction.msb ^^ s.fracCarry)

def nextChannel (i : Fin n) : Fin n :=
  if h : i.val + 1 < n then ⟨i.val + 1, h⟩ else ⟨0, i.pos⟩

def next (bank : Fin n → Bank) (ecaTime : BitVec 64) (s : Sync n) : Sync n :=
  match s.state with
  | .start =>
      { s with
        ldLo := fun _ => false
        ldHi := fun _ => false
        fracCarry := false
        divCount := 0
        state := .loadRegs }
  | .loadRegs =>
      { s with
        int := (bank s.channelCount).per
        fraction := (bank s.channelCount).frac
        phase := ((bank s.channelCount).phofsh ++ (bank s.channelCount).phofsl) +
          phaseAddend (bank s.channelCount) s.setLoCount
        bitpatt := (bank s.channelCount).bitpattNormal
        state := .subPhaseFromTime }
  | .subPhaseFromTime =>
      { s with
        subTime := (0#1 ++ (ecaTime <<< 3)) - (0#1 ++ s.phase)
        state := .loadDiv }
  | .loadDiv =>
      { s with
        numerator := (if s.subTime.msb then BitVec.allOnes 31 else 0#31) ++
          s.subTime.extractLsb' 0 64 ++ 0#32
        denominator := s.int ++ s.fraction ++ 0#63
        state := .checkTime }
  | .checkTime =>
      { s with
        numerator := if s.subTime.msb ∨ s.subTime = 0 then s.numerator + s.denominator else s.numerator
        state := .divideTimeByPer }
  | .divideTimeByPer =>
      { s with
        numerator := if s.denominator < s.numerator then s.numerator - s.denominator else s.numerator
        didSubtract := s.denominator < s.numerator
        denominator := s.denominator >>> 1
        divCount := s.divCount + 1
        state := if s.divCount = 63 then .setFracCounter else .divideTimeByPer }
  | .setFracCounter =>
      { s with
        countFraction := (0#1 ++ s.fraction) - (0#1 ++ s.numerator.extractLsb' 0 32)
        state := .predictCounterState }
  | .predictCounterState =>
      { s with
        fracCarry := s.numerator.extractLsb' 32 32 < 8 ∧ s.countFraction.extractLsb' 0 32 < s.fraction
        state := .setPerCounter }
  | .setPerCounter =>
      { s with
        countInteger := s.int - s.numerator.extractLsb' 32 32 - s.subCarries
        state := .setDelayedBit }
  | .setDelayedBit =>
      { s with
        bitpattBit0 := delayedBit s.bitpatt s.countInteger
        parity := patternParity s.bitpatt
        state := .applyCounterVals }
  | .applyCounterVals =>
      { s with
        lastBit := (s.parity && s.didSubtract) ^^ s.bitpattBit0 ^^ s.parity
        ldHi := if s.setLoCount then s.ldHi else Function.update s.ldHi s.channelCount true
        ldLo := if s.setLoCount then Function.update s.ldLo s.channelCount true else s.ldLo
        channelCount := if s.setLoCount then nextChannel s.channelCount else s.channelCount
        setLoCount := !s.setLoCount
        state := .start }

def values (s : Sync n) : Counter where
  perCount := s.countInteger
  fracCount := s.countFraction.extractLsb' 0 32
  fracCarry := s.fracCarry
  outpD0 := s.lastBit

end Sync

/-! ## The module -/

abbrev Word := Fin 8 → Bool

structure Module (n : Nat) where
  sync : Sync n
  hi : Fin n → Counter
  lo : Fin n → Counter
  serdesDat : Fin n → Word

/-- What comes from outside in one clock: the ECA time and the register banks. -/
structure Inputs (n : Nat) where
  ecaTime : BitVec 64
  bank : Fin n → Bank
  ldRegs : Fin n → Bool

/-- The output word, for `g_selectable_duty_cycle` on or off. -/
def serdesWord (selectable : Bool) (b : Bank) (hi lo : Counter) : Word := fun j =>
  if selectable then outp hi.outpD0 (hi.bitPattern b) j ^^ outp lo.outpD0 (lo.bitPattern b) j
  else outp hi.outpD0 (hi.bitPattern b) j

def Module.step {n : Nat} (selectable : Bool) (i : Inputs n) (m : Module n) : Module n where
  sync := m.sync.next i.bank i.ecaTime
  hi := fun ch => (m.hi ch).onClk (i.bank ch) 0 (i.ldRegs ch) (m.sync.ldHi ch) m.sync.values
  lo := fun ch => (m.lo ch).onClk (i.bank ch) (i.bank ch).perHi (i.ldRegs ch) (m.sync.ldLo ch) m.sync.values
  serdesDat := fun ch => serdesWord selectable (i.bank ch) (m.hi ch) (m.lo ch)

end SerdesClkGen
