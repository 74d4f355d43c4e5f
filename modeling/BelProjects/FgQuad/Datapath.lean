import Mathlib.Data.BitVec

/-!
# The datapath of the quadratic function generator

`fg_quad_datapath` in the variant for SCU slaves, at the 125 MHz of its default and of every
instance: the registers for the coefficients, the two counters for frequency and steps, and
the control state machine.
-/

namespace FgQuad

def clkInHz : Nat := 125000000

/-- The constants for the frequency counter, by frequency selection. -/
def cFreqCnt (freqSel : BitVec 3) : Nat :=
  match freqSel.toNat with
  | 7 => clkInHz / 2000000 - 2
  | 6 => clkInHz / 1000000 - 2
  | 5 => clkInHz / 500000 - 2
  | 4 => clkInHz / 250000 - 2
  | 3 => clkInHz / 125000 - 2
  | 2 => clkInHz / 64000 - 2
  | 1 => clkInHz / 32000 - 2
  | _ => clkInHz / 16000 - 2

/-- The constants for the step counter, by step selection. -/
def cStepCnt (stepSel : BitVec 3) : Nat :=
  match stepSel.toNat with
  | 7 => 32000 - 2
  | 6 => 16000 - 2
  | 5 => 8000 - 2
  | 4 => 4000 - 2
  | 3 => 2000 - 2
  | 2 => 1000 - 2
  | 1 => 500 - 2
  | _ => 250 - 2

inductive ControlState where
  | idle
  | load
  | quadInc
  | linInc
  | addXQ
  deriving DecidableEq

structure Inputs where
  dataA : BitVec 16
  dataB : BitVec 16
  dataC : BitVec 32
  syncRst : Bool
  aEn : Bool
  loadStart : Bool
  syncStart : Bool
  stepSel : BitVec 3
  shiftA : Nat
  shiftB : Nat
  freqSel : BitVec 3

structure RegFile where
  a : BitVec 64
  q : BitVec 64
  x : BitVec 64
  freqSel : BitVec 3
  stepSel : BitVec 3

structure Control where
  state : ControlState
  isRunning : Bool
  incQuad : Bool
  addLinQuad : Bool
  freqCntEn : Bool
  signalStateChange : Bool
  segmentFinished : Bool
  coeffRcvd : Bool
  stepCnt : BitVec 16

structure Datapath where
  reg : RegFile
  freqCnt : BitVec 14
  control : Control

def shiftedA (i : Inputs) : BitVec 64 := i.dataA.signExtend 64 <<< i.shiftA

def shiftedB (i : Inputs) : BitVec 64 := i.dataB.signExtend 64 <<< i.shiftB

def shiftedC (i : Inputs) : BitVec 64 := i.dataC.signExtend 64 <<< 32

namespace Datapath

def freqEn (s : Datapath) : Bool := s.freqCnt.msb

def stpReached (s : Datapath) : Bool := s.control.stepCnt.msb

/-! ## The processes -/

/-- `reg_file`; the increment comes after the load in the process and wins over it. -/
def regFile (i : Inputs) (s : Datapath) : RegFile :=
  if i.syncRst then ⟨0, 0, 0, 0, 0⟩ else
    let r := if s.stpReached || i.syncStart then
        { s.reg with a := shiftedA i, q := shiftedB i, x := shiftedC i }
      else s.reg
    let r := if s.stpReached || i.loadStart then { r with stepSel := i.stepSel, freqSel := i.freqSel }
      else r
    if s.control.incQuad then { r with q := s.reg.q + s.reg.a, x := s.reg.x + s.reg.q } else r

def nextFreqCnt (i : Inputs) (s : Datapath) : BitVec 14 :=
  if i.syncRst || i.syncStart then BitVec.ofNat 14 (cFreqCnt s.reg.freqSel)
  else if s.freqEn then BitVec.ofNat 14 (cFreqCnt s.reg.freqSel)
  else if s.control.freqCntEn then s.freqCnt - 1
  else s.freqCnt

def controlSm (i : Inputs) (s : Datapath) : Control :=
  if i.syncRst then
    { s.control with
      state := .idle
      isRunning := false
      incQuad := false
      signalStateChange := false
      segmentFinished := false }
  else
    let c := { s.control with
      incQuad := false
      addLinQuad := false
      freqCntEn := true
      isRunning := false
      signalStateChange := false
      segmentFinished := false
      coeffRcvd := i.aEn || s.control.coeffRcvd }
    match s.control.state with
    | .idle =>
        { c with
          freqCntEn := false
          stepCnt := BitVec.ofNat 16 (cStepCnt s.reg.stepSel)
          coeffRcvd := if i.syncStart then false else c.coeffRcvd
          state := if i.syncStart then .quadInc else .idle }
    | .quadInc =>
        if s.stpReached && s.freqEn then
          if s.control.coeffRcvd then
            -- continue with new parameter set
            { c with
              isRunning := true
              stepCnt := BitVec.ofNat 16 (cStepCnt s.reg.stepSel)
              coeffRcvd := false
              incQuad := true
              state := .linInc }
          else
            -- no parameters received
            { c with isRunning := true, signalStateChange := true, state := .idle }
        else if s.freqEn then
          { c with isRunning := true, stepCnt := s.control.stepCnt - 1, incQuad := true, state := .linInc }
        else { c with isRunning := true }
    | .linInc => { c with isRunning := true, segmentFinished := s.stpReached, state := .addXQ }
    | .addXQ => { c with isRunning := true, addLinQuad := true, state := .quadInc }
    | .load => c

def step (i : Inputs) (s : Datapath) : Datapath where
  reg := s.regFile i
  freqCnt := s.nextFreqCnt i
  control := s.controlSm i

/-- After `nrst`; the registers without a reset value hold anything. -/
def reset (addLinQuad freqCntEn coeffRcvd : Bool) (stepCnt : BitVec 16) : Datapath where
  reg := ⟨0, 0, 0, 0, 0⟩
  freqCnt := BitVec.ofNat 14 (cFreqCnt 0)
  control := ⟨.idle, false, false, addLinQuad, freqCntEn, false, false, coeffRcvd, stepCnt⟩

/-! ## The outputs -/

def swOut (s : Datapath) : BitVec 32 := s.reg.x.extractLsb' 32 32

def swStrobe (s : Datapath) : Bool := s.control.addLinQuad

def dreq (s : Datapath) : Bool := s.stpReached

def stateChangeIrq (i : Inputs) (s : Datapath) : Bool := i.syncStart || s.control.signalStateChange

end Datapath

end FgQuad
