import BelProjects.B2b.Settings
import Mathlib.Data.BitVec

/-!
# The mini state machine and the timing messages

A transfer goes through the states of a small machine; the path depends on the mode.
Requests to other units and kicker triggers are timing messages.
-/

namespace B2b

/-! ### The mini state machine -/

/-- The states `B2B_MFSM_..`; `unset` is what the variable holds after power-up. -/
inductive MState where
  | s0 | extPMeasS | extPMeasR | extTKickC | extTNextRfC | extTFBeatC | extTrig | injPMeasS
  | allPMeasR | injTrig | extPShiftS | injPShiftS | extPShiftC | injPShiftC | nothing | unset
  deriving DecidableEq, Repr

def MState.code : MState → Word
  | .s0 => 0x1
  | .extPMeasS => 0x2
  | .extPMeasR => 0x4
  | .extTKickC => 0x8
  | .extTNextRfC => 0x10
  | .extTFBeatC => 0x20
  | .extTrig => 0x40
  | .injPMeasS => 0x80
  | .allPMeasR => 0x100
  | .injTrig => 0x200
  | .extPShiftS => 0x400
  | .injPShiftS => 0x800
  | .extPShiftC => 0x1000
  | .injPShiftC => 0x2000
  | .nothing => 0x100000
  | .unset => 0

namespace MState

def nextOff : MState → MState
  | .s0 => .extPMeasS
  | _ => .nothing

def nextBse : MState → MState
  | .s0 => .extTKickC
  | .extTKickC => .extPMeasS
  | .extPMeasS => .extTrig
  | _ => .nothing

def nextB2e : MState → MState
  | .s0 => .extPMeasS
  | .extPMeasS => .extPMeasR
  | .extPMeasR => .extTNextRfC
  | .extTNextRfC => .extTrig
  | _ => .nothing

def nextB2c : MState → MState
  | .s0 => .extPMeasS
  | .extPMeasS => .injPMeasS
  | .injPMeasS => .extPMeasR
  | .extPMeasR => .extTNextRfC
  | .extTNextRfC => .extTrig
  | .extTrig => .injTrig
  | _ => .nothing

def nextB2ePShift : MState → MState
  | .s0 => .extPMeasS
  | .extPMeasS => .extPMeasR
  | .extPMeasR => .extTNextRfC
  | .extTNextRfC => .extPShiftS
  | .extPShiftS => .extTrig
  | _ => .nothing

/-- Two phase measurements have been requested and may arrive in either order, so the
results are counted. -/
def diamond (next : MState) (nPhaseResult : Word) : MState × Word :=
  (if nPhaseResult + 1 = 2 then next else .allPMeasR, nPhaseResult + 1)

def nextB2bFBeat (nPhaseResult : Word) : MState → MState × Word
  | .s0 => (.extPMeasS, nPhaseResult)
  | .extPMeasS => (.injPMeasS, nPhaseResult)
  | .injPMeasS => (.allPMeasR, 0)
  | .allPMeasR => diamond .extTFBeatC nPhaseResult
  | .extTFBeatC => (.extTrig, nPhaseResult)
  | .extTrig => (.injTrig, nPhaseResult)
  | _ => (.nothing, nPhaseResult)

def nextB2bPShiftE (nPhaseResult : Word) : MState → MState × Word
  | .s0 => (.extPMeasS, nPhaseResult)
  | .extPMeasS => (.injPMeasS, nPhaseResult)
  | .injPMeasS => (.allPMeasR, 0)
  | .allPMeasR => diamond .extTNextRfC nPhaseResult
  | .extTNextRfC => (.extPShiftC, nPhaseResult)
  | .extPShiftC => (.extPShiftS, nPhaseResult)
  | .extPShiftS => (.extTrig, nPhaseResult)
  | .extTrig => (.injTrig, nPhaseResult)
  | _ => (.nothing, nPhaseResult)

def nextB2bPShiftI (nPhaseResult : Word) : MState → MState × Word
  | .s0 => (.extPMeasS, nPhaseResult)
  | .extPMeasS => (.injPMeasS, nPhaseResult)
  | .injPMeasS => (.allPMeasR, 0)
  | .allPMeasR => diamond .extTNextRfC nPhaseResult
  | .extTNextRfC => (.injPShiftC, nPhaseResult)
  | .injPShiftC => (.injPShiftS, nPhaseResult)
  | .injPShiftS => (.extTrig, nPhaseResult)
  | .extTrig => (.injTrig, nPhaseResult)
  | _ => (.nothing, nPhaseResult)

end MState

def getNextMState (mode : Word) (actMState : MState) (nPhaseResult : Word) : MState × Word :=
  if mode = modeOff then (actMState.nextOff, nPhaseResult)
  else if mode = modeBse then (actMState.nextBse, nPhaseResult)
  else if mode = modeB2e then (actMState.nextB2e, nPhaseResult)
  else if mode = modeB2c then (actMState.nextB2c, nPhaseResult)
  else if mode = modeB2bFBeat then actMState.nextB2bFBeat nPhaseResult
  else if mode = modeB2ePShift then (actMState.nextB2ePShift, nPhaseResult)
  else if mode = modeB2bPShiftE then actMState.nextB2bPShiftE nPhaseResult
  else if mode = modeB2bPShiftI then actMState.nextB2bPShiftI nPhaseResult
  else (.nothing, nPhaseResult)

/-- A property of the next state is shown for the table of each mode. -/
theorem getNextMState_rec {P : MState × Word → Prop} (mode : Word) (m : MState) (n : Word)
    (off : P (m.nextOff, n)) (bse : P (m.nextBse, n)) (b2e : P (m.nextB2e, n))
    (b2c : mode = modeB2c → P (m.nextB2c, n))
    (fBeat : mode = modeB2bFBeat → P (m.nextB2bFBeat n))
    (b2ePShift : P (m.nextB2ePShift, n))
    (pShiftE : mode = modeB2bPShiftE → P (m.nextB2bPShiftE n))
    (pShiftI : mode = modeB2bPShiftI → P (m.nextB2bPShiftI n))
    (other : P (.nothing, n)) : P (getNextMState mode m n) := by
  unfold getNextMState
  split_ifs with h₁ h₂ h₃ h₄ h₅ h₆ h₇ h₈
  · exact off
  · exact bse
  · exact b2e
  · exact b2c h₄
  · exact fBeat h₅
  · exact b2ePShift
  · exact pShiftE h₇
  · exact pShiftI h₈
  · exact other

section Triggers

variable {mode n : Word} {m : MState}

theorem diamond_ne {x next : MState} (hnext : next ≠ x) (hwait : MState.allPMeasR ≠ x) :
    (MState.diamond next n).1 ≠ x := by
  simp only [MState.diamond]
  split
  · exact hnext
  · exact hwait

theorem getNextMState_injTrig (h : (getNextMState mode m n).1 = .injTrig) :
    m = .extTrig ∧ flagInject mode = true := by
  revert h
  apply getNextMState_rec (P := fun r => r.1 = .injTrig → m = .extTrig ∧ flagInject mode = true)
  case off => cases m <;> simp [MState.nextOff]
  case bse => cases m <;> simp [MState.nextBse]
  case b2e => cases m <;> simp [MState.nextB2e]
  case b2ePShift => cases m <;> simp [MState.nextB2ePShift]
  case other => simp
  case b2c =>
    intro hmode h
    refine ⟨?_, by rw [hmode]; decide⟩
    cases m <;> simp_all [MState.nextB2c]
  case fBeat | pShiftE | pShiftI =>
    intro hmode h
    refine ⟨?_, by rw [hmode]; decide⟩
    cases m with
    | extTrig => rfl
    | allPMeasR => exact absurd h (diamond_ne (by decide) (by decide))
    | _ => cases h

theorem getNextMState_of_injTrig : (getNextMState mode .injTrig n).1 = .nothing := by
  apply getNextMState_rec (P := fun r => r.1 = .nothing) <;> intros <;> rfl

theorem getNextMState_of_extTrig :
    (getNextMState mode .extTrig n).1 = .injTrig ∨ (getNextMState mode .extTrig n).1 = .nothing := by
  apply getNextMState_rec (P := fun r => r.1 = .injTrig ∨ r.1 = .nothing) <;> intros <;>
    simp [MState.nextOff, MState.nextBse, MState.nextB2e, MState.nextB2c, MState.nextB2ePShift,
      MState.nextB2bFBeat, MState.nextB2bPShiftE, MState.nextB2bPShiftI]

end Triggers

/-! ### Bunch to bucket -/

/-- The modes in which both phases are needed. -/
def Bucket (mode : Word) : Prop :=
  mode = modeB2bFBeat ∨ mode = modeB2bPShiftE ∨ mode = modeB2bPShiftI

instance (mode : Word) : Decidable (Bucket mode) :=
  inferInstanceAs (Decidable (_ ∨ _ ∨ _))

/-- What a transfer executes once both results are there. -/
def MState.Acting (m : MState) : Prop :=
  m = .extTNextRfC ∨ m = .extTFBeatC ∨ m = .extPShiftC ∨ m = .injPShiftC ∨ m = .extPShiftS ∨
    m = .injPShiftS ∨ m = .extTrig ∨ m = .injTrig ∨ m = .nothing

instance (m : MState) : Decidable m.Acting :=
  inferInstanceAs (Decidable (_ ∨ _))

section Bucket

variable {mode : Word} (h : Bucket mode) (n : Word)

include h

theorem Bucket.next_s0 : getNextMState mode .s0 n = (.extPMeasS, n) := by
  rcases h with rfl | rfl | rfl <;> rfl

theorem Bucket.next_extPMeasS : getNextMState mode .extPMeasS n = (.injPMeasS, n) := by
  rcases h with rfl | rfl | rfl <;> rfl

theorem Bucket.next_injPMeasS : getNextMState mode .injPMeasS n = (.allPMeasR, 0) := by
  rcases h with rfl | rfl | rfl <;> rfl

theorem Bucket.next_first : getNextMState mode .allPMeasR 0 = (.allPMeasR, 1) := by
  rcases h with rfl | rfl | rfl <;> rfl

theorem Bucket.next_second :
    getNextMState mode .allPMeasR 1 =
      (if mode = modeB2bFBeat then .extTFBeatC else .extTNextRfC, 2) := by
  rcases h with rfl | rfl | rfl <;> rfl

theorem Bucket.next_acting {m : MState} (hm : m.Acting) :
    (getNextMState mode m n).1.Acting := by
  have hfBeat : getNextMState modeB2bFBeat m n = m.nextB2bFBeat n := rfl
  have hpShiftE : getNextMState modeB2bPShiftE m n = m.nextB2bPShiftE n := rfl
  have hpShiftI : getNextMState modeB2bPShiftI m n = m.nextB2bPShiftI n := rfl
  rcases h with rfl | rfl | rfl
  · rw [hfBeat]
    rcases hm with rfl | rfl | rfl | rfl | rfl | rfl | rfl | rfl | rfl <;>
      simp [MState.nextB2bFBeat, MState.Acting]
  · rw [hpShiftE]
    rcases hm with rfl | rfl | rfl | rfl | rfl | rfl | rfl | rfl | rfl <;>
      simp [MState.nextB2bPShiftE, MState.Acting]
  · rw [hpShiftI]
    rcases hm with rfl | rfl | rfl | rfl | rfl | rfl | rfl | rfl | rfl <;>
      simp [MState.nextB2bPShiftI, MState.Acting]

end Bucket

/-! ### Timing messages -/

def evtGid (evtId : Long) : Word := (evtId.extractLsb' 48 12).setWidth 32
def evtNo (evtId : Long) : Word := (evtId.extractLsb' 36 12).setWidth 32
def evtSid (evtId : Long) : Word := (evtId.extractLsb' 20 12).setWidth 32
def evtBpid (evtId : Long) : Word := (evtId.extractLsb' 6 14).setWidth 32
def evtReserved (evtId : Long) : Word := (evtId.extractLsb' 0 6).setWidth 32

/-- Version 1 of the format, in the highest four bits. -/
def evtVersion : Long := 0x1000000000000000

def buildEvtidV1 (gid evtno flags sid bpid reserved : Word) : Long :=
  evtVersion ||| (gid.setWidth 12).setWidth 64 <<< 48 |||
    (evtno.setWidth 12).setWidth 64 <<< 36 ||| (flags.setWidth 4).setWidth 64 <<< 32 |||
    (sid.setWidth 12).setWidth 64 <<< 20 ||| (bpid.setWidth 14).setWidth 64 <<< 6 |||
    (reserved.setWidth 6).setWidth 64

theorem getLsbD_evtVersion (i : Nat) : evtVersion.getLsbD i = decide (i = 60) := by
  by_cases hi : i < 64
  · have hall : ∀ i : Fin 64, evtVersion.getLsbD i = decide (i.1 = 60) := by decide
    exact hall ⟨i, hi⟩
  · rw [BitVec.getLsbD_of_ge _ _ (by omega), decide_eq_false (by omega)]

section Fields

variable (gid evtno flags sid bpid reserved : Word)

theorem evtGid_build :
    evtGid (buildEvtidV1 gid evtno flags sid bpid reserved) = (gid.setWidth 12).setWidth 32 := by
  apply BitVec.eq_of_getLsbD_eq
  intro i hi
  simp only [evtGid, buildEvtidV1, BitVec.getLsbD_setWidth, BitVec.getLsbD_extractLsb',
    BitVec.getLsbD_or, BitVec.getLsbD_shiftLeft, getLsbD_evtVersion]
  grind

theorem evtNo_build :
    evtNo (buildEvtidV1 gid evtno flags sid bpid reserved) = (evtno.setWidth 12).setWidth 32 := by
  apply BitVec.eq_of_getLsbD_eq
  intro i hi
  simp only [evtNo, buildEvtidV1, BitVec.getLsbD_setWidth, BitVec.getLsbD_extractLsb',
    BitVec.getLsbD_or, BitVec.getLsbD_shiftLeft, getLsbD_evtVersion]
  grind

theorem evtSid_build :
    evtSid (buildEvtidV1 gid evtno flags sid bpid reserved) = (sid.setWidth 12).setWidth 32 := by
  apply BitVec.eq_of_getLsbD_eq
  intro i hi
  simp only [evtSid, buildEvtidV1, BitVec.getLsbD_setWidth, BitVec.getLsbD_extractLsb',
    BitVec.getLsbD_or, BitVec.getLsbD_shiftLeft, getLsbD_evtVersion]
  grind

theorem evtBpid_build :
    evtBpid (buildEvtidV1 gid evtno flags sid bpid reserved) = (bpid.setWidth 14).setWidth 32 := by
  apply BitVec.eq_of_getLsbD_eq
  intro i hi
  simp only [evtBpid, buildEvtidV1, BitVec.getLsbD_setWidth, BitVec.getLsbD_extractLsb',
    BitVec.getLsbD_or, BitVec.getLsbD_shiftLeft, getLsbD_evtVersion]
  grind

theorem evtReserved_build :
    evtReserved (buildEvtidV1 gid evtno flags sid bpid reserved) =
      (reserved.setWidth 6).setWidth 32 := by
  apply BitVec.eq_of_getLsbD_eq
  intro i hi
  simp only [evtReserved, buildEvtidV1, BitVec.getLsbD_setWidth, BitVec.getLsbD_extractLsb',
    BitVec.getLsbD_or, BitVec.getLsbD_shiftLeft, getLsbD_evtVersion]
  grind

end Fields

/-- A reading of the system time: nanoseconds since 1970, below `2 ^ 63` until the year 2262. -/
structure SysTime where
  ns : Long
  bound : ns.toNat < 2 ^ 63

/-- A timing message as it is sent; `sent` is the time at which its deadline was checked or
chosen. -/
structure TimingMsg where
  deadline : Long
  evtId : Long
  param : Long
  tef : Word
  sent : SysTime

def commonAheadT : Long := 500000
def commonLateLimit : Long := 250000

/-- `fwlib_ebmWriteTM` without `flagForceLate`. It reads the time for the check of the
deadline, and once more when the message is rescheduled. -/
def ebmWriteTM (checked rescheduled : SysTime) (deadline evtId param : Long) (tef : Word) :
    TimingMsg :=
  if deadline < checked.ns + commonLateLimit then
    { deadline := rescheduled.ns + commonAheadT, evtId, param, tef, sent := rescheduled }
  else
    { deadline, evtId, param, tef, sent := checked }

section WriteTM

variable (checked rescheduled : SysTime) (deadline evtId param : Long) (tef : Word)

@[simp] theorem ebmWriteTM_evtId :
    (ebmWriteTM checked rescheduled deadline evtId param tef).evtId = evtId := by
  rw [ebmWriteTM]
  split <;> rfl

@[simp] theorem ebmWriteTM_param :
    (ebmWriteTM checked rescheduled deadline evtId param tef).param = param := by
  rw [ebmWriteTM]
  split <;> rfl

theorem SysTime.toNat_add (t : SysTime) {d : Long} (hd : d.toNat < 2 ^ 63) :
    (t.ns + d).toNat = t.ns.toNat + d.toNat := by
  have hbound := t.bound
  rw [BitVec.toNat_add, Nat.mod_eq_of_lt (by omega)]

theorem ebmWriteTM_early :
    (ebmWriteTM checked rescheduled deadline evtId param tef).sent.ns.toNat +
        commonLateLimit.toNat ≤
      (ebmWriteTM checked rescheduled deadline evtId param tef).deadline.toNat := by
  rw [ebmWriteTM]
  split
  case isTrue =>
    have hadd := rescheduled.toNat_add (d := commonAheadT) (by decide)
    have hlimit : commonLateLimit.toNat ≤ commonAheadT.toNat := by decide
    dsimp only
    omega
  case isFalse hlate =>
    have hadd := checked.toNat_add (d := commonLateLimit) (by decide)
    rw [BitVec.lt_def, hadd] at hlate
    exact Nat.le_of_not_lt hlate

end WriteTM

end B2b
