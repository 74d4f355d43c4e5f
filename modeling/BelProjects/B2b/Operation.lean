import BelProjects.B2b.MiniFsm

/-!
# The action of the central B2B unit

Each call of the handler takes one event of the ECA.  A start event begins a transfer, phase
results continue it, and within one call the mini state machine runs as far as it can.
Floating point and the calculation of times are parameters.
-/

namespace B2b

/-! ### Constants -/

def ecaStart : Word := 0x81f
def ecaPrExt : Word := 0x802
def ecaPrInj : Word := 0x803
def ecaPmExt : Word := 0x800
def ecaPmInj : Word := 0x801
def ecaTriggerExt : Word := 0x804
def ecaTriggerInj : Word := 0x805
def ecaPShiftExt : Word := 0x80a
def ecaPShiftInj : Word := 0x80b

def errFlagPmExt : Word := 0x1
def errFlagPmInj : Word := 0x4
def errFlagCbu : Word := 0x10
def flagBeamIn : Word := 0x8

def pmOffset : Long := 500000
def kickOffsetMin : Long := 2000000
def kickOffsetMax : Long := 16000000
def tDiagObs : Long := 15900000
def phaseShiftTime : Long := 10000000

def gidInvalid : Word := 0
def sis18Ring : Word := 0x12c
def esrRing : Word := 0x154
def cryringRing : Word := 0x0d2
def sis100Ring : Word := 0x136
def sis18B2bExtract : Word := 0x3a0
def sis18B2bEsr : Word := 0x3a1
def sis18B2bSis100 : Word := 0x3a2
def esrB2bExtract : Word := 0x3a5
def esrB2bCryring : Word := 0x3a6
def cryringB2bExtract : Word := 0x3aa
def sis100B2bExtract : Word := 0x3b0

def getTrigGid (gid : Word) (extFlag : Bool) : Word :=
  if gid = sis18B2bExtract then if extFlag then sis18Ring else gidInvalid
  else if gid = sis18B2bEsr then if extFlag then sis18Ring else esrRing
  else if gid = esrB2bExtract then if extFlag then esrRing else gidInvalid
  else if gid = esrB2bCryring then if extFlag then esrRing else cryringRing
  else if gid = cryringB2bExtract then if extFlag then cryringRing else gidInvalid
  else if gid = sis100B2bExtract then if extFlag then sis100Ring else gidInvalid
  else gidInvalid

def getGeometricHarmonics (gid : Word) : Word × Word :=
  if gid = sis18B2bEsr then (2, 1)
  else if gid = sis18B2bSis100 then (1, 5)
  else if gid = esrB2bCryring then (2, 1)
  else (1, 1)

/-! ### The state -/

/-- A time with its sub-ns part. -/
structure B2bt where
  ns : Long
  ps : Word
  dps : Word
  deriving DecidableEq, Repr

structure Transfer where
  gid : Word
  sid : Word
  mode : Word
  tH1Ext : Long
  nHExt : Word
  tH1Inj : Long
  nHInj : Word
  cPhase : B2bt
  cTrigExt : B2bt
  cTrigInj : B2bt
  nBucketExt : Word
  nBucketInj : Word
  tPhaseShift : Long
  tPhaseShiftDds : Word
  kickOffsPShift : Long
  fFineTune : Word
  fMBTune : Word
  tCbs : Long
  nGExt : Word
  nGInj : Word
  tWantExt : Long
  flagsExt : Word
  sidExt : Word
  bpidExt : Word
  paramExt : Long
  flagsInj : Word
  sidInj : Word
  bpidInj : Word
  paramInj : Long
  deriving DecidableEq, Repr

structure Cbu where
  shared : Shared
  sets : Settings
  flagClearAllSid : Bool
  transfer : Transfer
  tBeat : Long
  offsetPrrUs : BitVec 16
  pShiftExt : B2bt
  pShiftInj : B2bt
  tH1ExtT : B2bt
  tH1InjT : B2bt
  nPhaseResult : Word
  nTransfer : Word
  transStat : Word
  mState : MState
  errorFlags : Word

/-- Floating point and the calculation of times, from the variables they read. -/
structure Numerics where
  /-- `fwlib_tfns2tps` -/
  tfns2tps : Word → B2bt
  /-- A correction in microseconds, in half precision. -/
  correctionUs : B2bt → BitVec 16
  /-- A time since the start in microseconds, in half precision. -/
  sinceCbsUs : Long → BitVec 16
  /-- `extTrigDone` in microseconds, in half precision. -/
  trigDoneUs : Word → BitVec 16
  /-- The time of a phase shift in seconds. -/
  shiftSeconds : Long → Word
  /-- The value of a phase shift in degree. -/
  shiftDegree : B2bt → Long → Word
  /-- `calcExtTime` -/
  calcExtTime : Cbu → B2bt → Word × B2bt
  /-- `calcPhaseMatch` with its readings of the clock, and the beating period. -/
  calcPhaseMatch : Cbu → (Nat → SysTime) → B2bt → Word × B2bt × Long
  /-- The phase shift at the extraction machine. -/
  phaseShiftExt : Cbu → B2bt → B2bt
  /-- The phase shift at the injection machine. -/
  phaseShiftInj : Cbu → B2bt → B2bt

/-- The messages that a call of the handler may send. -/
inductive Sending where
  | pmExt | pmInj | pShiftExt | pShiftExtBack | pShiftInj | pShiftInjBack | triggerExt | triggerInj
  deriving DecidableEq, Repr

/-- The places at which a call of the handler reads the system time. -/
inductive Reading where
  | received | phaseMatch (i : Nat) | trigDone | trigExtLate | trigInjLate
  | checked (s : Sending) | rescheduled (s : Sending)
  deriving DecidableEq, Repr

/-- Local variables of the handler that are used in a later state than they are set. -/
structure Locals where
  tTrig : B2bt
  cTrigExtUs : BitVec 16
  cTrigInjUs : BitVec 16
  cPhaseUs : BitVec 16
  deriving DecidableEq, Repr

/-- What a call of the handler gets: the event of the ECA, the readings of the clock, the
state of White Rabbit, the status so far and what the local variables hold. -/
structure Action where
  ecaAction : Word
  recDeadline : Long
  recId : Long
  recParam : Long
  recTef : Word
  flagIsLate : Bool
  clock : Reading → SysTime
  wrBadSync : Bool
  actStatus : Word
  locals : Locals

/-- What a call of the handler does: executed states of the machine and sent messages. -/
inductive Output where
  | step (m : MState)
  | sent (m : TimingMsg)

/-- A call of the handler, with the status of an early return. -/
structure Call where
  cbu : Cbu
  locals : Locals
  status : Word
  ret : Option Word
  out : List Output

/-! ### Events -/

/-- The variables that are cleared, and the assignments that help debugging. -/
def Transfer.clear (t : Transfer) (recId : Long) : Transfer :=
  { t with
    sid := evtSid recId
    gid := evtGid recId
    flagsExt := 0
    sidExt := 0
    bpidExt := 0
    paramExt := 0
    flagsInj := 0
    sidInj := 0
    bpidInj := 0
    paramInj := 0
    mode := 0
    nHExt := 0
    nHInj := 0
    tH1Ext := 0
    tH1Inj := 0
    cPhase := { t.cPhase with ns := 0, ps := 0 }
    cTrigExt := { t.cTrigExt with ns := 0, ps := 0 }
    cTrigInj := { t.cTrigInj with ns := 0, ps := 0 }
    nBucketExt := 0
    nBucketInj := 0
    tPhaseShift := 0
    fFineTune := 0
    fMBTune := 0
    tCbs := 0
    nGExt := 0
    nGInj := 0 }

/-- The time of a phase shift: a negative number of buckets counts half milliseconds. -/
def shiftTime (nBucketExt : Word) : Long :=
  let t := if 0 ≤ nBucketExt.toInt then phaseShiftTime
    else ((-nBucketExt * 1000000).sshiftRight 1).signExtend 64
  if kickOffsetMax - kickOffsetMin < t then kickOffsetMax - kickOffsetMin else t

/-- The approximate or earliest time of extraction. -/
def wantExt (mode : Word) (tCbs kickOffsPShift : Long) : Long :=
  if mode = modeBse ∨ mode = modeB2e ∨ mode = modeB2c ∨ mode = modeB2bFBeat then
    tCbs + kickOffsetMin
  else if mode = modeB2ePShift ∨ mode = modeB2bPShiftE ∨ mode = modeB2bPShiftI then
    tCbs + kickOffsPShift
  else tCbs

/-- The data of a transfer from the setting of its SID and the start event. -/
def Transfer.load (N : Numerics) (t : Transfer) (x : Setting) (e : Action) : Transfer :=
  let t :=
    { t with
      flagsExt := flagBeamIn
      sidExt := evtSid e.recId
      bpidExt := evtBpid e.recId
      paramExt := e.recParam
      flagsInj := flagBeamIn
      sidInj := x.lSidInj
      bpidInj := x.lBpidInj
      paramInj := x.lParamInj
      gid := x.gid
      mode := x.mode
      tH1Ext := x.tH1Ext
      nHExt := x.nHExt
      tH1Inj := x.tH1Inj
      nHInj := x.nHInj
      cPhase := N.tfns2tps x.cPhase
      cTrigExt := N.tfns2tps x.cTrigExt
      cTrigInj := N.tfns2tps x.cTrigInj
      nBucketExt := x.nBuckExt
      nBucketInj := x.nBuckInj
      fFineTune := x.fFinTune
      fMBTune := x.fMBTune
      tPhaseShift := shiftTime x.nBuckExt
      tCbs := e.recDeadline
      nGExt := (getGeometricHarmonics x.gid).1
      nGInj := (getGeometricHarmonics x.gid).2 }
  { t with
    tPhaseShiftDds := N.shiftSeconds t.tPhaseShift
    kickOffsPShift := t.tPhaseShift + kickOffsetMin
    tWantExt := wantExt t.mode t.tCbs (t.tPhaseShift + kickOffsetMin) }

/-- `CMD_B2B_START` up to the checks. -/
def Cbu.clearTransfer (s : Cbu) (e : Action) : Cbu :=
  { s with
    transfer := s.transfer.clear e.recId
    tBeat := 0
    offsetPrrUs := 0
    transStat := 0
    nTransfer := s.nTransfer + 1
    sets := (setSubmit s.shared s.sets).2 }

/-- `CMD_B2B_START` after the checks. -/
def Cbu.loadTransfer (s : Cbu) (N : Numerics) (x : Setting) (e : Action) : Cbu :=
  let transfer := s.transfer.load N x e
  let next := getNextMState transfer.mode .s0 s.nPhaseResult
  { s with
    transfer
    pShiftExt :=
      if transfer.mode = modeB2ePShift then
        { s.pShiftExt with ns := transfer.cPhase.ns, ps := transfer.cPhase.ps }
      else { s.pShiftExt with ns := 0, ps := 0 }
    pShiftInj := { s.pShiftInj with ns := 0, ps := 0 }
    mState := next.1
    nPhaseResult := next.2
    errorFlags := 0 }

def Call.refuse (c : Call) (status : Word) : Call :=
  { c with cbu := { c.cbu with mState := .nothing }, status, ret := some status }

def Call.start (N : Numerics) (e : Action) (c : Call) : Call :=
  let s := c.cbu.clearTransfer e
  let status := (setSubmit c.cbu.shared c.cbu.sets).1
  let c := { c with cbu := s, locals := { c.locals with tTrig := { c.locals.tTrig with ns := 0, ps := 0 } } }
  if status ≠ statusOk then c.refuse status
  else
    match sidIndex s.transfer.sid with
    | none => { c with cbu := { s with transfer := { s.transfer with sid := 0 } } }.refuse
        statusOutOfRange
    | some sid =>
        if (s.sets sid).flagValid then
          let s := s.loadTransfer N (s.sets sid) e
          { c with
            cbu := s
            status := statusOk
            locals :=
              { c.locals with
                cTrigExtUs := N.correctionUs s.transfer.cTrigExt
                cTrigInjUs := N.correctionUs s.transfer.cTrigInj
                cPhaseUs := N.correctionUs s.transfer.cPhase } }
        else c.refuse statusBadSetting

def Call.advance (c : Call) : Call :=
  let next := getNextMState c.cbu.transfer.mode c.cbu.mState c.cbu.nPhaseResult
  { c with
    cbu := { c.cbu with
      transStat := c.cbu.transStat ||| c.cbu.mState.code
      mState := next.1
      nPhaseResult := next.2 }
    out := c.out ++ [.step c.cbu.mState] }

def Action.phase (e : Action) : B2bt :=
  { ns := e.recParam
    ps := (e.recTef.setWidth 16).signExtend 32
    dps := (e.recTef.extractLsb' 16 16).setWidth 32 }

/-- The time at which a result is received, relative to the start. -/
def Call.noteOffset (N : Numerics) (e : Action) (c : Call) : Call :=
  { c with
    cbu := { c.cbu with
      offsetPrrUs := N.sinceCbsUs ((e.clock .received).ns - c.cbu.transfer.tCbs) } }

def Action.For (e : Action) (t : Transfer) : Prop :=
  evtGid e.recId = t.gid ∧ evtSid e.recId = t.sid

instance (e : Action) (t : Transfer) : Decidable (e.For t) := inferInstanceAs (Decidable (_ ∧ _))

def Call.prExt (N : Numerics) (e : Action) (c : Call) : Call :=
  if c.cbu.transfer.mode < modeB2e then { c with ret := some c.status }
  else
    let c := c.noteOffset N e
    if e.For c.cbu.transfer ∧ (c.cbu.mState = .extPMeasR ∨ c.cbu.mState = .allPMeasR) then
      { c with
        cbu := { c.cbu with
          errorFlags := if evtReserved e.recId &&& errFlagPmExt ≠ 0 then
            c.cbu.errorFlags ||| errFlagPmExt else c.cbu.errorFlags
          tH1ExtT := e.phase } }.advance
    else { c with ret := some statusOutOfRange }

def Call.prInj (N : Numerics) (e : Action) (c : Call) : Call :=
  if c.cbu.transfer.mode < modeB2bFBeat then { c with ret := some c.status }
  else
    let c := c.noteOffset N e
    if e.For c.cbu.transfer ∧ c.cbu.mState = .allPMeasR then
      { c with
        cbu := { c.cbu with
          errorFlags := if evtReserved e.recId &&& errFlagPmInj ≠ 0 then
            c.cbu.errorFlags ||| errFlagPmInj else c.cbu.errorFlags
          tH1InjT :=
            { e.phase with
              ns := e.phase.ns - c.cbu.transfer.cPhase.ns
              ps := e.phase.ps - c.cbu.transfer.cPhase.ps } } }.advance
    else { c with ret := some statusOutOfRange }

/-- The event of the ECA; the machine does not run on other events or a timeout. -/
def Call.receive (N : Numerics) (e : Action) (c : Call) : Call :=
  if e.ecaAction = ecaStart then c.start N e
  else if e.ecaAction = ecaPrExt then c.prExt N e
  else if e.ecaAction = ecaPrInj then c.prInj N e
  else { c with ret := some c.status }

/-! ### States of the machine -/

def Call.send (c : Call) (e : Action) (s : Sending) (deadline evtId param : Long) (tef : Word) :
    Call :=
  { c with
    out := c.out ++
      [.sent (ebmWriteTM (e.clock (.checked s)) (e.clock (.rescheduled s)) deadline evtId param tef)] }

def Call.extTKickC (c : Call) : Call :=
  { c with locals := { c.locals with tTrig := { c.locals.tTrig with ns := c.cbu.transfer.tWantExt } } }

def Call.extPMeasS (e : Action) (c : Call) : Call :=
  let t := c.cbu.transfer
  { c with cbu := { c.cbu with tH1ExtT := ⟨0, 0, 0⟩ } }.send e .pmExt (t.tCbs + pmOffset)
    (buildEvtidV1 t.gid ecaPmExt t.flagsExt t.sidExt t.bpidExt 0)
    (t.tH1Ext &&& 0x000fffffffffffff ||| (t.nGExt &&& 0xff).setWidth 64 <<< 56 |||
      (t.mode &&& 0xf).setWidth 64 <<< 52)
    (c.locals.cTrigExtUs.setWidth 32 <<< 16 ||| c.locals.cPhaseUs.setWidth 32)

def Call.injPMeasS (e : Action) (c : Call) : Call :=
  let t := c.cbu.transfer
  { c with cbu := { c.cbu with tH1InjT := ⟨0, 0, 0⟩ } }.send e .pmInj (t.tCbs + pmOffset + 1)
    (buildEvtidV1 t.gid ecaPmInj t.flagsInj t.sidExt t.bpidExt 0)
    (t.tH1Inj &&& 0x000fffffffffffff ||| (t.nGInj &&& 0xff).setWidth 64 <<< 56)
    (c.locals.cTrigInjUs.setWidth 32 <<< 16)

def Call.planB (c : Call) : Call :=
  { c with locals := { c.locals with tTrig := { c.locals.tTrig with ns := c.cbu.transfer.tWantExt } } }

def Call.cbuError (c : Call) : Call :=
  { c with cbu := { c.cbu with errorFlags := c.cbu.errorFlags ||| errFlagCbu } }

/-- The next positive zero crossing of the h=1 signal. -/
def Call.extTNextRfC (N : Numerics) (c : Call) : Call :=
  if c.cbu.errorFlags ≠ 0 then c.planB
  else
    let (status, tTrig) := N.calcExtTime c.cbu c.locals.tTrig
    let c := { c with locals := { c.locals with tTrig } }
    if status ≠ statusOk then c.planB.cbuError else c

/-- The time at which the phases of both machines match. -/
def Call.extTFBeatC (N : Numerics) (e : Action) (c : Call) : Call :=
  if c.cbu.errorFlags ≠ 0 then c.planB
  else
    let (status, tTrig, tBeat) :=
      N.calcPhaseMatch c.cbu (fun i => e.clock (.phaseMatch i)) c.locals.tTrig
    let c := { c with cbu := { c.cbu with tBeat }, locals := { c.locals with tTrig }, status }
    if status ≠ statusOk then c.planB.cbuError else c

def Call.extPShiftC (N : Numerics) (c : Call) : Call :=
  { c with cbu := { c.cbu with pShiftExt := N.phaseShiftExt c.cbu c.locals.tTrig } }

def Call.injPShiftC (N : Numerics) (c : Call) : Call :=
  { c with cbu := { c.cbu with pShiftInj := N.phaseShiftInj c.cbu c.locals.tTrig } }

def swapHalves (x : Word) : Word := (x &&& 0x0000ffff) <<< 16 ||| (x &&& 0xffff0000) >>> 16

def shiftParam (N : Numerics) (t : Transfer) (shift : B2bt) (period : Long) : Long :=
  (swapHalves (N.shiftDegree shift period)).setWidth 64 |||
    (swapHalves t.tPhaseShiftDds).setWidth 64 <<< 32

/-- The start bit of a phase shift, which lies in the field of the BPID. -/
def shiftStart : Long := 0x0000000000010000

/-- Request a phase shift at the extraction machine, and the shift back at the end. -/
def Call.extPShiftS (N : Numerics) (e : Action) (c : Call) : Call :=
  let t := c.cbu.transfer
  let evtId := buildEvtidV1 t.gid ecaPShiftExt t.flagsExt t.sidExt t.bpidExt 0 ||| shiftStart
  let param := shiftParam N t c.cbu.pShiftExt t.tH1Ext
  let c := c.send e .pShiftExt ((t.tCbs + kickOffsetMin) / 10000 * 10000) evtId param 0
  let c := c.send e .pShiftExtBack (t.tCbs + tDiagObs + kickOffsetMin) evtId (param ^^^ 0x8000) 0
  -- the trigger moves with the phase
  { c with
    locals := { c.locals with
      tTrig := { c.locals.tTrig with ns := c.locals.tTrig.ns + c.cbu.pShiftExt.ns } } }

/-- Request a phase shift at the injection machine, and the shift back at the end. -/
def Call.injPShiftS (N : Numerics) (e : Action) (c : Call) : Call :=
  let t := c.cbu.transfer
  let evtId := buildEvtidV1 t.gid ecaPShiftInj t.flagsInj t.sidInj t.bpidInj 0 ||| shiftStart
  let param := shiftParam N t c.cbu.pShiftInj t.tH1Inj
  let c := c.send e .pShiftInj ((t.tCbs + kickOffsetMin) / 10000 * 10000) evtId param 0
  c.send e .pShiftInjBack (t.tCbs + tDiagObs + kickOffsetMin) evtId (param ^^^ 0x8000) 0

/-- Trigger the extraction kicker. A late trigger is sent with an error flag. -/
def Call.extTrig (N : Numerics) (e : Action) (c : Call) : Call :=
  let t := c.cbu.transfer
  let sendGid := getTrigGid t.gid true
  if sendGid = gidInvalid then { c with ret := some statusOutOfRange }
  else
    let tTrigExt := c.locals.tTrig.ns + t.cTrigExt.ns
    let extTrigDone : Word := ((e.clock .trigDone).ns - t.tCbs).setWidth 32
    let c := if tTrigExt < (e.clock .trigExtLate).ns + commonLateLimit then c.cbuError else c
    c.send e .triggerExt tTrigExt
      (buildEvtidV1 sendGid ecaTriggerExt t.flagsExt t.sidExt t.bpidExt c.cbu.errorFlags) t.paramExt
      ((N.trigDoneUs extTrigDone).setWidth 32 <<< 16 ||| c.cbu.offsetPrrUs.setWidth 32)

def Call.injTrig (e : Action) (c : Call) : Call :=
  let t := c.cbu.transfer
  let sendGid := getTrigGid t.gid false
  if sendGid = gidInvalid then { c with ret := some statusOutOfRange }
  else
    let tTrigInj := c.locals.tTrig.ns + t.cTrigInj.ns
    if tTrigInj < (e.clock .trigInjLate).ns + commonLateLimit then c.cbuError
    else
      c.send e .triggerInj tTrigInj
        (buildEvtidV1 sendGid ecaTriggerInj t.flagsInj t.sidInj t.bpidInj c.cbu.errorFlags)
        t.paramInj 0

/-- What is done in each state, in the order in which the handler looks at them. -/
def miniFsm (N : Numerics) (e : Action) : List (MState × (Call → Call)) :=
  [(.extTKickC, Call.extTKickC), (.extPMeasS, Call.extPMeasS e), (.injPMeasS, Call.injPMeasS e),
    (.extTNextRfC, Call.extTNextRfC N), (.extTFBeatC, Call.extTFBeatC N e),
    (.extPShiftC, Call.extPShiftC N), (.injPShiftC, Call.injPShiftC N),
    (.extPShiftS, Call.extPShiftS N e), (.injPShiftS, Call.injPShiftS N e),
    (.extTrig, Call.extTrig N e), (.injTrig, Call.injTrig e)]

/-- `if (mState == ..) {..}`, with the step to the next state at the end. -/
def Call.inState (c : Call) (b : MState × (Call → Call)) : Call :=
  if c.ret = none ∧ c.cbu.mState = b.1 then
    let c := b.2 c
    if c.ret = none then c.advance else c
  else c

def Call.finish (e : Action) (c : Call) : Call :=
  if c.ret = none then
    let cbu :=
      if c.cbu.flagClearAllSid then { c.cbu with sets := clearAllSid, flagClearAllSid := false }
      else c.cbu
    let status := if c.status = statusOk ∧ e.flagIsLate then statusLateMessage else c.status
    { c with cbu, ret := some (if e.wrBadSync then statusWrBadSync else status) }
  else c

def Call.enter (s : Cbu) (e : Action) : Call :=
  { cbu := s, locals := e.locals, status := e.actStatus, ret := none, out := [] }

/-- The event, and the states of the machine after it. -/
def Call.handle (N : Numerics) (e : Action) (c : Call) : Call :=
  (miniFsm N e).foldl Call.inState (c.receive N e)

/-- `doActionOperation`, without statistics about the event. -/
def doActionOperation (N : Numerics) (s : Cbu) (e : Action) : Call :=
  ((Call.enter s e).handle N e).finish e

/-! ### Runs -/

/-- What happens to the unit, in any order: the host writes registers, commands, state changes
of the firmware, and calls of the handler. -/
inductive Event where
  | write (r : Register) (value : Word)
  | confSubmit
  | confClear
  | configure
  | enterOperation
  | action (e : Action)

/-- `extern_entryActionOperation` clears what the pointers to the set values point to. -/
def Shared.clear (shared : Shared) : Shared := fun r => if r = .nBuckInj then shared r else 0

def Cbu.event (N : Numerics) (s : Cbu) : Event → Cbu × List Output
  | .write r value => ({ s with shared := Function.update s.shared r value }, [])
  | .confSubmit => ({ s with sets := (setSubmit s.shared s.sets).2 }, [])
  | .confClear => ({ s with flagClearAllSid := true }, [])
  | .configure => ({ s with sets := clearAllSid, flagClearAllSid := false }, [])
  | .enterOperation => ({ s with shared := s.shared.clear }, [])
  | .action e => ((doActionOperation N s e).cbu, (doActionOperation N s e).out)

def Cbu.boot : Cbu where
  shared := fun _ => 0
  sets := clearAllSid
  flagClearAllSid := false
  transfer := ⟨0, 0, 0, 0, 0, 0, 0, ⟨0, 0, 0⟩, ⟨0, 0, 0⟩, ⟨0, 0, 0⟩, 0, 0, 0, 0, 0, 0, 0, 0, 0, 0, 0,
    0, 0, 0, 0, 0, 0, 0, 0⟩
  tBeat := 0
  offsetPrrUs := 0
  pShiftExt := ⟨0, 0, 0⟩
  pShiftInj := ⟨0, 0, 0⟩
  tH1ExtT := ⟨0, 0, 0⟩
  tH1InjT := ⟨0, 0, 0⟩
  nPhaseResult := 0
  nTransfer := 0
  transStat := 0
  mState := .unset
  errorFlags := 0

end B2b
