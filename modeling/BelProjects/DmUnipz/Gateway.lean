import BelProjects.DmUnipz.DataMasterAccess

/-!
# The UNILAC gateway

The Data Master asks the gateway for the transfer channel and for beam.  The gateway passes the
requests on to UNIPZ over a device bus, waits for `EVT_READY_TO_SIS`, starts a thread in the
Data Master and ends the wait of a block there.

What a call meets (outcomes of bus operations, readings of the clock, answers of the Data
Master) is data.  A polling loop meets the list of what it reads until its time is over.
-/

namespace DmUnipz

open DataMaster

/-! ### Constants -/

def statusReqTkFailed : Word := 16
def statusReqTkTimeout : Word := 17
def statusReqBeamFailed : Word := 18
def statusRelBeamFailed : Word := 20
def statusDevBusError : Word := 21
def statusReqNotOk : Word := 22
def statusReqBeamTimedOut : Word := 23
def statusSafetyMargin : Word := 25
def statusNoTimestamp : Word := 26
def statusBadTimestamp : Word := 27
def statusLateEvent : Word := 29
def statusDmTimeout : Word := 31
def statusBadSync : Word := 32
def statusWait4UniEvent : Word := 33
def statusBadScheduleA : Word := 34
def statusBadScheduleB : Word := 35
def statusDelayedEvent : Word := 39

def ecaDoTimeout : Word := 0
def ecaDoReady2Sis : Word := 6

def transReqTk : Word := 0
def transReqTkOk : Word := 1
def transRelTk : Word := 2
def transReqBeam : Word := 3
def transReqBeamOk : Word := 4
def transRelBeam : Word := 5
def transPrepBeam : Word := 6
def transUnprepBeam : Word := 7

def commonAheadT : Long := 500000
/-- `DMUNIPZ_DMTIMEOUT`, in ns. -/
def dmTimeout : Long := 9000 * 1000000
def matchWindow : Long := 200000
def offsetInject : Long := 9980000

/-! ### The device bus -/

/-- `WriteToPZU_Type`: what UNIPZ sees of the gateway. -/
structure WriteToPzu where
  sisPrepReq : Bool
  reqNoBeam : Bool
  reqNotOkAck : Bool
  sisRequest : Bool
  tkRequest : Bool
  sisAccSelect : BitVec 4
  deriving DecidableEq, Repr

/-- `uword = 0x0` -/
def WriteToPzu.zero : WriteToPzu := ⟨false, false, false, false, false, 0⟩

/-- `ReadFromPZU_Type`, as far as it is looked at. -/
structure ReadFromPzu where
  reqNotOk : Bool
  sisReqAck : Bool
  tkReqAck : Bool
  deriving DecidableEq, Repr

/-- Outcomes of `writeToPZU`: an error of the bus when the module is selected or when the data
are written. -/
inductive BusWrite where
  | ok | addressFailed | dataFailed
  deriving DecidableEq, Repr

abbrev BusRead := Option ReadFromPzu

abbrev MilCtrl := Word

def milEvFilterOn : MilCtrl := 0x2000

def enableFilterEvtMil (regValue : MilCtrl) : MilCtrl := regValue ||| milEvFilterOn

def disableFilterEvtMil (regValue : MilCtrl) : MilCtrl := regValue &&& milEvFilterOn

/-- What the gateway does: data words for UNIPZ and whether the bus has acknowledged them,
writes of the control register of the MIL piggy, and writes to the Data Master. -/
inductive Output where
  | pzu (w : WriteToPzu) (ack : Bool)
  | mil (regValue : MilCtrl)
  | dm (w : EbmWrite)
  deriving DecidableEq

/-- A function that talks to UNIPZ: its status, the word `writePZUData`, what it does. -/
structure PzuCall where
  status : Word
  data : WriteToPzu
  out : List Output

def writeToPzu (w : WriteToPzu) : BusWrite → List Output
  | .ok => [.pzu w true]
  | .addressFailed => []
  | .dataFailed => [.pzu w false]

/-- What a polling loop reads until its time is over. -/
def poll (decide : ReadFromPzu → Option Word) (timedOut : Word) : List BusRead → Word
  | [] => timedOut
  | none :: _ => statusDevBusError
  | some r :: rs => (decide r).getD (poll decide timedOut rs)

/-- A request of UNIPZ: one write and a polling loop. -/
structure Request where
  write : BusWrite
  polls : List BusRead

def Request.run (x : Request) (data : WriteToPzu) (decide : ReadFromPzu → Option Word)
    (timedOut : Word) : PzuCall where
  status := if x.write = .ok then poll decide timedOut x.polls else statusDevBusError
  data := data
  out := writeToPzu data x.write

/-- What `checkClearReqNotOk` meets. -/
structure ClearReq where
  first : BusRead
  ack : BusWrite
  polls : List BusRead
  unack : BusWrite

/-- The loop of `checkClearReqNotOk` has seen the flag go. -/
def ClearReq.cleared : List BusRead → Option Bool
  | [] => some false
  | none :: _ => none
  | some r :: rs => if r.reqNotOk then cleared rs else some true

def checkClearReqNotOk (x : ClearReq) (data : WriteToPzu) : PzuCall :=
  match x.first with
  | none => ⟨statusDevBusError, data, []⟩
  | some r =>
      if r.reqNotOk then
        let data := { WriteToPzu.zero with reqNotOkAck := true }
        let out := writeToPzu data x.ack
        if x.ack = .ok then
          match ClearReq.cleared x.polls with
          | none => ⟨statusDevBusError, data, out⟩
          | some false => ⟨statusReqNotOk, data, out⟩
          | some true =>
              let data := { data with reqNotOkAck := false }
              ⟨statusReqNotOk, data, out ++ writeToPzu data x.unack⟩
        else ⟨statusDevBusError, data, out⟩
      else ⟨statusOk, data, []⟩

def requestTk (x : Request) (virtAcc : BitVec 4) (dryRunFlag : Bool) : PzuCall :=
  x.run { WriteToPzu.zero with tkRequest := true, sisAccSelect := virtAcc, reqNoBeam := dryRunFlag }
    (fun r =>
      if r.tkReqAck then some statusOk else if r.reqNotOk then some statusReqTkFailed else none)
    statusReqTkTimeout

def writeOnly (x : BusWrite) (data : WriteToPzu) : PzuCall where
  status := if x = .ok then statusOk else statusDevBusError
  data := data
  out := writeToPzu data x

def releaseTk (x : BusWrite) (data : WriteToPzu) : PzuCall :=
  writeOnly x { data with tkRequest := false }

def requestBeam (x : Request) (dryRunFlag : Bool) (data : WriteToPzu) : PzuCall :=
  x.run { data with sisRequest := true, reqNoBeam := dryRunFlag }
    (fun r =>
      if r.sisReqAck then some statusOk else if r.reqNotOk then some statusReqBeamFailed else none)
    statusReqBeamTimedOut

def releaseBeam (x : Request) (data : WriteToPzu) : PzuCall :=
  x.run { data with sisRequest := false, reqNoBeam := false }
    (fun r => if r.sisReqAck then none else some statusOk) statusRelBeamFailed

def prepareBeam (x : BusWrite) (data : WriteToPzu) : PzuCall :=
  writeOnly x { data with sisPrepReq := true }

def unprepareBeam (x : BusWrite) (data : WriteToPzu) : PzuCall :=
  writeOnly x { data with sisPrepReq := false }

/-! ### Events and what they meet -/

structure EcaEvent where
  ecaDeadline : Long
  ecaEvtId : Long
  ecaParam : Long
  flagLate : Bool
  flagDelayed : Bool

/-- The places at which a beam request reads the system time. -/
inductive Reading where
  | cmdValid | window | noMilEvent | ahead | sacrifice | timeout
  deriving DecidableEq, Repr

structure BeamMeets where
  clock : Reading → Long
  /-- The first and the second try to read the block. -/
  reads : EbmReads
  reads2 : EbmReads
  request : Request
  /-- The event was found in the FIFO of the MIL piggy. -/
  milEvent : Bool
  /-- The action of the ECA after it, and its deadline. -/
  ecaInjAction : Word
  ecaInjDeadline : Long
  release : Request
  unprepare : BusWrite
  clear : ClearReq

inductive Event where
  | reqTk (e : EcaEvent) (x : Request) (clear : ClearReq)
  | prepBeam (e : EcaEvent) (x : BusWrite)
  /-- `CMD_UNI_BREQ`, or `CMD_UNI_BREQ_NOWAIT` -/
  | reqBeam (nowait : Bool) (e : EcaEvent) (x : BeamMeets)
  | relTk (e : EcaEvent) (x : BusWrite) (clear : ClearReq)
  | mbTrigger (e : EcaEvent)
  | ready2Sis (e : EcaEvent)
  /-- Any other action, or a timeout. -/
  | other (syncState : Word)
  /-- Commands of the host. -/
  | cmdReleaseTk (x : BusWrite)
  | cmdReleaseBeam (x : Request) (unprepare : BusWrite)
  /-- The entry action of state configured, with the value of a register. -/
  | configure (clear : ClearReq) (x : BusWrite) (thrdOffset : Word) (regValue : MilCtrl)
  /-- The exit action of state operation. -/
  | exitOperation

structure Gateway where
  writePzuData : WriteToPzu
  milCtrl : MilCtrl
  dmCmds : DmComm
  dmThrs : DmThrd
  thrdOffset : Word
  flagTkReq : Bool
  tReady2Sis : Long
  tBreq : Long
  statusTransfer : Word
  nTransfer : Word
  nMulti : Word
  nBoost : Word

def Gateway.boot (regValue : MilCtrl) : Gateway where
  writePzuData := .zero
  milCtrl := regValue
  dmCmds := ⟨0, 0, fun _ => 0, 0, 0⟩
  dmThrs := ⟨0, 0, 0, 0, 0, 0, 0, 0⟩
  thrdOffset := 0
  flagTkReq := false
  tReady2Sis := 0
  tBreq := 0
  statusTransfer := 0
  nTransfer := 0
  nMulti := 0
  nBoost := 0

/-- A call: its status, the gateway and what it has done. -/
structure Result where
  status : Word
  gateway : Gateway
  out : List Output

def Gateway.transfer (g : Gateway) (bit : Word) : Gateway :=
  { g with statusTransfer := g.statusTransfer ||| 1#32 <<< bit }

def Gateway.transferIf (g : Gateway) (status bit : Word) : Gateway :=
  if status = statusOk then g.transfer bit else g

def dryRun (e : EcaEvent) : Bool := e.ecaEvtId &&& 0x10 ≠ 0

/-! ### Requests for the transfer channel -/

def Gateway.reqTk (g : Gateway) (e : EcaEvent) (x : Request) (clear : ClearReq) : Result :=
  if e.flagLate then ⟨statusLateEvent, g, []⟩
  else
    let tk := requestTk x (e.ecaEvtId.setWidth 4) (dryRun e)
    let clr := checkClearReqNotOk clear tk.data
    let g :=
      { g with
        dmCmds := { g.dmCmds with dynpar := e.ecaParam.setWidth 32 }
        writePzuData := clr.data
        statusTransfer := 1#32 <<< transReqTk
        nTransfer := g.nTransfer + 1
        nMulti := 0
        nBoost := 0
        flagTkReq := true }
    ⟨tk.status, g.transferIf tk.status transReqTkOk, tk.out ++ clr.out⟩

def Gateway.prepBeam (g : Gateway) (e : EcaEvent) (x : BusWrite) : Result :=
  if e.flagLate then ⟨statusLateEvent, g, []⟩
  else
    let p := prepareBeam x g.writePzuData
    ⟨p.status, { g with writePzuData := p.data }.transferIf p.status transPrepBeam, p.out⟩

def Gateway.relTk (g : Gateway) (actStatus : Word) (x : BusWrite) (clear : ClearReq) : Result :=
  let tk := releaseTk x g.writePzuData
  let clr := checkClearReqNotOk clear tk.data
  let g :=
    { g with
      dmCmds := dmClearCmd g.dmCmds
      writePzuData := clr.data
      flagTkReq := false }
  ⟨actStatus, g.transfer transRelTk, tk.out ++ clr.out⟩

/-! ### Requests for beam -/

/-- The flush command for the waiting block, with a second try after a lost packet: the status,
the record and whether there was a second try. -/
def prepFlush (B : Build) (x : BeamMeets) (c : DmComm) : Word × DmComm × Bool :=
  let first := dmPrepCmdCommon B x.reads c prioHi true (x.clock .cmdValid)
  let flagEbTimeout := decide (first.1 = statusEbReadTimedOut)
  let (dmStatus, c) :=
    if flagEbTimeout then dmPrepCmdCommon B x.reads2 first.2 prioHi true (x.clock .cmdValid)
    else first
  if dmStatus ≠ statusOk then (dmStatus, c, flagEbTimeout)
  else
    let c := dmPrepCmdFlush c
    (dmCheckCmd c, c, flagEbTimeout)

structure Injection where
  status : Word
  flagMilEvtValid : Bool
  flagNoCmd : Bool
  tReady2Sis : Long

/-- Request beam and wait for `EVT_READY_TO_SIS`. -/
def awaitInjection (x : BeamMeets) (requested : Word) : Injection :=
  if requested ≠ statusOk then ⟨requested, false, false, 0⟩
  else if x.milEvent = false then ⟨statusWait4UniEvent, false, false, 0⟩
  else if x.ecaInjAction = ecaDoReady2Sis then
    if x.clock .window - x.ecaInjDeadline < matchWindow then
      ⟨statusOk, true, false, x.ecaInjDeadline⟩
    else ⟨statusBadTimestamp, false, false, x.ecaInjDeadline⟩
  -- without an event the wait clears the deadline
  else if x.ecaInjAction = ecaDoTimeout then ⟨statusNoTimestamp, false, false, 0⟩
  else ⟨statusBadScheduleB, false, true, x.ecaInjDeadline⟩

/-- What the gateway makes of it: the start time of the thread, the status and `flagNoCmd`. -/
structure Decision where
  tCmdThrd : Long
  status : Word
  flagNoCmd : Bool

def analyse (x : BeamMeets) (thrdOffset : Word) (tDmTimeout : Long) (i : Injection) : Decision :=
  let offset : Long := thrdOffset.setWidth 64
  let tCmdThrd := if i.flagMilEvtValid then i.tReady2Sis + offset else x.clock .noMilEvent + offset
  let near : Bool := tCmdThrd < x.clock .ahead + 2 * commonAheadT
  let late : Bool := tDmTimeout < x.clock .timeout
  { tCmdThrd := if near then x.clock .sacrifice + offset else tCmdThrd
    status :=
      if late then statusDmTimeout else if near then statusSafetyMargin else i.status
    flagNoCmd := late || i.flagNoCmd }

def DmThrd.load (t : DmThrd) (e : EcaEvent) : DmThrd :=
  { t with
    dynpar := (e.ecaParam >>> 32).setWidth 32
    cpuIdx := ((e.ecaParam >>> 8) &&& 0xff).setWidth 32
    thrIdx := (e.ecaParam &&& 0xff).setWidth 32 }

def send (flagBooster : Bool) (d : Decision) (t : DmThrd) (c : DmComm) : List EbmWrite :=
  if d.flagNoCmd then []
  else
    (if d.status = statusOk then dmStartThread t else []) ++
      (if flagBooster then [] else dmChangeBlock c)

def timed (flagBooster : Bool) (d : Decision) (c : DmComm) : DmComm :=
  if d.flagNoCmd ∨ flagBooster then c else dmSetTValidCmdCommon c (d.tCmdThrd - 1000000)

/-- The end of a beam request: beam is released and the MIL piggy un-armed. -/
def Gateway.release (g : Gateway) (x : BeamMeets) (status : Word) (flagEbTimeout : Bool) : Result :=
  let rel := releaseBeam x.release g.writePzuData
  let unprep := unprepareBeam x.unprepare rel.data
  let clr := checkClearReqNotOk x.clear unprep.data
  let milCtrl := disableFilterEvtMil g.milCtrl
  let g := { g with writePzuData := clr.data, milCtrl }
  let g := ((g.transfer transRelBeam).transfer transUnprepBeam).transferIf status transReqBeamOk
  ⟨if status = statusOk ∧ flagEbTimeout then statusEbReadTimedOut else status, g,
    rel.out ++ unprep.out ++ clr.out ++ [.mil milCtrl]⟩

/-- A beam request from the arming of the MIL piggy on. -/
def Gateway.armed (B : Build) (g : Gateway) (flagBooster : Bool) (e : EcaEvent) (x : BeamMeets)
    (flagEbTimeout : Bool) : Result :=
  let milCtrl := enableFilterEvtMil g.milCtrl
  let req := requestBeam x.request (dryRun e) g.writePzuData
  let i := awaitInjection x req.status
  let d := analyse x g.thrdOffset (e.ecaDeadline + dmTimeout) i
  let t := dmPrepThrStart B g.dmThrs d.tCmdThrd
  let g := { g with writePzuData := req.data, milCtrl, dmThrs := t, tReady2Sis := i.tReady2Sis }
  let g := g.transfer transReqBeam
  let out := .mil milCtrl :: req.out
  if dmCheckThr t ≠ statusOk then ⟨dmCheckThr t, g, out⟩
  else
    let c := timed flagBooster d g.dmCmds
    let rel := { g with dmCmds := c }.release x d.status flagEbTimeout
    { rel with out := out ++ (send flagBooster d t c).map .dm ++ rel.out }

/-- A beam request up to the preparation of commands. -/
def Gateway.openRequest (g : Gateway) (flagBooster : Bool) (e : EcaEvent) : Gateway :=
  { g with
    nBoost := if flagBooster then g.nBoost + 1 else g.nBoost
    nMulti := if flagBooster then g.nMulti else g.nMulti + 1
    dmThrs := (dmClearThr g.dmThrs).load e
    tBreq := e.ecaDeadline
    tReady2Sis := 0 }

def Gateway.reqBeam (B : Build) (g : Gateway) (flagBooster : Bool) (e : EcaEvent) (x : BeamMeets) :
    Result :=
  if e.flagLate then ⟨statusLateEvent, g, []⟩
  else if e.flagDelayed ∧ flagBooster then
    ⟨statusDelayedEvent,
      { g with nBoost := g.nBoost + 1, dmThrs := dmClearThr g.dmThrs }, []⟩
  else
    let g := g.openRequest flagBooster e
    if flagBooster then g.armed B true e x false
    else
      let (dmStatus, c, flagEbTimeout) := prepFlush B x g.dmCmds
      let g := { g with dmCmds := c }
      if dmStatus ≠ statusOk then ⟨dmStatus, g, []⟩ else g.armed B false e x flagEbTimeout

/-! ### The other events -/

def Gateway.mbTrigger (g : Gateway) (actStatus : Word) (e : EcaEvent) : Word :=
  let dtSync1 : Long := if g.tReady2Sis = 0 then 0xffffffffffffffff else e.ecaDeadline - g.tReady2Sis
  let dtInject : Long := if g.tBreq = 0 then 0xfffffffffffffff else e.ecaDeadline - g.tBreq
  if actStatus = statusOk ∧ g.flagTkReq then
    if dtInject < offsetInject + matchWindow then statusBadScheduleA
    else if dtSync1 < offsetInject - matchWindow ∨ offsetInject + matchWindow < dtSync1 then
      statusBadSync
    else actStatus
  else actStatus

/-- `doActionOperation`, the commands of the host, and the changes of state. -/
def Gateway.event (B : Build) (g : Gateway) (actStatus : Word) : Event → Result
  | .reqTk e x clear => g.reqTk e x clear
  | .prepBeam e x => g.prepBeam e x
  | .reqBeam nowait e x => g.reqBeam B nowait e x
  | .relTk _ x clear => g.relTk actStatus x clear
  | .mbTrigger e => ⟨g.mbTrigger actStatus e, g, []⟩
  | .ready2Sis _ => ⟨actStatus, g, []⟩
  | .other syncState => ⟨syncState, g, []⟩
  | .cmdReleaseTk x =>
      let p := releaseTk x g.writePzuData
      ⟨actStatus, { g with writePzuData := p.data }.transfer transRelTk, p.out⟩
  | .cmdReleaseBeam x unprepare =>
      let rel := releaseBeam x g.writePzuData
      let unprep := unprepareBeam unprepare rel.data
      ⟨actStatus, ({ g with writePzuData := unprep.data }.transfer transRelBeam).transfer
        transUnprepBeam, rel.out ++ unprep.out⟩
  | .configure clear x thrdOffset regValue =>
      let clr := checkClearReqNotOk clear g.writePzuData
      ⟨actStatus, { g with writePzuData := .zero, thrdOffset, milCtrl := regValue },
        clr.out ++ writeToPzu .zero x⟩
  | .exitOperation =>
      let milCtrl := disableFilterEvtMil g.milCtrl
      ⟨actStatus, { g with milCtrl }, [.mil milCtrl]⟩

end DmUnipz
