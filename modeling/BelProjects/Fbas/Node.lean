import BelProjects.Fbas.Messages

/-!
# FBAS nodes in operation

The part of `fbas.c` that runs in state 'op ready': the entry action, the handler of ECA
events and the rest of the do action.  A TX node forwards the PC event of its power
converter, an RX node collects the flags of all senders and puts them on the SCU bus.
Statistics, shared memory counters and console output are left out.
-/

namespace Fbas

inductive NodeType where
  | tx | rx | cm
  deriving DecidableEq, Repr

inductive OpMode where
  | default | test
  deriving DecidableEq, Repr

/-- A timing message written to the EB master, and the MAC address it goes to. -/
structure TimingMsg where
  dstMac : Long
  evtId : Long
  param : Long
  deadline : Long
  deriving DecidableEq, Repr

structure Node where
  nodeType : NodeType
  opMode : OpMode
  myMac : Long
  myIdx : BitVec 8
  myBic : BitVec 8
  bufMpsMsg : MsgBuf
  senders : Nat → BitVec 48
  mpsMsgCtrl : MsgCtrl
  mpsTask : Word
  /-- `dstNwAddr[DST_ADDR_EBM].mac`, and what the endpoint really uses. -/
  ebmMac : Long
  endpDstMac : Long
  /-- `dstNwAddr[DST_ADDR_RXNODE].mac`. -/
  rxMac : Long
  /-- Timing messages sent, the last one first. -/
  sent : List TimingMsg
  sbDiobs : Word
  /-- Static variables of `sbPutMpsFlags`. -/
  echoInitialized : Bool
  echoFlags : BitVec 16
  /-- Values written to the echo register of the DIOB cards, the last one first. -/
  echoWrites : List (BitVec 16)
  /-- Memory at address 0, read as an array of `mpsMsg_t`, and the entries written there. -/
  atNull : MsgBuf
  nullStores : List Nat

def broadcastMac : Long := 0xffffffffffff

def fbasFlgEid : Long := 0x1fcbfcb000000000
def fbasRegEid : Long := 0x1fcdfcd000000000

def tskTxMpsFlags : Word := 0x10000000
def tskTxMpsEvents : Word := 0x20000000
def tskMonitMpsTtl : Word := 0x40000000
def tskEvalMpsTtl : Word := 0x80000000
def tskRegComplete : Word := 0x01000000
def tskRegPerOver : Word := 0x02000000

def regReq : BitVec 4 := 0xF
def regRsp : BitVec 4 := 0xE

def tim52Ms : Long := 52000000

def nExtraMpsNok : Nat := 0

def Node.hasTask (s : Node) (tsk : Word) : Bool := s.mpsTask &&& tsk != 0

/-! ### Sending -/

def Node.setEndpDstAddr (s : Node) (mac : Long) : Node :=
  if s.ebmMac = mac then s else { s with endpDstMac := mac, ebmMac := mac }

def Node.ebmWriteTM (s : Node) (deadline evtId param : Long) : Node :=
  { s with sent := { dstMac := s.endpDstMac, evtId, param, deadline } :: s.sent }

def Node.ebmWriteTMs (s : Node) (deadline evtId param : Long) : Nat → Node
  | 0 => s
  | n + 1 => (s.ebmWriteTM deadline evtId param).ebmWriteTMs deadline evtId param n

/-- `now` is the reading of the clock; no ahead time is added. -/
def Node.msgRegisterNode (s : Node) (now nodeId : Long) (bicId : BitVec 8) (chId : BitVec 8)
    (flag : BitVec 4) : Node :=
  s.ebmWriteTM now fbasRegEid
    ((nodeId <<< 16) ||| (bicId.setWidth 64 <<< 8) ||| (chId.setWidth 64 <<< 4) ||| flag.setWidth 64)

def Node.msgSendPcEvent (s : Node) (now : Long) (idx : Nat) (evtId : Long) : Node :=
  if now ≤ s.mpsMsgCtrl.last then s
  else
    let msg := s.bufMpsMsg idx
    let s := s.ebmWriteTM msg.tsRx evtId msg.prot.param
    if msg.prot.flag = mpsFlagNok then s.ebmWriteTMs msg.tsRx evtId msg.prot.param nExtraMpsNok
    else s

def Node.msgSendPcFlag (s : Node) (now evtId : Long) : Node :=
  let deadline := if s.mpsMsgCtrl.last = 0 then now else s.mpsMsgCtrl.last + s.mpsMsgCtrl.period
  if deadline ≤ now then
    let s := s.ebmWriteTM now evtId (s.bufMpsMsg pcEventIdx).prot.param
    { s with mpsMsgCtrl := { s.mpsMsgCtrl with last := now } }
  else s

/-! ### Output -/

/-- `ioDriveOutput`, which returns before it looks at its arguments. -/
def Node.ioDriveOutput (s : Node) (_pBuf : Option Nat) (_bufIdx : Nat) : Node := s

/-- The loop of `clearError` over `n` entries. -/
def Node.clearError (s : Node) (buf : Option Nat) : Nat → Node
  | 0 => s
  | n + 1 => (s.clearError buf n).ioDriveOutput (buf.map (· + n)) n

/-- The ports are not driven. -/
theorem clearError_eq (s : Node) (buf : Option Nat) (n : Nat) : s.clearError buf n = s := by
  induction n with
  | zero => rfl
  | succ n ih => simp only [Node.clearError, Node.ioDriveOutput, ih]

def Node.writeDiobReg (s : Node) (data : BitVec 16) : Node :=
  if s.sbDiobs = 0 then s else { s with echoWrites := data :: s.echoWrites }

def Node.sbPutMpsFlags (s : Node) (data : BitVec 16) : Node :=
  if s.echoInitialized = false ∨ s.echoFlags ≠ data then
    { s with echoInitialized := true, echoFlags := data }.writeDiobReg data
  else s

/-! ### ECA events -/

inductive EcaAction where
  | timeout | newCycle | opMode | genEvt | tluEvt | wrEvt | wrFlg | nodeReg | other
  deriving DecidableEq, Repr

def EcaAction.ofTag (tag : Word) : EcaAction :=
  if tag = 0 then .timeout
  else if tag = 0x26 then .newCycle
  else if tag = 0x27 then .opMode
  else if tag = 0x42 then .genEvt
  else if tag = 0x43 then .tluEvt
  else if tag = 0x24 then .wrEvt
  else if tag = 0x25 then .wrFlg
  else if tag = 0x45 then .nodeReg
  else .other

/-- Result of a poll of the ECA queue: the action tag, 0 for a timeout, the data of the
event, and the readings of the clock while it is handled. -/
structure EcaEvent where
  tag : Word
  deadline : Long
  evtId : Long
  param : Long
  now : Long
  sendTime : Long
  deriving DecidableEq, Repr

def EcaEvent.action (e : EcaEvent) : EcaAction := .ofTag e.tag

/-- `msgForceHigh` on the buffer that `head` points to. -/
def Node.forceHigh (s : Node) : Option Nat → Node
  | some base => { s with bufMpsMsg := msgForceHigh s.bufMpsMsg base nMaxTxNodes }
  | none =>
      { s with
        atNull := msgForceHigh s.atNull 0 nMaxTxNodes
        nullStores := List.range nMaxTxNodes ++ s.nullStores }

/-- The branch `FBAS_AUX_NEWCYCLE`. -/
def Node.handleNewCycle (s : Node) (head : Option Nat) (e : EcaEvent) : Node :=
  match s.nodeType with
  | .tx =>
      let s := s.forceHigh head
      { s with
        mpsMsgCtrl := msgInitMsgCtrl s.mpsMsgCtrl (BitVec.ofNat 8 nMpsChannels) (e.now + tim52Ms)
          33333 }
  | .rx => (s.forceHigh head).clearError head nMaxMpsChannels
  | .cm => s

/-- `qualifyInput` and `testOutput` have empty bodies. -/
def Node.handleOpMode (s : Node) (e : EcaEvent) : Node :=
  { s with opMode := if e.param ≠ 0 then .test else .default }

/-- The branch `FBAS_GEN_EVT`, with the new value of the buffer pointer. -/
def Node.handleGenEvt (s : Node) (head : Option Nat) (e : EcaEvent) : Option Nat × Node :=
  match s.nodeType with
  | .tx =>
      let s := { s with bufMpsMsg := msgStorePcEvent s.bufMpsMsg e.evtId e.deadline }
      if s.hasTask tskTxMpsEvents then
        let mac :=
          if s.hasTask tskRegComplete = false ∨
              (s.bufMpsMsg pcEventIdx).prot.flag = mpsFlagNok then broadcastMac
          else s.rxMac
        (some pcEventIdx, (s.setEndpDstAddr mac).msgSendPcEvent e.sendTime pcEventIdx
          (fbasFlgEid + s.myIdx.setWidth 64))
      else (some pcEventIdx, s)
  | _ => (head, s)

/-- The branches `FBAS_WR_EVT` and `FBAS_WR_FLG`. -/
def Node.handleMpsMsg (s : Node) (e : EcaEvent) : Node :=
  match s.nodeType with
  | .rx => { s with bufMpsMsg := (msgStoreMpsMsg s.bufMpsMsg e.param e.deadline s.mpsMsgCtrl).2 }
  | _ => s

def Node.handleNodeReg (s : Node) (e : EcaEvent) : Node :=
  if s.hasTask tskTxMpsEvents = false then s
  else
    let nodeId := e.param >>> 16
    match s.nodeType with
    | .rx =>
        if rawFlag e.param = regReq then
          match msgGetSenderIndex s.senders nodeId with
          | some idx =>
              ({ s with endpDstMac := nodeId }).msgRegisterNode e.sendTime s.myMac s.myBic
                (BitVec.ofNat 8 idx) regRsp
          | none => s
        else s
    | .tx =>
        if rawFlag e.param = regRsp then
          { s with
            rxMac := nodeId
            myIdx := (rawCh e.param).setWidth 8
            bufMpsMsg := msgInitPcEventBuf s.bufMpsMsg s.myMac (rawBic e.param)
              ((rawCh e.param).setWidth 8)
            mpsTask := s.mpsTask ||| tskRegComplete }
        else s
    | .cm => s

/-- Handle a polled event; `head` is the caller's pointer to the message buffer. -/
def handleEcaEvent (s : Node) (head : Option Nat) (e : EcaEvent) : Option Nat × Node :=
  match e.action with
  | .newCycle => (none, s.handleNewCycle head e)
  | .opMode => (none, s.handleOpMode e)
  | .genEvt => s.handleGenEvt head e
  | .wrEvt | .wrFlg => (none, s.handleMpsMsg e)
  | .nodeReg => (none, s.handleNodeReg e)
  | .timeout | .tluEvt | .other => (none, s)

/-! ### State 'op ready' -/

/-- `extern_entryActionOperation`; `now` is the time a registration request is sent. -/
def entryActionOperation (s : Node) (now : Long) : Node :=
  let s :=
    if s.nodeType = .tx ∧ s.hasTask tskRegComplete = false then
      (s.setEndpDstAddr broadcastMac).msgRegisterNode now s.myMac 0xFF 0xF regReq
    else s
  { s with
    mpsTask := s.mpsTask ||| tskTxMpsFlags ||| tskTxMpsEvents ||| tskMonitMpsTtl
    mpsMsgCtrl := { s.mpsMsgCtrl with last := 0, ttl := 0 } }

/-- What one call of `doActionOperation` meets: the polled events, which of the timers
have expired, and the time at which a PC flag is sent. -/
structure Round where
  polls : List EcaEvent
  ttlExpired : Bool
  registrExpired : Bool
  sendTime : Long
  deriving DecidableEq, Repr

def handleEcaEvents (s : Node) (head : Option Nat) : List EcaEvent → Option Nat × Node
  | [] => (head, s)
  | e :: es => handleEcaEvents (handleEcaEvent s head e).2 (handleEcaEvent s head e).1 es

/-- The periodic timers are looked at after the events. -/
def Node.checkTimers (s : Node) (ttlExpired registrExpired : Bool) : Node :=
  let s :=
    if s.hasTask tskMonitMpsTtl && ttlExpired then { s with mpsTask := s.mpsTask ||| tskEvalMpsTtl }
    else s
  if registrExpired then { s with mpsTask := s.mpsTask ||| tskRegPerOver } else s

/-- Evaluate the lifetime of all messages and publish the flags. -/
def Node.evalMps (s : Node) : Node :=
  let s :=
    { s with
      mpsTask := s.mpsTask &&& ~~~tskEvalMpsTtl
      bufMpsMsg := evalMpsMsgs s.bufMpsMsg nMaxMpsChannels }
  s.sbPutMpsFlags ((msgRepresentMpsFlags s.bufMpsMsg nMaxTxNodes).setWidth 16)

/-- The end of `doActionOperation`, by node type. -/
def Node.doNodeAction (s : Node) (sendTime : Long) : Node :=
  match s.nodeType with
  | .tx =>
      if s.hasTask tskTxMpsFlags then
        if s.hasTask tskRegComplete = false then
          if s.hasTask tskRegPerOver then
            let s := { s with mpsTask := s.mpsTask &&& ~~~tskRegPerOver }
            (s.setEndpDstAddr broadcastMac).msgRegisterNode sendTime s.myMac 0xFF 0xF regReq
          else s
        else
          (s.setEndpDstAddr s.rxMac).msgSendPcFlag sendTime (fbasFlgEid + s.myIdx.setWidth 64)
      else s
  | .rx => if s.hasTask tskEvalMpsTtl then s.evalMps else s
  | .cm => s

def doActionOperation (s : Node) (r : Round) : Node :=
  ((handleEcaEvents s (some 0) r.polls).2.checkTimers r.ttlExpired r.registrExpired).doNodeAction
    r.sendTime

/-! ### Concrete nodes -/

/-- An RX node with one registered sender, which has sent nothing yet. -/
def sampleRx : Node :=
  { nodeType := .rx, opMode := .default, myMac := 0x00267b000001, myIdx := 0, myBic := 0
    bufMpsMsg := fun i =>
      { prot := { addr := if i = 0 then 0x00267b000002 else 0, bicId := 0
                  chId := BitVec.ofNat 4 i, flag := mpsFlagOk }
        tsRx := 0, ttl := 0, pending := 0 }
    senders := fun i => if i = 0 then 0x00267b000002 else 0
    mpsMsgCtrl := { total := 1, last := 0, period := 33333000, ttl := 101 }
    mpsTask := 0, ebmMac := broadcastMac, endpDstMac := broadcastMac, rxMac := 0, sent := []
    sbDiobs := 2, echoInitialized := false, echoFlags := 0xff, echoWrites := []
    atNull := fun _ => ⟨⟨0, 0, 0, 0⟩, 0, 0, 0⟩, nullStores := [] }

def sampleMsg (flag : BitVec 4) (ts : Long) : EcaEvent :=
  { tag := 0x25, deadline := ts, evtId := fbasFlgEid
    param := (0x00267b000002#48 ++ 0#8 ++ 0#4 ++ flag), now := ts, sendTime := ts }

end Fbas
