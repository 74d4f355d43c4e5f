import BelProjects.DataMaster.Firmware.Cpu

/-!
# Execution of queued commands

The action handlers of `dm.c`.  Each gets the block `node`, the queue element `cmd`
and the record of the executing thread and returns the successor of the block.
-/

namespace DataMaster

variable (P : Platform)

def dummyActionFunc (s : Cpu) (_node _cmd _thrData : Word) : Word × Cpu :=
  (lm32NullPtr, s.setStatus P shctlStatusBadActTypeSmsk)

def execNoop (s : Cpu) (node _cmd _thrData : Word) : Word × Cpu :=
  (P.defDest s.mem node, s)

def execFlow (s : Cpu) (node cmd _thrData : Word) : Word × Cpu :=
  let ret := P.ld s.mem (cmd + tCmdFlowDest)
  if P.ld s.mem (cmd + tCmdAct) &&& actChpSmsk ≠ 0 then
    (ret, s.st P (node + nodeDefDestPtr) ret)
  else (ret, s)

/-- New read indices after a flush: the write index of every flushed queue, less one
where the flushing command itself is popped afterwards. -/
def flushRdIdxs (flushees flusher : BitVec 8) (wrIdxs : Word) : List Nat → Word → Word
  | [], rdIdxs => rdIdxs
  | prio :: prios, rdIdxs =>
      flushRdIdxs flushees flusher wrIdxs prios
        (if flushees &&& (1#8 <<< prio) ≠ 0 then
          setIdxByte rdIdxs prio
            ((idxByte wrIdxs prio - (if flusher &&& (1#8 <<< prio) ≠ 0 then 1 else 0))
              &&& qIdxMaxOvfMsk)
        else rdIdxs)

def execFlush (s : Cpu) (node cmd _thrData : Word) : Word × Cpu :=
  let action := P.ld s.mem (cmd + tCmdAct)
  let flushees := ((action >>> actFlushPrioPos) &&& actFlushPrioMsk).setWidth 8
  let flusher := 1#8 <<< ((action >>> actPrioPos) &&& actPrioMsk).toNat
  let wrIdxs := P.ld s.mem (node + blockCmdqWrIdxs) &&& blockCmdqIdxsSmsk
  let rdIdxs := P.ld s.mem (node + blockCmdqRdIdxs) &&& blockCmdqIdxsSmsk
  let s := s.st P (node + blockCmdqRdIdxs)
    (flushRdIdxs flushees flusher wrIdxs [prioLo, prioHi, prioIl] rdIdxs)
  let ret := P.ld s.mem (cmd + tCmdFlushOvr)
  if ret ≠ lm32NullPtr then
    -- the override replaces the successor, permanently if the command says so
    if P.ld s.mem (cmd + tCmdAct) &&& actChpSmsk ≠ 0 then
      (ret, s.st P (node + nodeDefDestPtr) ret)
    else (ret, s)
  else (P.defDest s.mem node, s)

def execWait (s : Cpu) (node cmd thrData : Word) : Word × Cpu :=
  let tWait := P.ld64 s.mem (cmd + tCmdWaitTime) - P.ld64 s.mem (node + blockPeriod)
  let act := P.ld s.mem (cmd + tCmdAct)
  let s :=
    if act &&& actWaitAbsSmsk ≠ 0 then
      -- an absolute wait replaces the time sum, unless it lies in the past
      let (now, s) := s.getSysTime
      if now < tWait then s.st64 P (thrData + tTdCurrtime) tWait
      else s.st P badwaitcntPtr (P.ld s.mem badwaitcntPtr + 1)
    else if act &&& actChpSmsk ≠ 0 then
      s.st64 P (node + blockPeriod) (P.ld64 s.mem (cmd + tCmdWaitTime))
    else
      s.st64 P (thrData + tTdCurrtime) (P.ld64 s.mem (thrData + tTdCurrtime) + tWait)
  (P.defDest s.mem node, s)

def actionFuncs : ActType → Cpu → Word → Word → Word → Word × Cpu
  | .unknown => dummyActionFunc P
  | .noop => execNoop P
  | .flow => execFlow P
  | .flush => execFlush P
  | .wait => execWait P

end DataMaster

/-!
## Node handlers and deadline functions

The handlers of `dm.c`: each executes the node at a thread's cursor and returns the
thread's next node.  `block` is cut into the scan of the queues, the choice it makes
after the scan and the service of the chosen command, because the loop variables of
the scan are used after it.  `none` stands for a step C does not define: a pointer
that was never set, or a call through an empty or missing table entry.
-/

namespace DataMaster

variable (P : Platform)

/-! ### Unsupported nodes -/

def nodeNull (s : Cpu) (_node _thrData : Word) : Word × Cpu := (lm32NullPtr, s)

def dummyNodeFunc (s : Cpu) (node thrData : Word) : Word × Cpu :=
  nodeNull (s.setStatus P shctlStatusBadNodeTypeSmsk) node thrData

def deadlineNull (s : Cpu) (_node _thrData : Word) : Time × Cpu := (-1, s)

def dummyDeadlineFunc (s : Cpu) (node thrData : Word) : Time × Cpu :=
  deadlineNull (s.setStatus P shctlStatusBadNodeTypeSmsk) node thrData

/-! ### Timing messages -/

def diagPqMsgCnt : Time := 0x0FA62F9000000000

/-- Statistics on the lead `diff` of a message over its deadline, taken at time
`now`. All comparisons are signed. -/
def tmsgDiagnostics (s : Cpu) (node : Word) (diff now : Time) : Cpu :=
  let diffsum := P.ld64 s.mem diffsumPtr
  let sum := diff + diffsum
  let overflow : Bool :=
    ((0#64).sle diff && (0#64).sle diffsum && sum.slt 0) ||
      (diff.slt 0 && diffsum.slt 0 && (0#64).sle sum)
  let s := s.st64 P diffsumPtr (if overflow then diff else diffsum + diff)
  let diffmin := P.ld64 s.mem diffminPtr
  let s := s.st64 P diffminPtr (if diff.slt diffmin then diff else diffmin)
  let diffmax := P.ld64 s.mem diffmaxPtr
  let s := s.st64 P diffmaxPtr (if diffmax.slt diff then diff else diffmax)
  let s := s.st64 P countPtr (if overflow then 0 else P.ld64 s.mem countPtr)
  let late := diff.slt (P.ld64 s.mem diffwthPtr)
  let s := s.st P diffwcntPtr (P.ld s.mem diffwcntPtr + (if late then 1 else 0))
  let diffwhash := P.ld s.mem diffwhashPtr
  let s := s.st P diffwhashPtr
    (if late && diffwhash == 0 then P.ld s.mem (node + nodeHash) else diffwhash)
  let diffwts := P.ld64 s.mem diffwtsPtr
  s.st64 P diffwtsPtr (if late && diffwts == 0 then now else diffwts)

def tmsg (s : Cpu) (node thrData : Word) : Word × Cpu :=
  let s := s.paint P node
  let tmpPar := P.ld64 s.mem (node + tmsgPar)
  let now := s.getSysTime.1
  let s := s.getSysTime.2
  let tmpPar := if P.ld64 s.mem (node + tmsgIdHi) = diagPqMsgCnt then s.pqCnt else tmpPar
  let diff := P.ld64 s.mem (thrData + tTdDeadline) - now
  let s := tmsgDiagnostics P s node diff now
  let msg : PqMsg :=
    { idHi := P.ld s.mem (node + tmsgIdHi), idLo := P.ld s.mem (node + tmsgIdLo),
      parHi := hiW tmpPar, parLo := loW tmpPar,
      res := P.ld s.mem (node + tmsgRes), tef := P.ld s.mem (node + tmsgTef),
      tsHi := P.ld s.mem (thrData + tTdDeadline),
      tsLo := P.ld s.mem (thrData + tTdDeadlineLo) }
  let s := { s with pq := msg :: s.pq }
  let s := s.st64 P (thrData + tTdMsgCnt) (P.ld64 s.mem (thrData + tTdMsgCnt) + 1)
  let s := s.st64 P countPtr (P.ld64 s.mem countPtr + 1)
  (P.defDest s.mem node, s)

/-! ### Commands and switches -/

/-- The valid time a command node gives its command: absolute, or relative to the
thread's time sum. -/
def cmdValid (m : Mem) (node thrData : Word) : Time :=
  if (P.ld m (node + cmdAct) >>> actVabsPos) &&& 1 ≠ 0 then P.ld64 m (node + cmdValidTime)
  else P.ld64 m (thrData + tTdCurrtime) + P.ld64 m (node + cmdValidTime)

/-- Priority of the queue a command node writes to. Two bits, so it may be 3. -/
def cmdPrio (m : Mem) (node : Word) : Nat :=
  ((P.ld m (node + cmdAct) >>> actPrioPos) &&& actPrioMsk).toNat

/-- The queue element of `tg` that the next command of priority `prio` goes to. Both
list pointers are seen from the CPU that owns `tg`; `adrPrefix` turns them into
addresses this CPU can use. -/
def writeElem (m : Mem) (tg : Word) (prio : Nat) : Word :=
  let adrPrefix := tg &&& ~~~P.peerAdrMsk
  let wrIdx := idxByte (P.ld m (tg + blockCmdqWrIdxs)) prio
  let bl := P.ld m (tg + (blockCmdqPtrs + BitVec.ofNat 32 (prio * 4))) - intBaseAdr + adrPrefix
  let b := P.ld m (bl + bufOffs wrIdx) - intBaseAdr + adrPrefix
  b + elOffs wrIdx

/-- Copy the command of `node` into element `e` and advance the write index. -/
def enqueue (s : Cpu) (node e tg : Word) (prio : Nat) (tValid : Time) : Cpu :=
  let s := s.st64 P (e + tCmdTime) tValid
  let s := s.st P (e + tCmdAct) (P.ld s.mem (node + cmdAct))
  let s := s.st P (e + (tCmdAct + 4)) (P.ld s.mem (node + (cmdAct + 4)))
  let s := s.st P (e + (tCmdAct + 8)) (P.ld s.mem (node + (cmdAct + 8)))
  let wrIdxs := P.ld s.mem (tg + blockCmdqWrIdxs)
  s.st P (tg + blockCmdqWrIdxs)
    (setIdxByte wrIdxs prio ((idxByte wrIdxs prio + 1) &&& qIdxMaxOvfMsk))

def cmd (s : Cpu) (node thrData : Word) : Word × Cpu :=
  let ret := P.defDest s.mem node
  let prio := cmdPrio P s.mem node
  let tg := P.ld s.mem (node + cmdTarget)
  if P.hasQueue s.mem tg prio = false then
    -- the target has no such queue: halt everything and stay here
    let s := s.st P abort1Ptr 0xffffffff
    (node, s.setStatus P shctlStatusBadActTypeSmsk)
  else
    let s := s.paint P node
    if tg = lm32NullPtr then (ret, s)
    else if P.ld s.mem (tg + blockCmdqFlags) &&& blockCmdqDnwSmsk ≠ 0 then (ret, s)
    else
      let e := writeElem P s.mem tg prio
      (ret, enqueue P s node e tg prio (cmdValid P s.mem node thrData))

def cswitch (s : Cpu) (node _thrData : Word) : Word × Cpu :=
  let ret := P.defDest s.mem node
  let tg := P.ld s.mem (node + switchTarget)
  let s := s.paint P node
  if tg = lm32NullPtr then (ret, s)
  else if P.ld s.mem (tg + blockCmdqFlags) &&& blockCmdqDnwSmsk ≠ 0 then (ret, s)
  else (ret, s.st P (tg + nodeDefDestPtr) (P.ld s.mem (node + switchDest)))

/-! ### Blocks -/

/-- The pending element of queue `prio` that is next to be read. -/
def readElem (m : Mem) (node : Word) (prio : Nat) : Word :=
  let rdIdx := idxByte (P.ld m (node + blockCmdqRdIdxs)) prio
  let bl := P.ld m (node + (blockCmdqPtrs + BitVec.ofNat 32 (prio * 4)))
  let b := P.ld m (bl + bufOffs rdIdx)
  b + elOffs rdIdx

def queuePending (m : Mem) (node : Word) (prio : Nat) : Bool :=
  idxByte (P.ld m (node + blockCmdqRdIdxs)) prio != idxByte (P.ld m (node + blockCmdqWrIdxs)) prio

/-- The masked index words differ: some queue may have a command pending. -/
def idxsDiffer (m : Mem) (node : Word) : Bool :=
  P.ld m (node + blockCmdqWrIdxs) &&& blockCmdqIdxsSmsk !=
    P.ld m (node + blockCmdqRdIdxs) &&& blockCmdqIdxsSmsk

/-- Variables of `block` that outlive the loop over the queues: the priority whose
read index `rdIdx` points to, and the pointer `cmd`. -/
structure ScanVars where
  rdPrio : Nat
  cmd : Option Word
  deriving DecidableEq, Repr

/-- The loop over the queues, highest priority first. It ends early at a pending
command that is valid. -/
def scanQueues (m : Mem) (node : Word) : List Nat → ScanVars → (Nat → Time) → ScanVars × (Nat → Time)
  | [], v, clk => (v, clk)
  | prio :: prios, v, clk =>
      if P.hasQueue m node prio then
        if queuePending P m node prio then
          let c := readElem P m node prio
          let v : ScanVars := { rdPrio := prio, cmd := some c }
          if P.ld64 m (c + tCmdTime) ≤ clk 0 then (v, fun n => clk (n + 1))
          else scanQueues m node prios v (fun n => clk (n + 1))
        else scanQueues m node prios { v with rdPrio := prio } clk
      else scanQueues m node prios v clk

def actQty (act : Word) : Word := act &&& actQtyMsk

def actType (act : Word) : Nat := ((act >>> actTypePos) &&& actTypeMsk).toNat

/-- Advance the read index of queue `prio`. -/
def popQueue (s : Cpu) (node : Word) (prio : Nat) (n : BitVec 8) : Cpu :=
  let rdIdxs := P.ld s.mem (node + blockCmdqRdIdxs)
  s.st P (node + blockCmdqRdIdxs)
    (setIdxByte rdIdxs prio ((idxByte rdIdxs prio + n) &&& qIdxMaxOvfMsk))

/-- Execute the command at `c`, count down its quantity and pop queue `prio` when it
is used up. An exhausted command is popped without being executed. -/
def serveCmd (s : Cpu) (node thrData c : Word) (prio : Nat) (ret : Word) : Option (Word × Cpu) :=
  let act := P.ld s.mem (c + tCmdAct)
  let qty := actQty act
  if qty ≠ 0 then
    match ActType.ofNum? (actType act) with
    | none => none
    | some atype =>
        let (ret, s) := actionFuncs P atype s node c thrData
        let s := s.st P (c + tCmdAct) ((act &&& ~~~actQtyMsk) ||| ((qty - 1) &&& actQtyMsk))
        some (ret, popQueue P s node prio (if qty - 1 = 0 then 1 else 0))
  else
    let s := popQueue P s node prio 1
    -- more commands pending: come back to this block for the next one
    if idxsDiffer P s.mem node then some (node, s) else some (ret, s)

def block (s : Cpu) (node thrData : Word) : Option (Word × Cpu) :=
  let ret := P.defDest s.mem node
  let qFlags := P.ld s.mem (node + blockCmdqFlags)
  let s := s.paint P node
  if qFlags &&& blockCmdqDnrSmsk = 0 ∧ idxsDiffer P s.mem node then
    let (v, clk) := scanQueues P s.mem node [prioIl, prioHi, prioLo] { rdPrio := 0, cmd := none } s.clk
    match v.cmd with
    | none => none
    | some c =>
        let (now, s) := { s with clk := clk }.getSysTime
        if now < P.ld64 s.mem (c + tCmdTime) then some (ret, s)
        else serveCmd P s node thrData c v.rdPrio ret
  else some (ret, s)

def blockFixed (s : Cpu) (node thrData : Word) : Option (Word × Cpu) :=
  match block P s node thrData with
  | none => none
  | some (ret, s) =>
      let s := s.st64 P (thrData + tTdCurrtime)
        (P.ld64 s.mem (thrData + tTdCurrtime) + P.ld64 s.mem (node + blockPeriod))
      some (ret, s.st64 P (thrData + tTdDeadline) (P.ld64 s.mem (thrData + tTdCurrtime)))

/-- `x` plus the period `Tx`, rounded up to the time grid. -/
def alignUp (x Tx : Time) : Time :=
  let diff := (x + Tx) - tGridOffs + (tGridSize - 1)
  diff - diff % tGridSize + tGridOffs

def blockAlign (s : Cpu) (node thrData : Word) : Option (Word × Cpu) :=
  match block P s node thrData with
  | none => none
  | some (ret, s) =>
      let s := s.st64 P (thrData + tTdCurrtime)
        (alignUp (P.ld64 s.mem (thrData + tTdCurrtime)) (P.ld64 s.mem (node + blockPeriod)))
      some (ret, s.st64 P (thrData + tTdDeadline) (P.ld64 s.mem (thrData + tTdCurrtime)))

/-! ### Origins and thread starts -/

/-- The staging area of thread number `thr` of this CPU; the number is not checked. -/
def thrStaOf (thr : Word) : Word := shared shctlThrSta + thr * BitVec.ofNat 32 tTsSize

/-- Sets the origin of a thread, always in the control area of the own CPU. -/
def origin (s : Cpu) (node _thrData : Word) : Word × Cpu :=
  let ret := P.defDest s.mem node
  let newOrigin := P.ld s.mem (node + originDest)
  let targetThr := P.ld s.mem (node + originThr)
  (ret, s.st P (thrStaOf targetThr + tTsNodePtr) newOrigin)

/-- Sets a thread's start time and its start bit; the shift uses the low five bits of
the thread number. -/
def startThread (s : Cpu) (node thrData : Word) : Word × Cpu :=
  let ret := P.defDest s.mem node
  let offset := P.ld64 s.mem (node + startthreadStartoffs)
  let thr := P.ld s.mem (node + startthreadThr)
  let s := s.st64 P (thrStaOf thr + tTsStarttime)
    (P.ld64 s.mem (thrData + tTdCurrtime) + offset)
  (ret, s.st P startPtr (P.ld s.mem startPtr ||| (1#32 <<< (thr % 32).toNat)))

/-! ### Tables -/

def dlEvt (s : Cpu) (node thrData : Word) : Time × Cpu :=
  (P.ld64 s.mem (thrData + tTdCurrtime) + P.ld64 s.mem (node + evtOffsTime), s)

def dlBlock (s : Cpu) (_node thrData : Word) : Time × Cpu :=
  (P.ld64 s.mem (thrData + tTdDeadline), s)

/-- `nodeFuncs`; `dmInit` leaves the entries of management and covenant nodes
empty. -/
def nodeFuncs (s : Cpu) (node thrData : Word) : NodeType → Option (Word × Cpu)
  | .tmsg => some (tmsg P s node thrData)
  | .cnoop | .cflow | .cflush | .cwait => some (cmd P s node thrData)
  | .cswitch => some (cswitch P s node thrData)
  | .blockFixed => blockFixed P s node thrData
  | .blockAlign => blockAlign P s node thrData
  | .origin => some (origin P s node thrData)
  | .startthread => some (startThread P s node thrData)
  | .null => some (nodeNull s node thrData)
  | .mgmt | .covenant => none
  | .unknown | .raw | .queue | .qbuf | .share | .altdst => some (dummyNodeFunc P s node thrData)

def deadlineFuncs (s : Cpu) (node thrData : Word) : NodeType → Option (Time × Cpu)
  | .tmsg | .cnoop | .cflow | .cflush | .cwait | .cswitch | .origin | .startthread =>
      some (dlEvt P s node thrData)
  | .blockFixed | .blockAlign => some (dlBlock P s node thrData)
  | .null => some (deadlineNull s node thrData)
  | .mgmt | .covenant => none
  | .unknown | .raw | .queue | .qbuf | .share | .altdst =>
      some (dummyDeadlineFunc P s node thrData)

end DataMaster
