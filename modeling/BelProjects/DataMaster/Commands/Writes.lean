import BelProjects.DataMaster.Commands.Bursts
import BelProjects.DataMaster.Commands.Locks
import BelProjects.Library.Programs

/-!
# What a command writes

`createCommand` appends the addresses and the data of one command to the next write.  Threads
are started and aborted, and their origin is set, in the control area of their CPU.  All other
commands go to a block, for which they make an entry in the lock manager, and those for its
queues are serialised as an element.
-/

namespace DataMaster

open BigEndian Programs

/-- The commands that `createCommand` tells apart by their type. -/
inductive CommandType
  | start | stop | abort | origin | lock | asyncClear | unlock | switch | unsupported
  | queue (q : QCmdType)
  deriving DecidableEq, Repr

def CommandType.ofName (type : String) : CommandType :=
  if type = "start" then .start
  else if type = "stop" then .stop
  else if type = "abort" then .abort
  else if type = "origin" then .origin
  else if type = "lock" then .lock
  else if type = "asyncclear" then .asyncClear
  else if type = "unlock" then .unlock
  else if type = "noop" then .queue .noop
  else if type = "flow" then .queue .flow
  else if type = "switch" then .switch
  else if type = "flush" then .queue .flush
  else if type = "wait" then .queue .wait
  else .unsupported

structure FullCommand where
  type : String
  target : String
  destination : String
  cmdPrio : BitVec 8
  cmdQty : BitVec 8
  vabs : Bool
  cmdTvalid : Time
  perma : Bool
  qIl : Bool
  qHi : Bool
  qLo : Bool
  cmdTwait : Time
  abswait : Bool
  lockRd : Bool
  lockWr : Bool
  cmdThr : BitVec 8
  deriving DecidableEq, Repr

def FullCommand.queueArgs (x : FullCommand) (q : QCmdType) : CmdArgs where
  type := q
  destination := x.destination
  cmdPrio := x.cmdPrio
  cmdQty := x.cmdQty.toNat
  vabs := x.vabs
  cmdTvalid := x.cmdTvalid
  perma := x.perma
  qIl := x.qIl
  qHi := x.qHi
  qLo := x.qLo
  cmdTwait := x.cmdTwait
  abswait := x.abswait

/-! ### Nodes and addresses -/

def tDiagCmdMod : Nat := 48

def opTypeCmdBase : BitVec 8 := 0x20
def opTypeCmdStart : BitVec 8 := opTypeCmdBase + 0x10
def opTypeCmdStop : BitVec 8 := opTypeCmdBase + 0x11
def opTypeCmdAbort : BitVec 8 := opTypeCmdBase + 0x13

namespace Space

variable (S : Space)

def getThrCmdAdr : Word := S.extBaseAdr + S.sharedOffs + BitVec.ofNat 32 shctlThrCtl

def thrSta (thrIdx : BitVec 8) : Word :=
  S.extBaseAdr + S.sharedOffs + BitVec.ofNat 32 shctlThrSta + BitVec.ofNat 32 (thrIdx.toNat * tTsSize)

def getThrInitialNodeAdr (thrIdx : BitVec 8) : Word := S.thrSta thrIdx + tTsNodePtr

def cmdModAdrs : List Word :=
  (List.range 8).map fun k =>
    S.extBaseAdr + S.sharedOffs + BitVec.ofNat 32 shctlDiag + BitVec.ofNat 32 (tDiagCmdMod + 4 * k)

end Space

namespace HostView

variable (H : HostView)

def lookup (name exMsg : String) : Except String Word :=
  match H.hashOf name with
  | some hash => .ok hash
  | none => .error (exMsg ++ " HashTable: Name " ++ name ++ " not found")

/-- `atDown.lookupHash`, for a name. -/
def lookupNode (name exMsg : String) : Except String AllocMeta := do
  let hash ← H.lookup name exMsg
  match H.table.lookupHash hash with
  | some x => .ok x
  | none => .error ("unknown hash " ++ toString hash.toNat ++ " (dec)")

/-- `getNodeCpu` for the downloaded nodes. -/
def getNodeCpu (name : String) : Except String CpuIdx := do
  let x ← H.lookupNode name ""
  return x.cpu

/-- The constants of `getMemories()[cpuIdx]`, the same in both tables. The source does not look
whether there is such a CPU. -/
def getMemories (cpuIdx : CpuIdx) : Except String Space :=
  match H.table.vPool[cpuIdx.toNat]? with
  | some p => .ok p.consts
  | none => .error "out of range"

def getBaseAdr (name : String) : Except String Word := do
  let x ← H.lookupNode name "getBaseAdr: unknown target "
  match H.table.adrConv .MGMT .EXT x.cpu x.adr with
  | some adr => .ok adr
  | none => .error "out of range"

def withModTime (modTime : Time) : HostView := { H with modTime := modTime }

/-- The copy of the nodes after `getCmdInc`. -/
def storeWrIdxs (hash newIdxs : Word) : HostView where
  table := H.table.storeWrIdxs hash newIdxs
  hashOf := H.hashOf
  nodeName := H.nodeName
  modTime := H.modTime
  testmode := H.testmode
  onChunk e he := by
    obtain ⟨x, hx, rfl⟩ := List.mem_map.1 he
    have hplace : (if x.hash = hash then x.setWrIdxs newIdxs else x).place = x.place := by
      split <;> rfl
    rw [hplace]
    exact H.onChunk x hx
  named e he := by
    obtain ⟨x, hx, rfl⟩ := List.mem_map.1 he
    have hname := H.named x hx
    split <;> exact hname
  hashOf_inj := H.hashOf_inj

end HostView

/-! ### Programs -/

/-- The host while it collects a write. -/
structure CommandState where
  view : HostView
  va : List Word
  vb : List Octet
  /-- The entries of the lock manager. -/
  vBl : List BlockLock

structure CommandEnv where
  getDmWrTime : Time
  /-- Whether a command of this priority for the block would preempt a covenant. -/
  covenant : HostView → String → BitVec 8 → Bool
  /-- The first eight bytes of the names that `createModInfo` asks the system for. -/
  username : List Octet
  machinename : List Octet
  /-- The buffer that `createMiniCommand` serialises to, which is not initialised. -/
  buf : List Octet
  length_buf : buf.length = tCmdSize + 4
  getNodePattern : String → String
  /-- The CPU and the thread that run a pattern, if it is running. -/
  findRunningPattern : String → Option (CpuIdx × BitVec 8)
  getPatternEntryNode : String → String
  getPatternExitNode : String → String
  getBeamprocEntryNode : String → String
  getBeamprocExitNode : String → String

abbrev CommandProg := EStateM String CommandState

namespace CommandProg

/-- What the host finds out about its nodes. -/
def ask {α : Type} (f : HostView → Except String α) : CommandProg α := do
  let s ← get
  match f s.view with
  | .ok a => pure a
  | .error what => throw what

section Ask

variable {α : Type} {f : HostView → Except String α} {s : CommandState}

theorem ask_ok {a : α} (h : f s.view = .ok a) : ask f s = .ok a s := by
  change (match f s.view with | .ok a => pure a | .error what => throw what : CommandProg α) s = _
  rw [h]
  rfl

theorem ask_error {what : String} (h : f s.view = .error what) : ask f s = .error what s := by
  change (match f s.view with | .ok a => pure a | .error what => throw what : CommandProg α) s = _
  rw [h]
  rfl

end Ask

def pushAdrs (va : List Word) : CommandProg PUnit := modify fun s => { s with va := s.va ++ va }

def pushData (vb : List Octet) : CommandProg PUnit := modify fun s => { s with vb := s.vb ++ vb }

def updateModTime (E : CommandEnv) : CommandProg PUnit :=
  modify fun s => { s with view := s.view.withModTime E.getDmWrTime }

/-! ### Threads -/

def createCmdModInfo (E : CommandEnv) (cpu : CpuIdx) (modCnt : Word) (opType : BitVec 8) :
    CommandProg PUnit := do
  let S ← ask fun H => H.getMemories cpu
  let modTime ← ask fun H => .ok H.modTime
  pushAdrs S.cmdModAdrs
  pushData (be64 modTime ++ E.username ++ E.machinename ++ be32 (opType.setWidth 32) ++ be32 modCnt)

def setThrOrigin (cpuIdx : CpuIdx) (thrIdx : BitVec 8) (name : String) : CommandProg PUnit := do
  let S ← ask fun H => H.getMemories cpuIdx
  pushAdrs [S.getThrInitialNodeAdr thrIdx]
  let adr ← ask fun H => H.getNodeAdr name .INT
  pushData (be32 adr)

def setThrStartTime (cpuIdx : CpuIdx) (thrIdx : BitVec 8) (t : Time) : CommandProg PUnit := do
  let S ← ask fun H => H.getMemories cpuIdx
  pushAdrs [S.thrSta thrIdx + tTsStarttime, S.thrSta thrIdx + tTsStarttime + 4]
  pushData (be64 t)

def setThrStart (E : CommandEnv) (cpuIdx : CpuIdx) (bits : Word) : CommandProg PUnit := do
  let S ← ask fun H => H.getMemories cpuIdx
  pushAdrs [S.getThrCmdAdr + BitVec.ofNat 32 tTcStart]
  pushData (be32 bits)
  createCmdModInfo E cpuIdx 0 opTypeCmdStart

def setThrAbort (E : CommandEnv) (cpuIdx : CpuIdx) (bits : Word) : CommandProg PUnit := do
  let S ← ask fun H => H.getMemories cpuIdx
  pushAdrs [S.getThrCmdAdr + BitVec.ofNat 32 tTcAbort]
  pushData (be32 bits)
  createCmdModInfo E cpuIdx 0 opTypeCmdAbort

def startThr (E : CommandEnv) (cpuIdx : CpuIdx) (thrIdx : BitVec 8) : CommandProg PUnit :=
  setThrStart E cpuIdx (1#32 <<< thrIdx.toNat)

def abortThr (E : CommandEnv) (cpuIdx : CpuIdx) (thrIdx : BitVec 8) : CommandProg PUnit :=
  setThrAbort E cpuIdx (1#32 <<< thrIdx.toNat)

def startNodeOrigin (E : CommandEnv) (sNode : String) (thrIdx : BitVec 8) (t : Time) :
    CommandProg PUnit := do
  let cpuIdx ← ask fun H => H.getNodeCpu sNode
  setThrOrigin cpuIdx thrIdx sNode
  setThrStartTime cpuIdx thrIdx t
  startThr E cpuIdx thrIdx

def abortNodeOrigin (E : CommandEnv) (sNode : String) : CommandProg PUnit :=
  match E.findRunningPattern (E.getNodePattern sNode) with
  | some cpuAndThr => abortThr E cpuAndThr.1 cpuAndThr.2
  | none => pure ⟨⟩

/-! ### Blocks -/

def addLock (name : String) : CommandProg PUnit := do
  let baseAdr ← ask fun H => H.getBaseAdr name
  modify fun s => { s with vBl := s.vBl ++ [⟨baseAdr, rdRequest, rdRequest⟩] }

def request (f : BlockLock → BlockLock) : CommandProg PUnit :=
  modify fun s => { s with vBl := s.vBl.dropLast ++ s.vBl.getLast?.toList.map f }

def blockAsyncClearQueues (sTarget : String) : CommandProg PUnit := do
  let adrBase ← ask fun H => H.getNodeAdr sTarget .EXT
  pushAdrs [adrBase + blockCmdqRdIdxs, adrBase + blockCmdqWrIdxs]
  pushData (List.replicate 8 0)

def switching (sTarget sDst : String) : CommandProg PUnit := do
  let tadr ← ask fun H => H.getNodeAdr sTarget .EXT
  let dadr ← ask fun H => H.getNodeAdr sDst .INT
  pushAdrs [tadr + nodeDefDestPtr]
  pushData (be32 dadr)

/-- What `createMiniCommand` notes as the last operation: a flow to the idle node is a stop. -/
def opTypeOf : MiniCommand → BitVec 8
  | .flow _ act destAdr =>
    if destAdr = lm32NullPtr then opTypeCmdStop
    else opTypeCmdBase + ((act >>> actTypePos) &&& actTypeMsk).setWidth 8
  | .noop _ act | .wait _ act _ | .flush _ act _ =>
    opTypeCmdBase + ((act >>> actTypePos) &&& actTypeMsk).setWidth 8

/-- `getCmdWrAdrs`, without the texts of its three exceptions. -/
def getCmdWrAdrs (H : HostView) (hash : Word) (prio : BitVec 8) : Except String (List Word) :=
  match H.table.getCmdWrAdrs hash prio.toNat with
  | some va => .ok va
  | none => .error "can't write to the queue"

def getCmdInc (hash : Word) (prio : BitVec 8) : CommandProg Word := do
  let newIdxs ← ask fun H =>
    match H.table.getCmdInc hash prio.toNat with
    | some newIdxs => .ok newIdxs
    | none => .error ("unknown hash " ++ toString hash.toNat ++ " (dec)")
  modify fun s => { s with view := s.view.storeWrIdxs hash newIdxs }
  return newIdxs

def checkCovenant (E : CommandEnv) (targetName : String) (cmdPrio : BitVec 8) (H : HostView) :
    Except String PUnit :=
  if E.covenant H targetName cmdPrio then
    .error ("Command preemption (prio " ++ toString cmdPrio.toNat ++ ") at block <" ++ targetName ++
      "> would violate a safe2remove-covenant!")
  else .ok ⟨⟩

def createMiniCommand (E : CommandEnv) (targetName : String) (cmdPrio : BitVec 8) (mc : MiniCommand) :
    CommandProg PUnit := do
  ask (checkCovenant E targetName cmdPrio)
  let hash ← ask fun H => H.lookup targetName "createCommand: unknown target "
  let tmp ← ask fun H => getCmdWrAdrs H hash cmdPrio
  pushAdrs tmp
  let cmdWrInc ← getCmdInc hash cmdPrio
  pushData (mc.bytes E.buf cmdWrInc)
  let cpu ← ask fun H => H.getNodeCpu targetName
  createCmdModInfo E cpu 0 (opTypeOf mc)

/-- The second half of `createCommand`, for the commands that go to a block. -/
def createBlockCommand (E : CommandEnv) (x : FullCommand) : CommandProg PUnit := do
  addLock x.target
  match CommandType.ofName x.type with
  | .lock =>
    request fun l =>
      { l with
        wr := { l.wr with set := x.lockWr }
        rd := { l.rd with set := x.lockRd } }
  | .asyncClear => do
    blockAsyncClearQueues x.target
    request fun l =>
      { l with
        wr := { l.wr with set := true, clr := true }
        rd := { l.rd with set := true, clr := true } }
  | .unlock =>
    request fun l =>
      { l with
        wr := { l.wr with clr := x.lockWr }
        rd := { l.rd with clr := x.lockRd } }
  | .switch => switching x.target x.destination
  | .queue q => do
    let mc ← ask fun H => H.createCommand (x.queueArgs q)
    request fun l => { l with wr := { l.wr with set := true, clr := true } }
    createMiniCommand E x.target x.cmdPrio mc
  | _ => throw ("Command type <" ++ x.type ++ "> is not supported!\n")

/-- The flow to the idle node that `stopNodeOrigin` sends. -/
def stopFlow (sNode : String) : FullCommand where
  type := "flow"
  target := sNode
  destination := sIdle
  cmdPrio := 0
  cmdQty := 1
  vabs := true
  cmdTvalid := 0
  perma := false
  qIl := false
  qHi := false
  qLo := false
  cmdTwait := 0
  abswait := false
  lockRd := false
  lockWr := false
  cmdThr := 0

def stopNodeOrigin (E : CommandEnv) (sNode : String) : CommandProg PUnit :=
  createBlockCommand E (stopFlow sNode)

def withNode (quoted name : String) (p : CommandProg PUnit) : CommandProg PUnit := do
  let hash ← ask fun H => H.lookup name ""
  if hash ≠ 0 then p
  else
    throw ("Cannot execute command '" ++ quoted ++ " No valid cpu/thr provided and '" ++ name ++
      "' is not a valid node name\n")

/-- `createCommand`, once the time is adjusted. -/
def createAdjusted (E : CommandEnv) (x : FullCommand) (cmdTvalid : Time) : CommandProg PUnit :=
  match CommandType.ofName x.type with
  | .start =>
    withNode (x.type ++ "'") x.destination (startNodeOrigin E x.destination x.cmdThr cmdTvalid)
  | .stop => withNode (x.type ++ "'") x.target (stopNodeOrigin E x.target)
  | .abort => withNode (x.type ++ "'.") x.target (abortNodeOrigin E x.target)
  | .origin =>
    withNode (x.type ++ "'") x.destination do
      let cpuIdx ← ask fun H => H.getNodeCpu x.destination
      setThrOrigin cpuIdx x.cmdThr x.destination
  | _ => createBlockCommand E x

def createCommand (E : CommandEnv) (x : FullCommand) : CommandProg PUnit := do
  let cmdTvalid ← ask fun H => .ok (H.adjustValidTime x.cmdTvalid x.vabs)
  createAdjusted E x cmdTvalid

theorem createCommand_eq (E : CommandEnv) (x : FullCommand) (s : CommandState) :
    createCommand E x s = createAdjusted E x (s.view.adjustValidTime x.cmdTvalid x.vabs) s :=
  bind_of_ok (rfl : ask (fun H => .ok (H.adjustValidTime x.cmdTvalid x.vabs)) s = .ok _ s)

/-! ### What is known of a downloaded node -/

end CommandProg

namespace HostView

variable {H : HostView} {name : String} {hash : Word} {x : AllocMeta}

theorem getMemories_ok (hx : H.table.lookupHash hash = some x) :
    ∃ S, H.getMemories x.cpu = .ok S := by
  obtain ⟨p, hp, -⟩ := H.onChunk x (AllocTable.lookupHash_eq.1 hx).1
  change H.table.vPool[x.cpu.toNat]? = some p at hp
  refine ⟨p.consts, ?_⟩
  unfold getMemories
  rw [hp]

theorem adrConv_ok (hx : H.table.lookupHash hash = some x) {adrT : AdrType}
    (hT : adrT = .INT ∨ adrT = .EXT) : ∃ adr, H.table.adrConv .MGMT adrT x.cpu x.adr = some adr := by
  obtain ⟨p, hp, -⟩ := H.onChunk x (AllocTable.lookupHash_eq.1 hx).1
  change H.table.vPool[x.cpu.toNat]? = some p at hp
  unfold AllocTable.adrConv Space.adrConv
  rw [hp]
  dsimp only
  split
  · exact ⟨_, rfl⟩
  · rcases hT with rfl | rfl
    · exact ⟨_, rfl⟩
    · exact ⟨_, rfl⟩

variable (hhash : H.hashOf name = some hash)
include hhash

theorem lookup_ok (exMsg : String) : H.lookup name exMsg = .ok hash := by
  unfold lookup
  rw [hhash]

variable (hx : H.table.lookupHash hash = some x)
include hx

theorem lookupNode_ok (exMsg : String) : H.lookupNode name exMsg = .ok x := by
  unfold lookupNode
  rw [lookup_ok hhash]
  change (match H.table.lookupHash hash with | some x => Except.ok x | none => Except.error _) = _
  rw [hx]

theorem getNodeCpu_ok : H.getNodeCpu name = .ok x.cpu := by
  unfold getNodeCpu
  rw [lookupNode_ok hhash hx]
  rfl

theorem getBaseAdr_ok : ∃ adr, H.getBaseAdr name = .ok adr := by
  obtain ⟨adr, hadr⟩ := adrConv_ok hx (Or.inr rfl)
  refine ⟨adr, ?_⟩
  unfold getBaseAdr
  rw [lookupNode_ok hhash hx]
  change (match H.table.adrConv .MGMT .EXT x.cpu x.adr with
    | some adr => Except.ok adr
    | none => Except.error _) = _
  rw [hadr]

theorem getNodeAdr_ok : ∃ adr, H.getNodeAdr name .INT = .ok adr := by
  obtain ⟨adr, hadr⟩ := adrConv_ok hx (Or.inl rfl)
  unfold getNodeAdr
  split
  · exact ⟨_, rfl⟩
  · rw [hhash]
    dsimp only
    rw [hx]
    refine ⟨adr, ?_⟩
    dsimp only
    rw [if_neg (by decide), hadr]

end HostView

namespace CommandProg

/-! ### What is added -/

theorem createCmdModInfo_eq {E : CommandEnv} {s : CommandState} {cpu : CpuIdx} {S : Space}
    (hS : s.view.getMemories cpu = .ok S) (modCnt : Word) (opType : BitVec 8) :
    createCmdModInfo E cpu modCnt opType s = .ok ⟨⟩
      { s with
        va := s.va ++ S.cmdModAdrs
        vb := s.vb ++ (be64 s.view.modTime ++ E.username ++ E.machinename ++
          be32 (opType.setWidth 32) ++ be32 modCnt) } :=
  bind_of_ok (ask_ok hS)

section Thread

variable {E : CommandEnv} {s : CommandState} {cpuIdx : CpuIdx} {S : Space}
  (hS : s.view.getMemories cpuIdx = .ok S) (thrIdx : BitVec 8)
include hS

theorem setThrOrigin_eq {name : String} {adr : Word} (hadr : s.view.getNodeAdr name .INT = .ok adr) :
    setThrOrigin cpuIdx thrIdx name s = .ok ⟨⟩
      { s with
        va := s.va ++ [S.getThrInitialNodeAdr thrIdx]
        vb := s.vb ++ be32 adr } := by
  refine (bind_of_ok (ask_ok hS)).trans ?_
  exact bind_of_ok (ask_ok hadr)

theorem setThrStartTime_eq (t : Time) :
    setThrStartTime cpuIdx thrIdx t s = .ok ⟨⟩
      { s with
        va := s.va ++ [S.thrSta thrIdx + tTsStarttime, S.thrSta thrIdx + tTsStarttime + 4]
        vb := s.vb ++ be64 t } :=
  bind_of_ok (ask_ok hS)

theorem startThr_eq :
    startThr E cpuIdx thrIdx s = .ok ⟨⟩
      { s with
        va := s.va ++ [S.getThrCmdAdr + BitVec.ofNat 32 tTcStart] ++ S.cmdModAdrs
        vb := s.vb ++ be32 (1#32 <<< thrIdx.toNat) ++
          (be64 s.view.modTime ++ E.username ++ E.machinename ++
            be32 (opTypeCmdStart.setWidth 32) ++ be32 0) } := by
  let s₁ : CommandState :=
    { s with
      va := s.va ++ [S.getThrCmdAdr + BitVec.ofNat 32 tTcStart]
      vb := s.vb ++ be32 (1#32 <<< thrIdx.toNat) }
  have hinfo := createCmdModInfo_eq (E := E) (s := s₁) hS 0 opTypeCmdStart
  refine (bind_of_ok (ask_ok hS)).trans ?_
  exact hinfo

theorem startNodeOrigin_eq {sNode : String} {adr : Word}
    (hcpu : s.view.getNodeCpu sNode = .ok cpuIdx) (hadr : s.view.getNodeAdr sNode .INT = .ok adr)
    (t : Time) :
    ∃ s' rest, startNodeOrigin E sNode thrIdx t s = .ok ⟨⟩ s' ∧
      s'.vb = s.vb ++ ((be32 adr ++ be64 t) ++ rest) := by
  let s₁ : CommandState :=
    { s with
      va := s.va ++ [S.getThrInitialNodeAdr thrIdx]
      vb := s.vb ++ be32 adr }
  let s₂ : CommandState :=
    { s₁ with
      va := s₁.va ++ [S.thrSta thrIdx + tTsStarttime, S.thrSta thrIdx + tTsStarttime + 4]
      vb := s₁.vb ++ be64 t }
  have horigin : setThrOrigin cpuIdx thrIdx sNode s = .ok ⟨⟩ s₁ := setThrOrigin_eq hS thrIdx hadr
  have htime : setThrStartTime cpuIdx thrIdx t s₁ = .ok ⟨⟩ s₂ :=
    setThrStartTime_eq (s := s₁) hS thrIdx t
  have hstart := startThr_eq (E := E) (s := s₂) hS thrIdx
  refine ⟨_, be32 (1#32 <<< thrIdx.toNat) ++
    (be64 s.view.modTime ++ E.username ++ E.machinename ++
      be32 (opTypeCmdStart.setWidth 32) ++ be32 0), (bind_of_ok (ask_ok hcpu)).trans
    ((bind_of_ok horigin).trans ((bind_of_ok htime).trans hstart)), ?_⟩
  change s.vb ++ be32 adr ++ be64 t ++ be32 _ ++ (be64 s.view.modTime ++ _ ++ _ ++ _ ++ _) = _
  simp only [List.append_assoc]

end Thread

section Mini

variable {E : CommandEnv} {s : CommandState} {targetName : String} {cmdPrio : BitVec 8}

def Takes (E : CommandEnv) (H : HostView) (targetName : String) (cmdPrio : BitVec 8) : Prop :=
  E.covenant H targetName cmdPrio = false ∧
    ∃ hash va, H.hashOf targetName = some hash ∧ H.table.getCmdWrAdrs hash cmdPrio.toNat = some va

/-- A queue that takes a command belongs to a downloaded node. -/
theorem lookupHash_of_getCmdWrAdrs {t : AllocTable} {hash : Word} {prio : Nat} {va : List Word}
    (h : t.getCmdWrAdrs hash prio = some va) : ∃ x, t.lookupHash hash = some x := by
  unfold AllocTable.getCmdWrAdrs at h
  split at h
  next => cases h
  next x hx => exact ⟨x, hx⟩

/-- The element comes first. -/
theorem createMiniCommand_eq (h : Takes E s.view targetName cmdPrio) (mc : MiniCommand) :
    ∃ s' inc rest, createMiniCommand E targetName cmdPrio mc s = .ok ⟨⟩ s' ∧
      s'.vb = s.vb ++ (mc.bytes E.buf inc ++ rest) := by
  obtain ⟨hcov, hash, va, hhash, hva⟩ := h
  obtain ⟨x, hx⟩ := lookupHash_of_getCmdWrAdrs hva
  obtain ⟨S, hS⟩ := HostView.getMemories_ok hx
  have hcheck : checkCovenant E targetName cmdPrio s.view = .ok ⟨⟩ := by
    unfold checkCovenant
    rw [hcov]
    rfl
  have hadrs : getCmdWrAdrs s.view hash cmdPrio = .ok va := by
    unfold getCmdWrAdrs
    rw [hva]
  obtain ⟨inc, hinc⟩ : ∃ inc, s.view.table.getCmdInc hash cmdPrio.toNat = some inc := by
    unfold AllocTable.getCmdInc
    rw [hx]
    exact ⟨_, rfl⟩
  let s₁ : CommandState := { s with va := s.va ++ va }
  let s₂ : CommandState := { s₁ with view := s.view.storeWrIdxs hash inc }
  let s₃ : CommandState := { s₂ with vb := s.vb ++ mc.bytes E.buf inc }
  have hstored : getCmdInc hash cmdPrio s₁ = .ok inc s₂ := by
    refine bind_of_ok (ask_ok (s := s₁) (a := inc) ?_)
    change (match s.view.table.getCmdInc hash cmdPrio.toNat with
      | some newIdxs => Except.ok newIdxs
      | none => Except.error _) = _
    rw [hinc]
  have hcpu : s₃.view.getNodeCpu targetName = .ok x.cpu :=
    HostView.getNodeCpu_ok (H := s₃.view) (x := x.setWrIdxs inc) hhash
      (AllocTable.lookupHash_storeWrIdxs hx)
  have hinfo := createCmdModInfo_eq (E := E) (s := s₃) hS 0 (opTypeOf mc)
  have hadded : pushAdrs va s = .ok ⟨⟩ s₁ := rfl
  have hwritten : pushData (mc.bytes E.buf inc) s₂ = .ok ⟨⟩ s₃ := rfl
  have hrun : createMiniCommand E targetName cmdPrio mc s =
      createCmdModInfo E x.cpu 0 (opTypeOf mc) s₃ := by
    unfold createMiniCommand
    rw [bind_of_ok (ask_ok hcheck), bind_of_ok (ask_ok (HostView.lookup_ok hhash _)),
      bind_of_ok (ask_ok hadrs), bind_of_ok hadded, bind_of_ok hstored, bind_of_ok hwritten,
      bind_of_ok (ask_ok hcpu)]
  exact ⟨_, inc, _, hrun.trans hinfo, List.append_assoc ..⟩

/-- A command that the queue does not take adds nothing. -/
theorem createMiniCommand_refused (h : ¬ Takes E s.view targetName cmdPrio) (mc : MiniCommand) :
    ∃ e, createMiniCommand E targetName cmdPrio mc s = .error e s := by
  cases hcov : E.covenant s.view targetName cmdPrio with
  | true =>
    obtain ⟨e, he⟩ : ∃ e, checkCovenant E targetName cmdPrio s.view = .error e := by
      unfold checkCovenant
      rw [hcov]
      exact ⟨_, rfl⟩
    exact ⟨e, bind_of_error (ask_error he)⟩
  | false =>
    have hcheck : checkCovenant E targetName cmdPrio s.view = .ok ⟨⟩ := by
      unfold checkCovenant
      rw [hcov]
      rfl
    cases hhash : s.view.hashOf targetName with
    | none =>
      obtain ⟨e, he⟩ : ∃ e, s.view.lookup targetName "createCommand: unknown target " = .error e := by
        unfold HostView.lookup
        rw [hhash]
        exact ⟨_, rfl⟩
      exact ⟨e, (bind_of_ok (ask_ok hcheck)).trans (bind_of_error (ask_error he))⟩
    | some hash =>
      have hva : s.view.table.getCmdWrAdrs hash cmdPrio.toNat = none := by
        cases hva : s.view.table.getCmdWrAdrs hash cmdPrio.toNat with
        | none => rfl
        | some va => exact absurd ⟨hcov, hash, va, hhash, hva⟩ h
      obtain ⟨e, he⟩ : ∃ e, getCmdWrAdrs s.view hash cmdPrio = .error e := by
        unfold getCmdWrAdrs
        rw [hva]
        exact ⟨_, rfl⟩
      exact ⟨e, (bind_of_ok (ask_ok hcheck)).trans ((bind_of_ok
        (ask_ok (HostView.lookup_ok hhash _))).trans (bind_of_error (ask_error he)))⟩

end Mini

end CommandProg

end DataMaster
