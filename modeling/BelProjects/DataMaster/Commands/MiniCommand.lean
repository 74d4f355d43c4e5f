import BelProjects.DataMaster.Alloc.Addresses
import BelProjects.DataMaster.Blocks.Queue
import BelProjects.Library.BigEndian

/-!
# Queue commands of the host

`createCommand` turns the parameters of a queue command into a `MiniCommand`, which is
serialised into the twenty bytes of a queue element.  The host reads elements back from
its copy of the queue buffers in `getQelement`.
-/

namespace DataMaster

open BigEndian

/-- The types of queue commands, named in the source by the strings `noop`, `flow`,
`flush` and `wait`. -/
inductive QCmdType
  | noop | flow | flush | wait
  deriving DecidableEq, Repr

/-- `ACT_TYPE_NOOP` and so on. -/
def QCmdType.actType : QCmdType → Word
  | .noop => 1
  | .flow => 2
  | .flush => 3
  | .wait => 4

def sIdle : String := "idle"

def sUndefined : String := "undefined"

/-! ### Mini commands -/

inductive MiniCommand
  | noop (tValid : Time) (act : Word)
  | flow (tValid : Time) (act destAdr : Word)
  | wait (tValid : Time) (act : Word) (tWait : Time)
  | flush (tValid : Time) (act ovrAdr : Word)
  deriving DecidableEq, Repr

def actChpMsk : Word := 1
def actChpPos : Nat := 27
def actWaitAbsMsk : Word := 1
def actWaitAbsPos : Nat := 28

def bit (b : Bool) : Word := if b then 1 else 0

def miniNoop (tValid : Time) (prio : BitVec 8) (qty : Word) : MiniCommand :=
  .noop tValid
    ((QCmdType.noop.actType <<< actTypePos) ||| ((prio.setWidth 32 &&& actPrioMsk) <<< actPrioPos) |||
      (qty &&& actQtyMsk))

def miniFlow (tValid : Time) (prio : BitVec 8) (qty destAdr : Word) (permanent : Bool) :
    MiniCommand :=
  .flow tValid
    ((QCmdType.flow.actType <<< actTypePos) ||| ((prio.setWidth 32 &&& actPrioMsk) <<< actPrioPos) |||
      (qty &&& actQtyMsk) ||| ((bit permanent &&& actChpMsk) <<< actChpPos))
    destAdr

/-- The flags of a wait are not used. -/
def miniWait (tValid : Time) (prio : BitVec 8) (tWait : Time) (_permanent _abs : Bool) :
    MiniCommand :=
  .wait tValid
    ((QCmdType.wait.actType <<< actTypePos) ||| ((prio.setWidth 32 &&& actPrioMsk) <<< actPrioPos) |||
      1)
    tWait

def miniFlush (tValid : Time) (prio : BitVec 8) (qIl qHi qLo : Bool) (ovrAdr : Word)
    (permanent : Bool) : MiniCommand :=
  .flush tValid
    ((QCmdType.flush.actType <<< actTypePos) |||
      ((prio.setWidth 32 &&& actPrioMsk) <<< actPrioPos) ||| (1 &&& actQtyMsk) |||
      (((bit qIl <<< prioIl) ||| (bit qHi <<< prioHi) ||| (bit qLo <<< prioLo)) &&& actFlushPrioMsk)
        <<< actFlushPrioPos |||
      ((bit permanent &&& actChpMsk) <<< actChpPos))
    ovrAdr

def MiniCommand.serialise (b : List Octet) : MiniCommand → List Octet
  | .noop tValid act => copyTo (copyTo b 0 (be64 tValid)) 8 (be32 act)
  | .flow tValid act destAdr =>
    copyTo (copyTo (copyTo (copyTo b 0 (be64 tValid)) 8 (be32 act)) 12 (be32 destAdr)) 16 (be32 0)
  | .wait tValid act tWait =>
    copyTo (copyTo (copyTo b 0 (be64 tValid)) 8 (be32 act)) 12 (be64 tWait)
  | .flush tValid act ovrAdr =>
    copyTo (copyTo (copyTo (copyTo b 0 (be64 tValid)) 8 (be32 act)) 12 (be32 ovrAdr)) 16 (be32 0)

/-- The bytes `createMiniCommand` sends: the element, and the new write indices behind it.
`b` is the buffer before, which is not initialised. -/
def MiniCommand.bytes (mc : MiniCommand) (b : List Octet) (cmdWrInc : Word) : List Octet :=
  copyTo (mc.serialise b) tCmdSize (be32 cmdWrInc)

/-! ### Creating commands -/

structure HostView where
  /-- `atDown`. -/
  table : AllocTable
  /-- `hm.lookup`. -/
  hashOf : String → Option Word
  /-- `gDown[v].name`. -/
  nodeName : Nat → String
  modTime : Time
  testmode : Bool
  /-- Every node lies on a chunk of its CPU's node memory. -/
  onChunk : ∀ e ∈ table.a, e.place ∈ rangeOf table.vPool
  /-- Nodes carry the hash of their name. -/
  named : ∀ e ∈ table.a, hashOf (nodeName e.v) = some e.hash
  /-- No two names have the same hash. -/
  hashOf_inj : ∀ x y h, hashOf x = some h → hashOf y = some h → x = y

/-- Parameters of `createCommand` for a queue command. The caller's quantity is narrowed
to `uint8_t` when it is passed. -/
structure CmdArgs where
  type : QCmdType
  destination : String
  cmdPrio : BitVec 8
  cmdQty : Nat
  vabs : Bool
  cmdTvalid : Time
  perma : Bool
  qIl : Bool
  qHi : Bool
  qLo : Bool
  cmdTwait : Time
  abswait : Bool

namespace HostView

variable (H : HostView)

/-- `getNodeAdr` for the downloaded nodes. -/
def getNodeAdr (name : String) (adrT : AdrType) : Except String Word :=
  if name = sIdle then .ok lm32NullPtr
  else
    match H.hashOf name with
    | none => .error (" HashTable: Name " ++ name ++ " not found")
    | some hash =>
      match H.table.lookupHash hash with
      | none => .error ("unknown hash " ++ toString hash.toNat ++ " (dec)")
      | some x =>
        match if adrT = .MGMT then some x.adr else H.table.adrConv .MGMT adrT x.cpu x.adr with
        | some a => .ok a
        | none => .error "Unknown Adr Type conversion"

def processingTimeMargin : Time := 500000000

def adjustValidTime (tValid : Time) (abs : Bool) : Time :=
  let tFuture := H.modTime + if H.testmode then 0 else processingTimeMargin
  if abs then tValid else tFuture + tValid

/-- `createCommand` for the commands that go to the queues of a block, up to the element
it hands to `createMiniCommand`. -/
def createCommand (x : CmdArgs) : Except String MiniCommand :=
  let cmdTvalid := H.adjustValidTime x.cmdTvalid x.vabs
  let cmdQty : BitVec 8 := BitVec.ofNat 8 x.cmdQty
  match x.type with
  | .noop => .ok (miniNoop cmdTvalid x.cmdPrio (cmdQty.setWidth 32))
  | .flow =>
    match H.getNodeAdr x.destination .INT with
    | .ok adr => .ok (miniFlow cmdTvalid x.cmdPrio (cmdQty.setWidth 32) adr x.perma)
    | .error what => .error ("Destination '" ++ x.destination ++ "'' invalid: " ++ what)
  | .flush =>
    -- an invalid destination means that no override is desired
    let adr :=
      match H.getNodeAdr x.destination .INT with
      | .ok adr => adr
      | .error _ => lm32NullPtr
    .ok (miniFlush cmdTvalid x.cmdPrio x.qIl x.qHi x.qLo adr x.perma)
  | .wait => .ok (miniWait cmdTvalid x.cmdPrio x.cmdTwait false false)

end HostView

/-! ### Reading elements back -/

structure QueueElement where
  extAdr : Word := lm32NullPtr
  orphaned : Bool := false
  validTime : Time := 0
  type : Nat := 0
  sType : Option QCmdType := none
  qty : Nat := 0
  flowDst : String := sUndefined
  flowPerma : Bool := false
  flushIl : Bool := false
  flushHi : Bool := false
  flushLo : Bool := false
  flushOvr : String := sIdle
  waitTime : Time := 0
  waitAbs : Bool := false
  deriving DecidableEq, Repr

namespace HostView

variable (H : HostView)

/-- The name of the node at an address that a block of `cpu` refers to, and whether the
reference is orphaned. -/
def destName (cpu : CpuIdx) (futureOrphan : List String) (dstAdr : Word) : String × Bool :=
  let dstAdrType := (H.table.adrClassification dstAdr).2
  let dstCpu := if dstAdrType = .PEER then (H.table.adrClassification dstAdr).1 else cpu
  match H.table.adrConv dstAdrType .MGMT dstCpu dstAdr with
  | none => (sUndefined, true)
  | some a =>
    match H.table.lookupAdr dstCpu a with
    | none => (sUndefined, true)
    | some dst => (H.nodeName dst.v, futureOrphan.contains (H.nodeName dst.v))

/-- `getQelement`: the element in slot `idx` of the queue, which the buffer `buf` holds. -/
def getQelement (idx : BitVec 8) (buf : AllocMeta) (futureOrphan : List String) :
    Option QueueElement :=
  match H.table.adrConv .MGMT .EXT buf.cpu buf.adr with
  | none => none
  | some extAdr =>
    let b := buf.b.toList.drop (idx.toNat % 2 * tCmdSize)
    let act := read32 b 8
    let type := ((act >>> actTypePos) &&& actTypeMsk).toNat
    let qe : QueueElement :=
      { validTime := read64 b 0
        qty := (act &&& actQtyMsk).toNat
        type
        extAdr := extAdr + BitVec.ofNat 32 (idx.toNat % 2 * tCmdSize) }
    match ActType.ofNum? type with
    | some .noop => some { qe with sType := some .noop }
    | some .flow =>
      let dstAdr := read32 b 12
      let dst := if dstAdr = lm32NullPtr then (sIdle, false) else H.destName buf.cpu futureOrphan dstAdr
      some
        { qe with
          sType := some .flow
          orphaned := dst.2
          flowPerma := (act >>> actChpPos) &&& actChpMsk != 0
          flowDst := dst.1 }
    | some .flush =>
      let flPrio := (act >>> actFlushPrioPos) &&& actFlushPrioMsk
      let dstAdr := read32 b 12
      let dst :=
        if dstAdr = lm32NullPtr then ("No Ovr", false) else H.destName buf.cpu futureOrphan dstAdr
      some
        { qe with
          sType := some .flush
          orphaned := dst.2
          flushIl := flPrio &&& (1 <<< prioIl) != 0
          flushHi := flPrio &&& (1 <<< prioHi) != 0
          flushLo := flPrio &&& (1 <<< prioLo) != 0
          flushOvr := dst.1 }
    | some .wait =>
      some
        { qe with
          sType := some .wait
          waitAbs := (act >>> actWaitAbsPos) &&& actWaitAbsMsk != 0
          waitTime := read64 b 12 }
    | _ => some qe

end HostView
end DataMaster
