import BelProjects.DataMaster.CarpeDM.Tables
import BelProjects.Library.Programs

/-!
# The host and what it downloads

The host keeps two pairs of graph and allocation table, one for the schedule it has read
from the device and one for the schedule it is about to write.  The operations on them are
programs that may throw.
-/

namespace DataMaster.CarpeDM

open BigEndian

/-- The node memories of all CPUs, as far as the host reads them, and the threads. -/
structure Device where
  /-- The bitmaps of occupied chunks, one after the other. -/
  bmps : List Bitmap.Byte
  chunk : CpuIdx → Word → Block
  /-- The container in the management chunks, unless there is none. -/
  mgmt : Option (GroupTable × CovenantTable)
  /-- For every CPU, the threads that are to be started and those that run. -/
  thrStart : List Word
  thrRun : List Word

structure Host where
  hm : HashMap
  gt : GroupTable
  ct : CovenantTable
  atUp : AllocTable
  gUp : HostGraph
  atDown : AllocTable
  gDown : HostGraph
  /-- The device, as the host finds it. -/
  dm : Device

inductive Fault
  | thrown (what : String)
  /-- Behaviour that C++ leaves undefined. -/
  | undefined
  deriving DecidableEq, Repr

def Fault.isThrown : Fault → Bool
  | .thrown _ => true
  | .undefined => false

abbrev Prog (α : Type) := EStateM Fault Host α

def raise {α : Type} (what : String) : Prog α := throw (.thrown what)

def check {α : Type} : Except String α → Prog α
  | .ok a => pure a
  | .error what => raise what

/-- Catches an exception to say more about it. -/
def checkAs {α : Type} (intro : String) : Except String α → Prog α
  | .ok a => pure a
  | .error what => raise (intro ++ what)

def defined {α : Type} : Option α → Prog α
  | some a => pure a
  | none => throw .undefined

/-- Checks, analyses and serialisation that the operations call. They do not change graphs
and tables. -/
structure Analyses where
  /-- The visitors of `validate`. -/
  validate : HostGraph → AllocTable → Bool → Except String Unit
  /-- The verdict, the report and the covenants to be added. -/
  isSafeToRemove : Host → HostGraph → Except String (Bool × String × CovenantTable)
  isCovenantPending : Host → CovenantMeta → Except String Bool
  /-- The upload crawler at a vertex: the node object with its flags, and the link words. -/
  crawlUp : HostGraph → AllocTable → Nat → Except String (Dot.Node × List Word)
  /-- The download crawlers at all vertices. -/
  crawlDown : HostGraph → AllocTable → CovenantTable → Except String (List HostEdge)
  /-- The compressed texts of both tables. -/
  container : GroupTable → CovenantTable → List Bitmap.Byte
  /-- The order in which the entries of the allocation table are visited. -/
  beginToEnd : List AllocMeta → List AllocMeta

variable (o : Analyses)

/-! ### Hash map and covenants -/

def hashAdd (name : String) : Prog Unit := do
  let s ← get
  let hm ← check (s.hm.add name)
  modify fun s => { s with hm }

def covenantPending (covName : String) : Prog Bool := do
  let s ← get
  match s.ct.lookup covName with
  | none => pure false
  | some cov => check (o.isCovenantPending s cov)

def updateCovenants : Prog Unit := do
  let s ← get
  let toDelete ← s.ct.entries.filterM fun cov => do
    let pending ← check (o.isCovenantPending s cov)
    pure !pending
  modify fun s => { s with ct := toDelete.foldl (fun ct cov => ct.remove cov.name) s.ct }

/-! ### Download -/

def markedChunks (vPool : List MemPool) : List (CpuIdx × Word) :=
  vPool.zipIdx.flatMap fun pi =>
    let first := (pi.1.consts.bmpSize / memBlock).toNat
    ((List.range pi.1.consts.bmpBits.toNat).filter fun bitIdx =>
      first ≤ bitIdx && Bitmap.getBit pi.1.bmp bitIdx).map fun bitIdx =>
        (BitVec.ofNat 8 pi.2, pi.1.consts.bitAdr bitIdx)

def Device.type (dm : Device) (c : CpuIdx × Word) : NodeType :=
  NodeType.ofNum (read32 (dm.chunk c.1 c.2).toList 44 &&& Dot.nflgTypeSmsk).toNat

def Device.hash (dm : Device) (c : CpuIdx × Word) : Word := read32 (dm.chunk c.1 c.2).toList 40

def Device.flags (dm : Device) (c : CpuIdx × Word) : Word := read32 (dm.chunk c.1 c.2).toList 44

def rebuildTables : Option (GroupTable × CovenantTable) → Prog Unit
  | none => pure ()
  | some (gt, ct) => do
    modify fun s => { s with gt, hm := .empty }
    gt.entries.forM fun it => hashAdd it.node
    modify fun s => { s with ct }

def parseDownloadMgmt : Prog Unit := do
  let s ← get
  let chunks := (markedChunks s.atDown.vPool).filter fun c => s.dm.type c == .mgmt
  chunks.forM fun c => do
    let s ← get
    let x ← defined (s.atDown.insertMgmt c.1 c.2 (some (s.dm.chunk c.1 c.2)))
    modify fun s => { s with atDown := x.1 }
    if x.2 then pure () else raise "Address collision when adding mgmt node at "
  rebuildTables s.dm.mgmt
  let s ← get
  let atDown ← defined s.atDown.deallocateAllMgmt
  modify fun s => { s with atDown }

def nameFor (hm : HashMap) (hash : Word) : String :=
  match hm.nameOf hash with
  | some name => name
  | none => String.ofList Dot.sHashType ++ Dot.hexText 8 hash.toNat

def bitText (b : Bool) : String := if b then "1" else "0"

def downVertex (s : Host) (c : CpuIdx × Word) : HostVertex :=
  let hash := s.dm.hash c
  let flags := s.dm.flags c
  let name := nameFor s.hm hash
  let x := s.gt.lookup name
  let patName := (x.map GroupMeta.pattern).getD sUndefined
  let bpName := (x.map GroupMeta.beamproc).getD sUndefined
  let v : Dot.MyVertex := { name, type := some (s.dm.type c), prop := Dot.Property.initial }
  { v := ((((((((v.put .patName patName).put .bpName bpName).put .cpu
      (Dot.decText c.1.toNat)).put .flags (Dot.hexText 8 flags.toNat)).put .bpEntry
      (bitText (flags.getLsbD Dot.nflgBpEntryLm32Pos))).put .bpExit
      (bitText (flags.getLsbD Dot.nflgBpExitLm32Pos))).put .patEntry
      (bitText (flags.getLsbD Dot.nflgPatEntryLm32Pos))).put .patExit
      (bitText (flags.getLsbD Dot.nflgPatExitLm32Pos)))
    hash
    np := Dot.ofBuffer name patName bpName c.1 (s.dm.chunk c.1 c.2).toList }

def parseNode (c : CpuIdx × Word) : Prog Unit := do
  let s ← get
  let x := downVertex s c
  let v := s.gDown.vertices.length
  modify fun s => { s with gDown := s.gDown.addVertex x }
  let t ← defined (s.atDown.insert c.1 c.2 x.hash v false)
  modify fun s => { s with atDown := t.1 }
  if t.2 then modify fun s => { s with atDown := s.atDown.setBuffer x.hash (s.dm.chunk c.1 c.2) }
  else raise ("Hash or address collision when adding node " ++ x.name)

def parseDownloadData : Prog Unit := do
  let s ← get
  let chunks := (markedChunks s.atDown.vPool).filter fun c => s.dm.type c != .mgmt
  chunks.forM parseNode
  let s ← get
  match s.gDown.vertices.find? fun x => x.np.isNone with
  | some x => raise ("Node " ++ x.name ++ "not initialised")
  | none =>
    let edges ← check (o.crawlDown s.gDown s.atDown s.ct)
    modify fun s => { s with gDown := { s.gDown with edges } }

def download : Prog Unit := do
  modify fun s => { s with atDown := s.atDown.clear, gDown := s.gDown.clear }
  let s ← get
  let x ← defined (s.atDown.setBmps s.dm.bmps)
  modify fun s => { s with atDown := x.1 }
  parseDownloadMgmt
  parseDownloadData o
  updateCovenants o

def baseUploadOnDownload : Prog Unit := do
  modify fun s => { s with gUp := s.gUp.clear, atUp := s.atUp.clear }
  download o
  let s ← get
  let atUp ← defined (s.atUp.cpyWithoutMgmt s.atDown)
  modify fun s => { s with atUp, gUp := s.gDown.copyTo s.gUp }

end DataMaster.CarpeDM
