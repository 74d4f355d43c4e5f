import BelProjects.DataMaster.Alloc.MemPool
import BelProjects.Library.BigEndian

/-!
# The allocation table

`AllocTable` has two tables of occupied chunks, one for the nodes of a schedule and one
for the management data the host stores next to them, over one memory pool a CPU.  An
operation that indexes a pool that does not exist, or never ends, has no result.
-/

namespace DataMaster

open Bitmap

abbrev CpuIdx := BitVec 8

abbrev Block := Vector Byte memBlockSize

/-- Entry of the node table. `v` is the vertex of the node in the graph. -/
structure AllocMeta where
  cpu : CpuIdx
  adr : Word
  hash : Word
  v : Nat
  b : Block := Vector.replicate memBlockSize 0
  staged : Bool

structure MgmtMeta where
  cpu : CpuIdx
  adr : Word
  b : Block := Vector.replicate memBlockSize 0

/-- The chunk an entry occupies: the index of its pool and its address. -/
def AllocMeta.place (e : AllocMeta) : Nat × Word := (e.cpu.toNat, e.adr)

def MgmtMeta.place (e : MgmtMeta) : Nat × Word := (e.cpu.toNat, e.adr)

/-- The unique keys of `AllocMeta_set`. -/
def AllocMeta.Collide (x y : AllocMeta) : Prop :=
  x.v = y.v ∨ x.hash = y.hash ∨ x.place = y.place

/-- The unique key of `MgmtMeta_set`. -/
def MgmtMeta.Collide (x y : MgmtMeta) : Prop := x.place = y.place

instance : DecidableRel AllocMeta.Collide := fun _ _ => inferInstanceAs (Decidable (_ ∨ _ ∨ _))

instance : DecidableRel MgmtMeta.Collide := fun x y =>
  inferInstanceAs (Decidable (x.place = y.place))

instance : Std.Symm AllocMeta.Collide where
  symm x y h := by
    unfold AllocMeta.Collide at h ⊢
    tauto

instance : Std.Symm MgmtMeta.Collide := ⟨fun _ _ => Eq.symm⟩

structure AllocTable where
  a : UniqueSet AllocMeta AllocMeta.Collide
  m : UniqueSet MgmtMeta MgmtMeta.Collide
  vPool : List MemPool

inductive AllocPoolMode
  | WITHOUT_MGMT
  | WITH_MGMT
  deriving DecidableEq

inductive Report
  | done
  | success (ok : Bool)
  | code (allocState : Int)
  | error (what : String)
  deriving DecidableEq

def allocOk : Int := 0

def allocNoSpace : Int := -1

def allocEntryExists : Int := -2

/-! ### Single pools -/

/-- `vPool[cpu].occupyChunk(adr)`. -/
def occupyAt (vPool : List MemPool) (cpu : CpuIdx) (adr : Word) : Option (List MemPool) :=
  match vPool[cpu.toNat]? with
  | some p => some (vPool.set cpu.toNat (p.occupyChunk adr))
  | none => none

/-- `vPool[cpu].freeChunk(adr)`, without its result. -/
def freeAt (vPool : List MemPool) (cpu : CpuIdx) (adr : Word) : Option (List MemPool) :=
  match vPool[cpu.toNat]? with
  | some p => some (vPool.set cpu.toNat (p.freeChunk adr).1)
  | none => none

/-! ### Operations -/

namespace AllocTable

variable (t : AllocTable)

def insert (cpu : CpuIdx) (adr hash : Word) (v : Nat) (staged : Bool) :
    Option (AllocTable × Bool) :=
  match occupyAt t.vPool cpu adr with
  | some vPool =>
    let x := t.a.insert { cpu, adr, hash, v, staged }
    some ({ t with vPool, a := x.1 }, x.2)
  | none => none

def insertMgmt (cpu : CpuIdx) (adr : Word) (buf : Option Block) : Option (AllocTable × Bool) :=
  match occupyAt t.vPool cpu adr with
  | some vPool =>
    let x :=
      match buf with
      | none => t.m.insert { cpu, adr }
      | some b => t.m.insert { cpu, adr, b }
    some ({ t with vPool, m := x.1 }, x.2)
  | none => none

def allocate (cpu : CpuIdx) (hash : Word) (v : Nat) (staged : Bool) :
    Option (AllocTable × Int) :=
  match t.vPool[cpu.toNat]? with
  | none => some (t, allocNoSpace)
  | some p =>
    match p.acquireChunk with
    | none => some (t, allocNoSpace)
    | some (adr, p) =>
      match insert { t with vPool := t.vPool.set cpu.toNat p } cpu adr hash v staged with
      | some (t, ok) => some (t, if ok then allocOk else allocEntryExists)
      | none => none

def allocateMgmt (cpu : CpuIdx) : Option (AllocTable × Int) :=
  match t.vPool[cpu.toNat]? with
  | none => some (t, allocNoSpace)
  | some p =>
    match p.acquireChunk with
    | none => some (t, allocNoSpace)
    | some (adr, p) =>
      match insertMgmt { t with vPool := t.vPool.set cpu.toNat p } cpu adr none with
      | some (t, ok) => some (t, if ok then allocOk else allocEntryExists)
      | none => none

def payloadPerChunk : Nat := memBlockSize - 1 - 4

def neededChunks (serialisedContainer : List Byte) : Word :=
  BitVec.ofNat 32 ((serialisedContainer.length + payloadPerChunk - 1) / payloadPerChunk)

def availableSpace : Nat := (t.vPool.map fun p => p.getFreeSpace.toNat).sum

/-- The first CPU with the most free space, 0 if none has any. -/
def chosen : CpuIdx :=
  (t.vPool.zipIdx.foldl
    (fun best pi =>
      if best.2 < pi.1.getFreeSpace.toNat then (BitVec.ofNat 8 pi.2, pi.1.getFreeSpace.toNat)
      else best)
    ((0 : CpuIdx), 0)).1

/-- The loop of `allocateMgmt` over the chunks of the container. -/
def allocateMgmtLoop : Nat → AllocTable → Option (AllocTable × Report)
  | 0, t => some (t, .code 0)
  | chunks + 1, t =>
    match t.allocateMgmt t.chosen with
    | some (t, allocState) =>
      if allocState = allocOk then allocateMgmtLoop chunks t
      else some (t, .error "MgmtTable: Could not allocate node\n")
    | none => none

def allocateMgmtFor (serialisedContainer : List Byte) : Option (AllocTable × Report) :=
  -- the loops over the CPUs count in a `uint8_t` and do not end with more than 255 of them
  if 255 < t.vPool.length then none
  else
    let needed := neededChunks serialisedContainer
    if t.availableSpace < (needed * memBlock).toNat then
      some (t, .error ("MgmtTable: Not enough space for management data. "
        ++ toString t.availableSpace ++ " available across all cores, needed "
        ++ toString (needed * memBlock).toNat ++ ". Pro Tip: Remove some schedules.\n"))
    else allocateMgmtLoop needed.toNat t

def deallocateAllMgmt : Option AllocTable :=
  match t.m.entries.foldlM (fun vPool e => freeAt vPool e.cpu e.adr) t.vPool with
  | some vPool => some { t with vPool, m := .empty }
  | none => none

def removeByVertex (v : Nat) : AllocTable × Bool :=
  ({ t with a := t.a.eraseIf fun e => e.v == v }, t.a.entries.any fun e => e.v == v)

def removeByHash (hash : Word) : AllocTable × Bool :=
  ({ t with a := t.a.eraseIf fun e => e.hash == hash }, t.a.entries.any fun e => e.hash == hash)

/-- Erases the empty range from the entry to itself. -/
def removeByAdr (_cpu : CpuIdx) (_adr : Word) : AllocTable × Bool := (t, true)

def lookupHash (hash : Word) : Option AllocMeta := t.a.entries.find? fun e => e.hash == hash

def deallocate (hash : Word) : AllocTable × Report :=
  match t.lookupHash hash with
  | none => (t, .error ("unknown hash " ++ toString hash.toNat ++ " (dec)"))
  | some x =>
    match t.vPool[x.cpu.toNat]? with
    | none => (t, .success false)
    | some p =>
      if (p.freeChunk x.adr).2 then
        let freed := { t with vPool := t.vPool.set x.cpu.toNat (p.freeChunk x.adr).1 }
        ((freed.removeByHash hash).1, .success (freed.removeByHash hash).2)
      else (t, .success false)

def syncBmpsToPools : AllocTable := { t with vPool := t.vPool.map fun p => p.syncBmpToPool.1 }

def recreatePools (mode : AllocPoolMode) : Option AllocTable :=
  let inited := t.vPool.map MemPool.init
  match t.a.entries.foldlM (fun vPool e => occupyAt vPool e.cpu e.adr) inited with
  | none => none
  | some nodes =>
    match mode with
    | .WITHOUT_MGMT => some { t with vPool := nodes }
    | .WITH_MGMT =>
      match t.m.entries.foldlM (fun vPool e => occupyAt vPool e.cpu e.adr) nodes with
      | some vPool => some { t with vPool }
      | none => none

def splitBmps : List MemPool → List Byte → Option (List MemPool)
  | [], _ => some []
  | p :: ps, bmpData =>
    if h : (bmpData.take p.consts.bmpSize.toNat).length = p.consts.bmpSize.toNat then
      match splitBmps ps (bmpData.drop p.consts.bmpSize.toNat) with
      | some ps => some (p.setBmp (bmpData.take p.consts.bmpSize.toNat) h :: ps)
      | none => none
    else none

def setBmps (bmpData : List Byte) : Option (AllocTable × Bool) :=
  if (t.vPool.map fun p => p.consts.bmpSize.toNat).sum ≠ bmpData.length then some (t, false)
  else
    match splitBmps t.vPool bmpData with
    | some vPool => some ({ t with vPool }, true)
    | none => none

/-- The copy constructor. The copy has the tables, but no pools. -/
def copy : Option AllocTable :=
  match recreatePools { a := t.a, m := t.m, vPool := [] } .WITH_MGMT with
  | some t => some t.syncBmpsToPools
  | none => none

def assign (src : AllocTable) : Option AllocTable :=
  match recreatePools { t with a := src.a, m := src.m } .WITH_MGMT with
  | some t => some t.syncBmpsToPools
  | none => none

def cpyWithoutMgmt (src : AllocTable) : Option AllocTable :=
  match recreatePools { t with a := src.a, m := .empty } .WITHOUT_MGMT with
  | some t => some t.syncBmpsToPools
  | none => none

def clear : AllocTable := { a := .empty, m := .empty, vPool := t.vPool.map MemPool.init }

def fresh (memories : List Space) : AllocTable :=
  { a := .empty, m := .empty, vPool := memories.map MemPool.new }

end AllocTable

/-! ### Sequences of operations -/

inductive AllocOp
  | insert (cpu : CpuIdx) (adr hash : Word) (v : Nat) (staged : Bool)
  | allocate (cpu : CpuIdx) (hash : Word) (v : Nat) (staged : Bool)
  | allocateMgmt (cpu : CpuIdx)
  | allocateMgmtFor (serialisedContainer : List Byte)
  | insertMgmt (cpu : CpuIdx) (adr : Word) (buf : Option Block)
  | deallocate (hash : Word)
  | deallocateAllMgmt
  | removeByVertex (v : Nat)
  | removeByAdr (cpu : CpuIdx) (adr : Word)
  | removeByHash (hash : Word)
  | recreatePools (mode : AllocPoolMode)
  | setBmps (bmpData : List Byte)
  | copy
  | assign (src : AllocTable)
  | cpyWithoutMgmt (src : AllocTable)
  | syncBmpsToPools
  | clear

def AllocTable.step (t : AllocTable) : AllocOp → Option (AllocTable × Report)
  | .insert cpu adr hash v staged =>
    (t.insert cpu adr hash v staged).map fun r => (r.1, .success r.2)
  | .allocate cpu hash v staged => (t.allocate cpu hash v staged).map fun r => (r.1, .code r.2)
  | .allocateMgmt cpu => (t.allocateMgmt cpu).map fun r => (r.1, .code r.2)
  | .allocateMgmtFor serialisedContainer => t.allocateMgmtFor serialisedContainer
  | .insertMgmt cpu adr buf => (t.insertMgmt cpu adr buf).map fun r => (r.1, .success r.2)
  | .deallocate hash => some (t.deallocate hash)
  | .deallocateAllMgmt => t.deallocateAllMgmt.map fun t => (t, .done)
  | .removeByVertex v => some ((t.removeByVertex v).1, .success (t.removeByVertex v).2)
  | .removeByAdr cpu adr => some ((t.removeByAdr cpu adr).1, .success (t.removeByAdr cpu adr).2)
  | .removeByHash hash => some ((t.removeByHash hash).1, .success (t.removeByHash hash).2)
  | .recreatePools mode => (t.recreatePools mode).map fun t => (t, .done)
  | .setBmps bmpData => (t.setBmps bmpData).map fun r => (r.1, .success r.2)
  | .copy => t.copy.map fun t => (t, .done)
  | .assign src => (t.assign src).map fun t => (t, .done)
  | .cpyWithoutMgmt src => (t.cpyWithoutMgmt src).map fun t => (t, .done)
  | .syncBmpsToPools => some (t.syncBmpsToPools, .done)
  | .clear => some (t.clear, .done)

def AllocTable.after (t : AllocTable) : List AllocOp → Option AllocTable
  | [] => some t
  | op :: ops =>
    match t.step op with
    | some (t, _) => t.after ops
    | none => none

end DataMaster

/-!
## Contents of allocated chunks

The host keeps the contents of a chunk in the entry that holds it, as a buffer of one block.
-/

namespace DataMaster

open BigEndian

/-- Copies `xs` into the buffer of an entry. -/
def Block.copyTo (b : Block) (off : Nat) (xs : List Octet) (h : off + xs.length ≤ memBlockSize) :
    Block :=
  ⟨(BigEndian.copyTo b.toList off xs).toArray, by
    rw [List.size_toArray, length_copyTo (by rw [Vector.length_toList]; exact h),
      Vector.length_toList]⟩

end DataMaster
