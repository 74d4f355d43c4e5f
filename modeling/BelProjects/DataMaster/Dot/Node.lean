import BelProjects.DataMaster.Commands.MiniCommand

/-!
# Node objects

The host keeps an object for every node of a schedule.  It is filled from the fifty-two
bytes of the node when a schedule is downloaded and written into such a buffer for an
upload.  Pointers to other nodes are no part of the object: a download turns them into
edges of the graph, an upload takes them from the edges.
-/

namespace DataMaster.Dot

open BigEndian

/-- The parameters of a node object, for every class of objects. The two classes of blocks
differ in their type only. -/
inductive NodeData
  | timingMsg (tOffs id par : Time) (tef res : Word)
  | noop (tOffs tValid : Time) (act : Word)
  | flow (tOffs tValid : Time) (act : Word)
  | switch (tOffs : Time)
  | origin (tOffs : Time) (thread : Word)
  | startThread (tOffs startOffs : Time) (thread : Word)
  | flush (tOffs tValid : Time) (act : Word) (frmIl toIl frmHi toHi frmLo toLo : Octet)
  | wait (tOffs tValid : Time) (act : Word) (tWait : Time)
  | blockFixed (tPeriod : Time) (wrIdxs rdIdxs : BitVec 24)
  | blockAlign (tPeriod : Time) (wrIdxs rdIdxs : BitVec 24)
  | cmdQMeta
  | cmdQBuffer
  | destList
  deriving DecidableEq, Repr

def NodeData.type : NodeData → NodeType
  | .timingMsg .. => .tmsg
  | .noop .. => .cnoop
  | .flow .. => .cflow
  | .switch .. => .cswitch
  | .origin .. => .origin
  | .startThread .. => .startthread
  | .flush .. => .cflush
  | .wait .. => .cwait
  | .blockFixed .. => .blockFixed
  | .blockAlign .. => .blockAlign
  | .cmdQMeta => .queue
  | .cmdQBuffer => .qbuf
  | .destList => .altdst

def NodeData.isMeta : NodeData → Bool
  | .cmdQMeta | .cmdQBuffer | .destList => true
  | _ => false

structure Node where
  name : String
  pattern : String
  beamproc : String
  hash : Word
  cpu : CpuIdx
  flags : Word
  data : NodeData
  deriving DecidableEq, Repr

def nflgTypeSmsk : Word := 0xff

def typeNum : NodeType → Word
  | .unknown => 0 | .raw => 1 | .tmsg => 2 | .cnoop => 3 | .cflow => 4 | .cflush => 5
  | .cwait => 6 | .blockFixed => 7 | .blockAlign => 8 | .queue => 9 | .qbuf => 10 | .share => 11
  | .altdst => 12 | .origin => 13 | .startthread => 14 | .mgmt => 15 | .covenant => 16
  | .null => 17 | .cswitch => 18

/-- The constructors with parameters set the type in the flags. -/
def withType (flags : Word) (t : NodeType) : Word := (flags &&& ~~~nflgTypeSmsk) ||| typeNum t

/-! ### Buffers -/

/-- `deserialise` of the class of a node type. There is no class for other types. -/
def deserialise (b : List Octet) : NodeType → Option NodeData
  | .tmsg =>
    some (.timingMsg (read64 b 0) (read64 b 8) (read64 b 16) (read32 b 28) (read32 b 24))
  | .cnoop => some (.noop (read64 b 0) (read64 b 12) (read32 b 20))
  | .cflow => some (.flow (read64 b 0) (read64 b 12) (read32 b 20))
  | .cswitch => some (.switch (read64 b 0))
  | .origin => some (.origin (read64 b 0) (read32 b 20))
  | .startthread => some (.startThread (read64 b 0) (read64 b 8) (read32 b 20))
  | .cflush =>
    some (.flush (read64 b 0) (read64 b 12) (read32 b 20) (b.getD 28 0) (b.getD 29 0) (b.getD 33 0)
      (b.getD 34 0) (b.getD 35 0) (b.getD 36 0))
  | .cwait => some (.wait (read64 b 0) (read64 b 12) (read32 b 20) (read64 b 24))
  | .blockFixed =>
    some (.blockFixed (read64 b 0) ((read32 b 24).setWidth 24) ((read32 b 28).setWidth 24))
  | .blockAlign =>
    some (.blockAlign (read64 b 0) ((read32 b 24).setWidth 24) ((read32 b 28).setWidth 24))
  | .queue => some .cmdQMeta
  | .qbuf => some .cmdQBuffer
  | .altdst => some .destList
  | _ => none

/-- The object `parseDownloadData` creates for the node in a buffer. -/
def ofBuffer (name pattern beamproc : String) (cpu : CpuIdx) (b : List Octet) : Option Node :=
  let flags := read32 b 44
  match deserialise b (NodeType.ofNum (flags &&& nflgTypeSmsk).toNat) with
  | some data => some { name, pattern, beamproc, hash := read32 b 40, cpu, flags, data }
  | none => none

/-- `Node::serialise`, with the link words `va`, the default destination first. -/
def serialiseNode (va : List Word) (n : Node) : List Octet :=
  copyTo (copyTo (copyTo (List.replicate memBlockSize 0) 48 (be32 (va.getD 0 0)))
    40 (be32 n.hash)) 44 (be32 n.flags)

def serialiseEvent (va : List Word) (n : Node) (tOffs : Time) : List Octet :=
  copyTo (serialiseNode va n) 0 (be64 tOffs)

def serialiseCommand (va : List Word) (n : Node) (tOffs tValid : Time) (act : Word) : List Octet :=
  copyTo (copyTo (copyTo (serialiseEvent va n tOffs) 8 (be32 (va.getD 1 0)))
    12 (be64 tValid)) 20 (be32 act)

def serialiseBlock (va : List Word) (n : Node) (tPeriod : Time) (wrIdxs rdIdxs : BitVec 24) :
    List Octet :=
  copyTo (copyTo (copyTo (copyTo (copyTo (copyTo (copyTo (serialiseNode va n)
    0 (be64 tPeriod)) 8 (be32 (va.getD 1 0))) 20 (be32 (va.getD 4 0))) 16 (be32 (va.getD 3 0)))
    12 (be32 (va.getD 2 0))) 24 (be32 (wrIdxs.setWidth 32))) 28 (be32 (rdIdxs.setWidth 32))

/-- Words one after the other, from offset `off` on. -/
def copyWords (b : List Octet) (off : Nat) : List Word → List Octet
  | [] => b
  | v :: vs => copyWords (copyTo b off (be32 v)) (off + 4) vs

/-- A word put in the place of the lower or the higher half of a field, unless it is null. -/
def overlayLo (x : Time) (v : Word) : Time :=
  if v = lm32NullPtr then x else (x &&& ~~~0xffffffff#64) ||| v.setWidth 64

def overlayHi (x : Time) (v : Word) : Time :=
  if v = lm32NullPtr then x else (x &&& ~~~(0xffffffff#64 <<< 32)) ||| (v.setWidth 64 <<< 32)

/-- `serialise`, with the link words the upload crawler has collected. -/
def Node.serialise (va : List Word) (n : Node) : List Octet :=
  match n.data with
  | .timingMsg tOffs id par tef res =>
    let id := overlayLo id (va.getD 1 0)
    let par := overlayLo (overlayHi par (va.getD 2 0)) (va.getD 3 0)
    let tef := if va.getD 4 0 = lm32NullPtr then tef else va.getD 4 0
    let res := if va.getD 5 0 = lm32NullPtr then res else va.getD 5 0
    copyTo (copyTo (copyTo (copyTo (serialiseEvent va n tOffs)
      8 (be64 id)) 16 (be64 par)) 24 (be32 res)) 28 (be32 tef)
  | .noop tOffs tValid act => serialiseCommand va n tOffs tValid act
  | .flow tOffs tValid act =>
    copyTo (serialiseCommand va n tOffs tValid act) 24 (be32 (va.getD 2 0))
  | .switch tOffs =>
    copyTo (copyTo (serialiseEvent va n tOffs) 8 (be32 (va.getD 1 0))) 24 (be32 (va.getD 2 0))
  | .origin tOffs thread =>
    copyTo (copyTo (copyTo (serialiseEvent va n tOffs) 8 (be32 (va.getD 1 0)))
      16 (be32 (va.getD 2 0))) 20 (be32 thread)
  | .startThread tOffs startOffs thread =>
    copyTo (copyTo (serialiseEvent va n tOffs) 8 (be64 startOffs)) 20 (be32 thread)
  | .flush tOffs tValid act frmIl toIl frmHi toHi frmLo toLo =>
    copyTo (copyTo (copyTo (copyTo (copyTo (copyTo (copyTo (serialiseCommand va n tOffs tValid act)
      24 (be32 (va.getD 2 0))) 28 [frmIl]) 29 [toIl]) 33 [frmHi]) 34 [toHi]) 35 [frmLo]) 36 [toLo]
  | .wait tOffs tValid act tWait =>
    copyTo (serialiseCommand va n tOffs tValid act) 24 (be64 tWait)
  | .blockFixed tPeriod wrIdxs rdIdxs => serialiseBlock va n tPeriod wrIdxs rdIdxs
  | .blockAlign tPeriod wrIdxs rdIdxs => serialiseBlock va n tPeriod wrIdxs rdIdxs
  | .cmdQMeta => copyWords (serialiseNode va n) 0 (va.drop 1)
  | .cmdQBuffer => serialiseNode va n
  | .destList => copyWords (serialiseNode va n) 0 va

/-! ### Link words -/

def nflgTmsgDynIdPos : Nat := 20
def nflgTmsgDynPar0Pos : Nat := 22
def nflgTmsgDynPar1Pos : Nat := 23
def nflgTmsgDynTefPos : Nat := 24

/-- A word of the buffer if a flag says that it comes from another node. -/
def dynWord (flags : Word) (pos : Nat) (w : Word) : Word := if flags.getLsbD pos then w else lm32NullPtr

/-- The words of a node's buffer that the graph holds as edges, in the order in which the
upload crawler collects them: the default destination, and what is particular to the type.
The field `tef` of a message with a dynamic source is the checksum of its sources. -/
def links (b : List Octet) (n : Node) : List Word :=
  match n.data with
  | .timingMsg .. =>
    let sum := if n.flags.getLsbD nflgTmsgDynIdPos || n.flags.getLsbD nflgTmsgDynPar0Pos ||
      n.flags.getLsbD nflgTmsgDynPar1Pos || n.flags.getLsbD nflgTmsgDynTefPos then read32 b 28
      else lm32NullPtr
    [read32 b 48, dynWord n.flags nflgTmsgDynIdPos (read32 b 12),
      dynWord n.flags nflgTmsgDynPar1Pos (read32 b 16),
      dynWord n.flags nflgTmsgDynPar0Pos (read32 b 20), sum, lm32NullPtr]
  | .noop .. | .wait .. => [read32 b 48, read32 b 8]
  | .flow .. | .switch .. | .flush .. => [read32 b 48, read32 b 8, read32 b 24]
  | .origin .. => [read32 b 48, read32 b 8, read32 b 16]
  | .startThread .. | .cmdQBuffer => [read32 b 48]
  | .blockFixed .. | .blockAlign .. =>
    [read32 b 48, read32 b 8, read32 b 12, read32 b 16, read32 b 20]
  | .cmdQMeta => [read32 b 48, read32 b 0, read32 b 4]
  | .destList =>
    [read32 b 0, read32 b 4, read32 b 8, read32 b 12, read32 b 16, read32 b 20, read32 b 24,
      read32 b 28, read32 b 32, read32 b 36]

end DataMaster.Dot
