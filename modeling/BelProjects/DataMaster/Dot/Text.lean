import BelProjects.DataMaster.Dot.Node
import BelProjects.DataMaster.Schedule.Graph
import BelProjects.Library.Numerals

/-!
# Schedules as text

A dot file has a statement for every node, with attributes, and one for every edge, with
the edge's type.  One visitor per class of node objects writes the attributes; the parser
puts those it knows into the string fields of a vertex, whose other fields keep their
defaults, and an upload builds the node objects from these strings.
-/

namespace DataMaster.Dot

inductive Property
  | cpu | thread | flags | patName | patEntry | patExit | bpName | bpEntry | bpExit
  | tPeriod | qIl | qHi | qLo
  | tOffs | id | fid | gid | evtno | sid | bpid | bin | bpcstart | reqnob | vacc | par | tef | res
  | startOffs | tValid | vabs | prio | qty | tWait | perma
  | frmIl | toIl | frmHi | toHi | frmLo | toLo
  deriving DecidableEq, Repr

def sTrue : String := "true"
def sFalse : String := "false"
def sZero : String := "0"
def sUndefined32 : String := "0xDEADBEEF"
def sUndefined64 : String := "0xD15EA5EDDEADBEEF"

/-- What the fields of a new vertex hold. -/
def Property.initial : Property → String
  | .cpu | .thread | .patName | .bpName => sUndefined
  | .flags => sUndefined32
  | .tPeriod | .tOffs | .id | .par | .tWait => sUndefined64
  | .vabs => sFalse
  | .qty => "1"
  | _ => sZero

/-- `createParser` maps the attributes of a file to these fields and ignores all others. -/
def Property.inParser : Property → Bool
  | .res | .frmIl | .toIl | .frmHi | .toHi | .frmLo | .toLo => false
  | _ => true

structure MyVertex where
  name : String
  /-- `none` is the default, the undefined type. -/
  type : Option NodeType
  prop : Property → String

def MyVertex.put (v : MyVertex) (p : Property) (s : String) : MyVertex :=
  { v with prop := Function.update v.prop p s }

structure DotVertex where
  name : String
  type : NodeType
  attrs : List (Property × String)
  deriving DecidableEq, Repr

structure Edge where
  source : String
  target : String
  type : EdgeType
  deriving DecidableEq, Repr

structure DotFile where
  vertices : List DotVertex
  edges : List Edge
  deriving DecidableEq, Repr

structure NodeGraph where
  nodes : List Node
  edges : List Edge

/-! ### Formats of the event identifier -/

structure PropFormat where
  s : Property
  pos : Nat
  bits : Nat

def idFormats : List (List PropFormat) :=
  [[⟨.fid, 60, 4⟩, ⟨.gid, 48, 12⟩, ⟨.evtno, 36, 12⟩, ⟨.sid, 24, 12⟩, ⟨.bpid, 10, 14⟩],
    [⟨.fid, 60, 4⟩, ⟨.gid, 48, 12⟩, ⟨.evtno, 36, 12⟩, ⟨.bin, 35, 1⟩, ⟨.bpcstart, 34, 1⟩,
      ⟨.sid, 20, 12⟩, ⟨.bpid, 6, 14⟩, ⟨.reqnob, 4, 1⟩, ⟨.vacc, 0, 4⟩]]

def idFidPos : Nat := 60
def idFidMsk : Time := 0xf

def fidOf (id : Time) : Nat := ((id >>> idFidPos) &&& idFidMsk).toNat

def subfield (id : Time) (it : PropFormat) : Time := (id >>> it.pos) &&& ((1#64 <<< it.bits) - 1)

/-! ### Writing -/

inductive FormatNum
  | DEC | HEX | HEX16 | HEX32 | HEX64 | BIT | BOOL
  deriving DecidableEq, Repr

inductive Attr
  | num (p : Property) (v : Time) (format : FormatNum)
  | str (p : Property) (s : String)

def decText (n : Nat) : String := String.ofList (Numerals.dec n)

def hexText (width n : Nat) : String := String.ofList (Numerals.hexPadded width n)

def boolText (b : Bool) : String := if b then sTrue else sFalse

def Attr.text : Attr → Property × String
  | .num p v .HEX => (p, hexText 0 v.toNat)
  | .num p v .HEX16 => (p, hexText 4 v.toNat)
  | .num p v .HEX32 => (p, hexText 8 v.toNat)
  | .num p v .HEX64 => (p, hexText 16 v.toNat)
  | .num p v .DEC => (p, decText v.toNat)
  | .num p v .BIT => (p, decText (v &&& 1).toNat)
  | .num p v .BOOL => (p, boolText (v &&& 1 != 0))
  | .str p s => (p, s)

/-- Whether the stream prints numbers in hexadecimal after an attribute. The manipulators
of `pushPair` stay in force. -/
def Attr.base (hex : Bool) : Attr → Bool
  | .num _ _ .DEC | .num _ _ .BIT => false
  | .num _ _ .BOOL | .str _ _ => hex
  | .num _ _ _ => true

def nflgBpEntryLm32Pos : Nat := 12
def nflgPatEntryLm32Pos : Nat := 13
def nflgBpExitLm32Pos : Nat := 14
def nflgPatExitLm32Pos : Nat := 15

def flagBit (flags : Word) (pos : Nat) : Time := if flags.getLsbD pos then 1 else 0

def pushMembershipInfo (n : Node) : List Attr :=
  [.str .patName n.pattern,
    .num .patEntry (flagBit n.flags nflgPatEntryLm32Pos) .BOOL,
    .num .patExit (flagBit n.flags nflgPatExitLm32Pos) .BOOL,
    .str .bpName n.beamproc,
    .num .bpEntry (flagBit n.flags nflgBpEntryLm32Pos) .BOOL,
    .num .bpExit (flagBit n.flags nflgBpExitLm32Pos) .BOOL]

/-- `pushNodeInfo` without the CPU, which is printed in the base the stream is in. -/
def pushNodeInfo (n : Node) : List Attr := [.num .flags (n.flags.setWidth 64) .HEX32]

def pushEventInfo (n : Node) (tOffs : Time) : List Attr :=
  .num .tOffs tOffs .DEC :: pushMembershipInfo n

def getQty (act : Word) : Word := act &&& actQtyMsk
def getPrio (act : Word) : Word := (act >>> actPrioPos) &&& actPrioMsk
def getVabs (act : Word) : Word := (act >>> actVabsPos) &&& 1
def getFlushPrio (act : Word) : Word := (act >>> actFlushPrioPos) &&& actFlushPrioMsk

def pushCommandInfo (tValid : Time) (act : Word) : List Attr :=
  [.num .tValid tValid .DEC, .num .vabs ((getVabs act).setWidth 64) .BOOL]

def pushQPrios (q : Word) : List Attr :=
  [.num .qLo (((q >>> prioLo) &&& 1).setWidth 64) .BOOL,
    .num .qHi (((q >>> prioHi) &&& 1).setWidth 64) .BOOL,
    .num .qIl (((q >>> prioIl) &&& 1).setWidth 64) .BOOL]

def pushBlock (n : Node) (tPeriod : Time) : List Attr :=
  pushNodeInfo n ++ [.num .tPeriod tPeriod .DEC] ++ pushMembershipInfo n ++
    pushQPrios ((n.flags >>> nflgBlockQsPos) &&& 7)

/-- `visit`, for all classes of node objects. The colours and shapes of the drawing are
left out. -/
def visit (n : Node) : Except String (List Attr) :=
  match n.data with
  | .timingMsg tOffs id par tef _ =>
    match idFormats[fidOf id]? with
    | none =>
      .error ("bad format id (FID) " ++ decText (fidOf id) ++ " within ID field of Node '" ++ n.name
        ++ "'")
    | some vF =>
      .ok (pushNodeInfo n ++ pushEventInfo n tOffs ++
        vF.map (fun it => .num it.s (subfield id it) .DEC) ++
        [.num .id id .HEX64, .num .par par .HEX64, .num .tef (tef.setWidth 64) .DEC])
  | .noop tOffs tValid act =>
    .ok (pushNodeInfo n ++ [.num .prio ((getPrio act).setWidth 64) .DEC] ++ pushEventInfo n tOffs ++
      pushCommandInfo tValid act ++ [.num .qty ((getQty act).setWidth 64) .DEC])
  | .flow tOffs tValid act =>
    .ok (pushNodeInfo n ++ pushCommandInfo tValid act ++
      [.num .prio ((getPrio act).setWidth 64) .DEC] ++ pushEventInfo n tOffs ++
      [.num .qty ((getQty act).setWidth 64) .DEC])
  | .switch tOffs => .ok (pushNodeInfo n ++ pushEventInfo n tOffs)
  | .origin tOffs thread =>
    .ok (pushNodeInfo n ++ pushEventInfo n tOffs ++ [.num .thread (thread.setWidth 64) .DEC])
  | .startThread tOffs startOffs thread =>
    .ok (pushNodeInfo n ++ pushEventInfo n tOffs ++
      [.num .startOffs startOffs .DEC, .num .thread (thread.setWidth 64) .DEC])
  | .flush tOffs tValid act _ _ _ _ _ _ =>
    .ok (pushNodeInfo n ++ pushEventInfo n tOffs ++ pushCommandInfo tValid act ++
      [.num .prio ((getPrio act).setWidth 64) .DEC] ++ pushQPrios (getFlushPrio act))
  | .wait tOffs tValid act tWait =>
    .ok (pushNodeInfo n ++ [.num .prio ((getPrio act).setWidth 64) .DEC] ++ pushEventInfo n tOffs ++
      pushCommandInfo tValid act ++ [.num .tWait tWait .DEC])
  | .blockFixed tPeriod _ _ => .ok (pushBlock n tPeriod)
  | .blockAlign tPeriod _ _ => .ok (pushBlock n tPeriod)
  | .cmdQMeta => .ok (pushNodeInfo n)
  | .cmdQBuffer => .ok (pushNodeInfo n)
  | .destList => .ok (pushNodeInfo n)

/-- The CPU, in the base the stream is in. -/
def cpuText (hex : Bool) (cpu : CpuIdx) : String :=
  String.ofList (if hex then Numerals.hex cpu.toNat else Numerals.dec cpu.toNat)

def vertexText (hex : Bool) (n : Node) (attrs : List Attr) : DotVertex :=
  { name := n.name
    type := n.data.type
    attrs := (.cpu, cpuText hex n.cpu) :: attrs.map Attr.text }

def writeVertices : Bool → List Node → Except String (List DotVertex)
  | _, [] => .ok []
  | hex, n :: ns =>
    match visit n with
    | .error what => .error what
    | .ok attrs =>
      match writeVertices (attrs.foldl Attr.base hex) ns with
      | .error what => .error what
      | .ok rest => .ok (vertexText hex n attrs :: rest)

/-- `createDot`. With `filterMeta` it leaves out meta nodes and their edges. -/
def createDot (g : NodeGraph) (filterMeta : Bool) : Except String DotFile :=
  let nodes := if filterMeta then g.nodes.filter fun n => !n.data.isMeta else g.nodes
  let kept (name : String) : Bool := nodes.any fun n => n.name == name
  let edges := if filterMeta then g.edges.filter fun e => kept e.source && kept e.target else g.edges
  match writeVertices false nodes with
  | .error what => .error what
  | .ok vertices => .ok { vertices, edges }

/-! ### Reading -/

/-- `s2u`, before the cast to the type that is asked for. -/
def s2u (s : String) : Except String Nat :=
  if s = sTrue then .ok 1
  else if s = sFalse then .ok 0
  else
    match Numerals.read s.toList with
    | some n =>
      if n < 2 ^ 64 then .ok n else .error ("Cannot convert string '" ++ s ++ "' to number\n")
    | none => .error ("Cannot convert string '" ++ s ++ "' to number\n")

def MyVertex.u (v : MyVertex) (w : Nat) (p : Property) : Except String (BitVec w) :=
  match s2u (v.prop p) with
  | .ok n => .ok (BitVec.ofNat w n)
  | .error what => .error what

def MyVertex.b (v : MyVertex) (p : Property) : Except String Bool :=
  match s2u (v.prop p) with
  | .ok n => .ok (n != 0)
  | .error what => .error what

/-- The vertex `read_graphviz` makes of a statement. -/
def readVertex (d : DotVertex) : MyVertex :=
  d.attrs.foldl (fun v a => if a.1.inParser then v.put a.1 a.2 else v)
    { name := d.name, type := some d.type, prop := Property.initial }

def offsetBasis : Word := 2166136261
def fnvPrime : Word := 16777619

/-- `HashMap::fnvHash`, over the characters and the zero behind them. -/
def fnvHash (str : String) : Word :=
  (str.toUTF8.toList ++ [0]).foldl
    (fun h (c : UInt8) => (h ^^^ c.toBitVec.signExtend 32) * fnvPrime) offsetBasis

def sHashType : List Char := "HASH_".toList

/-- `HashMap::hash`: names made up from a hash stand for that hash. -/
def hash (s : String) : Except String Word :=
  if sHashType.isPrefixOf s.toList then
    match s2u (String.ofList (s.toList.drop sHashType.length)) with
    | .ok n => .ok (BitVec.ofNat 32 n)
    | .error what => .error what
  else .ok (fnvHash s)

/-- The subfields of an identifier. The stream that collects their texts is not cleared in
between. -/
def putSubfields (v : MyVertex) (id : Time) (vTmp : List PropFormat) : MyVertex :=
  (vTmp.foldl (fun (st : MyVertex × List Char) it =>
    let ss := st.2 ++ Numerals.dec (subfield id it).toNat
    (st.1.put it.s (String.ofList ss), ss)) (v, [])).1

/-- `completeId`. When there is an identifier, its format is taken from its lowest byte. -/
def completeId (v : MyVertex) : Except String MyVertex :=
  if v.prop .id = sUndefined64 then do
    let fid := ((← v.u 8 .fid) &&& 0xf).toNat
    match idFormats[fid]? with
    | none => .error ("bad format id (FID) " ++ decText fid ++ " field in Node '" ++ v.name ++ "'")
    | some vTmp =>
      let id ← vTmp.foldlM (fun (id : Time) it => do
        let val ← v.u 64 it.s
        return id ||| ((val &&& ((1#64 <<< it.bits) - 1)) <<< it.pos)) 0
      return v.put .id (hexText 0 id.toNat)
  else do
    let id : Time := (← v.u 8 .id).setWidth 64
    match idFormats[fidOf id]? with
    | none =>
      .error ("bad format id (FID) " ++ decText (fidOf id) ++ " within ID field of Node '" ++ v.name
        ++ "'")
    | some vTmp => return putSubfields v id vTmp

/-! ### Node objects from vertices -/

def actNoop (prio : BitVec 8) (qty : Word) (vabs : Bool) : Word :=
  (1#32 <<< actTypePos) ||| ((prio.setWidth 32 &&& actPrioMsk) <<< actPrioPos) ||| (qty &&& actQtyMsk) |||
    (bit vabs <<< actVabsPos)

def actFlow (prio : BitVec 8) (qty : Word) (vabs permanent : Bool) : Word :=
  (2#32 <<< actTypePos) ||| ((prio.setWidth 32 &&& actPrioMsk) <<< actPrioPos) ||| (qty &&& actQtyMsk) |||
    (bit vabs <<< actVabsPos) ||| (bit permanent <<< actChpPos)

def actWait (prio : BitVec 8) (vabs : Bool) : Word :=
  (4#32 <<< actTypePos) ||| ((prio.setWidth 32 &&& actPrioMsk) <<< actPrioPos) ||| 1 |||
    (bit vabs <<< actVabsPos)

def actFlush (prio : BitVec 8) (qIl qHi qLo vabs permanent : Bool) : Word :=
  (3#32 <<< actTypePos) ||| ((prio.setWidth 32 &&& actPrioMsk) <<< actPrioPos) ||| (1 &&& actQtyMsk) |||
    (bit vabs <<< actVabsPos) |||
    ((((bit qIl <<< prioIl) ||| (bit qHi <<< prioHi) ||| (bit qLo <<< prioLo)) &&& actFlushPrioMsk)
      <<< actFlushPrioPos) ||| (bit permanent <<< actChpPos)

def createData (v : MyVertex) : Except String NodeData :=
  match v.type with
  | some .tmsg => do
    let v ← completeId v
    return .timingMsg (← v.u 64 .tOffs) (← v.u 64 .id) (← v.u 64 .par) (← v.u 32 .tef) (← v.u 32 .res)
  | some .cnoop => do
    return .noop (← v.u 64 .tOffs) (← v.u 64 .tValid)
      (actNoop (← v.u 8 .prio) (← v.u 32 .qty) (← v.b .vabs))
  | some .cflow => do
    return .flow (← v.u 64 .tOffs) (← v.u 64 .tValid)
      (actFlow (← v.u 8 .prio) (← v.u 32 .qty) (← v.b .vabs) (← v.b .perma))
  | some .cswitch => do
    return .switch (← v.u 64 .tOffs)
  | some .origin => do
    return .origin (← v.u 64 .tOffs) ((← v.u 8 .thread).setWidth 32)
  | some .startthread => do
    return .startThread (← v.u 64 .tOffs) (← v.u 64 .startOffs) ((← v.u 8 .thread).setWidth 32)
  | some .cflush => do
    return .flush (← v.u 64 .tOffs) (← v.u 64 .tValid)
      (actFlush (← v.u 8 .prio) (← v.b .qIl) (← v.b .qHi) (← v.b .qLo) (← v.b .vabs) (← v.b .perma))
      (← v.u 8 .frmIl) (← v.u 8 .toIl) (← v.u 8 .frmHi) (← v.u 8 .toHi) (← v.u 8 .frmLo)
      (← v.u 8 .toLo)
  | some .cwait => do
    return .wait (← v.u 64 .tOffs) (← v.u 64 .tValid) (actWait (← v.u 8 .prio) (← v.b .vabs))
      (← v.u 64 .tWait)
  | some .blockFixed => do
    return .blockFixed (← v.u 64 .tPeriod) 0 0
  | some .blockAlign => do
    return .blockAlign (← v.u 64 .tPeriod) 0 0
  | some .queue => .ok .cmdQMeta
  | some .qbuf => .ok .cmdQBuffer
  | some .altdst => .ok .destList
  | _ =>
    .error ("Node <" ++ v.name ++ ">'s type is not supported!\nMost likely you forgot to set the type " ++
      "attribute or accidentally created the node by a typo in an edge definition.")

def createFlags (v : MyVertex) : Except String Word := do
  return (bit (← v.b .bpEntry) <<< nflgBpEntryLm32Pos) ||| (bit (← v.b .bpExit) <<< nflgBpExitLm32Pos) |||
    (bit (← v.b .patEntry) <<< nflgPatEntryLm32Pos) ||| (bit (← v.b .patExit) <<< nflgPatExitLm32Pos)

/-- The part of `prepareUpload` that gives a vertex its node object. -/
def createNode (v : MyVertex) : Except String Node := do
  let hash ← hash v.name
  let cpu ← v.u 8 .cpu
  let flags ← createFlags v
  let data ← createData v
  return { name := v.name, pattern := v.prop .patName, beamproc := v.prop .bpName, hash, cpu
           flags := withType flags data.type, data }

def createNodes : List DotVertex → Except String (List Node)
  | [] => .ok []
  | x :: xs =>
    match createNode (readVertex x) with
    | .error what => .error what
    | .ok n =>
      match createNodes xs with
      | .error what => .error what
      | .ok ns => .ok (n :: ns)

/-- `parseDot`, and the node objects `prepareUpload` creates. -/
def parseDot (d : DotFile) : Except String NodeGraph :=
  match createNodes d.vertices with
  | .error what => .error what
  | .ok nodes => .ok { nodes, edges := d.edges }

end DataMaster.Dot
