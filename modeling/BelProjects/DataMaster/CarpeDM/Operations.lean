import BelProjects.DataMaster.CarpeDM.Download

/-!
# Operations on the schedule of the device

Adding, removing and keeping nodes start from a download of the device; overwriting and
clearing start from nothing.  Every operation checks what it has built and writes it to the
device.  The guard around an operation saves the hash map, the group table and the covenant
table and puts them back if the operation throws.
-/

namespace DataMaster.CarpeDM

open BigEndian

variable (o : Analyses)

/-! ### Meta nodes of blocks -/

/-- A meta vertex of a block, on the block's CPU and in its pattern. -/
def metaVertex (x : HostVertex) (name : String) (type : NodeType) : Prog HostVertex := do
  let s ← get
  let hash ← check (s.hm.lookup name "")
  let v : Dot.MyVertex := { name, type := some type, prop := Dot.Property.initial }
  pure { v := ((v.put .cpu (x.v.prop .cpu)).put .flags "0x0").put .patName (x.v.prop .patName)
         hash
         np := none }

def setMetaPattern (m : HostVertex) : Prog Unit :=
  modify fun s => { s with gt := s.gt.setPattern m.name (m.v.prop .patName) false false }

def generateDstLst (g : HostGraph) (v : Nat) (x : HostVertex) : Prog HostGraph := do
  let name := x.name ++ "_ListDst"
  hashAdd name
  let vD ← metaVertex x name .altdst
  setMetaPattern vD
  pure ((g.addVertex vD).addEdge ⟨v, g.vertices.length, .dstList⟩)

def sQPrioPrefix (prio : Nat) : String := ["Lo", "Hi", "Il"].getD prio ""

def generateQmeta (g : HostGraph) (v : Nat) (x : HostVertex) (prio : Nat) : Prog HostGraph := do
  let nameBl := x.name ++ "_QBl_" ++ sQPrioPrefix prio
  let nameB0 := x.name ++ "_Qb_" ++ sQPrioPrefix prio ++ "0"
  let nameB1 := x.name ++ "_Qb_" ++ sQPrioPrefix prio ++ "1"
  hashAdd nameBl
  hashAdd nameB0
  hashAdd nameB1
  let vBl ← metaVertex x nameBl .queue
  let vB0 ← metaVertex x nameB0 .qbuf
  let vB1 ← metaVertex x nameB1 .qbuf
  setMetaPattern vBl
  setMetaPattern vB0
  setMetaPattern vB1
  let n := g.vertices.length
  pure ((((((g.addVertex vBl).addVertex vB0).addVertex vB1).addEdge ⟨v, n, .qPrio prio⟩).addEdge
    ⟨n, n + 1, .metaChild⟩).addEdge ⟨n, n + 2, .metaChild⟩)

/-- The queues of a block, unless it has them or does not ask for them. -/
def generateQueue (g : HostGraph) (v : Nat) (x : HostVertex) (prio : Nat) (gen has : Bool) :
    Prog HostGraph :=
  if gen && !has then generateQmeta g v x prio else pure g

def generateMetaOf (g : HostGraph) (v : Nat) (x : HostVertex) : Prog HostGraph := do
  let intro := "Parser error when processing node <" ++ x.name ++ ">. Cause: "
  let genIl ← checkAs intro (x.v.b .qIl)
  let genHi ← checkAs intro (x.v.b .qHi)
  let genLo ← checkAs intro (x.v.b .qLo)
  let has (type : EdgeType) : Bool := (g.outEdges v).any fun e => e.type == type
  let hasIl := has (.qPrio prioIl)
  let hasHi := has (.qPrio prioHi)
  let hasLo := has (.qPrio prioLo)
  let hasDstLst := has .dstList
  let needsDstLst := has .altDst || genIl || hasIl || genHi || hasHi || genLo || hasLo
  let g ← generateQueue g v x prioIl genIl hasIl
  let g ← generateQueue g v x prioHi genHi hasHi
  let g ← generateQueue g v x prioLo genLo hasLo
  if needsDstLst && !hasDstLst then generateDstLst g v x else pure g

def generateMetaAt (g : HostGraph) (v : Nat) : Prog HostGraph :=
  match g.vertices[v]? with
  | none => pure g
  | some x => if x.v.type.any NodeType.isBlock then generateMetaOf g v x else pure g

def generateBlockMeta (g : HostGraph) : Prog HostGraph :=
  (List.range g.vertices.length).foldlM generateMetaAt g

/-! ### Staging -/

def setStaged (hash : Word) : Prog Unit :=
  modify fun s => { s with atUp := s.atUp.setStaged hash }

def updateListDstStaging (v : Nat) : Prog Unit := do
  let s ← get
  match (s.gUp.outEdges v).find? fun e => e.type == .dstList with
  | none => pure ()
  | some e =>
    let dst ← check (s.atUp.lookupVertex e.target)
    setStaged dst.hash

/-- A node with a covenant is not staged. -/
def updateStaging (v : Nat) (e : HostEdge) : Prog Unit := do
  if e.type = .defDst ∨ e.type = .altDst then updateListDstStaging v else pure ()
  if e.type ≠ .altDst then
    let s ← get
    let x ← check (s.atUp.lookupVertex v)
    let pending ← covenantPending o ((s.gUp.vertices[x.v]?.map HostVertex.name).getD "")
    if pending then pure () else setStaged x.hash
  else pure ()

/-! ### Node objects and buffers -/

/-- `DotStr::Node::TypeVal`. -/
def typeText : Option NodeType → String
  | some .tmsg => "tmsg" | some .cnoop => "noop" | some .cflow => "flow" | some .cswitch => "switch"
  | some .origin => "origin" | some .startthread => "startthread" | some .cflush => "flush"
  | some .cwait => "wait" | some .blockFixed => "block" | some .blockAlign => "blockalign"
  | some .queue => "qinfo" | some .altdst => "listdst" | some .qbuf => "qbuf"
  | _ => sUndefined

def allocateVertex (cpu : CpuIdx) (v : Nat) (x : HostVertex) : Prog Unit := do
  let s ← get
  match s.atUp.lookupHash x.hash with
  | some _ => pure ()
  | none =>
    let r ← defined (s.atUp.allocate cpu x.hash v true)
    modify fun s => { s with atUp := r.1 }
    if r.2 = allocNoSpace then
      raise ("Not enough space in CPU " ++ toString cpu.toNat ++ " memory pool")
    else if r.2 = allocEntryExists then
      raise ("Node '" ++ x.name ++ "' would be duplicate in graph.")
    else pure ()

def prepareVertex (v : Nat) : Prog Unit := do
  let s ← get
  match s.gUp.vertices[v]? with
  | none => pure ()
  | some x =>
    let cpu ← checkAs ("Parser error when processing cpu tags of node <" ++ x.name ++ ">. Cause: ")
      (x.v.u 8 .cpu)
    let flags ← checkAs ("Parser error when processing pattern/BP entry/exit tags of node <" ++ x.name
      ++ ">. Cause: ") (Dot.createFlags x.v)
    allocateVertex cpu v x
    if x.np.isSome then pure ()
    else
      let s ← get
      match s.atUp.lookupHash x.hash with
      | none => raise ("unknown hash " ++ toString x.hash.toNat ++ " (dec)")
      | some e =>
        let data ← checkAs ("Failed to create data object for node <" ++ x.name ++ "> of type <"
          ++ typeText x.v.type ++ ">. Cause: ") (Dot.createData x.v)
        let np : Dot.Node :=
          { name := x.name, pattern := x.v.prop .patName, beamproc := x.v.prop .bpName
            hash := e.hash, cpu := e.cpu, flags := Dot.withType flags data.type, data }
        modify fun s =>
          { s with gUp := { s.gUp with vertices := s.gUp.vertices.set v { x with np := some np } } }

def blockOf (b : List Octet) : Block := Vector.ofFn fun i => b.getD i 0

def needle : List Octet := [0xDE, 0xAD, 0xBE, 0xEF]

def serialiseVertex (v : Nat) : Prog Unit := do
  let s ← get
  let x ← check (o.crawlUp s.gUp s.atUp v)
  let e ← check (s.atUp.lookupVertex v)
  let b := x.1.serialise x.2
  modify fun s => { s with atUp := s.atUp.setBuffer e.hash (blockOf b) }
  if needle <:+: b then
    raise ("Node '" ++ x.1.name
      ++ "'contains uninitialised elements!\nMisspelled/forgot a mandatory property in .dot file ?")
  else pure ()

def prepareUpload : Prog Unit := do
  let s ← get
  (List.range s.gUp.vertices.length).forM prepareVertex
  (List.range s.gUp.vertices.length).forM (serialiseVertex o)

def syncUpload : Prog Unit := modify fun s => { s with atUp := s.atUp.syncBmpsToPools }

/-! ### Addition -/

/-- `m[k] = v`, on an ordered map. -/
def mapSet (m : List (Nat × Nat)) (k v : Nat) : List (Nat × Nat) :=
  (m.filter fun x => x.1 < k) ++ (k, v) :: m.filter fun x => k < x.1

/-- Puts a vertex into the hash map. A vertex of a known hash must have been named in an
edge only. -/
def findDuplicate (duplicates : List (Nat × Nat)) (wi : HostVertex × Nat) :
    Prog (List (Nat × Nat)) := do
  hashAdd wi.1.name
  let s ← get
  match s.atUp.lookupHash wi.1.hash with
  | none => pure duplicates
  | some x =>
    if wi.1.v.type.isSome then
      raise ("Node " ++ wi.1.name ++ " already exists. You can only use the name again in an edge "
        ++ "descriptor (implicit definition)")
    else pure (mapSet duplicates x.v wi.2)

/-- The docking points: vertices of the upload graph, with the vertices that stand for them. -/
def findDuplicates (gTmp : HostGraph) : Prog (List (Nat × Nat)) :=
  gTmp.vertices.zipIdx.foldlM findDuplicate []

/-- Hands all edges of `victim` over to `borg`. -/
def mergeUploadDuplicates (borg victim : Nat) : Prog Unit := do
  let s ← get
  let outs := s.gUp.outEdges victim
  outs.forM fun e => do
    modify fun s => { s with gUp := s.gUp.addEdge { e with source := borg } }
    updateStaging o borg e
  let s ← get
  let ins := s.gUp.inEdges victim
  let edges := s.gUp.edges ++ ins.map fun e => { e with target := borg }
  -- an edge of `victim` to itself is listed twice, and removed a second time
  if outs.any fun e => e.target == victim then throw .undefined
  else
    modify fun s =>
      { s with gUp := { s.gUp with edges := edges.filter fun e => !(outs ++ ins).contains e } }

/-- Removes vertices one after the other. `vertexMap` tells where a vertex is by then. -/
def removeVertices : List Nat → (Nat → Nat) → HostGraph → HostGraph
  | [], _, g => g
  | v :: vs, vertexMap, g =>
    removeVertices vs (fun k => if v < k then vertexMap k - 1 else vertexMap k)
      ((g.clearVertex (vertexMap v)).removeVertex (vertexMap v))

def updateGroups (x : HostVertex) : Prog Unit := do
  let intro := "Parser error when processing entry/exit tags of node <" ++ x.name ++ ">. Cause: "
  let bpEntry ← checkAs intro (x.v.b .bpEntry)
  let bpExit ← checkAs intro (x.v.b .bpExit)
  modify fun s => { s with gt := s.gt.setBeamproc x.name (x.v.prop .bpName) bpEntry bpExit }
  let patEntry ← checkAs intro (x.v.b .patEntry)
  let patExit ← checkAs intro (x.v.b .patExit)
  modify fun s => { s with gt := s.gt.setPattern x.name (x.v.prop .patName) patEntry patExit }

/-- The part of `addition` behind the search for duplicates. -/
def merge (gTmp : HostGraph) (duplicates : List (Nat × Nat)) : Prog Unit := do
  let s ← get
  let n := s.gUp.vertices.length
  modify fun s => { s with gUp := gTmp.copyTo s.gUp }
  duplicates.forM fun d => mergeUploadDuplicates o d.1 (n + d.2)
  modify fun s => { s with gUp := removeVertices (duplicates.map Prod.snd) (n + ·) s.gUp }
  let s ← get
  s.gUp.vertices.forM updateGroups
  prepareUpload o
  syncUpload

/-- The part of `addition` that only fills the hash map and the group table. -/
def additionChecks (gTmp : HostGraph) : Prog (HostGraph × List (Nat × Nat)) := do
  let gTmp ← generateBlockMeta gTmp
  let duplicates ← findDuplicates gTmp
  pure (gTmp, duplicates)

def addition (gTmp : HostGraph) : Prog Unit := do
  let x ← additionChecks gTmp
  merge o x.1 x.2

/-! ### Subtraction -/

/-- `pushMetaNeighbours`. It does not end on a cycle of meta nodes. -/
def pushMetaNeighbours (g : HostGraph) : Nat → Nat → OrderedSet Nat → Prog (OrderedSet Nat)
  | 0, _, _ => throw .undefined
  | fuel + 1, v, s =>
    (g.outEdges v).foldlM (fun s e =>
      match g.vertices[e.target]? with
      | none => pure s
      | some w =>
        match w.np with
        | none => raise ("Node " ++ w.name ++ " does not have a data object, this is bad")
        | some np =>
          if np.data.isMeta then pushMetaNeighbours g fuel e.target (s.insert e.target)
          else pure s) s

/-- The vertices to be removed: those the graph defines, and their meta nodes. -/
def findToDelete (gTmp : HostGraph) : Prog (OrderedSet Nat) := do
  let s ← get
  gTmp.vertices.foldlM (fun toDelete w =>
    if w.v.type.isNone then pure toDelete
    else
      match s.atUp.lookupHash w.hash with
      | none => pure toDelete
      | some x =>
        pushMetaNeighbours s.gUp (s.gUp.vertices.length + 1) x.v (toDelete.insert x.v)) .empty

def removeNodes : List Nat → (Nat → Nat) → Prog (Nat → Nat)
  | [], vertexMap => pure vertexMap
  | vd :: toDelete, vertexMap => do
    let s ← get
    match s.gUp.vertices[vertexMap vd]? with
    | none => throw .undefined
    | some x =>
      let (atUp, report) := s.atUp.deallocate x.hash
      modify fun s => { s with atUp }
      match report with
      | .error what => raise what
      | _ =>
        modify fun s =>
          { s with
            hm := s.hm.remove x.name
            gt := s.gt.remove x.name
            gUp := (s.gUp.clearVertex (vertexMap vd)).removeVertex (vertexMap vd) }
        removeNodes toDelete fun k => if vd < k then vertexMap k - 1 else vertexMap k

def subtraction (gTmp : HostGraph) : Prog Unit := do
  let toDelete ← findToDelete gTmp
  let s ← get
  toDelete.elems.forM fun vd => (s.gUp.inEdges vd).forM fun e => updateStaging o e.source e
  let vertexMap ← removeNodes toDelete.elems id
  -- the vertex numbers in the allocation table are repaired one entry after the other
  modify fun s =>
    { s with
      atUp := (o.beginToEnd s.atUp.a.entries).foldl (fun t e => t.modV e.hash (vertexMap e.v)) s.atUp }
  prepareUpload o
  syncUpload

/-! ### Upload -/

/-- A chunk of management data. Its type is all that is told apart. -/
def mgmtChunk : Block :=
  blockOf (copyTo (List.replicate memBlockSize 0) 44 (be32 (Dot.typeNum .mgmt)))

/-- The device after an upload: staged nodes and management chunks are written. -/
def Device.written (dm : Device) (t : AllocTable) (mgmt : GroupTable × CovenantTable) : Device :=
  { dm with
    bmps := t.vPool.flatMap MemPool.bmp
    chunk := fun cpu adr =>
      if t.m.entries.any fun e => e.cpu == cpu && e.adr == adr then mgmtChunk
      else
        match t.lookupAdr cpu adr with
        | some e => if e.staged then e.b else dm.chunk cpu adr
        | none => dm.chunk cpu adr
    mgmt := some mgmt }

def generateMgmtData : Prog Unit := do
  let s ← get
  let x ← defined (s.atUp.allocateMgmtFor (o.container s.gt s.ct))
  modify fun s => { s with atUp := x.1 }
  match x.2 with
  | .error what => raise what
  | _ => syncUpload

def upload : Prog Unit := do
  generateMgmtData o
  modify fun s => { s with dm := s.dm.written s.atUp (s.gt, s.ct) }

/-! ### Operations -/

def nullify : Prog Unit :=
  modify fun s =>
    { s with
      gUp := s.gUp.clear, gDown := s.gDown.clear, atUp := s.atUp.clear, atDown := s.atDown.clear
      gt := .empty, ct := .empty, hm := .empty }

def checkTablesForSubgraph (g : HostGraph) : Prog Unit :=
  g.vertices.forM fun x => do
    let s ← get
    let hash ← check (s.hm.lookup x.name "")
    if hash = 0 then
      raise ("Node <" ++ x.name
        ++ "> was explicitly named for keep/remove, but is unknown to Hashtable!\n")
    else if (s.gt.lookup x.name).isNone then
      raise ("Node <" ++ x.name
        ++ "> was explicitly named for keep/remove, but is unknown to Grouptable!\n")
    else pure ()

def validate (force : Bool) : Prog Unit := do
  let s ← get
  checkAs "Validation of " (o.validate s.gUp s.atUp force)

def tagCheck (g : HostGraph) : Prog Unit :=
  if g.isCommands then
    raise ("Expected a schedule, but these appear to be commands (Tag '!CMD!' found in graphname)")
  else pure ()

/-- The covenants that make it safe to remove the nodes of the graph. -/
def safetyCheck (g : HostGraph) (force : Bool) : Prog CovenantTable := do
  let s ← get
  let (isSafe, report, ctAdditions) ← check (o.isSafeToRemove s g)
  if force || isSafe then pure ctAdditions
  else raise ("//Subgraph cannot safely be removed!\n\n" ++ report)

/-- The part of `remove` and `keep` behind the safety check. -/
def subtract (g : HostGraph) (ctAdditions : CovenantTable) (force : Bool) : Prog Unit := do
  subtraction o g
  validate o force
  modify fun s => { s with ct := s.ct.addAll ctAdditions }
  upload o

def activityCheck (activity : Host → List Word) (what : String) (force : Bool) : Prog Unit := do
  let s ← get
  if !force && (activity s).any (· != 0) then
    raise ("Cannot " ++ what ++ ", threads are still running. Call stop/abort/halt first\n")
  else pure ()

/-- What `add` does until it merges the graphs. -/
def addChecks (g : HostGraph) : Prog (HostGraph × List (Nat × Nat)) := do
  baseUploadOnDownload o
  additionChecks g

def add (g : HostGraph) (force : Bool) : Prog Unit := do
  tagCheck g
  let x ← addChecks o g
  merge o x.1 x.2
  validate o force
  upload o

/-- What `remove` does between its look into the tables and the subtraction. -/
def removeChecks (g : HostGraph) (force : Bool) : Prog (HostGraph × CovenantTable) := do
  baseUploadOnDownload o
  let g ← generateBlockMeta g
  let ctAdditions ← safetyCheck o g force
  pure (g, ctAdditions)

def remove (g : HostGraph) (force : Bool) : Prog Unit := do
  tagCheck g
  checkTablesForSubgraph g
  let x ← removeChecks o g force
  subtract o x.1 x.2 force

/-- The vertices of the upload graph whose names are not in the graph. -/
def notKept (gUp gTmpKeep : HostGraph) : HostGraph :=
  { vertices := gUp.vertices.filter fun w => !gTmpKeep.vertices.any fun v => v.name == w.name }

/-- What `keep` does between its look into the tables and the subtraction. -/
def keepChecks (g : HostGraph) (force : Bool) : Prog (HostGraph × CovenantTable) := do
  baseUploadOnDownload o
  let gTmpKeep ← generateBlockMeta g
  let s ← get
  let gTmpRemove := notKept s.gUp gTmpKeep
  let ctAdditions ← safetyCheck o gTmpRemove force
  pure (gTmpRemove, ctAdditions)

def keep (g : HostGraph) (force : Bool) : Prog Unit := do
  tagCheck g
  checkTablesForSubgraph g
  let x ← keepChecks o g force
  subtract o x.1 x.2 force

def clear_raw (force : Bool) : Prog Unit := do
  nullify
  activityCheck (fun s => s.dm.thrStart ++ s.dm.thrRun) "clear" force
  upload o

def overwrite (g : HostGraph) (force : Bool) : Prog Unit := do
  tagCheck g
  nullify
  addition o g
  validate o force
  activityCheck (fun s => s.dm.thrRun) "overwrite" force
  upload o

structure MetaTables where
  hm : HashMap
  gt : GroupTable
  ct : CovenantTable

def Host.metaTables (s : Host) : MetaTables := { hm := s.hm, gt := s.gt, ct := s.ct }

def Host.setMetaTables (bak : MetaTables) (s : Host) : Host :=
  { s with hm := bak.hm, gt := bak.gt, ct := bak.ct }

/-- If an operation throws, the meta tables are rolled back. -/
def safeguardTransaction (func : Prog Unit) : Prog Unit :=
  Programs.transaction Fault.isThrown Host.metaTables Host.setMetaTables func

inductive Operation
  | add (g : HostGraph) (force : Bool)
  | remove (g : HostGraph) (force : Bool)
  | keep (g : HostGraph) (force : Bool)
  | overwrite (g : HostGraph) (force : Bool)
  | clear (force : Bool)

def Operation.func : Operation → Prog Unit
  | .add g force => CarpeDM.add o g force
  | .remove g force => CarpeDM.remove o g force
  | .keep g force => CarpeDM.keep o g force
  | .overwrite g force => CarpeDM.overwrite o g force
  | .clear force => clear_raw o force

def Operation.run (op : Operation) : Prog Unit := safeguardTransaction (op.func o)

end DataMaster.CarpeDM
