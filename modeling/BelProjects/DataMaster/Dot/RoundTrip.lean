import BelProjects.DataMaster.Dot.Kept

/-!
# Round trip of a schedule through its text

A downloaded schedule that is written as text and read again has the same typed edges,
and the buffers of its nodes are the same as long as they hold nothing that the text
leaves out.
-/

namespace DataMaster.Dot

open BigEndian

/-! ### Uploading -/

def dynSourcePos : EdgeType → Option Nat
  | .dynId => some nflgTmsgDynIdPos
  | .dynPar1 => some nflgTmsgDynPar1Pos
  | .dynPar0 => some nflgTmsgDynPar0Pos
  | .dynTef => some nflgTmsgDynTefPos
  | _ => none

/-- The flags `getDynSrc` sets for the edges of a message. It stops at a second source for
one field. -/
def dynSourceFlags (acc : Word) : List EdgeType → Word
  | [] => acc
  | t :: ts =>
    match dynSourcePos t with
    | none => dynSourceFlags acc ts
    | some pos => if acc.getLsbD pos then acc else dynSourceFlags (acc ||| (1#32 <<< pos)) ts

/-- The flags `getQInfo` sets for the queues of a block. -/
def queueFlags (types : List EdgeType) : Word :=
  (bit (types.contains (.qPrio prioLo)) <<< (nflgBlockQsPos + prioLo)) |||
    (bit (types.contains (.qPrio prioHi)) <<< (nflgBlockQsPos + prioHi)) |||
    (bit (types.contains (.qPrio prioIl)) <<< (nflgBlockQsPos + prioIl))

def crawlFlags (edges : List Edge) (n : Node) : Word :=
  let types := (edges.filter fun e => e.source == n.name).map Edge.type
  match n.data with
  | .timingMsg .. => dynSourceFlags 0 types
  | .blockFixed .. | .blockAlign .. => queueFlags types
  | _ => 0

def withCrawlFlags (edges : List Edge) (n : Node) : Node :=
  { n with flags := n.flags ||| crawlFlags edges n }

def needle : List Octet := [0xDE, 0xAD, 0xBE, 0xEF]

/-- The buffer `prepareUpload` fills for a node with the link words `va`. -/
def prepareBuffer (edges : List Edge) (va : List Word) (n : Node) : Except String (List Octet) :=
  let b := (withCrawlFlags edges n).serialise va
  if needle <:+: b then
    .error ("Node '" ++ n.name ++
      "'contains uninitialised elements!\nMisspelled/forgot a mandatory property in .dot file ?")
  else .ok b

/-! ### Downloaded schedules -/

structure DownVertex where
  node : Node
  b : List Octet
  size : b.length = memBlockSize
  parsed : ofBuffer node.name node.pattern node.beamproc node.cpu b = some node
  /-- The name is the one the hash map has for the hash, or made up from the hash. -/
  named : hash node.name = .ok node.hash

structure Download where
  vertices : List DownVertex
  edges : List Edge
  unique : (vertices.map fun v => v.node.name).Nodup
  linked : ∀ e ∈ edges, e.source ∈ vertices.map (fun v => v.node.name) ∧
    e.target ∈ vertices.map (fun v => v.node.name)

def Download.graph (D : Download) : NodeGraph :=
  { nodes := D.vertices.map DownVertex.node, edges := D.edges }

/-- A node that came back on its CPU, with the same buffer for the same link words. -/
structure Restores (edges : List Edge) (v : DownVertex) (n : Node) : Prop where
  name : n.name = v.node.name
  cpu : n.cpu = v.node.cpu
  buffer : prepareBuffer edges (links v.b v.node) n = .ok v.b

/-- The text of the schedule is read back as the same nodes with the same typed edges. -/
def Download.RoundTrips (D : Download) (filterMeta : Bool) : Prop :=
  ∃ d g, createDot D.graph filterMeta = .ok d ∧ parseDot d = .ok g ∧ g.edges = D.edges ∧
    List.Forall₂ (Restores D.edges) D.vertices g.nodes

/-- A node with nothing in its buffer that the text leaves out. -/
structure DownVertex.Kept (edges : List Edge) (v : DownVertex) : Prop where
  data : v.node.data.Kept
  /-- The flags are the type, the entry and exit points and those of the node's edges. -/
  flags : v.node.flags = withType (entryFlags v.node) v.node.data.type ||| crawlFlags edges v.node
  /-- The buffer holds the parameters and the link words and is zero elsewhere. -/
  clean : v.node.serialise (links v.b v.node) = v.b
  /-- The buffer does not look like one with uninitialised elements. -/
  initialised : ¬ needle <:+: v.b

/-- The CPUs of the nodes can be read: they are printed in hexadecimal right after the
flags of a meta node, and the numeral has no prefix. -/
def CpusReadable : Bool → List DownVertex → Prop
  | _, [] => True
  | hex, v :: vs => (hex = true → v.node.cpu.toNat < 10) ∧ CpusReadable v.node.data.isMeta vs

/-! ### One vertex -/

/-- A hexadecimal numeral without prefix stands for another number as soon as it has a
letter or a second digit. -/
theorem hex_misread : ∀ n : Fin 256, 10 ≤ n.1 →
    ∀ c ∈ (s2u (String.ofList (Numerals.hex n.1))).toOption,
      BitVec.ofNat 8 c ≠ BitVec.ofNat 8 n.1 := by
  decide +kernel

theorem cpu_read_iff (hex : Bool) (cpu : CpuIdx) :
    (∃ c, s2u (cpuText hex cpu) = .ok c ∧ BitVec.ofNat 8 c = cpu) ↔
      (hex = true → cpu.toNat < 10) := by
  have hdec : s2u (decText cpu.toNat) = .ok cpu.toNat := by
    have hlt := cpu.isLt
    exact s2u_decText (by omega)
  constructor
  · rintro ⟨c, hc, hcpu⟩ rfl
    by_contra hge
    have hmis := hex_misread ⟨cpu.toNat, cpu.isLt⟩ (Nat.le_of_not_lt hge) c
      (by unfold cpuText at hc; rw [if_pos rfl] at hc; rw [hc]; rfl)
    exact hmis (hcpu.trans (by rw [BitVec.ofNat_toNat, BitVec.setWidth_eq]))
  · intro h
    refine ⟨cpu.toNat, ?_, by rw [BitVec.ofNat_toNat, BitVec.setWidth_eq]⟩
    cases hex with
    | false => exact hdec
    | true =>
      have hone : Numerals.hex cpu.toNat = Numerals.dec cpu.toNat := by
        have hlt := h rfl
        unfold Numerals.hex Numerals.dec
        rw [Nat.toDigits_of_lt_base hlt, Nat.toDigits_of_lt_base (by omega)]
      unfold cpuText
      rw [if_pos rfl, hone]
      exact hdec

section Vertex

variable {edges : List Edge} {v : DownVertex} {n : Node} {hex : Bool} {attrs : List Attr}

theorem visit_ok_iff (n : Node) : (∃ attrs, visit n = .ok attrs) ↔ n.data.Writable := by
  unfold visit NodeData.Writable
  cases n.data with
  | timingMsg tOffs id par tef res =>
    dsimp only
    have hlen : idFormats.length = 2 := rfl
    constructor
    · rintro ⟨attrs, h⟩
      by_contra hge
      rw [List.getElem?_eq_none (by omega)] at h
      cases h
    · intro h
      rw [List.getElem?_eq_getElem (by omega)]
      exact ⟨_, rfl⟩
  | _ => exact iff_of_true ⟨_, rfl⟩ trivial

theorem createNode_of_reads {x : MyVertex} (hr : Reads x hex n) (hhash : hash n.name = .ok n.hash)
    {c : Nat} (hc : s2u (cpuText hex n.cpu) = .ok c) :
    createNode x = .ok { n.restored with cpu := BitVec.ofNat 8 c } := by
  have hcpu : x.u 8 .cpu = .ok (BitVec.ofNat 8 c) := by
    unfold MyVertex.u
    rw [hr.cpu, hc]
  unfold createNode
  rw [hr.name, hhash, hcpu, hr.flags, hr.data, hr.pattern, hr.beamproc]
  simp only [bind, Except.bind, pure, Except.pure, Node.restored, restored_type]

theorem createNode_ok {x : MyVertex} (hr : Reads x hex n) {r : Node} (h : createNode x = .ok r) :
    ∃ c, s2u (cpuText hex n.cpu) = .ok c := by
  cases hc : s2u (cpuText hex n.cpu) with
  | ok c => exact ⟨c, rfl⟩
  | error what =>
    have hcpu : x.u 8 .cpu = .error what := by
      unfold MyVertex.u
      rw [hr.cpu, hc]
    unfold createNode at h
    rw [hcpu] at h
    cases hhash : hash x.name with
    | ok a =>
      rw [hhash] at h
      cases h
    | error e =>
      rw [hhash] at h
      cases h

/-- The node that is uploaded for one that has come back through the text. -/
theorem withCrawlFlags_restored (edges : List Edge) (n : Node) (cpu : CpuIdx) :
    withCrawlFlags edges { n.restored with cpu := cpu } =
      { n.restored with
        cpu := cpu
        flags := withType (entryFlags n) n.data.type ||| crawlFlags edges n } := by
  have hcrawl : crawlFlags edges { n.restored with cpu := cpu } = crawlFlags edges n := by
    unfold crawlFlags Node.restored NodeData.restored
    cases n.data <;> rfl
  unfold withCrawlFlags
  rw [hcrawl]
  rfl

theorem dynSourceFlags_type (ts : List EdgeType) {acc : Word} (hacc : acc &&& nflgTypeSmsk = 0#32) :
    dynSourceFlags acc ts &&& nflgTypeSmsk = 0#32 := by
  induction ts generalizing acc with
  | nil => exact hacc
  | cons t ts ih =>
    unfold dynSourceFlags
    split
    next => exact ih hacc
    next pos hpos =>
      split
      next => exact hacc
      next =>
        apply ih
        have hbit : (1#32 <<< pos) &&& nflgTypeSmsk = 0#32 := by
          unfold dynSourcePos at hpos
          cases t with
          | dynId | dynPar0 | dynPar1 | dynTef =>
            cases hpos
            decide
          | _ => cases hpos
        rw [BitVec.and_or_distrib_right, hacc, hbit, BitVec.or_zero]

theorem crawlFlags_type (edges : List Edge) (n : Node) :
    crawlFlags edges n &&& nflgTypeSmsk = 0#32 := by
  have hqueue : ∀ a b c : Bool, ((bit a <<< (nflgBlockQsPos + prioLo)) |||
      (bit b <<< (nflgBlockQsPos + prioHi)) ||| (bit c <<< (nflgBlockQsPos + prioIl))) &&&
        nflgTypeSmsk = 0#32 := by decide
  unfold crawlFlags
  cases n.data with
  | timingMsg => exact dynSourceFlags_type _ (by decide)
  | blockFixed | blockAlign => exact hqueue _ _ _
  | _ => exact BitVec.zero_and

theorem ofBuffer_fields {b : List Octet} {n : Node} {name pattern beamproc : String} {cpu : CpuIdx}
    (h : ofBuffer name pattern beamproc cpu b = some n) :
    read32 b 40 = n.hash ∧ read32 b 44 = n.flags ∧
    deserialise b (NodeType.ofNum (n.flags &&& nflgTypeSmsk).toNat) = some n.data := by
  unfold ofBuffer at h
  dsimp only at h
  split at h
  next data hdata =>
    have hnode := Option.some.inj h
    rw [← hnode]
    exact ⟨rfl, rfl, hdata⟩
  next => cases h

theorem DownVertex.fields (v : DownVertex) :
    read32 v.b 40 = v.node.hash ∧ read32 v.b 44 = v.node.flags ∧
    deserialise v.b (NodeType.ofNum (v.node.flags &&& nflgTypeSmsk).toNat) = some v.node.data :=
  ofBuffer_fields v.parsed

theorem deserialise_type {b : List Octet} {t : NodeType} {d : NodeData}
    (h : deserialise b t = some d) : d.type = t := by
  unfold deserialise at h
  cases t <;> cases h <;> rfl

theorem DownVertex.plainSources (v : DownVertex) :
    PlainSources (links v.b v.node) v.node.data.restored := by
  obtain ⟨-, -, hdata⟩ := v.fields
  have htype := deserialise_type hdata
  cases hd : v.node.data with
  | timingMsg tOffs id par tef res =>
    rw [hd] at hdata htype
    rw [← htype] at hdata
    cases hdata
    exact plainSources_links v.b v.node _ rfl 0 (by rw [hd]; rfl)
  | _ => trivial

theorem kept_of_restores {cpu : CpuIdx} (hw : v.node.data.Writable)
    (h : Restores edges v { v.node.restored with cpu := cpu }) : v.Kept edges := by
  have hbuf := h.buffer
  have hshort := length_links v.b v.node
  unfold prepareBuffer at hbuf
  rw [withCrawlFlags_restored] at hbuf
  generalize hr : ({ v.node.restored with
    cpu := cpu
    flags := withType (entryFlags v.node) v.node.data.type ||| crawlFlags edges v.node } : Node) = r
    at hbuf
  have hrflags : r.flags =
      withType (entryFlags v.node) v.node.data.type ||| crawlFlags edges v.node := by rw [← hr]
  have hrdata : r.data = v.node.data.restored := by
    rw [← hr]
    rfl
  have hrhash : r.hash = v.node.hash := by
    rw [← hr]
    rfl
  dsimp only at hbuf
  split at hbuf
  next => cases hbuf
  next hneedle =>
    have hb := Except.ok.inj hbuf
    rw [hb] at hneedle
    obtain ⟨hhash, hflags, hdata⟩ := v.fields
    have hflags' : v.node.flags = r.flags := by
      rw [← hflags, ← hb]
      exact read32_flags hshort
    have htype : NodeType.ofNum (v.node.flags &&& nflgTypeSmsk).toNat = v.node.data.type := by
      rw [hflags', hrflags, BitVec.and_or_distrib_right, withType_type, crawlFlags_type,
        BitVec.or_zero, ofNum_typeNum]
    have hdata' : r.data = v.node.data := by
      have hplain : PlainSources (links v.b v.node) r.data := by
        rw [hrdata]
        exact v.plainSources
      have hback := deserialise_serialise hplain
      rw [hb, hrdata, restored_type, ← htype, hdata, ← hrdata] at hback
      exact (Option.some.inj hback).symm
    exact ⟨(kept_iff _).2 ⟨hw, hrdata.symm.trans hdata'⟩, hflags'.trans hrflags,
      (serialise_congr hrhash.symm hflags' hdata'.symm).trans hb, hneedle⟩

theorem restores_of_kept (h : v.Kept edges) :
    Restores edges v { v.node.restored with cpu := v.node.cpu } where
  name := rfl
  cpu := rfl
  buffer := by
    have hdata := ((kept_iff _).1 h.data).2
    unfold prepareBuffer
    rw [withCrawlFlags_restored]
    generalize hr : ({ v.node.restored with
      cpu := v.node.cpu
      flags := withType (entryFlags v.node) v.node.data.type ||| crawlFlags edges v.node } : Node)
        = r
    have hbuf : r.serialise (links v.b v.node) = v.b := by
      refine (serialise_congr ?_ ?_ ?_).trans h.clean
      · rw [← hr]
        rfl
      · rw [← hr]
        exact h.flags.symm
      · rw [← hr]
        exact hdata
    dsimp only
    rw [hbuf, if_neg h.initialised]

theorem vertex_restores_iff :
    (∃ attrs n, visit v.node = .ok attrs ∧
      createNode (readVertex (vertexText hex v.node attrs)) = .ok n ∧ Restores edges v n) ↔
    (hex = true → v.node.cpu.toNat < 10) ∧ v.Kept edges := by
  constructor
  · rintro ⟨attrs, n, hvisit, hcreate, hrestores⟩
    have hreads : Reads (readVertex (vertexText hex v.node attrs)) hex v.node :=
      reads_of_visit hvisit
    obtain ⟨c, hc⟩ := createNode_ok hreads hcreate
    rw [createNode_of_reads hreads v.named hc] at hcreate
    cases hcreate
    exact ⟨(cpu_read_iff hex v.node.cpu).1 ⟨c, hc, hrestores.cpu⟩,
      kept_of_restores ((visit_ok_iff v.node).1 ⟨attrs, hvisit⟩) hrestores⟩
  · rintro ⟨hcpu, hkept⟩
    obtain ⟨attrs, hvisit⟩ := (visit_ok_iff v.node).2 ((kept_iff _).1 hkept.data).1
    obtain ⟨c, hc, hcv⟩ := (cpu_read_iff hex v.node.cpu).2 hcpu
    refine ⟨attrs, _, hvisit, createNode_of_reads (reads_of_visit hvisit) v.named hc, ?_⟩
    rw [hcv]
    exact restores_of_kept hkept

/-- After a node has been written, the stream prints in hexadecimal if it was a meta node. -/
theorem base_after_visit (hvisit : visit n = .ok attrs) (hex : Bool) :
    attrs.foldl Attr.base hex = n.data.isMeta := by
  obtain ⟨name, pattern, beamproc, hash, cpu, flags, data⟩ := n
  cases data with
  | timingMsg tOffs id par tef res =>
    unfold visit at hvisit
    dsimp only at hvisit
    split at hvisit
    next => cases hvisit
    next =>
      cases hvisit
      rw [List.foldl_append]
      rfl
  | _ =>
    cases hvisit
    rfl

end Vertex

/-! ### Whole schedules -/

theorem vertices_restore_iff (edges : List Edge) (hex : Bool) (vs : List DownVertex) :
    (∃ ds ns, writeVertices hex (vs.map DownVertex.node) = .ok ds ∧ createNodes ds = .ok ns ∧
      List.Forall₂ (Restores edges) vs ns) ↔
    CpusReadable hex vs ∧ ∀ v ∈ vs, v.Kept edges := by
  induction vs generalizing hex with
  | nil =>
    exact iff_of_true ⟨[], [], rfl, rfl, .nil⟩ ⟨trivial, fun v hv => absurd hv List.not_mem_nil⟩
  | cons v vs ih =>
    constructor
    · rintro ⟨ds, ns, hwrite, hcreate, hall⟩
      rw [List.map_cons, writeVertices] at hwrite
      split at hwrite
      next => cases hwrite
      next attrs hvisit =>
        split at hwrite
        next => cases hwrite
        next rest hrest =>
          cases hwrite
          rw [createNodes] at hcreate
          split at hcreate
          next => cases hcreate
          next n hn =>
            split at hcreate
            next => cases hcreate
            next ns' hns =>
              cases hcreate
              obtain ⟨hhead, htail⟩ := List.forall₂_cons.1 hall
              obtain ⟨hcpu, hkept⟩ := vertex_restores_iff.1 ⟨attrs, n, hvisit, hn, hhead⟩
              rw [base_after_visit hvisit] at hrest
              obtain ⟨hcpus, hkepts⟩ := (ih _).1 ⟨rest, ns', hrest, hns, htail⟩
              exact ⟨⟨hcpu, hcpus⟩, List.forall_mem_cons.2 ⟨hkept, hkepts⟩⟩
    · rintro ⟨⟨hcpu, hcpus⟩, hkepts⟩
      obtain ⟨hkept, hrest⟩ := List.forall_mem_cons.1 hkepts
      obtain ⟨attrs, n, hvisit, hn, hhead⟩ := vertex_restores_iff.2 ⟨hcpu, hkept⟩
      obtain ⟨ds, ns, hds, hns, htail⟩ := (ih _).2 ⟨hcpus, hrest⟩
      refine ⟨vertexText hex v.node attrs :: ds, n :: ns, ?_, ?_, .cons hhead htail⟩
      · rw [List.map_cons, writeVertices, hvisit]
        dsimp only
        rw [base_after_visit hvisit, hds]
      · rw [createNodes, hn]
        dsimp only
        rw [hns]

theorem length_writeVertices {hex : Bool} {ns : List Node} {ds : List DotVertex}
    (h : writeVertices hex ns = .ok ds) : ds.length = ns.length := by
  induction ns generalizing hex ds with
  | nil =>
    cases h
    rfl
  | cons n ns ih =>
    rw [writeVertices] at h
    split at h
    next => cases h
    next =>
      split at h
      next => cases h
      next rest hrest =>
        cases h
        exact congrArg (· + 1) (ih hrest)

theorem length_createNodes {ds : List DotVertex} {ns : List Node} (h : createNodes ds = .ok ns) :
    ns.length = ds.length := by
  induction ds generalizing ns with
  | nil =>
    cases h
    rfl
  | cons d ds ih =>
    rw [createNodes] at h
    split at h
    next => cases h
    next =>
      split at h
      next => cases h
      next rest hrest =>
        cases h
        exact congrArg (· + 1) (ih hrest)

namespace Download

variable (D : Download)

/-- A dump without filter, or of a schedule without meta nodes, has all nodes and edges. -/
theorem createDot_full {filterMeta : Bool}
    (h : filterMeta = true → ∀ v ∈ D.vertices, v.node.data.isMeta = false) :
    createDot D.graph filterMeta =
      match writeVertices false (D.vertices.map DownVertex.node) with
      | .error what => .error what
      | .ok vertices => .ok { vertices, edges := D.edges } := by
  cases filterMeta with
  | false => rfl
  | true =>
    have hnodes : D.graph.nodes.filter (fun n => !n.data.isMeta) =
        D.vertices.map DownVertex.node := by
      apply List.filter_eq_self.2
      intro n hn
      obtain ⟨v, hv, rfl⟩ := List.mem_map.1 hn
      rw [h rfl v hv]
      rfl
    have hname : ∀ name ∈ D.vertices.map (fun v => v.node.name),
        (D.vertices.map DownVertex.node).any (fun n => n.name == name) = true := by
      intro name hmem
      obtain ⟨v, hv, rfl⟩ := List.mem_map.1 hmem
      exact List.any_eq_true.2 ⟨v.node, List.mem_map.2 ⟨v, hv, rfl⟩, beq_self_eq_true _⟩
    have hedges : D.edges.filter (fun e =>
        (D.vertices.map DownVertex.node).any (fun n => n.name == e.source) &&
          (D.vertices.map DownVertex.node).any (fun n => n.name == e.target)) = D.edges := by
      apply List.filter_eq_self.2
      intro e he
      obtain ⟨hsource, htarget⟩ := D.linked e he
      rw [hname _ hsource, hname _ htarget]
      rfl
    unfold createDot
    dsimp only
    rw [if_pos rfl, if_pos rfl, hnodes]
    cases writeVertices false (D.vertices.map DownVertex.node) with
    | error what => rfl
    | ok vertices =>
      exact congrArg (fun edges => Except.ok (DotFile.mk vertices edges)) hedges

/-- With the filter, meta nodes do not come back. -/
theorem no_meta_of_roundTrips (h : D.RoundTrips true) :
    ∀ v ∈ D.vertices, v.node.data.isMeta = false := by
  obtain ⟨d, g, hcreate, hparse, -, hall⟩ := h
  unfold createDot at hcreate
  dsimp only at hcreate
  split at hcreate
  next => cases hcreate
  next vertices hwrite =>
    cases hcreate
    unfold parseDot at hparse
    dsimp only at hparse
    split at hparse
    next => cases hparse
    next nodes hnodes =>
      cases hparse
      have hlen : ((D.vertices.map DownVertex.node).filter fun n => !n.data.isMeta).length =
          (D.vertices.map DownVertex.node).length := by
        rw [if_pos rfl] at hwrite
        rw [List.length_map, hall.length_eq, length_createNodes hnodes,
          length_writeVertices hwrite]
        rfl
      intro v hv
      have hkept := List.length_filter_eq_length_iff.1 hlen v.node (List.mem_map.2 ⟨v, hv, rfl⟩)
      simpa using hkept

theorem full_of_roundTrips {filterMeta : Bool} (h : D.RoundTrips filterMeta) :
    filterMeta = true → ∀ v ∈ D.vertices, v.node.data.isMeta = false := by
  rintro rfl
  exact D.no_meta_of_roundTrips h

theorem kept_of_roundTrips {filterMeta : Bool} (h : D.RoundTrips filterMeta) :
    CpusReadable false D.vertices ∧ ∀ v ∈ D.vertices, v.Kept D.edges := by
  apply (vertices_restore_iff D.edges false D.vertices).1
  have hfull := D.full_of_roundTrips h
  obtain ⟨d, g, hcreate, hparse, -, hall⟩ := h
  rw [D.createDot_full hfull] at hcreate
  split at hcreate
  next => cases hcreate
  next ds hds =>
    cases hcreate
    unfold parseDot at hparse
    dsimp only at hparse
    split at hparse
    next => cases hparse
    next ns hns =>
      cases hparse
      exact ⟨ds, ns, hds, hns, hall⟩

/-- **Exactly the schedules without anything that the text leaves out come back.** -/
theorem roundTrips_iff (D : Download) (filterMeta : Bool) :
    D.RoundTrips filterMeta ↔
      (filterMeta = true → ∀ v ∈ D.vertices, v.node.data.isMeta = false) ∧
      CpusReadable false D.vertices ∧ ∀ v ∈ D.vertices, v.Kept D.edges := by
  constructor
  · intro h
    exact ⟨D.full_of_roundTrips h, D.kept_of_roundTrips h⟩
  · rintro ⟨hfull, hkept⟩
    obtain ⟨ds, ns, hds, hns, hall⟩ := (vertices_restore_iff D.edges false D.vertices).2 hkept
    refine ⟨{ vertices := ds, edges := D.edges }, { nodes := ns, edges := D.edges }, ?_, ?_, rfl,
      hall⟩
    · rw [D.createDot_full hfull, hds]
    · unfold parseDot
      rw [hns]

end Download

/-! ### A permanent flow -/

/-- A node as it is downloaded after an upload with the link words `va`. -/
def DownVertex.uploaded (n : Node) (va : List Word) (hshort : va.length ≤ 10)
    (htype : n.flags &&& nflgTypeSmsk = typeNum n.data.type) (hplain : PlainSources va n.data)
    (hnamed : hash n.name = .ok n.hash) : DownVertex where
  node := n
  b := n.serialise va
  size := length_serialise hshort
  parsed := by
    unfold ofBuffer
    dsimp only
    rw [read32_flags hshort, read32_hash hshort, htype, ofNum_typeNum,
      deserialise_serialise hplain]
  named := hnamed

def sampleNode (name : String) (flags : Word) (data : NodeData) : Node :=
  { name, pattern := "A", beamproc := sUndefined, hash := fnvHash name, cpu := 0
    flags := typeNum data.type ||| flags, data }

/-- A block with a queue, and a flow command for it that changes its default destination
for good. -/
def permanentFlow : Download where
  vertices :=
    [.uploaded (sampleNode "B" (1#32 <<< 20) (.blockFixed 10000 0 0))
        [0x1000, 0x1034, 0x1068, 0, 0] (by decide) (by decide +kernel) trivial (by decide +kernel),
      .uploaded (sampleNode "B_ListDst" 0 .destList)
        [0x1000] (by decide) (by decide +kernel) trivial (by decide +kernel),
      .uploaded (sampleNode "B_QBl_Lo" 0 .cmdQMeta)
        [0, 0x109C, 0x10D0] (by decide) (by decide +kernel) trivial (by decide +kernel),
      .uploaded (sampleNode "B_Qb_Lo0" 0 .cmdQBuffer)
        [0] (by decide) (by decide +kernel) trivial (by decide +kernel),
      .uploaded (sampleNode "B_Qb_Lo1" 0 .cmdQBuffer)
        [0] (by decide) (by decide +kernel) trivial (by decide +kernel),
      .uploaded (sampleNode "F" 0 (.flow 0 0 (actFlow 0 1 true true)))
        [0x1000, 0x1000, 0x1000] (by decide) (by decide +kernel) trivial (by decide +kernel)]
  edges :=
    [⟨"B", "B_ListDst", .dstList⟩, ⟨"B", "B_QBl_Lo", .qPrio prioLo⟩, ⟨"F", "B", .defDst⟩,
      ⟨"F", "B", .target⟩, ⟨"F", "B", .flowDst⟩, ⟨"B", "B", .defDst⟩,
      ⟨"B_QBl_Lo", "B_Qb_Lo0", .metaChild⟩, ⟨"B_QBl_Lo", "B_Qb_Lo1", .metaChild⟩]
  unique := by decide +kernel
  linked := by decide +kernel

/-- The flow command does not come back as a permanent one. -/
theorem permanentFlow_changed : ¬ ∀ (D : Download) (filterMeta : Bool), D.RoundTrips filterMeta := by
  intro h
  have hkept := (permanentFlow.kept_of_roundTrips (h permanentFlow false)).2
  unfold permanentFlow at hkept
  simp only [List.forall_mem_cons] at hkept
  obtain ⟨-, -, -, -, -, hflow, -⟩ := hkept
  have hact : actFlow 0 1 true true &&& ~~~(actPrioSmsk ||| actQtyMsk ||| actVabsSmsk) =
      2#32 <<< actTypePos := hflow.data
  revert hact
  decide

end DataMaster.Dot
