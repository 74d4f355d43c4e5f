import BelProjects.DataMaster.Blocks.Host
import BelProjects.DataMaster.Commands.RoundTrip

/-!
# Reports on the queues of a block

`getQReport` reads the queues of a block out of the chunks the host has downloaded.  If these
are copies of the CPU's memory, the report lists the pending commands as `block` sees them.
-/

namespace DataMaster

open BigEndian

/-- A slot of a queue. It is at its defaults if no buffer holds it. -/
structure SlotReport where
  pending : Bool := false
  elem : QueueElement := {}

structure QueueBuffer where
  wrIdx : BitVec 8
  rdIdx : BitVec 8
  pendingCnt : Nat
  aQe : Nat → SlotReport

structure QueueReport where
  name : String
  /-- The queues of the priorities that `hasQ` reports. -/
  aQ : Nat → Option QueueBuffer

/-- `pendingCnt`, from the index of reading and the index of writing. -/
def pendingCount (auxRd auxWr : BitVec 8) : Nat :=
  let rdIdx := (auxRd &&& qIdxMaxMsk).toNat
  let wrIdx := (auxWr &&& qIdxMaxMsk).toNat
  if auxRd ≠ auxWr ∧ rdIdx = wrIdx then 4
  else if rdIdx ≤ wrIdx then wrIdx - rdIdx else wrIdx + 4 - rdIdx

def QueueBuffer.pendingElems (q : QueueBuffer) : List QueueElement :=
  (((List.range 4).map fun k => q.aQe ((q.rdIdx.toNat + k) % 4)).filter SlotReport.pending).map
    SlotReport.elem

theorem pendingCount_eq {auxRd auxWr : BitVec 8} (hrd : auxRd.toNat < 8) (hwr : auxWr.toNat < 8)
    (hle : Ring.count 4 auxRd.toNat auxWr.toNat ≤ 4) :
    pendingCount auxRd auxWr = Ring.count 4 auxRd.toNat auxWr.toNat := by
  have hslot : ∀ {b : BitVec 8}, b.toNat < 8 → (b &&& qIdxMaxMsk).toNat = b.toNat % 4 := by
    intro b hb
    rw [show (b &&& qIdxMaxMsk).toNat = ringSlot b from rfl, ringSlot_eq, Nat.mod_eq_of_lt hb]
  have hne : auxRd ≠ auxWr ↔ auxRd.toNat ≠ auxWr.toNat := not_congr BitVec.toNat_inj.symm
  rw [Ring.count_eq hrd hwr] at hle ⊢
  unfold pendingCount
  simp only [hslot hrd, hslot hwr, hne]
  split at hle <;> split <;> try split
  all_goals omega

namespace HostView

variable (H : HostView)

/-- The chunk at an address that a block of `cpu` refers to, looked up among those of `cpu`. -/
def chunkAt (cpu : CpuIdx) (a : Word) : Option AllocMeta :=
  match H.table.adrConv (H.table.adrClassification a).2 .MGMT cpu a with
  | none => none
  | some adr => H.table.lookupAdr cpu adr

/-- The queue of priority `prio`, whose buffer list is the chunk `bBL`. -/
def queueBuffer (cpu : CpuIdx) (wrIdxs rdIdxs : Word) (futureOrphan : List String)
    (bBL : AllocMeta) (prio : Nat) : QueueBuffer :=
  let auxRd := eIdx rdIdxs prio
  let auxWr := eIdx wrIdxs prio
  let rdIdx := (auxRd &&& qIdxMaxMsk).toNat
  let pendingCnt := pendingCount auxRd auxWr
  let pendingIdx := (List.range pendingCnt).map fun k => (rdIdx + k) % 4
  { wrIdx := auxWr
    rdIdx := auxRd
    pendingCnt
    aQe := fun i =>
      match H.chunkAt cpu (read32 bBL.b.toList (i / 2 * 4)) with
      | none => {}
      | some buf =>
        -- every chunk of the table has an external address
        { pending := pendingIdx.contains i
          elem := (H.getQelement (BitVec.ofNat 8 i) buf futureOrphan).getD {} } }

/-- `Block::getWrIdxs`, of the node object that the chunk was deserialised into. -/
def getWrIdxs (x : AllocMeta) : Word := read32 x.b.toList 24 &&& blockCmdqIdxsSmsk

def getRdIdxs (x : AllocMeta) : Word := read32 x.b.toList 28 &&& blockCmdqIdxsSmsk

/-- `getQReport`. A name that is not in the table raises an exception. -/
def getQReport (blockName : String) (futureOrphan : List String) : Option QueueReport :=
  match (H.hashOf blockName).bind H.table.lookupHash with
  | none => none
  | some x =>
    some
      { name := blockName
        aQ := fun prio =>
          (H.chunkAt x.cpu (read32 x.b.toList (12 + prio * 4))).map fun bBL =>
            H.queueBuffer x.cpu (getWrIdxs x) (getRdIdxs x) futureOrphan bBL prio }

/-! ### Copies of the memory -/

/-- The chunk `e` lies where `cpu` sees its own RAM at `ptr`. -/
structure PointsTo (cpu : CpuIdx) (ptr : Word) (e : AllocMeta) : Prop where
  mem : e ∈ H.table.a
  cpu_eq : e.cpu = cpu
  adr : H.table.adrConv .MGMT .INT cpu e.adr = some ptr

/-- The chunks of the CPU that executes the block `x` are copies of its memory `m`; there the
block lies at `node`, and its pointers lead to chunks. -/
structure Copies (P : Platform) (m : Mem) (x : AllocMeta) (node : Word) : Prop where
  entry : H.PointsTo x.cpu node x
  words : ∀ e ptr, H.PointsTo x.cpu ptr e → ∀ k, k < 13 →
    read32 e.b.toList (4 * k) = P.ld m (ptr + BitVec.ofNat 32 (4 * k))
  list : ∀ q, q < 3 → P.hasQueue m node q = true →
    ∃ e, H.PointsTo x.cpu (queueList P m node q) e
  noList : ∀ q, q < 3 → P.hasQueue m node q = false → queueList P m node q = lm32NullPtr
  buffer : ∀ q, q < 3 → P.hasQueue m node q = true → ∀ j, j < 2 →
    ∃ e, H.PointsTo x.cpu (P.ld m (queueList P m node q + BitVec.ofNat 32 (j * 4))) e

def flowDst (cpu : CpuIdx) (x : QueuedCmd) : String :=
  if x.arg1 = lm32NullPtr then sIdle else (H.destName cpu [] x.arg1).1

/-- The element `qe` reports the command `x` of a block of `cpu`. -/
structure Reports (cpu : CpuIdx) (qe : QueueElement) (x : QueuedCmd) : Prop where
  validTime : qe.validTime = x.validTime
  qty : qe.qty = x.qty
  type : qe.type = actType x.act
  dst : actType x.act = 2 → qe.flowDst = H.flowDst cpu x
  perma : actType x.act = 2 → qe.flowPerma = (x.act &&& actChpSmsk != 0)

/-! ### Finding chunks -/

section Chunks

variable {H} {cpu : CpuIdx}

theorem PointsTo.chunkAt_eq {ptr : Word} {e : AllocMeta} (h : H.PointsTo cpu ptr e) :
    H.chunkAt cpu ptr = some e := by
  obtain ⟨p, hp, hchunk⟩ := H.onChunk e h.mem
  change p.consts.IsChunk e.adr at hchunk
  rw [AllocMeta.place, h.cpu_eq] at hp
  have hadr := h.adr
  unfold AllocTable.adrConv at hadr
  rw [hp] at hadr
  obtain rfl := Option.some.inj ((adrConv_chunk hchunk).1.symm.trans hadr)
  have hback : H.table.adrConv .INT .MGMT cpu (e.adr + p.consts.intBaseAdr) = some e.adr := by
    unfold AllocTable.adrConv
    rw [hp]
    dsimp only
    unfold Space.adrConv
    rw [if_neg (AllocTable.intAdr_ne_null hchunk), BitVec.add_sub_cancel]
  unfold chunkAt
  rw [AllocTable.adrClassification_int hp hchunk, hback]
  exact AllocTable.lookupAdr_eq.2 ⟨h.mem, h.cpu_eq, rfl⟩

theorem chunkAt_null : H.chunkAt cpu lm32NullPtr = none := by
  unfold chunkAt AllocTable.adrConv
  cases hpool : H.table.vPool[cpu.toNat]? with
  | none => rfl
  | some p =>
    change H.table.lookupAdr cpu lm32NullPtr = none
    by_contra hsome
    obtain ⟨e, he⟩ := Option.ne_none_iff_exists'.1 hsome
    obtain ⟨hmem, -, hadr⟩ := AllocTable.lookupAdr_eq.1 he
    obtain ⟨p', -, hchunk⟩ := H.onChunk e hmem
    change p'.consts.IsChunk e.adr at hchunk
    have hram := (p'.consts.chunk_inRam hchunk).1
    rw [hadr] at hram
    exact Nat.lt_irrefl 0 hram

theorem extAdr_of_mem {e : AllocMeta} (he : e ∈ H.table.a) :
    ∃ extAdr, H.table.adrConv .MGMT .EXT e.cpu e.adr = some extAdr := by
  obtain ⟨p, hp, -⟩ := H.onChunk e he
  unfold AllocTable.adrConv Space.adrConv
  rw [show H.table.vPool[e.cpu.toNat]? = some p from hp]
  dsimp only
  split
  · exact ⟨_, rfl⟩
  · exact ⟨_, rfl⟩

/-- Whether a node will be removed changes no name. -/
theorem destName_fst (futureOrphan : List String) (dstAdr : Word) :
    (H.destName cpu futureOrphan dstAdr).1 = (H.destName cpu [] dstAdr).1 := by
  unfold destName
  dsimp only
  cases H.table.adrConv (H.table.adrClassification dstAdr).2 .MGMT
      (if (H.table.adrClassification dstAdr).2 = .PEER then (H.table.adrClassification dstAdr).1
        else cpu) dstAdr with
  | none => rfl
  | some a =>
    dsimp only
    split <;> rfl

/-- **Elements** are reported as they are in the buffer. -/
theorem getQelement_reports {e : AllocMeta} (he : e ∈ H.table.a) (idx : BitVec 8)
    (futureOrphan : List String) :
    H.Reports e.cpu ((H.getQelement idx e futureOrphan).getD {})
      (elementOf (e.b.toList.drop (idx.toNat % 2 * tCmdSize))) := by
  obtain ⟨extAdr, hext⟩ := extAdr_of_mem he
  unfold getQelement
  rw [hext]
  dsimp only
  generalize e.b.toList.drop (idx.toNat % 2 * tCmdSize) = b
  have hother : ∀ {qe : QueueElement}, ActType.ofNum? (actType (read32 b 8)) ≠ some .flow →
      qe.validTime = read64 b 0 → qe.qty = (read32 b 8 &&& actQtyMsk).toNat →
      qe.type = actType (read32 b 8) → H.Reports e.cpu qe (elementOf b) := by
    intro qe hne htime hqty htype
    have htwo : actType (read32 b 8) ≠ 2 := by
      intro htwo
      rw [htwo] at hne
      exact hne rfl
    exact ⟨htime, hqty, htype, fun h => absurd h htwo, fun h => absurd h htwo⟩
  cases htype : ActType.ofNum? (actType (read32 b 8)) with
  | none =>
    rw [htype] at hother
    unfold actType at htype
    rw [htype]
    exact hother (by simp) rfl rfl rfl
  | some atype =>
    rw [htype] at hother
    unfold actType at htype
    rw [htype]
    cases atype with
    | flow =>
      refine ⟨rfl, rfl, rfl, fun _ => ?_, fun _ => ?_⟩
      · unfold flowDst elementOf
        dsimp only [Option.getD]
        split
        · rfl
        · exact destName_fst futureOrphan _
      · exact shift_and_one_bne.trans (and_bit_bne (i := 27) (by decide)).symm
    | _ => exact hother (by decide) rfl rfl rfl

end Chunks

/-! ### Reports of copied blocks -/

section Copied

variable {H} {P : Platform} {m : Mem} {x : AllocMeta} {node : Word} (h : H.Copies P m x node)
include h

theorem Copies.element {buf : AllocMeta} {ptr : Word} (hbuf : H.PointsTo x.cpu ptr buf) {i : Nat}
    (hi : i < 2) :
    elementOf (buf.b.toList.drop (i * tCmdSize)) = slotCmd P m (ptr + BitVec.ofNat 32 (i * 20)) := by
  have hword : ∀ j, j < 5 → read32 (buf.b.toList.drop (i * tCmdSize)) (4 * j) =
      P.ld m (ptr + BitVec.ofNat 32 (i * 20) + BitVec.ofNat 32 (4 * j)) := by
    intro j hj
    rw [read32_drop, BitVec.add_assoc, ← BitVec.ofNat_add, show tCmdSize = 20 from rfl,
      show i * 20 + 4 * j = 4 * (i * 5 + j) by omega]
    exact h.words _ _ hbuf _ (by omega)
  have h0 := hword 0 (by decide)
  have h1 := hword 1 (by decide)
  have h2 := hword 2 (by decide)
  have h3 := hword 3 (by decide)
  have h4 := hword 4 (by decide)
  unfold elementOf slotCmd read64 Platform.ld64
  rw [BitVec.add_assoc _ tCmdTime]
  exact congr (congr (congr (congrArg QueuedCmd.mk (congr (congrArg _ h0) h1)) h2) h3) h4

theorem Copies.slot (futureOrphan : List String) {q i : Nat} (hq : q < 3)
    (hex : P.hasQueue m node q = true) (hi : i < 4) {bBL : AllocMeta}
    (hlist : H.PointsTo x.cpu (queueList P m node q) bBL) :
    ∃ buf, H.chunkAt x.cpu (read32 bBL.b.toList (i / 2 * 4)) = some buf ∧
      H.Reports x.cpu ((H.getQelement (BitVec.ofNat 8 i) buf futureOrphan).getD {})
        (slotCmd P m (slotElem P m node q i)) := by
  obtain ⟨buf, hbuf⟩ := h.buffer q hq hex (i / 2) (by omega)
  have hptr := h.words _ _ hlist (i / 2) (by omega)
  rw [Nat.mul_comm] at hptr
  refine ⟨buf, by rw [hptr]; exact hbuf.chunkAt_eq, ?_⟩
  have hidx : (BitVec.ofNat 8 i).toNat = i := by
    rw [BitVec.toNat_ofNat]
    omega
  have hreport := getQelement_reports hbuf.mem (BitVec.ofNat 8 i) futureOrphan
  rw [hidx, h.element hbuf (i := i % 2) (by omega), hbuf.cpu_eq] at hreport
  exact hreport

/-- The host reads the indices modulo eight. -/
theorem Copies.idxs {q : Nat} (hq : q < 3) : (eIdx (getRdIdxs x) q).toNat = rdIdx P m node q ∧
    (eIdx (getWrIdxs x) q).toNat = wrIdx P m node q := by
  have hidx : ∀ w : Word, (eIdx (w &&& blockCmdqIdxsSmsk) q).toNat = (idxByte w q).toNat % 8 := by
    intro w
    rw [eIdx, toNat_and_ovf, idxByte_masked _ hq]
  constructor
  · rw [getRdIdxs, hidx, show read32 x.b.toList 28 = P.ld m (node + blockCmdqRdIdxs) from
      h.words _ _ h.entry 7 (by decide), rdIdx]
  · rw [getWrIdxs, hidx, show read32 x.b.toList 24 = P.ld m (node + blockCmdqWrIdxs) from
      h.words _ _ h.entry 6 (by decide), wrIdx]

theorem Copies.pendingCount_eq {q : Nat} (hq : q < 3) (hle : occupancy P m node q ≤ 4) :
    pendingCount (eIdx (getRdIdxs x) q) (eIdx (getWrIdxs x) q) = occupancy P m node q := by
  obtain ⟨hrd, hwr⟩ := h.idxs hq
  have hrd8 : rdIdx P m node q < 8 := rdIdx_lt_eight q
  have hwr8 : wrIdx P m node q < 8 := wrIdx_lt_eight q
  rw [← hrd] at hrd8
  rw [← hwr] at hwr8
  rw [occupancy, ← hrd, ← hwr] at hle ⊢
  exact DataMaster.pendingCount_eq hrd8 hwr8 hle

theorem Copies.slot_pending (futureOrphan : List String) {q : Nat} (hq : q < 3)
    (hex : P.hasQueue m node q = true) (hle : occupancy P m node q ≤ 4) {bBL : AllocMeta}
    (hlist : H.PointsTo x.cpu (queueList P m node q) bBL) {B : QueueBuffer}
    (hB : B = H.queueBuffer x.cpu (getWrIdxs x) (getRdIdxs x) futureOrphan bBL q) {k : Nat}
    (hk : k < 4) :
    (B.aQe ((rdIdx P m node q + k) % 4)).pending = decide (k < occupancy P m node q) ∧
      H.Reports x.cpu (B.aQe ((rdIdx P m node q + k) % 4)).elem
        (slotCmd P m (slotElem P m node q ((rdIdx P m node q + k) % 4))) := by
  obtain ⟨buf, hbuf, hreport⟩ :=
    h.slot futureOrphan hq hex (Nat.mod_lt (rdIdx P m node q + k) (by decide)) hlist
  have hrd8 : rdIdx P m node q < 8 := rdIdx_lt_eight q
  have hpos : (eIdx (getRdIdxs x) q &&& qIdxMaxMsk).toNat = rdIdx P m node q % 4 := by
    rw [show ∀ b : BitVec 8, (b &&& qIdxMaxMsk).toNat = ringSlot b from fun _ => rfl, ringSlot_eq,
      (h.idxs hq).1, Nat.mod_eq_of_lt hrd8]
  rw [hB]
  unfold queueBuffer
  dsimp only
  rw [h.pendingCount_eq hq hle, hpos, hbuf]
  refine ⟨?_, hreport⟩
  rw [Bool.eq_iff_iff, List.contains_iff_mem, List.mem_map, decide_eq_true_iff]
  constructor
  · rintro ⟨j, hj, heq⟩
    rw [List.mem_range] at hj
    omega
  · intro hlt
    exact ⟨k, List.mem_range.2 hlt, by omega⟩

/-- **A queue is reported** with the pending commands that `block` sees, in their order. -/
theorem Copies.pendingElems (futureOrphan : List String) {q : Nat} (hq : q < 3)
    (hex : P.hasQueue m node q = true) (hle : occupancy P m node q ≤ 4) {bBL : AllocMeta}
    (hlist : H.PointsTo x.cpu (queueList P m node q) bBL) :
    List.Forall₂ (H.Reports x.cpu)
      (H.queueBuffer x.cpu (getWrIdxs x) (getRdIdxs x) futureOrphan bBL q).pendingElems
      (queueCmds P m node q) := by
  generalize hB : H.queueBuffer x.cpu (getWrIdxs x) (getRdIdxs x) futureOrphan bBL q = B
  have hBrd : B.rdIdx.toNat = rdIdx P m node q := by
    rw [← hB]
    exact (h.idxs hq).1
  have hslots : ∀ k, k < 4 → _ := fun k hk =>
    h.slot_pending futureOrphan hq hex hle hlist hB.symm (k := k) hk
  have hrange : ∀ n, n ≤ 4 → ((List.range 4).filter fun k => decide (k < n)) = List.range n := by
    decide
  have hfilter : (List.range 4).filter (SlotReport.pending ∘ fun k =>
      B.aQe ((rdIdx P m node q + k) % 4)) = List.range (occupancy P m node q) := by
    rw [← hrange _ hle]
    apply List.filter_congr
    intro k hk
    exact (hslots k (List.mem_range.1 hk)).1
  unfold QueueBuffer.pendingElems queueCmds Ring.entries
  rw [hBrd, List.filter_map, hfilter, List.map_map, List.forall₂_map_left_iff,
    List.forall₂_map_right_iff, List.forall₂_same]
  intro k hk
  have hlt := List.mem_range.1 hk
  exact (hslots k (by omega)).2

theorem Copies.aQ {name : String} {futureOrphan : List String} {qr : QueueReport}
    (hname : (H.hashOf name).bind H.table.lookupHash = some x)
    (hqr : H.getQReport name futureOrphan = some qr) {q : Nat} (hq : q < 3) :
    (P.hasQueue m node q = false → qr.aQ q = none) ∧
      (P.hasQueue m node q = true → ∃ bBL, H.PointsTo x.cpu (queueList P m node q) bBL ∧
        qr.aQ q = some (H.queueBuffer x.cpu (getWrIdxs x) (getRdIdxs x) futureOrphan bBL q)) := by
  have hptr : read32 x.b.toList (12 + q * 4) = queueList P m node q := by
    rw [show 12 + q * 4 = 4 * (3 + q) by omega, h.words x node h.entry (3 + q) (by omega), queueList,
      show blockCmdqPtrs = BitVec.ofNat 32 12 from rfl, ← BitVec.ofNat_add,
      show 12 + q * 4 = 4 * (3 + q) by omega]
  unfold getQReport at hqr
  rw [hname] at hqr
  obtain rfl := Option.some.inj hqr
  dsimp only
  rw [hptr]
  constructor
  · intro hex
    rw [h.noList q hq hex, chunkAt_null]
    rfl
  · intro hex
    obtain ⟨bBL, hlist⟩ := h.list q hq hex
    rw [hlist.chunkAt_eq]
    exact ⟨bBL, hlist, rfl⟩

end Copied

end HostView
end DataMaster
