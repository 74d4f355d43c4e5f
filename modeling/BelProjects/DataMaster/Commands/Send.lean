import BelProjects.DataMaster.Blocks.Windows
import BelProjects.DataMaster.Commands.Decode

/-!
# Sending a command to a block

For a command the host looks up the block and its buffer list in its copy of the memory,
computes the addresses of the element and the new word of write indices from it, and writes
both over the network.
-/

namespace DataMaster

open BigEndian

namespace AllocTable

variable (t : AllocTable)

/-- The loop over the addresses of an element; it ends at once if the sum overflows. -/
def elemAdrs (startAdr : Word) : List Word :=
  if startAdr < startAdr + BitVec.ofNat 32 tCmdSize then
    (List.range 5).map fun k => startAdr + BitVec.ofNat 32 (4 * k)
  else []

/-- `getCmdWrAdrs`: the addresses of the element's words and of the index word. -/
def getCmdWrAdrs (hash : Word) (prio : Nat) : Option (List Word) :=
  match t.lookupHash hash with
  | none => none
  | some x =>
    let b := x.b.toList
    let blAdr := read32 b (blockCmdqPtrs.toNat + prio * 4)
    if blAdr = lm32NullPtr then none
    else
      let eWrIdx := eIdx (read32 b blockCmdqWrIdxs.toNat) prio
      let wrIdx := eWrIdx &&& qIdxMaxMsk
      let eRdIdx := eIdx (read32 b blockCmdqRdIdxs.toNat) prio
      let rdIdx := eRdIdx &&& qIdxMaxMsk
      if wrIdx = rdIdx ∧ eWrIdx ≠ eRdIdx then none
      else
        match (t.adrConv .INT .MGMT x.cpu blAdr).bind (t.lookupAdr x.cpu) with
        | none => none
        | some pmBl =>
          let bufIdx := wrIdx.toNat / (memBlockSize / tCmdSize)
          let elemIdx := wrIdx.toNat % (memBlockSize / tCmdSize)
          match t.adrConv .INT .EXT pmBl.cpu (read32 pmBl.b.toList (bufIdx * 4)),
            t.adrConv .MGMT .EXT x.cpu x.adr with
          | some bufAdr, some adr =>
            some (elemAdrs (bufAdr + BitVec.ofNat 32 (elemIdx * tCmdSize)) ++ [adr + blockCmdqWrIdxs])
          | _, _ => none

/-- `getCmdInc` without the copy in the host's memory. -/
def getCmdInc (hash : Word) (prio : Nat) : Option Word :=
  match t.lookupHash hash with
  | none => none
  | some x =>
    let wrIdxs := read32 x.b.toList blockCmdqWrIdxs.toNat
    some (setIdxByte wrIdxs prio ((eIdx wrIdxs prio + 1) &&& qIdxMaxOvfMsk))

/-- `createMiniCommand` for a block without covenants: addresses and bytes of the write. -/
def createMiniCommand (hash : Word) (prio : Nat) (mc : MiniCommand) (b : List Octet) :
    Option (List Word × List Octet) :=
  match t.getCmdWrAdrs hash prio, t.getCmdInc hash prio with
  | some va, some cmdWrInc => some (va, mc.bytes b cmdWrInc)
  | _, _ => none

end AllocTable

/-- `writeCycle`: word `i` of the bytes goes to address `i`. -/
def writeCycle (net : Word → Nat) (m : Mem) : List Word → List Octet → Mem
  | [], _ => m
  | a :: va, vb => writeCycle net (Function.update m (net a) (read32 vb 0)) va (vb.drop 4)

theorem writeCycle_words {ι : Type*} (net : Word → Nat) (adr val : ι → Word) (os : List ι) (m : Mem) :
    writeCycle net m (os.map adr) (os.flatMap fun o => be32 (val o)) =
      os.foldl (fun m o => Function.update m (net (adr o)) (val o)) m := by
  induction os generalizing m with
  | nil => rfl
  | cons o os ih =>
    rw [List.map_cons, List.flatMap_cons, writeCycle, List.foldl_cons]
    have hword : read32 (be32 (val o) ++ os.flatMap fun o => be32 (val o)) 0 = val o :=
      append_be32 (val o)
    have hrest : (be32 (val o) ++ os.flatMap fun o => be32 (val o)).drop 4 =
        os.flatMap fun o => be32 (val o) := rfl
    rw [hword, hrest, ih]

/-- The last entry whose word lies at `a`. -/
def lastAt {ι : Type*} (net : Word → Nat) (adr : ι → Word) (os : List ι) (a : Nat) : Option ι :=
  (os.filter fun o => net (adr o) == a).getLast?

theorem lastAt_spec {ι : Type*} {net : Word → Nat} {adr : ι → Word} {os : List ι} {a : Nat} {o : ι}
    (h : lastAt net adr os a = some o) : o ∈ os ∧ net (adr o) = a := by
  have hmem := List.mem_filter.1 (List.mem_of_getLast? h)
  exact ⟨hmem.1, by simpa using hmem.2⟩

theorem lastAt_isSome {ι : Type*} (net : Word → Nat) (adr : ι → Word) {os : List ι} {o : ι}
    (ho : o ∈ os) : ∃ z, lastAt net adr os (net (adr o)) = some z := by
  have hmem : o ∈ os.filter fun k => net (adr k) == net (adr o) :=
    List.mem_filter.2 ⟨ho, beq_self_eq_true _⟩
  exact ⟨_, List.getLast?_eq_getLast_of_ne_nil (List.ne_nil_of_mem hmem)⟩

theorem writeCycle_apply {ι : Type*} (net : Word → Nat) (adr val : ι → Word) (os : List ι) (m : Mem)
    (a : Nat) :
    writeCycle net m (os.map adr) (os.flatMap fun o => be32 (val o)) a =
      match lastAt net adr os a with
      | some z => val z
      | none => m a := by
  rw [writeCycle_words]
  induction os using List.reverseRecOn with
  | nil => rfl
  | append_singleton os o ih =>
    rw [List.foldl_append, List.foldl_cons, List.foldl_nil, lastAt, List.filter_append]
    by_cases ha : net (adr o) = a
    · subst ha
      simp [Function.update_self]
    · have hrest : (List.filter (fun o => net (adr o) == a) [o]) = [] := by simp [ha]
      rw [Function.update_of_ne (Ne.symm ha), hrest, List.append_nil, ih, lastAt]

/-- What a command to a block writes; `b` is the buffer of the host before. -/
def sendCommand (t : AllocTable) (net : Word → Nat) (m : Mem) (hash : Word) (prio : Nat)
    (mc : MiniCommand) (b : List Octet) : Mem :=
  match t.createMiniCommand hash prio mc b with
  | some (va, vb) => writeCycle net m va vb
  | none => m

/-! ### The write -/

theorem writeCycle_elem {net : Word → Nat} {m : Mem} {startAdr idxAdr : Word} {a : Nat}
    {vb : List Octet}
    (hadr : ∀ k, k < 5 → net (startAdr + BitVec.ofNat 32 (4 * k)) = a + k) :
    writeCycle net m
        (((List.range 5).map fun k => startAdr + BitVec.ofNat 32 (4 * k)) ++ [idxAdr]) vb =
      Function.update (storeCmd m a (elementOf vb)) (net idxAdr) (read32 vb 20) := by
  have hhi : hiW (elementOf vb).validTime = read32 vb 0 := BitVec.extractLsb'_append_eq_left
  have hlo : loW (elementOf vb).validTime = read32 vb 4 := BitVec.extractLsb'_append_eq_right
  have h0 := hadr 0 (by decide)
  rw [Nat.add_zero] at h0
  rw [storeCmd, hhi, hlo]
  change Function.update (Function.update (Function.update (Function.update (Function.update
    (Function.update m (net (startAdr + BitVec.ofNat 32 (4 * 0))) _)
    (net (startAdr + BitVec.ofNat 32 (4 * 1))) _) (net (startAdr + BitVec.ofNat 32 (4 * 2))) _)
    (net (startAdr + BitVec.ofNat 32 (4 * 3))) _) (net (startAdr + BitVec.ofNat 32 (4 * 4))) _)
    (net idxAdr) _ = _
  rw [h0, hadr 1 (by decide), hadr 2 (by decide), hadr 3 (by decide), hadr 4 (by decide)]
  simp only [read32_drop]
  rfl

/-! ### A block that the host has downloaded -/

/-- The host's copy of a block: the entry of the node, and that of the buffer list of queue
`q`, with the words that are in memory. The host sees the RAM from `ext` on. -/
structure BlockCopy (P : Platform) (t : AllocTable) (m : Mem) (node : Word) (base : Nat)
    (lst : Nat → Nat) (q : Nat) (hash ext : Word) where
  x : AllocMeta
  pmBl : AllocMeta
  pool : MemPool
  hash_eq : t.lookupHash hash = some x
  pool_eq : t.vPool[x.cpu.toNat]? = some pool
  size : P.ramSize.toNat = pool.consts.rawSize.toNat + 1
  int_eq : pool.consts.intBaseAdr = intBaseAdr
  ext_eq : pool.consts.extBaseAdr = ext
  chunk : pool.consts.IsChunk x.adr
  adr : x.adr = node - intBaseAdr
  words : ∀ k, k < 13 → read32 x.b.toList (4 * k) = m (base + k)
  list : t.lookupAdr x.cpu (m (base + (3 + q)) - intBaseAdr) = some pmBl
  list_words : ∀ k, k < 2 → read32 pmBl.b.toList (k * 4) = m (lst q + k)

section Copy

variable {P : Platform} {t : AllocTable} {m : Mem} {node : Word} {base : Nat} {lst : Nat → Nat}
  {buf : Nat → Nat → Nat} {q : Nat} {hash ext : Word}
  (c : BlockCopy P t m node base lst q hash ext)

include c in
theorem BlockCopy.ramSize_le : P.ramSize.toNat ≤ 2 ^ 31 := by
  have hlow := c.pool.consts.intLow
  have hsize := c.size
  change _ < 2147483648 at hlow
  omega

/-- Conversion of a pointer of the owner. -/
theorem BlockCopy.adrConv_int {ptr : Word} (hptr : ptr ≠ lm32NullPtr) :
    t.adrConv .INT .MGMT c.x.cpu ptr = some (ptr - intBaseAdr) ∧
      t.adrConv .INT .EXT c.x.cpu ptr = some (ptr - intBaseAdr + ext) := by
  unfold AllocTable.adrConv Space.adrConv
  rw [c.pool_eq]
  dsimp only
  rw [if_neg hptr, if_neg hptr, c.int_eq, c.ext_eq]
  exact ⟨rfl, rfl⟩

theorem BlockCopy.adrConv_mgmt :
    t.adrConv .MGMT .EXT c.x.cpu c.x.adr = some (node - intBaseAdr + ext) := by
  have hne : c.x.adr ≠ lm32NullPtr := by
    intro hnull
    have hpos := (c.pool.consts.chunk_inRam c.chunk).1
    rw [hnull] at hpos
    exact Nat.lt_irrefl 0 hpos
  unfold AllocTable.adrConv Space.adrConv
  rw [c.pool_eq]
  dsimp only
  rw [if_neg hne, c.ext_eq, c.adr]

/-- The five addresses of an element in a buffer. -/
theorem elemAdrs_eq {ptr : Word} {i : Nat} (h : InRam P ptr memBlockSize)
    (hfits : ext.toNat + P.ramSize.toNat ≤ 2 ^ 32) (hi : i < 2) :
    AllocTable.elemAdrs (ptr - intBaseAdr + ext + BitVec.ofNat 32 (i * tCmdSize)) =
      (List.range 5).map fun k =>
        ptr - intBaseAdr + ext + BitVec.ofNat 32 (i * tCmdSize) + BitVec.ofNat 32 (4 * k) := by
  rw [AllocTable.elemAdrs, if_pos]
  have hram : (ptr - intBaseAdr).toNat + 52 ≤ P.ramSize.toNat := h
  have hstart : (ptr - intBaseAdr + ext + BitVec.ofNat 32 (i * tCmdSize)).toNat =
      (ptr - intBaseAdr).toNat + ext.toNat + i * 20 := by
    rw [BitVec.toNat_add, BitVec.toNat_add, BitVec.toNat_ofNat, show tCmdSize = 20 from rfl]
    omega
  have hend : (ptr - intBaseAdr + ext + BitVec.ofNat 32 (i * tCmdSize) +
      BitVec.ofNat 32 tCmdSize).toNat = (ptr - intBaseAdr).toNat + ext.toNat + i * 20 + 20 := by
    rw [BitVec.toNat_add, hstart, show (BitVec.ofNat 32 tCmdSize).toNat = 20 from rfl]
    omega
  rw [BitVec.lt_def, hstart, hend]
  omega

variable (hb : RamBlock P m node base lst buf) (hq : q < 3) (hex : P.hasQueue m node q = true)
include c hb hq hex

theorem BlockCopy.getCmdWrAdrs_eq (hfits : ext.toNat + P.ramSize.toNat ≤ 2 ^ 32)
    (hfull : ¬ (ringSlot (idxByte (m (base + 6)) q) = ringSlot (idxByte (m (base + 7)) q) ∧
      wrIdx P m node q ≠ rdIdx P m node q)) :
    t.getCmdWrAdrs hash q =
      some (((List.range 5).map fun k =>
        m (lst q + ringSlot (idxByte (m (base + 6)) q) / 2) - intBaseAdr + ext +
          BitVec.ofNat 32 (ringSlot (idxByte (m (base + 6)) q) % 2 * tCmdSize) +
            BitVec.ofNat 32 (4 * k)) ++ [node - intBaseAdr + ext + blockCmdqWrIdxs]) := by
  have hram := c.ramSize_le
  have hslot := ringSlot_lt (idxByte (m (base + 6)) q)
  have hptrs : read32 c.x.b.toList (blockCmdqPtrs.toNat + q * 4) = m (base + (3 + q)) := by
    rw [← c.words (3 + q) (by omega), show blockCmdqPtrs.toNat = 12 from rfl,
      show 4 * (3 + q) = 12 + q * 4 by omega]
  have hwr : read32 c.x.b.toList blockCmdqWrIdxs.toNat = m (base + 6) := c.words 6 (by decide)
  have hrd : read32 c.x.b.toList blockCmdqRdIdxs.toNat = m (base + 7) := c.words 7 (by decide)
  have hlist : m (base + (3 + q)) ≠ lm32NullPtr := (hb.list_ram q hq hex).ne_null hram (by decide)
  obtain ⟨hmem, hcpu, -⟩ := AllocTable.lookupAdr_eq.1 c.list
  obtain ⟨hwr8, hwrSlot, -⟩ := eIdx_eq (m (base + 6)) q
  obtain ⟨hrd8, hrdSlot, -⟩ := eIdx_eq (m (base + 7)) q
  have hbuf := hb.buf_ram q hq hex (ringSlot (idxByte (m (base + 6)) q) / 2) (by omega)
  unfold AllocTable.getCmdWrAdrs
  rw [c.hash_eq]
  dsimp only
  rw [hptrs, hwr, hrd, if_neg hlist, if_neg, (c.adrConv_int hlist).1, Option.bind_some, c.list]
  · dsimp only
    rw [hwrSlot, hcpu, show memBlockSize / tCmdSize = 2 from rfl, c.list_words _ (by omega),
      (c.adrConv_int (hbuf.ne_null hram (by decide))).2, c.adrConv_mgmt]
    dsimp only
    rw [elemAdrs_eq hbuf hfits (Nat.mod_lt _ (by decide))]
  · rintro ⟨hsame, hne⟩
    refine hfull ⟨?_, fun heq => hne ?_⟩
    · rw [← hwrSlot, ← hrdSlot, hsame]
    · apply BitVec.eq_of_toNat_eq
      rw [hwr8, hrd8, ← hb.layout.wrIdx_eq, ← hb.layout.rdIdx_eq, heq]

/-- **Sending a command** writes its element to the slot that the write index selects, and
advances the index. -/
theorem BlockCopy.sendCommand_eq {net : Word → Nat} (hw : Window P net ext)
    (hfits : ext.toNat + P.ramSize.toNat ≤ 2 ^ 32)
    (hfull : ¬ (ringSlot (idxByte (m (base + 6)) q) = ringSlot (idxByte (m (base + 7)) q) ∧
      wrIdx P m node q ≠ rdIdx P m node q)) (mc : MiniCommand) {b : List Octet}
    (hlen : b.length = 24) :
    sendCommand t net m hash q mc b =
      P.st (storeCmd m (slotAdr buf q (ringSlot (idxByte (m (base + 6)) q)))
        (mc.element (read32 b 12, read32 b 16))) (node + blockCmdqWrIdxs)
        (setIdxByte (m (base + 6)) q ((idxByte (m (base + 6)) q + 1) &&& qIdxMaxOvfMsk)) := by
  have hslot := ringSlot_lt (idxByte (m (base + 6)) q)
  have hwr : read32 c.x.b.toList blockCmdqWrIdxs.toNat = m (base + 6) := c.words 6 (by decide)
  have hinc : t.getCmdInc hash q =
      some (setIdxByte (m (base + 6)) q ((idxByte (m (base + 6)) q + 1) &&& qIdxMaxOvfMsk)) := by
    unfold AllocTable.getCmdInc
    rw [c.hash_eq]
    dsimp only
    rw [hwr, (eIdx_eq _ _).2.2]
  have hadr : ∀ k, k < 5 →
      net (m (lst q + ringSlot (idxByte (m (base + 6)) q) / 2) - intBaseAdr + ext +
        BitVec.ofNat 32 (ringSlot (idxByte (m (base + 6)) q) % 2 * tCmdSize) +
          BitVec.ofNat 32 (4 * k)) = slotAdr buf q (ringSlot (idxByte (m (base + 6)) q)) + k := by
    intro k hk
    generalize ringSlot (idxByte (m (base + 6)) q) = i at hslot ⊢
    rw [BitVec.add_assoc _ (BitVec.ofNat 32 (i % 2 * tCmdSize)), ← BitVec.ofNat_add,
      show i % 2 * tCmdSize + 4 * k = 4 * (i % 2 * 5 + k) by change i % 2 * 20 + _ = _; omega,
      hb.buf_word hw hq hex (by omega) (by omega), slotAdr, Nat.add_assoc]
  have hidx : net (node - intBaseAdr + ext + blockCmdqWrIdxs) = base + 6 :=
    hb.node_word hw (k := 6) (by decide)
  unfold sendCommand AllocTable.createMiniCommand
  rw [c.getCmdWrAdrs_eq hb hq hex hfits hfull, hinc]
  dsimp only
  rw [writeCycle_elem hadr, hidx, elementOf_bytes mc hlen]
  have hlast : read32 (mc.bytes b (setIdxByte (m (base + 6)) q
      ((idxByte (m (base + 6)) q + 1) &&& qIdxMaxOvfMsk))) 20 = setIdxByte (m (base + 6)) q
        ((idxByte (m (base + 6)) q + 1) &&& qIdxMaxOvfMsk) := by
    unfold MiniCommand.bytes
    refine read32_copyTo_same ?_
    rw [length_serialise mc hlen]
    decide
  rw [hlast, Platform.st, hb.layout.adr_wrIdxs]

end Copy

end DataMaster
