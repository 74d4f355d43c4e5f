import BelProjects.DataMaster.Layout
import BelProjects.Library.Bitmap
import BelProjects.Library.Containers

/-!
# The memory pool of a CPU

The host keeps, for every CPU, the set of free chunks of its node memory and a bitmap
with one bit for each chunk of it, the chunks under the bitmap itself included.  The
pool is the working copy; the bitmap is brought up to date from it before an upload.
-/

namespace DataMaster

open Bitmap

/-- Addresses in order, as the `std::set<uint32_t>` of free chunks has them. -/
instance : LinearOrder Word where
  le_refl := BitVec.le_refl
  le_trans _ _ _ := BitVec.le_trans
  lt_iff_le_not_ge a b := by
    rw [BitVec.lt_def, BitVec.le_def, BitVec.le_def]
    omega
  le_antisymm _ _ := BitVec.le_antisymm
  le_total := BitVec.le_total
  toDecidableLE := inferInstance

/-- `_MEM_BLOCK_SIZE` in address arithmetic. -/
def memBlock : Word := BitVec.ofNat 32 memBlockSize

/-- `WORLD_BASE_ADR`: bus addresses start here in the CPUs' view. -/
def worldBaseAdr : Word := 0x80000000

/-- The constants of a `MemPool`: the RAM of a CPU and the node memory in it. -/
structure Space where
  extBaseAdr : Word
  intBaseAdr : Word
  peerBaseAdr : Word
  sharedOffs : Word
  space : Word
  /-- Offset of the last byte of the RAM. -/
  rawSize : Word
  /-- The shared area lies in the RAM. -/
  sharedInRam : sharedOffs.toNat + shctlEnd + space.toNat ≤ rawSize.toNat + 1
  /-- A CPU sees its own RAM below the bus and other RAMs on the bus. -/
  intLow : intBaseAdr.toNat + rawSize.toNat < worldBaseAdr.toNat
  peerHigh : worldBaseAdr.toNat ≤ peerBaseAdr.toNat
  peerFits : peerBaseAdr.toNat + rawSize.toNat < 2 ^ 32

namespace Space

variable (S : Space)

theorem fits : S.sharedOffs.toNat + shctlEnd + S.space.toNat < 2 ^ 32 := by
  have hram := S.sharedInRam
  have hlow := S.intLow
  change _ < 2147483648 at hlow
  omega

def nodeQty : Word := S.space / memBlock

def bmpBits : Word := S.nodeQty

def bmpSize : Word :=
  (S.bmpBits + 8 * memBlock - 1) / (8 * memBlock) * memBlock

def bmpOffs : Word := S.sharedOffs + BitVec.ofNat 32 shctlEnd

def startOffs : Word := S.bmpOffs + S.bmpSize

def endOffs : Word := S.startOffs + (S.nodeQty * memBlock - S.bmpSize)

def IsChunk (adr : Word) : Prop :=
  S.startOffs ≤ adr ∧ adr < S.endOffs ∧ (adr - S.startOffs) % memBlock = 0

instance (adr : Word) : Decidable (S.IsChunk adr) := inferInstanceAs (Decidable (_ ∧ _ ∧ _))

def bitIdx (adr : Word) : Nat := ((adr - S.bmpOffs) / memBlock).toNat

/-! ### The layout in numbers -/

def bmpBlocks : Nat := (S.nodeQty.toNat + 415) / 416

theorem nodeQty_toNat : S.nodeQty.toNat = S.space.toNat / 52 := BitVec.toNat_udiv

theorem nodeQty_le : S.nodeQty.toNat * 52 ≤ S.space.toNat := by
  rw [nodeQty_toNat]
  exact Nat.div_mul_le_self ..

theorem bmpBlocks_le : S.bmpBlocks ≤ S.nodeQty.toNat := by
  unfold bmpBlocks
  omega

theorem bmpSize_toNat : S.bmpSize.toNat = S.bmpBlocks * 52 := by
  have hqty := S.nodeQty_le
  have hlt := S.space.isLt
  have hblocks := S.bmpBlocks_le
  have hsum : (S.bmpBits + 8 * memBlock - 1).toNat = S.nodeQty.toNat + 415 := by
    simp only [bmpBits, memBlock, memBlockSize]
    bv_omega
  have hdiv : ((S.bmpBits + 8 * memBlock - 1) / (8 * memBlock)).toNat
      = S.bmpBlocks := by
    rw [BitVec.toNat_udiv, hsum]
    rfl
  unfold bmpSize
  rw [BitVec.toNat_mul, hdiv]
  apply Nat.mod_eq_of_lt
  change S.bmpBlocks * 52 < 2 ^ 32
  omega

theorem bmpOffs_toNat : S.bmpOffs.toNat = S.sharedOffs.toNat + 820 := by
  have hfits := S.fits
  unfold shctlEnd at hfits
  unfold bmpOffs shctlEnd
  bv_omega

theorem startOffs_toNat : S.startOffs.toNat = S.bmpOffs.toNat + S.bmpBlocks * 52 := by
  have hfits := S.fits
  have hqty := S.nodeQty_le
  have hblocks := S.bmpBlocks_le
  have hbmp := S.bmpOffs_toNat
  unfold shctlEnd at hfits
  unfold startOffs
  rw [BitVec.toNat_add, bmpSize_toNat]
  omega

theorem endOffs_toNat : S.endOffs.toNat = S.bmpOffs.toNat + S.nodeQty.toNat * 52 := by
  have hfits := S.fits
  have hqty := S.nodeQty_le
  have hblocks := S.bmpBlocks_le
  have hbmp := S.bmpOffs_toNat
  have hstart := S.startOffs_toNat
  have hsize := S.bmpSize_toNat
  unfold shctlEnd at hfits
  have hmul : (S.nodeQty * memBlock).toNat = S.nodeQty.toNat * 52 := by
    rw [BitVec.toNat_mul]
    exact Nat.mod_eq_of_lt (by change S.nodeQty.toNat * 52 < 2 ^ 32; omega)
  unfold endOffs
  rw [BitVec.toNat_add, BitVec.toNat_sub, hmul, hsize]
  omega

theorem bmpBlocks_mul : S.nodeQty.toNat ≤ S.bmpBlocks * 416 := by
  unfold bmpBlocks
  omega

theorem isChunk_iff {adr : Word} :
    S.IsChunk adr ↔
      ∃ i, S.bmpBlocks ≤ i ∧ i < S.nodeQty.toNat ∧ adr.toNat = S.bmpOffs.toNat + i * 52 := by
  have hstart := S.startOffs_toNat
  have hend := S.endOffs_toNat
  unfold IsChunk
  rw [BitVec.le_def, BitVec.lt_def, ← BitVec.toNat_inj, BitVec.toNat_umod]
  change _ ∧ _ ∧ (adr - S.startOffs).toNat % 52 = 0 ↔ _
  constructor
  · rintro ⟨hge, hlt, hmod⟩
    have hsub : (adr - S.startOffs).toNat = adr.toNat - S.startOffs.toNat := by bv_omega
    refine ⟨S.bmpBlocks + (adr.toNat - S.startOffs.toNat) / 52, ?_, ?_, ?_⟩ <;> omega
  · rintro ⟨i, hge, hlt, hadr⟩
    have hsub : (adr - S.startOffs).toNat = adr.toNat - S.startOffs.toNat := by bv_omega
    omega

theorem chunk_inRam {adr : Word} (h : S.IsChunk adr) :
    0 < adr.toNat ∧ adr.toNat ≤ S.rawSize.toNat := by
  obtain ⟨i, -, hi, hadr⟩ := S.isChunk_iff.1 h
  have hram := S.sharedInRam
  have hqty := S.nodeQty_le
  have hbmp := S.bmpOffs_toNat
  unfold shctlEnd at hram
  omega

theorem bitIdx_toNat {adr : Word} (h : S.bmpOffs ≤ adr) :
    S.bitIdx adr = (adr.toNat - S.bmpOffs.toNat) / 52 := by
  unfold bitIdx
  rw [BitVec.toNat_udiv, BitVec.toNat_sub_of_le h]
  rfl

def bitAdr (i : Nat) : Word := S.bmpOffs + BitVec.ofNat 32 i * memBlock

theorem bitAdr_toNat {i : Nat} (hi : i < S.nodeQty.toNat) :
    (S.bitAdr i).toNat = S.bmpOffs.toNat + i * 52 := by
  have hfits := S.fits
  have hqty := S.nodeQty_le
  have hbmp := S.bmpOffs_toNat
  unfold shctlEnd at hfits
  have hmul : (BitVec.ofNat 32 i * memBlock).toNat = i * 52 := by
    rw [BitVec.toNat_mul, BitVec.toNat_ofNat, Nat.mod_eq_of_lt (show i < 2 ^ 32 by omega)]
    exact Nat.mod_eq_of_lt (by change i * 52 < 2 ^ 32; omega)
  unfold bitAdr
  rw [BitVec.toNat_add, hmul]
  omega

end Space

/-! ### The pool -/

structure MemPool where
  consts : Space
  bmp : List Byte
  pool : OrderedSet Word
  bmp_length : bmp.length = consts.bmpSize.toNat
  pool_chunks : ∀ adr ∈ pool, consts.IsChunk adr

namespace MemPool

def initPoolLoop (S : Space) : Nat → Word → OrderedSet Word → OrderedSet Word
  | 0, _, pool => pool
  | fuel + 1, adr, pool =>
    if adr < S.endOffs then initPoolLoop S fuel (adr + memBlock) (pool.insert adr) else pool

def initPool (S : Space) : OrderedSet Word :=
  initPoolLoop S S.nodeQty.toNat S.startOffs .empty

def initBmp (S : Space) (bmp : List Byte) : List Byte :=
  let zeroed := bmp.map fun _ => 0
  let full := (List.range (S.bmpBits.toNat / 8)).foldl (fun b i => b.set i 0xff) zeroed
  (List.range (S.bmpBits.toNat % 8)).foldl
    (fun b i => b.modify (S.bmpBits.toNat / 8) (· ||| mask i)) full

/-- The loop of `syncBmpToPool`, which gives up at an address out of range. -/
def syncBmpLoop (S : Space) : List Word → List Byte → List Byte × Bool
  | [], bmp => (bmp, true)
  | adr :: adrs, bmp =>
    if S.startOffs ≤ adr ∧ adr ≤ S.endOffs then syncBmpLoop S adrs (clrBit bmp (S.bitIdx adr))
    else (bmp, false)

/-! ### What the loops compute -/

variable (S : Space)

theorem mem_initPoolLoop {fuel i : Nat} {adr : Word} {pool : OrderedSet Word}
    (hadr : adr.toNat = S.bmpOffs.toNat + i * 52) (hfuel : S.nodeQty.toNat ≤ i + fuel)
    (hi : i ≤ S.nodeQty.toNat) (x : Word) :
    x ∈ initPoolLoop S fuel adr pool ↔
      x ∈ pool ∨ ∃ j, i ≤ j ∧ j < S.nodeQty.toNat ∧ x.toNat = S.bmpOffs.toNat + j * 52 := by
  have hend := S.endOffs_toNat
  have hlt := S.endOffs.isLt
  induction fuel generalizing i adr pool with
  | zero =>
    unfold initPoolLoop
    constructor
    · exact Or.inl
    · rintro (h | ⟨j, hij, hj, -⟩)
      · exact h
      · omega
  | succ fuel ih =>
    unfold initPoolLoop
    by_cases hin : adr < S.endOffs
    · have hidx : i < S.nodeQty.toNat := by
        rw [BitVec.lt_def] at hin
        omega
      have hnext : (adr + memBlock).toNat = S.bmpOffs.toNat + (i + 1) * 52 := by
        rw [BitVec.toNat_add]
        change (adr.toNat + 52) % 2 ^ 32 = _
        omega
      rw [if_pos hin]
      refine (ih hnext (by omega) hidx).trans ?_
      rw [OrderedSet.mem_insert]
      constructor
      · rintro ((rfl | h) | ⟨j, hij, hj, hx⟩)
        · exact Or.inr ⟨i, Nat.le_refl i, hidx, hadr⟩
        · exact Or.inl h
        · exact Or.inr ⟨j, by omega, hj, hx⟩
      · rintro (h | ⟨j, hij, hj, hx⟩)
        · exact Or.inl (Or.inr h)
        · rcases Nat.eq_or_lt_of_le hij with rfl | hlater
          · exact Or.inl (Or.inl (BitVec.eq_of_toNat_eq (hx.trans hadr.symm)))
          · exact Or.inr ⟨j, hlater, hj, hx⟩
    · rw [if_neg hin]
      rw [BitVec.lt_def] at hin
      constructor
      · exact Or.inl
      · rintro (h | ⟨j, hij, hj, -⟩)
        · exact h
        · omega

/-- `initPool` makes exactly the chunks available. -/
theorem mem_initPool (x : Word) : x ∈ initPool S ↔ S.IsChunk x := by
  unfold initPool
  rw [mem_initPoolLoop S S.startOffs_toNat (by omega) S.bmpBlocks_le, S.isChunk_iff]
  simp

theorem setBytes_spec {b : List Byte} {n : Nat} (hn : n ≤ b.length) :
    ((List.range n).foldl (fun b i => b.set i 0xff) b).length = b.length ∧
    ∀ j, getBit ((List.range n).foldl (fun b i => b.set i 0xff) b) j =
      (decide (j / 8 < n) || getBit b j) := by
  induction n with
  | zero => simp
  | succ n ih =>
    obtain ⟨hlen, hbits⟩ := ih (by omega)
    rw [List.range_succ, List.foldl_append]
    constructor
    · exact (List.length_set ..).trans hlen
    · intro j
      refine (getBit_setByte (by omega) j).trans ?_
      rw [hbits, ← Bool.or_assoc, ← Bool.decide_or]
      congr 1
      rw [decide_eq_decide]
      omega

theorem setBits_spec {b : List Byte} {q n : Nat} (hq : n ≤ 8) (hlen : 0 < n → q < b.length) :
    ((List.range n).foldl (fun b i => b.modify q (· ||| mask i)) b).length = b.length ∧
    ∀ j, getBit ((List.range n).foldl (fun b i => b.modify q (· ||| mask i)) b) j =
      (decide (j / 8 = q ∧ j % 8 < n) || getBit b j) := by
  induction n with
  | zero => simp
  | succ n ih =>
    obtain ⟨hsame, hbits⟩ := ih (by omega) (fun _ => hlen (Nat.succ_pos n))
    have hbyte : (8 * q + n) / 8 = q := by omega
    have hset : ∀ c : List Byte, c.modify q (· ||| mask n) = setBit c (8 * q + n) := by
      intro c
      have hmask : mask (8 * q + n) = mask n := by
        unfold mask
        rw [Nat.mul_add_mod]
      rw [setBit, hmask, hbyte]
    rw [List.range_succ, List.foldl_append]
    simp only [List.foldl_cons, List.foldl_nil, hset]
    constructor
    · rw [length_setBit, hsame]
    · intro j
      rw [getBit_setBit (by rw [hbyte, hsame]; exact hlen (Nat.succ_pos n)), hbits,
        ← Bool.or_assoc, ← Bool.decide_or]
      congr 1
      rw [decide_eq_decide]
      omega

theorem initBmp_spec {bmp : List Byte} (hbmp : bmp.length = S.bmpSize.toNat) :
    (initBmp S bmp).length = S.bmpSize.toNat ∧
    ∀ j, getBit (initBmp S bmp) j = decide (j < S.nodeQty.toNat) := by
  have hsize := S.bmpSize_toNat
  have hblocks := S.bmpBlocks_mul
  have hmap : (bmp.map fun _ => (0 : Byte)).length = S.bmpSize.toNat := by
    rw [List.length_map, hbmp]
  obtain ⟨hfull, hfullBits⟩ := setBytes_spec (b := bmp.map fun _ => 0)
    (n := S.bmpBits.toNat / 8) (by unfold Space.bmpBits; omega)
  obtain ⟨hlen, hbits⟩ := setBits_spec (q := S.bmpBits.toNat / 8) (n := S.bmpBits.toNat % 8)
    (b := (List.range (S.bmpBits.toNat / 8)).foldl (fun b i => b.set i 0xff)
      (bmp.map fun _ => 0))
    (by omega) (by unfold Space.bmpBits at hfull ⊢; omega)
  constructor
  · exact hlen.trans (hfull.trans hmap)
  · intro j
    refine (hbits j).trans ?_
    rw [hfullBits, getBit_zero, Bool.or_false, ← Bool.decide_or, decide_eq_decide]
    unfold Space.bmpBits
    omega

/-- Walking chunks, `syncBmpToPool` clears exactly their bits. -/
theorem syncBmpLoop_spec {adrs : List Word} (hchunks : ∀ adr ∈ adrs, S.IsChunk adr)
    {bmp : List Byte} (hbmp : bmp.length = S.bmpSize.toNat) :
    (syncBmpLoop S adrs bmp).2 = true ∧
    (syncBmpLoop S adrs bmp).1.length = S.bmpSize.toNat ∧
    ∀ j, getBit (syncBmpLoop S adrs bmp).1 j = true ↔
      getBit bmp j = true ∧ ∀ adr ∈ adrs, S.bitIdx adr ≠ j := by
  induction adrs generalizing bmp with
  | nil => simpa [syncBmpLoop] using hbmp
  | cons adr adrs ih =>
    rw [List.forall_mem_cons] at hchunks
    obtain ⟨hadr, hadrs⟩ := hchunks
    have hbit : S.bitIdx adr / 8 < bmp.length := by
      obtain ⟨i, -, hi, hval⟩ := S.isChunk_iff.1 hadr
      have hsize := S.bmpSize_toNat
      have hblocks := S.bmpBlocks_mul
      rw [S.bitIdx_toNat (by rw [BitVec.le_def]; omega)]
      omega
    unfold syncBmpLoop
    rw [if_pos ⟨hadr.1, le_of_lt hadr.2.1⟩]
    have hclr : (clrBit bmp (S.bitIdx adr)).length = S.bmpSize.toNat := by
      rw [length_clrBit, hbmp]
    obtain ⟨hok, hlen, hbits⟩ := ih hadrs hclr
    refine ⟨hok, hlen, fun j => ?_⟩
    rw [hbits, getBit_clrBit hbit, Bool.and_eq_true, decide_eq_true_iff, List.forall_mem_cons]
    constructor
    · rintro ⟨⟨hne, hj⟩, hrest⟩
      exact ⟨hj, Ne.symm hne, hrest⟩
    · rintro ⟨hj, hne, hrest⟩
      exact ⟨⟨Ne.symm hne, hj⟩, hrest⟩

/-! ### Operations -/

variable (p : MemPool)

def setBmp (aBmp : List Byte) (h : aBmp.length = p.consts.bmpSize.toNat) : MemPool :=
  { p with bmp := aBmp, bmp_length := h }

/-- The bitmap `syncBmpToPool` computes, and what it returns. -/
def syncedBmp : List Byte × Bool :=
  syncBmpLoop p.consts p.pool.elems (initBmp p.consts p.bmp)

theorem syncedBmp_length : p.syncedBmp.1.length = p.consts.bmpSize.toNat :=
  (syncBmpLoop_spec p.consts p.pool_chunks (initBmp_spec p.consts p.bmp_length).1).2.1

def syncBmpToPool : MemPool × Bool :=
  (p.setBmp p.syncedBmp.1 p.syncedBmp_length, p.syncedBmp.2)

def init : MemPool :=
  (syncBmpToPool
    { p with
      pool := initPool p.consts
      pool_chunks := fun adr => (mem_initPool p.consts adr).1 }).1

def new (S : Space) : MemPool :=
  init
    { consts := S
      bmp := List.replicate S.bmpSize.toNat 0
      pool := .empty
      bmp_length := List.length_replicate
      pool_chunks := fun adr h => absurd h (OrderedSet.notMem_empty adr) }

def occupyChunk (adr : Word) : MemPool :=
  { p with
    pool := p.pool.erase adr
    pool_chunks := fun x hx => p.pool_chunks x (OrderedSet.mem_erase.1 hx).2 }

def acquireChunk : Option (Word × MemPool) :=
  p.pool.begin?.map fun adr => (adr, p.occupyChunk adr)

/-- `freeChunk` accepts the address. -/
def Freeable (adr : Word) : Prop :=
  ¬ (p.consts.endOffs - p.consts.startOffs ≤ adr - p.consts.startOffs ∨
      (adr - p.consts.startOffs) % memBlock ≠ 0) ∧ adr ∉ p.pool

instance (adr : Word) : Decidable (p.Freeable adr) := inferInstanceAs (Decidable (¬ _ ∧ _))

theorem isChunk_of_freeable {adr : Word} (h : p.Freeable adr) : p.consts.IsChunk adr := by
  obtain ⟨hrange, -⟩ := h
  rw [not_or, not_le, not_not] at hrange
  obtain ⟨hlt, hmod⟩ := hrange
  have hstart := p.consts.startOffs_toNat
  have hend := p.consts.endOffs_toNat
  have hblocks := p.consts.bmpBlocks_le
  have hge : p.consts.startOffs ≤ adr := by bv_omega
  have hin : adr < p.consts.endOffs := by bv_omega
  exact ⟨hge, hin, hmod⟩

theorem freeable_iff (adr : Word) : p.Freeable adr ↔ p.consts.IsChunk adr ∧ adr ∉ p.pool := by
  constructor
  · intro h
    exact ⟨p.isChunk_of_freeable h, h.2⟩
  · rintro ⟨⟨hge, hlt, hmod⟩, hfree⟩
    refine ⟨?_, hfree⟩
    rw [not_or, not_le, not_not]
    exact ⟨by bv_omega, hmod⟩

def freeChunk (adr : Word) : MemPool × Bool :=
  if h : p.Freeable adr then
    ({ p with
        pool := p.pool.insert adr
        pool_chunks := by
          intro x hx
          rcases OrderedSet.mem_insert.1 hx with rfl | hx
          · exact p.isChunk_of_freeable h
          · exact p.pool_chunks x hx }, true)
  else (p, false)

def getFreeSpace : Word := BitVec.ofNat 32 p.pool.size * memBlock

/-! ### Pool and bitmap -/

variable {p}

@[simp] theorem syncBmpToPool_consts : p.syncBmpToPool.1.consts = p.consts := rfl

@[simp] theorem init_consts : p.init.consts = p.consts := rfl

theorem mem_init {adr : Word} : adr ∈ p.init.pool ↔ p.consts.IsChunk adr :=
  mem_initPool p.consts adr

@[simp] theorem occupyChunk_consts {adr : Word} : (p.occupyChunk adr).consts = p.consts := rfl

@[simp] theorem mem_occupyChunk {adr x : Word} :
    x ∈ (p.occupyChunk adr).pool ↔ x ≠ adr ∧ x ∈ p.pool := OrderedSet.mem_erase

theorem freeChunk_of_freeable {adr : Word} (h : p.Freeable adr) :
    (p.freeChunk adr).2 = true ∧ (p.freeChunk adr).1.consts = p.consts ∧
      ∀ x, x ∈ (p.freeChunk adr).1.pool ↔ x = adr ∨ x ∈ p.pool := by
  unfold freeChunk
  rw [dif_pos h]
  exact ⟨rfl, rfl, fun x => OrderedSet.mem_insert⟩

theorem freeChunk_of_not_freeable {adr : Word} (h : ¬ p.Freeable adr) :
    p.freeChunk adr = (p, false) := dif_neg h

theorem acquireChunk_spec {adr : Word} {p' : MemPool} (h : p.acquireChunk = some (adr, p')) :
    adr ∈ p.pool ∧ p' = p.occupyChunk adr := by
  obtain ⟨x, hx, heq⟩ := Option.map_eq_some_iff.1 h
  cases heq
  exact ⟨OrderedSet.begin?_mem hx, rfl⟩

/-- A bit is one exactly if the chunk it stands for is not free. -/
def Synced (p : MemPool) : Prop :=
  ∀ i < p.consts.nodeQty.toNat, getBit p.bmp i = true ↔ p.consts.bitAdr i ∉ p.pool

theorem bitIdx_eq_iff {adr : Word} (hadr : p.consts.IsChunk adr) {i : Nat}
    (hi : i < p.consts.nodeQty.toNat) : p.consts.bitIdx adr = i ↔ adr = p.consts.bitAdr i := by
  obtain ⟨k, -, hk, hval⟩ := p.consts.isChunk_iff.1 hadr
  have hbit := p.consts.bitAdr_toNat hi
  rw [p.consts.bitIdx_toNat (by rw [BitVec.le_def]; omega), ← BitVec.toNat_inj]
  omega

/-- **Synchronising** succeeds and makes the bitmap tell which chunks are free. -/
theorem syncBmpToPool_synced (p : MemPool) :
    p.syncBmpToPool.2 = true ∧ p.syncBmpToPool.1.Synced := by
  obtain ⟨hlen, hinit⟩ := initBmp_spec p.consts p.bmp_length
  obtain ⟨hok, -, hbits⟩ := syncBmpLoop_spec p.consts p.pool_chunks hlen
  refine ⟨hok, fun i hi => ?_⟩
  refine (hbits i).trans ?_
  rw [hinit, decide_eq_true_iff]
  constructor
  · rintro ⟨-, hnone⟩ hfree
    exact hnone _ hfree ((bitIdx_eq_iff (p.pool_chunks _ hfree) hi).2 rfl)
  · intro hused
    refine ⟨hi, fun adr hadr heq => hused ?_⟩
    have hbitAdr : adr = p.consts.bitAdr i := (bitIdx_eq_iff (p.pool_chunks adr hadr) hi).1 heq
    exact (hbitAdr ▸ hadr : p.consts.bitAdr i ∈ p.pool)

end MemPool
end DataMaster
