import BelProjects.DataMaster.Firmware.Scheduler

/-!
# Blocks and their queues in memory

A block node points to up to three buffer lists, one for each priority; a list points
to two buffers of two elements.  The four elements of a queue form a ring that the
index bytes of the block run through; the third bit of an index tells a full ring
from an empty one.  `BlockLayout` says that these pieces lie at different places, as
the host's allocation puts them, and away from the control area of the CPU that
executes the block.
-/

namespace DataMaster

variable (P : Platform)

/-! ### Index bytes -/

theorem getLsbD_byte (j : Nat) : (0xff#32).getLsbD j = decide (j < 8) := by
  by_cases hj : j < 32
  · have hall : ∀ j : Fin 32, (0xff#32).getLsbD j = decide (j.1 < 8) := by decide
    exact hall ⟨j, hj⟩
  · rw [BitVec.getLsbD_of_ge _ _ (by omega), decide_eq_false (by omega)]

theorem getLsbD_idxsSmsk (j : Nat) : blockCmdqIdxsSmsk.getLsbD j = decide (j < 24) := by
  by_cases hj : j < 32
  · have hall : ∀ j : Fin 32, blockCmdqIdxsSmsk.getLsbD j = decide (j.1 < 24) := by decide
    exact hall ⟨j, hj⟩
  · rw [BitVec.getLsbD_of_ge _ _ (by omega), decide_eq_false (by omega)]

theorem idxByte_setIdxByte (w : Word) {p q : Nat} (hq : q < 4) (v : BitVec 8) :
    idxByte (setIdxByte w p v) q = if q = p then v else idxByte w q := by
  apply BitVec.eq_of_getLsbD_eq
  intro i hi
  have hk : 8 * q + i < 32 := by omega
  simp only [idxByte, setIdxByte, BitVec.getLsbD_extractLsb', BitVec.getLsbD_or, BitVec.getLsbD_and,
    BitVec.getLsbD_not, getLsbD_byte, BitVec.getLsbD_shiftLeft, BitVec.getLsbD_setWidth]
  by_cases hqp : q = p
  · subst hqp
    simp [hi, hk, show ¬ 8 * q + i < 8 * q by omega, show i < 32 by omega]
  · rw [if_neg hqp]
    rcases Nat.lt_or_ge (8 * q + i) (8 * p) with hlt | hge
    · simp [hi, hk, hlt]
    · have hv : v.getLsbD (8 * q + i - 8 * p) = false := BitVec.getLsbD_of_ge _ _ (by omega)
      simp [hi, hk, hv, show ¬ 8 * q + i < 8 * p by omega,
        show ¬ 8 * q + i - 8 * p < 8 by omega]

theorem idxByte_masked (w : Word) {q : Nat} (hq : q < 3) :
    idxByte (w &&& blockCmdqIdxsSmsk) q = idxByte w q := by
  apply BitVec.eq_of_getLsbD_eq
  intro i hi
  simp only [idxByte, BitVec.getLsbD_extractLsb', BitVec.getLsbD_and, getLsbD_idxsSmsk]
  simp [show 8 * q + i < 24 by omega]

/-! ### Addresses -/

/-- The intervals of `n` words at `a` and of `k` words at `b` do not meet. -/
def Apart (a n b k : Nat) : Prop := a + n ≤ b ∨ b + k ≤ a

/-- `BLOCK_CMDQ_PTRS` of priority `q`: pointer to the queue's buffer list. -/
def queueList (m : Mem) (node : Word) (q : Nat) : Word :=
  P.ld m (node + (blockCmdqPtrs + BitVec.ofNat 32 (q * 4)))

def slotElem (m : Mem) (node : Word) (q i : Nat) : Word :=
  P.ld m (queueList P m node q + BitVec.ofNat 32 (i / 2 * 4)) + BitVec.ofNat 32 (i % 2 * 20)

/-- Position in the ring that index `idx` selects. -/
def ringSlot (idx : BitVec 8) : Nat := (idx &&& qIdxMaxMsk).toNat

theorem ringSlot_lt (idx : BitVec 8) : ringSlot idx < 4 := by
  have hle : (idx &&& qIdxMaxMsk).toNat ≤ qIdxMaxMsk.toNat := by
    rw [BitVec.toNat_and]
    exact Nat.and_le_right
  have h3 : qIdxMaxMsk.toNat = 3 := rfl
  rw [ringSlot]
  omega

theorem readElem_eq (m : Mem) (node : Word) (q : Nat) :
    readElem P m node q =
      slotElem P m node q (ringSlot (idxByte (P.ld m (node + blockCmdqRdIdxs)) q)) := rfl

/-- A block at word address `base` whose queues have their buffer lists at `lst` and
their buffers at `buf`. -/
structure BlockLayout (m : Mem) (node : Word) (base : Nat) (lst : Nat → Nat)
    (buf : Nat → Nat → Nat) : Prop where
  node_adr : ∀ k, k < 13 → P.adr (node + BitVec.ofNat 32 (4 * k)) = base + k
  list_adr : ∀ q, q < 3 → P.hasQueue m node q = true → ∀ k, k < 2 →
    P.adr (queueList P m node q + BitVec.ofNat 32 (k * 4)) = lst q + k
  buf_adr : ∀ q, q < 3 → P.hasQueue m node q = true → ∀ j, j < 2 → ∀ k, k < 10 →
    P.adr (m (lst q + j) + BitVec.ofNat 32 (4 * k)) = buf q j + k
  node_ctl : Apart base 13 (P.ctl 0) 205
  node_list : ∀ q, q < 3 → P.hasQueue m node q = true → Apart base 13 (lst q) 2
  list_ctl : ∀ q, q < 3 → P.hasQueue m node q = true → Apart (lst q) 2 (P.ctl 0) 205
  node_buf : ∀ q, q < 3 → P.hasQueue m node q = true → ∀ j, j < 2 → Apart base 13 (buf q j) 10
  buf_ctl : ∀ q, q < 3 → P.hasQueue m node q = true → ∀ j, j < 2 → Apart (buf q j) 10 (P.ctl 0) 205
  list_buf : ∀ q, q < 3 → P.hasQueue m node q = true → ∀ r, r < 3 → P.hasQueue m node r = true →
    ∀ j, j < 2 → Apart (lst q) 2 (buf r j) 10
  buf_buf : ∀ q, q < 3 → P.hasQueue m node q = true → ∀ r, r < 3 → P.hasQueue m node r = true →
    ∀ i, i < 2 → ∀ j, j < 2 → (q ≠ r ∨ i ≠ j) → Apart (buf q i) 10 (buf r j) 10

/-- The index bytes of the block's queues hold three-bit indices. -/
def ThreeBit (m : Mem) (node : Word) : Prop :=
  ∀ q, q < 3 → P.hasQueue m node q = true →
    (idxByte (P.ld m (node + blockCmdqRdIdxs)) q).toNat < 8 ∧
      (idxByte (P.ld m (node + blockCmdqWrIdxs)) q).toNat < 8

section Layout

variable {P} {m : Mem} {node : Word} {base : Nat} {lst : Nat → Nat} {buf : Nat → Nat → Nat}
  (hl : BlockLayout P m node base lst buf)
include hl

theorem BlockLayout.adr_period : P.adr (node + blockPeriod) = base := by
  rw [show blockPeriod = BitVec.ofNat 32 (4 * 0) from rfl]
  exact hl.node_adr 0 (by decide)

theorem BlockLayout.adr_periodLo : P.adr (node + blockPeriod + 4) = base + 1 := by
  rw [BitVec.add_assoc, show blockPeriod + 4 = BitVec.ofNat 32 (4 * 1) from rfl]
  exact hl.node_adr 1 (by decide)

theorem BlockLayout.adr_wrIdxs : P.adr (node + blockCmdqWrIdxs) = base + 6 := by
  rw [show blockCmdqWrIdxs = BitVec.ofNat 32 (4 * 6) from rfl]
  exact hl.node_adr 6 (by decide)

theorem BlockLayout.adr_rdIdxs : P.adr (node + blockCmdqRdIdxs) = base + 7 := by
  rw [show blockCmdqRdIdxs = BitVec.ofNat 32 (4 * 7) from rfl]
  exact hl.node_adr 7 (by decide)

theorem BlockLayout.adr_qFlags : P.adr (node + blockCmdqFlags) = base + 8 := by
  rw [show blockCmdqFlags = BitVec.ofNat 32 (4 * 8) from rfl]
  exact hl.node_adr 8 (by decide)

theorem BlockLayout.adr_nodeFlags : P.adr (node + nodeFlags) = base + 11 := by
  rw [show nodeFlags = BitVec.ofNat 32 (4 * 11) from rfl]
  exact hl.node_adr 11 (by decide)

theorem BlockLayout.adr_defDest : P.adr (node + nodeDefDestPtr) = base + 12 := by
  rw [show nodeDefDestPtr = BitVec.ofNat 32 (4 * 12) from rfl]
  exact hl.node_adr 12 (by decide)

theorem BlockLayout.adr_queuePtr {q : Nat} (hq : q < 3) :
    P.adr (node + (blockCmdqPtrs + BitVec.ofNat 32 (q * 4))) = base + (3 + q) := by
  rw [show blockCmdqPtrs = BitVec.ofNat 32 12 from rfl, ← BitVec.ofNat_add,
    show 12 + q * 4 = 4 * (3 + q) by omega]
  exact hl.node_adr (3 + q) (by omega)

theorem BlockLayout.adr_slot {q i k : Nat} (hq : q < 3) (hex : P.hasQueue m node q = true)
    (hi : i < 4) (hk : k < 5) :
    P.adr (slotElem P m node q i + BitVec.ofNat 32 (4 * k)) =
      buf q (i / 2) + (i % 2 * 5 + k) := by
  have hlist := hl.list_adr q hq hex (i / 2) (by omega)
  rw [slotElem, Platform.ld, hlist, BitVec.add_assoc, ← BitVec.ofNat_add,
    show i % 2 * 20 + 4 * k = 4 * (i % 2 * 5 + k) by omega,
    hl.buf_adr q hq hex (i / 2) (by omega) (i % 2 * 5 + k) (by omega)]

theorem BlockLayout.adr_slotTime {q i : Nat} (hq : q < 3) (hex : P.hasQueue m node q = true)
    (hi : i < 4) : P.adr (slotElem P m node q i + tCmdTime) = buf q (i / 2) + i % 2 * 5 := by
  rw [show tCmdTime = BitVec.ofNat 32 (4 * 0) from rfl]
  exact hl.adr_slot hq hex hi (by decide)

theorem BlockLayout.adr_slotTimeLo {q i : Nat} (hq : q < 3) (hex : P.hasQueue m node q = true)
    (hi : i < 4) :
    P.adr (slotElem P m node q i + tCmdTime + 4) = buf q (i / 2) + (i % 2 * 5 + 1) := by
  rw [BitVec.add_assoc, show tCmdTime + 4 = BitVec.ofNat 32 (4 * 1) from rfl]
  exact hl.adr_slot hq hex hi (by decide)

theorem BlockLayout.adr_slotAct {q i : Nat} (hq : q < 3) (hex : P.hasQueue m node q = true)
    (hi : i < 4) : P.adr (slotElem P m node q i + tCmdAct) = buf q (i / 2) + (i % 2 * 5 + 2) := by
  rw [show tCmdAct = BitVec.ofNat 32 (4 * 2) from rfl]
  exact hl.adr_slot hq hex hi (by decide)

/-- The words of the control area are none of the node's. -/
theorem BlockLayout.ctl_ne_node {o k : Nat} (ho : o < shctlEnd) (hk : k < 13) :
    P.ctl o ≠ base + k := by
  have hend : shctlEnd = 820 := rfl
  have hap := hl.node_ctl
  simp only [Apart, Platform.ctl, sharedOffs] at hap ⊢
  omega

theorem BlockLayout.ctl_ne_buf {o q j k : Nat} (ho : o < shctlEnd) (hq : q < 3)
    (hex : P.hasQueue m node q = true) (hj : j < 2) (hk : k < 10) : P.ctl o ≠ buf q j + k := by
  have hend : shctlEnd = 820 := rfl
  have hap := hl.buf_ctl q hq hex j hj
  simp only [Apart, Platform.ctl, sharedOffs] at hap ⊢
  omega

theorem BlockLayout.buf_ne_node {q j k i : Nat} (hq : q < 3)
    (hex : P.hasQueue m node q = true) (hj : j < 2) (hk : k < 10) (hi : i < 13) :
    buf q j + k ≠ base + i := by
  have hap := hl.node_buf q hq hex j hj
  simp only [Apart] at hap
  omega

/-! ### Stores that keep the shape of the block -/

/-- `m'` has the queues of `m`, with the same lists and buffers. -/
structure SameShape (P : Platform) (m m' : Mem) (node : Word) (lst : Nat → Nat) : Prop where
  queues : ∀ q, q < 3 → P.hasQueue m' node q = P.hasQueue m node q
  lists : ∀ q, q < 3 → P.hasQueue m node q = true → queueList P m' node q = queueList P m node q
  bufs : ∀ q, q < 3 → P.hasQueue m node q = true → ∀ j, j < 2 → m' (lst q + j) = m (lst q + j)

omit hl in
theorem SameShape.trans {m₁ m₂ m₃ : Mem} (h₁₂ : SameShape P m₁ m₂ node lst)
    (h₂₃ : SameShape P m₂ m₃ node lst) : SameShape P m₁ m₃ node lst where
  queues q hq := (h₂₃.queues q hq).trans (h₁₂.queues q hq)
  lists q hq hex :=
    (h₂₃.lists q hq ((h₁₂.queues q hq).trans hex)).trans (h₁₂.lists q hq hex)
  bufs q hq hex j hj :=
    (h₂₃.bufs q hq ((h₁₂.queues q hq).trans hex) j hj).trans (h₁₂.bufs q hq hex j hj)

/-- A memory with the block's flags and pointers has its shape. -/
theorem BlockLayout.sameShape {m' : Mem}
    (hflags : ∀ q, q < 3 → P.hasQueue m' node q = P.hasQueue m node q)
    (hptr : ∀ q, q < 3 → m' (base + (3 + q)) = m (base + (3 + q)))
    (hlst : ∀ q, q < 3 → P.hasQueue m node q = true → ∀ j, j < 2 → m' (lst q + j) = m (lst q + j)) :
    SameShape P m m' node lst where
  queues := hflags
  lists q hq _ := by
    rw [queueList, queueList, Platform.ld, Platform.ld, hl.adr_queuePtr hq, hptr q hq]
  bufs := hlst

theorem BlockLayout.slotElem_same {m' : Mem} (h : SameShape P m m' node lst) {q i : Nat}
    (hq : q < 3) (hex : P.hasQueue m node q = true) (hi : i < 4) :
    slotElem P m' node q i = slotElem P m node q i := by
  have hlist := hl.list_adr q hq hex (i / 2) (by omega)
  rw [slotElem, slotElem, h.lists q hq hex, Platform.ld, Platform.ld, hlist,
    h.bufs q hq hex (i / 2) (by omega)]

theorem BlockLayout.of_sameShape {m' : Mem} (h : SameShape P m m' node lst) :
    BlockLayout P m' node base lst buf where
  node_adr := hl.node_adr
  list_adr q hq hex k hk := by
    rw [h.queues q hq] at hex
    rw [h.lists q hq hex]
    exact hl.list_adr q hq hex k hk
  buf_adr q hq hex j hj k hk := by
    rw [h.queues q hq] at hex
    rw [h.bufs q hq hex j hj]
    exact hl.buf_adr q hq hex j hj k hk
  node_ctl := hl.node_ctl
  node_list q hq hex := hl.node_list q hq (by rwa [h.queues q hq] at hex)
  list_ctl q hq hex := hl.list_ctl q hq (by rwa [h.queues q hq] at hex)
  node_buf q hq hex := hl.node_buf q hq (by rwa [h.queues q hq] at hex)
  buf_ctl q hq hex := hl.buf_ctl q hq (by rwa [h.queues q hq] at hex)
  list_buf q hq hex r hr hexr :=
    hl.list_buf q hq (by rwa [h.queues q hq] at hex) r hr (by rwa [h.queues r hr] at hexr)
  buf_buf q hq hex r hr hexr :=
    hl.buf_buf q hq (by rwa [h.queues q hq] at hex) r hr (by rwa [h.queues r hr] at hexr)

end Layout

/-! ### The paint bit -/

/-- The paint bit is none of the bits that tell which queues exist. -/
theorem hasQueue_paint (s : Cpu) (node : Word) (q : Nat) :
    P.hasQueue (s.paint P node).mem node q = P.hasQueue s.mem node q := by
  have hbit : ∀ w : Word, (w ||| nflgPaintLm32Smsk) >>> nflgBlockQsPos = w >>> nflgBlockQsPos := by
    intro w
    rw [BitVec.ushiftRight_or_distrib, show nflgPaintLm32Smsk >>> nflgBlockQsPos = 0#32 from rfl,
      BitVec.or_zero]
  rw [Platform.hasQueue, Cpu.paint, Cpu.st_mem, P.ld_st_same, hbit, Platform.hasQueue]

section Paint

variable {P} {s : Cpu} {node : Word} {base : Nat} {lst : Nat → Nat} {buf : Nat → Nat → Nat}
  (hl : BlockLayout P s.mem node base lst buf)
include hl

theorem BlockLayout.paint_other {a : Nat} (h : a ≠ base + 11) :
    (s.paint P node).mem a = s.mem a := by
  rw [Cpu.paint, Cpu.st_mem, P.st_other]
  rwa [hl.adr_nodeFlags]

theorem BlockLayout.paint_sameShape : SameShape P s.mem (s.paint P node).mem node lst := by
  refine hl.sameShape (fun q _ => hasQueue_paint P s node q) ?_ ?_
  · intro q hq
    exact hl.paint_other (by omega)
  · intro q hq hex j hj
    have hap := hl.node_list q hq hex
    simp only [Apart] at hap
    exact hl.paint_other (by omega)

end Paint

end DataMaster
