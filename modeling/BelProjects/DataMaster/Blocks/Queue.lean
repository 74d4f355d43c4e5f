import BelProjects.DataMaster.Blocks.Pops
import BelProjects.DataMaster.Firmware.Footprint
import BelProjects.Library.CountedQueue
import BelProjects.Library.Ring

/-!
# The queues of a block as lists

`queueCmds` reads the pending commands of a priority out of memory, in the order in
which `block` would take them.  Memory words outside the queues do not matter, and
every change that the firmware makes to a queue is a change of one index or of one
element.
-/

namespace DataMaster

variable (P : Platform)

/-! ### Commands -/

structure QueuedCmd where
  validTime : Time
  act : Word
  arg1 : Word
  arg2 : Word
  deriving DecidableEq, Repr

/-- The element stored from word address `a` on. -/
def cmdAt (m : Mem) (a : Nat) : QueuedCmd :=
  { validTime := m a ++ m (a + 1), act := m (a + 2), arg1 := m (a + 3), arg2 := m (a + 4) }

def slotCmd (m : Mem) (e : Word) : QueuedCmd :=
  { validTime := P.ld64 m (e + tCmdTime), act := P.ld m (e + tCmdAct),
    arg1 := P.ld m (e + (tCmdAct + 4)), arg2 := P.ld m (e + (tCmdAct + 8)) }

/-- How often the command is still to be executed. -/
def QueuedCmd.qty (x : QueuedCmd) : Nat := (actQty x.act).toNat

def QueuedCmd.prio (x : QueuedCmd) : Nat := ((x.act >>> actPrioPos) &&& actPrioMsk).toNat

def QueuedCmd.body (x : QueuedCmd) : QueuedCmd := { x with act := withQty x.act 0 }

def QueuedCmd.counted (x : QueuedCmd) : QueuedCmd :=
  { x with act := withQty x.act (actQty x.act - 1) }

/-- The command is a flush, and priority `q` is among those it empties. -/
def QueuedCmd.flushes (x : QueuedCmd) (q : Nat) : Bool :=
  actType x.act == 3 &&
    ((x.act >>> actFlushPrioPos) &&& actFlushPrioMsk).setWidth 8 &&& (1#8 <<< q) != 0

theorem getLsbD_actQtyMsk (j : Nat) : actQtyMsk.getLsbD j = decide (j < 20) := by
  by_cases hj : j < 32
  · have hall : ∀ j : Fin 32, actQtyMsk.getLsbD j = decide (j.1 < 20) := by decide
    exact hall ⟨j, hj⟩
  · rw [BitVec.getLsbD_of_ge _ _ (by omega), decide_eq_false (by omega)]

theorem withQty_ushiftRight (act qty : Word) {k : Nat} (hk : 20 ≤ k) :
    withQty act qty >>> k = act >>> k := by
  apply BitVec.eq_of_getLsbD_eq
  intro i hi
  simp only [withQty, BitVec.getLsbD_ushiftRight, BitVec.getLsbD_or, BitVec.getLsbD_and,
    BitVec.getLsbD_not, getLsbD_actQtyMsk, show ¬ k + i < 20 by omega]
  by_cases hlt : k + i < 32
  · simp [hlt]
  · simp [BitVec.getLsbD_of_ge act (k + i) (by omega), hlt]

theorem withQty_withQty (act qty qty' : Word) :
    withQty (withQty act qty) qty' = withQty act qty' := by
  apply BitVec.eq_of_getLsbD_eq
  intro i hi
  simp only [withQty, BitVec.getLsbD_or, BitVec.getLsbD_and, BitVec.getLsbD_not, hi, decide_true,
    Bool.true_and]
  cases actQtyMsk.getLsbD i <;> simp

/-- Counting down changes neither the command nor its priority. -/
theorem body_withQty (x : QueuedCmd) (qty : Word) :
    QueuedCmd.body { x with act := withQty x.act qty } = x.body := by
  simp only [QueuedCmd.body, withQty_withQty]

theorem prio_withQty (x : QueuedCmd) (qty : Word) :
    QueuedCmd.prio { x with act := withQty x.act qty } = x.prio := by
  simp only [QueuedCmd.prio, withQty_ushiftRight _ _ (show 20 ≤ actPrioPos by decide)]

theorem body_counted (x : QueuedCmd) : x.counted.body = x.body := body_withQty x _

theorem qty_eq_zero_iff {x : QueuedCmd} : x.qty = 0 ↔ actQty x.act = 0 := by
  constructor
  · intro h0
    exact BitVec.eq_of_toNat_eq h0
  · intro h0
    rw [QueuedCmd.qty, h0]
    rfl

/-- The quantity after an execution. -/
theorem qty_counted {x : QueuedCmd} (h : actQty x.act ≠ 0) : x.qty = x.counted.qty + 1 := by
  have hone : (1 : Word).toNat = 1 := rfl
  have hpos : (actQty x.act).toNat ≠ 0 := fun h0 => h (BitVec.eq_of_toNat_eq (by simpa using h0))
  have hsub : (actQty x.act - 1).toNat = (actQty x.act).toNat - 1 := by
    rw [BitVec.toNat_sub_of_le (by rw [BitVec.le_def, hone]; omega), hone]
  have hmask : (actQty x.act - 1) &&& actQtyMsk = actQty x.act - 1 := by
    have h20 : (actQty x.act).toNat < 2 ^ 20 := by
      rw [actQty, BitVec.toNat_and]
      exact Nat.lt_of_le_of_lt Nat.and_le_right (by decide)
    apply BitVec.eq_of_toNat_eq
    rw [BitVec.toNat_and, show actQtyMsk.toNat = 2 ^ 20 - 1 from rfl, Nat.and_two_pow_sub_one_eq_mod,
      Nat.mod_eq_of_lt (by omega)]
  rw [QueuedCmd.qty, QueuedCmd.qty, QueuedCmd.counted, actQty_withQty, hmask, hsub]
  omega

/-- The last execution is the one that uses the command up. -/
theorem qty_le_one_iff {x : QueuedCmd} (h : actQty x.act ≠ 0) : x.qty ≤ 1 ↔ actQty x.act = 1 := by
  have hpos : x.qty ≠ 0 := fun h0 => h (qty_eq_zero_iff.1 h0)
  constructor
  · intro hle
    have hone : x.qty = 1 := by omega
    exact BitVec.eq_of_toNat_eq hone
  · intro h1
    rw [QueuedCmd.qty, h1]
    decide

/-! ### Queues -/

/-- Number of pending commands of priority `q`. -/
def occupancy (m : Mem) (node : Word) (q : Nat) : Nat :=
  Ring.count 4 (rdIdx P m node q) (wrIdx P m node q)

/-- The pending commands of priority `q`, the next one first. -/
def queueCmds (m : Mem) (node : Word) (q : Nat) : List QueuedCmd :=
  Ring.entries 4 (fun i => slotCmd P m (slotElem P m node q i)) (rdIdx P m node q)
    (occupancy P m node q)

@[simp] theorem length_queueCmds (m : Mem) (node : Word) (q : Nat) :
    (queueCmds P m node q).length = occupancy P m node q := Ring.length_entries

/-- What the queues of a block always satisfy: three-bit indices, at most four pending
commands, and in every queue the commands of its priority. -/
structure QueueInv (m : Mem) (node : Word) : Prop where
  three_bit : ThreeBit P m node
  occupancy_le : ∀ q, q < 3 → P.hasQueue m node q = true → occupancy P m node q ≤ 4
  prio_eq : ∀ q, q < 3 → P.hasQueue m node q = true → ∀ x ∈ queueCmds P m node q, x.prio = q

/-- Word address of ring element `i` of queue `q`. -/
def slotAdr (buf : Nat → Nat → Nat) (q i : Nat) : Nat := buf q (i / 2) + i % 2 * 5

section Queue

variable {P} {m m' : Mem} {node : Word} {base : Nat} {lst : Nat → Nat} {buf : Nat → Nat → Nat}

theorem rdIdx_lt_eight (q : Nat) : rdIdx P m node q < 2 * 4 := Nat.mod_lt _ (by decide)

theorem wrIdx_lt_eight (q : Nat) : wrIdx P m node q < 2 * 4 := Nat.mod_lt _ (by decide)

theorem ringSlot_eq (b : BitVec 8) : ringSlot b = b.toNat % 8 % 4 := by
  rw [ringSlot, BitVec.toNat_and, show qIdxMaxMsk.toNat = 2 ^ 2 - 1 from rfl,
    Nat.and_two_pow_sub_one_eq_mod]
  omega

/-- The head is the element that the read index selects. -/
theorem readElem_eq_slot (q : Nat) :
    readElem P m node q = slotElem P m node q (rdIdx P m node q % 4) := by
  rw [readElem_eq, ringSlot_eq, rdIdx]

variable (hl : BlockLayout P m node base lst buf)
include hl

theorem BlockLayout.slotCmd_eq {q i : Nat} (hq : q < 3) (hex : P.hasQueue m node q = true)
    (hi : i < 4) (m' : Mem) : slotCmd P m' (slotElem P m node q i) = cmdAt m' (slotAdr buf q i) := by
  have h0 := hl.adr_slotTime hq hex hi
  have h1 := hl.adr_slotTimeLo hq hex hi
  have h2 := hl.adr_slotAct hq hex hi
  have h3 := hl.adr_slot hq hex hi (k := 3) (by decide)
  have h4 := hl.adr_slot hq hex hi (k := 4) (by decide)
  simp only [slotCmd, Platform.ld64, Platform.ld, show tCmdAct + 4 = BitVec.ofNat 32 (4 * 3) from rfl,
    show tCmdAct + 8 = BitVec.ofNat 32 (4 * 4) from rfl, h0, h1, h2, h3, h4, cmdAt, slotAdr,
    Nat.add_assoc]

theorem BlockLayout.queueCmds_eq {q : Nat} (hq : q < 3) (hex : P.hasQueue m node q = true) :
    queueCmds P m node q = Ring.entries 4 (fun i => cmdAt m (slotAdr buf q i)) (rdIdx P m node q)
      (occupancy P m node q) := by
  apply Ring.entries_congr (f := fun i => cmdAt m (slotAdr buf q i))
  intro i _
  exact hl.slotCmd_eq hq hex (Nat.mod_lt _ (by decide)) m

/-- Elements do not overlap. -/
theorem BlockLayout.slotAdr_ne {q i k r j l : Nat} (hq : q < 3) (hexq : P.hasQueue m node q = true)
    (hi : i < 4) (hk : k < 5) (hr : r < 3) (hexr : P.hasQueue m node r = true) (hj : j < 4)
    (hl' : l < 5) (hne : q ≠ r ∨ i ≠ j ∨ k ≠ l) : slotAdr buf q i + k ≠ slotAdr buf r j + l := by
  rw [slotAdr, slotAdr]
  by_cases hsame : q = r ∧ i / 2 = j / 2
  · obtain ⟨rfl, hij⟩ := hsame
    rw [hij]
    omega
  · have hap := hl.buf_buf q hq hexq r hr hexr (i / 2) (by omega) (j / 2) (by omega) (by omega)
    simp only [Apart] at hap
    omega

theorem BlockLayout.slotAdr_ne_node {q i k n : Nat} (hq : q < 3)
    (hex : P.hasQueue m node q = true) (hi : i < 4) (hk : k < 5) (hn : n < 13) :
    slotAdr buf q i + k ≠ base + n := by
  rw [slotAdr, Nat.add_assoc]
  exact hl.buf_ne_node hq hex (by omega) (by omega) hn

theorem BlockLayout.slotAdr_ne_list {q i k r j : Nat} (hq : q < 3)
    (hexq : P.hasQueue m node q = true) (hi : i < 4) (hk : k < 5) (hr : r < 3)
    (hexr : P.hasQueue m node r = true) (hj : j < 2) : slotAdr buf q i + k ≠ lst r + j := by
  have hap := hl.list_buf r hr hexr q hq hexq (i / 2) (by omega)
  simp only [Apart] at hap
  rw [slotAdr]
  omega

end Queue

/-! ### Memory outside the queues -/

/-- Word `a` is none of those that make up the block's queues. -/
structure OffQueues (m : Mem) (node : Word) (base : Nat) (lst : Nat → Nat) (buf : Nat → Nat → Nat)
    (a : Nat) : Prop where
  off_node : ∀ k, 3 ≤ k → k < 12 → k ≠ 8 → a ≠ base + k
  off_list : ∀ q, q < 3 → P.hasQueue m node q = true → ∀ j, j < 2 → a ≠ lst q + j
  off_buf : ∀ q, q < 3 → P.hasQueue m node q = true → ∀ j, j < 2 → ∀ k, k < 10 → a ≠ buf q j + k

structure KeepsQueues (m m' : Mem) (node : Word) (base : Nat) (lst : Nat → Nat)
    (buf : Nat → Nat → Nat) : Prop where
  shape : SameShape P m m' node lst
  wr : m' (base + 6) = m (base + 6)
  rd : m' (base + 7) = m (base + 7)
  elem : ∀ q, q < 3 → P.hasQueue m node q = true → ∀ i, i < 4 →
    cmdAt m' (slotAdr buf q i) = cmdAt m (slotAdr buf q i)

section Frames

variable {P} {m m' : Mem} {node : Word} {base : Nat} {lst : Nat → Nat} {buf : Nat → Nat → Nat}

variable (hl : BlockLayout P m node base lst buf)
include hl

theorem BlockLayout.rdIdx_eq (q : Nat) : rdIdx P m node q = (idxByte (m (base + 7)) q).toNat % 8 := by
  rw [rdIdx, Platform.ld, hl.adr_rdIdxs]

theorem BlockLayout.wrIdx_eq (q : Nat) : wrIdx P m node q = (idxByte (m (base + 6)) q).toNat % 8 := by
  rw [wrIdx, Platform.ld, hl.adr_wrIdxs]

theorem BlockLayout.keepsQueues {W : List Nat} (hframe : Frame W m m')
    (hoff : ∀ a ∈ W, OffQueues P m node base lst buf a) : KeepsQueues P m m' node base lst buf := by
  have hnode : ∀ k, 3 ≤ k → k < 12 → k ≠ 8 → m' (base + k) = m (base + k) := by
    intro k h3 h12 h8
    exact hframe _ fun hmem => (hoff _ hmem).off_node k h3 h12 h8 rfl
  refine ⟨hl.sameShape ?_ ?_ ?_, hnode 6 (by decide) (by decide) (by decide),
    hnode 7 (by decide) (by decide) (by decide), ?_⟩
  · intro q _
    rw [Platform.hasQueue, Platform.hasQueue, Platform.ld, Platform.ld, hl.adr_nodeFlags,
      hnode 11 (by decide) (by decide) (by decide)]
  · intro q hq
    exact hnode (3 + q) (by omega) (by omega) (by omega)
  · intro q hq hex j hj
    exact hframe _ fun hmem => (hoff _ hmem).off_list q hq hex j hj rfl
  · intro q hq hex i hi
    have hword : ∀ k, k < 5 → m' (slotAdr buf q i + k) = m (slotAdr buf q i + k) := by
      intro k hk
      refine hframe _ fun hmem => (hoff _ hmem).off_buf q hq hex (i / 2) (by omega) (i % 2 * 5 + k)
        (by omega) ?_
      rw [slotAdr, Nat.add_assoc]
    have h0 := hword 0 (by decide)
    rw [Nat.add_zero] at h0
    rw [cmdAt, cmdAt, h0, hword 1 (by decide), hword 2 (by decide), hword 3 (by decide),
      hword 4 (by decide)]

theorem BlockLayout.queueCmds_keeps (h : KeepsQueues P m m' node base lst buf) {q : Nat} (hq : q < 3)
    (hex : P.hasQueue m node q = true) :
    rdIdx P m' node q = rdIdx P m node q ∧ wrIdx P m' node q = wrIdx P m node q ∧
      queueCmds P m' node q = queueCmds P m node q := by
  have hl' := hl.of_sameShape h.shape
  have hrd : rdIdx P m' node q = rdIdx P m node q := by rw [hl'.rdIdx_eq, hl.rdIdx_eq, h.rd]
  have hwr : wrIdx P m' node q = wrIdx P m node q := by rw [hl'.wrIdx_eq, hl.wrIdx_eq, h.wr]
  refine ⟨hrd, hwr, ?_⟩
  rw [hl'.queueCmds_eq hq ((h.shape.queues q hq).trans hex), hl.queueCmds_eq hq hex, occupancy,
    occupancy, hrd, hwr]
  apply Ring.entries_congr
  intro i _
  exact h.elem q hq hex _ (Nat.mod_lt _ (by decide))

theorem BlockLayout.threeBit_keeps (h : KeepsQueues P m m' node base lst buf)
    (hthree : ThreeBit P m node) : ThreeBit P m' node := by
  intro q hq hex
  rw [h.shape.queues q hq] at hex
  have hbit := hthree q hq hex
  rw [Platform.ld, Platform.ld, hl.adr_rdIdxs, hl.adr_wrIdxs] at hbit
  rwa [Platform.ld, Platform.ld, hl.adr_rdIdxs, hl.adr_wrIdxs, h.rd, h.wr]

theorem BlockLayout.queueInv_keeps (h : KeepsQueues P m m' node base lst buf)
    (hinv : QueueInv P m node) : QueueInv P m' node := by
  refine ⟨hl.threeBit_keeps h hinv.three_bit, fun q hq hex => ?_, fun q hq hex => ?_⟩ <;>
    rw [h.shape.queues q hq] at hex
  · obtain ⟨hrd, hwr, -⟩ := hl.queueCmds_keeps h hq hex
    rw [occupancy, hrd, hwr]
    exact hinv.occupancy_le q hq hex
  · rw [(hl.queueCmds_keeps h hq hex).2.2]
    exact hinv.prio_eq q hq hex

end Frames

end DataMaster
