import BelProjects.DataMaster.Commands.Action
import BelProjects.DataMaster.Dot.Images
import BelProjects.DataMaster.Dot.Restore

/-!
# Parameters that the text keeps

The parameters of a node come back unchanged when they hold nothing but what the visitor
of their class writes.
-/

namespace DataMaster.Dot

open BigEndian

def actPrioSmsk : Word := actPrioMsk <<< actPrioPos
def actVabsSmsk : Word := 1#32 <<< actVabsPos
def actFlushPrioSmsk : Word := actFlushPrioMsk <<< actFlushPrioPos

/-- Parameters without anything that is not written: no permanent flag and no reserved
bits in an action, a quantity of one in flushes and waits, no flush ranges, threads that
fit a byte, empty queues, and a known format in an identifier. -/
def NodeData.Kept : NodeData → Prop
  | .timingMsg _ id _ _ res => fidOf id < 2 ∧ res = 0
  | .noop _ _ act => act &&& ~~~(actPrioSmsk ||| actQtyMsk ||| actVabsSmsk) = 1#32 <<< actTypePos
  | .flow _ _ act => act &&& ~~~(actPrioSmsk ||| actQtyMsk ||| actVabsSmsk) = 2#32 <<< actTypePos
  | .switch _ => True
  | .origin _ thread => thread.toNat < 256
  | .startThread _ _ thread => thread.toNat < 256
  | .flush _ _ act frmIl toIl frmHi toHi frmLo toLo =>
    act &&& ~~~(actPrioSmsk ||| actVabsSmsk ||| actFlushPrioSmsk) = 3#32 <<< actTypePos ||| 1 ∧
      frmIl = 0 ∧ toIl = 0 ∧ frmHi = 0 ∧ toHi = 0 ∧ frmLo = 0 ∧ toLo = 0
  | .wait _ _ act _ => act &&& ~~~(actPrioSmsk ||| actVabsSmsk) = 4#32 <<< actTypePos ||| 1
  | .blockFixed _ wrIdxs rdIdxs => wrIdxs = 0 ∧ rdIdxs = 0
  | .blockAlign _ wrIdxs rdIdxs => wrIdxs = 0 ∧ rdIdxs = 0
  | .cmdQMeta | .cmdQBuffer | .destList => True

/-! ### Action words -/

theorem bitOf_eq (q : Word) : bitOf q = q.getLsbD 0 := by
  unfold bitOf
  rw [BitVec.and_one_eq_setWidth_ofBool_getLsbD, BitVec.getLsbD_setWidth]
  cases q.getLsbD 0 <;> rfl

theorem bitOf_shift (x : Word) (pos : Nat) : bitOf ((x >>> pos) &&& 1) = x.getLsbD pos := by
  rw [bitOf_eq, BitVec.getLsbD_and, BitVec.getLsbD_ushiftRight]
  simp

theorem bit_shift (x : Word) {pos : Nat} (hpos : pos < 32) :
    bit (x.getLsbD pos) <<< pos = x &&& (1#32 <<< pos) := BitFields.shift_bit x hpos

theorem prio_field (act : Word) :
    ((((getPrio act).setWidth 8).setWidth 32 &&& actPrioMsk) <<< actPrioPos : Word) =
      act &&& actPrioSmsk := by
  have hnarrow : ((getPrio act).setWidth 8).setWidth 32 &&& actPrioMsk = getPrio act := by
    unfold getPrio
    apply BitVec.eq_of_getLsbD_eq
    intro i hi
    simp only [BitVec.getLsbD_and, BitVec.getLsbD_setWidth, getLsbD_actPrioMsk, hi, decide_true,
      Bool.true_and]
    by_cases hlow : i < 2
    · simp [hlow, show i < 8 by omega]
    · simp [hlow]
  rw [hnarrow]
  exact BitFields.shift_field act actPrioMsk actPrioPos

theorem vabs_field (act : Word) : bit (bitOf (getVabs act)) <<< actVabsPos = act &&& actVabsSmsk := by
  unfold getVabs
  rw [bitOf_shift]
  exact bit_shift act (by decide)

theorem qty_field (act : Word) : getQty act &&& actQtyMsk = act &&& actQtyMsk := by
  unfold getQty
  rw [BitVec.and_assoc, BitVec.and_self]

theorem flushPrio_field (act : Word) :
    ((((bit (bitOf ((getFlushPrio act >>> prioIl) &&& 1)) <<< prioIl) |||
      (bit (bitOf ((getFlushPrio act >>> prioHi) &&& 1)) <<< prioHi) |||
      (bit (bitOf ((getFlushPrio act >>> prioLo) &&& 1)) <<< prioLo)) &&& actFlushPrioMsk)
        <<< actFlushPrioPos : Word) = act &&& actFlushPrioSmsk := by
  have hall : (1#32 <<< prioIl ||| 1#32 <<< prioHi ||| 1#32 <<< prioLo) &&& actFlushPrioMsk =
      actFlushPrioMsk := by decide
  rw [bitOf_shift, bitOf_shift, bitOf_shift, bit_shift _ (by decide), bit_shift _ (by decide),
    bit_shift _ (by decide), ← BitVec.and_or_distrib_left, ← BitVec.and_or_distrib_left,
    BitVec.and_assoc, hall]
  unfold getFlushPrio
  rw [BitVec.and_assoc, BitVec.and_self]
  exact BitFields.shift_field act actFlushPrioMsk actFlushPrioPos

theorem act_kept_iff {t m act : Word} (ht : t &&& m = 0#32) :
    t ||| (act &&& m) = act ↔ act &&& ~~~m = t := BitFields.or_and_eq_self_iff act ht

theorem actNoop_eq (act : Word) :
    actNoop ((getPrio act).setWidth 8) (getQty act) (bitOf (getVabs act)) =
      1#32 <<< actTypePos ||| (act &&& (actPrioSmsk ||| actQtyMsk ||| actVabsSmsk)) := by
  unfold actNoop
  rw [prio_field, vabs_field, qty_field, BitVec.and_or_distrib_left, BitVec.and_or_distrib_left]
  simp only [BitVec.or_assoc]

theorem actFlow_eq (act : Word) :
    actFlow ((getPrio act).setWidth 8) (getQty act) (bitOf (getVabs act)) false =
      2#32 <<< actTypePos ||| (act &&& (actPrioSmsk ||| actQtyMsk ||| actVabsSmsk)) := by
  unfold actFlow
  rw [prio_field, vabs_field, qty_field, BitVec.and_or_distrib_left, BitVec.and_or_distrib_left]
  have hperma : bit false <<< actChpPos = 0#32 := by decide
  rw [hperma, BitVec.or_zero]
  simp only [BitVec.or_assoc]

theorem actWait_eq (act : Word) :
    actWait ((getPrio act).setWidth 8) (bitOf (getVabs act)) =
      (4#32 <<< actTypePos ||| 1) ||| (act &&& (actPrioSmsk ||| actVabsSmsk)) := by
  unfold actWait
  rw [prio_field, vabs_field, BitVec.and_or_distrib_left]
  ac_rfl

theorem actFlush_eq (act : Word) :
    actFlush ((getPrio act).setWidth 8) (bitOf ((getFlushPrio act >>> prioIl) &&& 1))
        (bitOf ((getFlushPrio act >>> prioHi) &&& 1)) (bitOf ((getFlushPrio act >>> prioLo) &&& 1))
        (bitOf (getVabs act)) false =
      (3#32 <<< actTypePos ||| 1) |||
        (act &&& (actPrioSmsk ||| actVabsSmsk ||| actFlushPrioSmsk)) := by
  unfold actFlush
  have hperma : bit false <<< actChpPos = 0#32 := by decide
  have hone : 1 &&& actQtyMsk = 1#32 := by decide
  rw [prio_field, vabs_field, flushPrio_field, hperma, hone, BitVec.or_zero,
    BitVec.and_or_distrib_left, BitVec.and_or_distrib_left]
  ac_rfl

/-! ### Parameters that come back -/

theorem thread_kept_iff (thread : Word) :
    (thread.setWidth 8).setWidth 32 = thread ↔ thread.toNat < 256 := by
  constructor
  · intro h
    rw [← h, BitVec.toNat_setWidth, BitVec.toNat_setWidth]
    omega
  · intro h
    apply BitVec.eq_of_toNat_eq
    rw [BitVec.toNat_setWidth, BitVec.toNat_setWidth]
    omega

theorem kept_iff (d : NodeData) : d.Kept ↔ d.Writable ∧ d.restored = d := by
  cases d with
  | timingMsg tOffs id par tef res =>
    simp only [NodeData.Kept, NodeData.Writable, NodeData.restored, NodeData.timingMsg.injEq,
      true_and]
    exact and_congr_right fun _ => eq_comm
  | noop tOffs tValid act =>
    simp only [NodeData.Kept, NodeData.Writable, NodeData.restored, NodeData.noop.injEq, true_and]
    rw [actNoop_eq, act_kept_iff (by decide)]
  | flow tOffs tValid act =>
    simp only [NodeData.Kept, NodeData.Writable, NodeData.restored, NodeData.flow.injEq, true_and]
    rw [actFlow_eq, act_kept_iff (by decide)]
  | origin tOffs thread =>
    simp only [NodeData.Kept, NodeData.Writable, NodeData.restored, NodeData.origin.injEq, true_and]
    exact (thread_kept_iff thread).symm
  | startThread tOffs startOffs thread =>
    simp only [NodeData.Kept, NodeData.Writable, NodeData.restored, NodeData.startThread.injEq,
      true_and]
    exact (thread_kept_iff thread).symm
  | flush tOffs tValid act frmIl toIl frmHi toHi frmLo toLo =>
    simp only [NodeData.Kept, NodeData.Writable, NodeData.restored, NodeData.flush.injEq, true_and]
    rw [actFlush_eq, act_kept_iff (by decide)]
    simp only [eq_comm]
  | wait tOffs tValid act tWait =>
    simp only [NodeData.Kept, NodeData.Writable, NodeData.restored, NodeData.wait.injEq, true_and,
      and_true]
    rw [actWait_eq, act_kept_iff (by decide)]
  | blockFixed tPeriod wrIdxs rdIdxs =>
    simp only [NodeData.Kept, NodeData.Writable, NodeData.restored, NodeData.blockFixed.injEq,
      true_and]
    exact and_congr eq_comm eq_comm
  | blockAlign tPeriod wrIdxs rdIdxs =>
    simp only [NodeData.Kept, NodeData.Writable, NodeData.restored, NodeData.blockAlign.injEq,
      true_and]
    exact and_congr eq_comm eq_comm
  | «switch» | cmdQMeta | cmdQBuffer | destList =>
    simp only [NodeData.Kept, NodeData.Writable, NodeData.restored, and_self]

end DataMaster.Dot
