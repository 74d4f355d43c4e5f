import BelProjects.DataMaster.Blocks.Waits
import Mathlib.Logic.Function.Iterate

/-!
# Deactivated commands

A command of quantity 0 is popped without being executed, and the scheduler comes back to
the block for the next one.  The wrapper around `block` adds the period of the block on every
one of these visits, so each command that is skipped shifts the time of the thread.
-/

namespace DataMaster

/-! ### The same block in two memories -/

/-- `m'` has the block of `m` with its queues, apart from the paint bit. -/
structure SameBlock (P : Platform) (m m' : Mem) (node : Word) (base : Nat) (lst : Nat → Nat)
    (buf : Nat → Nat → Nat) : Prop where
  words : ∀ k, k < 13 → k ≠ 11 → m' (base + k) = m (base + k)
  queues : ∀ q, q < 3 → P.hasQueue m' node q = P.hasQueue m node q
  lists : ∀ q, q < 3 → P.hasQueue m node q = true → ∀ j, j < 2 → m' (lst q + j) = m (lst q + j)
  bufs : ∀ q, q < 3 → P.hasQueue m node q = true → ∀ j, j < 2 → ∀ k, k < 10 →
    m' (buf q j + k) = m (buf q j + k)

def popHead (P : Platform) (m : Mem) (node : Word) (q : Nat) : Mem :=
  let rdIdxs := P.ld m (node + blockCmdqRdIdxs)
  P.st m (node + blockCmdqRdIdxs) (setIdxByte rdIdxs q ((idxByte rdIdxs q + 1) &&& qIdxMaxOvfMsk))

/-- Removes the first `k` commands of queue `q`. -/
def withoutHeads (P : Platform) (node : Word) (q : Nat) : Nat → Mem → Mem
  | 0, m => m
  | k + 1, m => withoutHeads P node q k (popHead P m node q)

/-- A visit sees the head of queue `q` valid, and no valid head of a higher priority. -/
structure Takes (P : Platform) (s : Cpu) (node : Word) (q : Nat) : Prop where
  lt : q < 3
  dnr : P.ld s.mem (node + blockCmdqFlags) &&& blockCmdqDnrSmsk = 0
  seen : SeenValid P s node q
  highest : ∀ p, q < p → p < 3 → ¬ SeenValid P s node p
  still : headTime P s.mem node q ≤ s.clk (readings P s.mem node q + 1)

section Same

variable {P : Platform} {m m' : Mem} {node : Word} {base : Nat} {lst : Nat → Nat}
  {buf : Nat → Nat → Nat}

theorem SameBlock.refl : SameBlock P m m node base lst buf :=
  ⟨fun _ _ _ => rfl, fun _ _ => rfl, fun _ _ _ _ _ => rfl, fun _ _ _ _ _ _ _ => rfl⟩

theorem SameBlock.trans {m'' : Mem} (h : SameBlock P m m' node base lst buf)
    (h' : SameBlock P m' m'' node base lst buf) : SameBlock P m m'' node base lst buf where
  words k hk hne := (h'.words k hk hne).trans (h.words k hk hne)
  queues q hq := (h'.queues q hq).trans (h.queues q hq)
  lists q hq hex j hj :=
    (h'.lists q hq ((h.queues q hq).trans hex) j hj).trans (h.lists q hq hex j hj)
  bufs q hq hex j hj k hk :=
    (h'.bufs q hq ((h.queues q hq).trans hex) j hj k hk).trans (h.bufs q hq hex j hj k hk)

theorem SameBlock.symm (h : SameBlock P m m' node base lst buf) :
    SameBlock P m' m node base lst buf where
  words k hk hne := (h.words k hk hne).symm
  queues q hq := (h.queues q hq).symm
  lists q hq hex j hj := (h.lists q hq ((h.queues q hq).symm.trans hex) j hj).symm
  bufs q hq hex j hj k hk := (h.bufs q hq ((h.queues q hq).symm.trans hex) j hj k hk).symm

variable (hl : BlockLayout P m node base lst buf) (h : SameBlock P m m' node base lst buf)
include hl h

theorem SameBlock.shape : SameShape P m m' node lst :=
  hl.sameShape h.queues (fun q hq => h.words (3 + q) (by omega) (by omega)) h.lists

theorem SameBlock.isPending_eq {q : Nat} (hq : q < 3) :
    isPending P m' node q = isPending P m node q := by
  simp only [isPending, queuePending, Platform.ld, h.queues q hq, hl.adr_rdIdxs, hl.adr_wrIdxs,
    h.words 6 (by decide) (by decide), h.words 7 (by decide) (by decide)]

theorem SameBlock.readElem_eq {q : Nat} (hq : q < 3) (hex : P.hasQueue m node q = true) :
    readElem P m' node q = readElem P m node q := by
  rw [DataMaster.readElem_eq, DataMaster.readElem_eq, Platform.ld, Platform.ld, hl.adr_rdIdxs,
    h.words 7 (by decide) (by decide), hl.slotElem_same (h.shape hl) hq hex (ringSlot_lt _)]

theorem SameBlock.ld_head {q k : Nat} (hq : q < 3) (hex : P.hasQueue m node q = true) (hk : k < 5) :
    P.ld m' (readElem P m node q + BitVec.ofNat 32 (4 * k)) =
      P.ld m (readElem P m node q + BitVec.ofNat 32 (4 * k)) := by
  have hlt := ringSlot_lt (idxByte (P.ld m (node + blockCmdqRdIdxs)) q)
  have hadr := hl.adr_slot hq hex hlt hk
  rw [← DataMaster.readElem_eq] at hadr
  rw [Platform.ld, Platform.ld, hadr]
  exact h.bufs q hq hex _ (by omega) _ (by omega)

theorem SameBlock.headTime_eq {q : Nat} (hq : q < 3) (hex : P.hasQueue m node q = true) :
    headTime P m' node q = headTime P m node q := by
  have hhi := h.ld_head hl hq hex (k := 0) (by decide)
  have hlo := h.ld_head hl hq hex (k := 1) (by decide)
  rw [headTime, headTime, h.readElem_eq hl hq hex, Platform.ld64, Platform.ld64, BitVec.add_assoc,
    show tCmdTime + 4 = BitVec.ofNat 32 (4 * 1) from rfl, hlo,
    show tCmdTime = BitVec.ofNat 32 (4 * 0) from rfl, hhi]

theorem SameBlock.headAct_eq {q : Nat} (hq : q < 3) (hex : P.hasQueue m node q = true) :
    headAct P m' node q = headAct P m node q := by
  rw [headAct, headAct, h.readElem_eq hl hq hex]
  exact h.ld_head hl hq hex (k := 2) (by decide)

theorem SameBlock.flowDest_eq {q : Nat} (hq : q < 3) (hex : P.hasQueue m node q = true) :
    P.ld m' (readElem P m' node q + tCmdFlowDest) = P.ld m (readElem P m node q + tCmdFlowDest) := by
  rw [h.readElem_eq hl hq hex]
  exact h.ld_head hl hq hex (k := 3) (by decide)

theorem SameBlock.waitTime_eq {q : Nat} (hq : q < 3) (hex : P.hasQueue m node q = true) :
    waitTime P m' (readElem P m' node q) = waitTime P m (readElem P m node q) := by
  have hlo := h.ld_head hl hq hex (k := 4) (by decide)
  rw [waitTime, waitTime, Platform.ld64, Platform.ld64, show tCmdWaitTime = tCmdFlowDest from rfl,
    h.flowDest_eq hl hq hex, h.readElem_eq hl hq hex, BitVec.add_assoc,
    show tCmdFlowDest + 4 = BitVec.ofNat 32 (4 * 4) from rfl, hlo]

theorem SameBlock.defDest_eq : P.defDest m' node = P.defDest m node := by
  rw [Platform.defDest, Platform.defDest, Platform.ld, Platform.ld, hl.adr_defDest,
    h.words 12 (by decide) (by decide)]

theorem SameBlock.period_eq : period P m' node = period P m node := by
  apply P.ld64_congr
  · rw [hl.adr_period, show base = base + 0 from rfl, h.words 0 (by decide) (by decide)]
  · rw [hl.adr_periodLo, h.words 1 (by decide) (by decide)]

theorem SameBlock.readings_eq (q : Nat) : readings P m' node q = readings P m node q := by
  rw [readings, readings, readingsBefore, readingsBefore]
  apply List.countP_congr
  intro p hp
  rw [h.isPending_eq hl (mem_scanPrios.1 hp)]

/-- What a visit sees valid in one of the two, it sees in the other. -/
theorem SameBlock.takes {s s' : Cpu} (hs : s.mem = m) (hs' : s'.mem = m') (hclk : s'.clk = s.clk)
    {q : Nat} (htakes : Takes P s node q) : Takes P s' node q := by
  subst hs hs'
  have hseen : ∀ p, p < 3 → (SeenValid P s' node p ↔ SeenValid P s node p) := by
    intro p hp
    unfold SeenValid
    rw [h.isPending_eq hl hp, h.readings_eq hl, hclk]
    constructor
    · rintro ⟨hpend, hvalid⟩
      rw [h.headTime_eq hl hp (hasQueue_of_pending hpend)] at hvalid
      exact ⟨hpend, hvalid⟩
    · rintro ⟨hpend, hvalid⟩
      rw [h.headTime_eq hl hp (hasQueue_of_pending hpend)]
      exact ⟨hpend, hvalid⟩
  have hq := htakes.lt
  refine ⟨hq, ?_, (hseen q hq).2 htakes.seen, fun p hqp hp => ?_, ?_⟩
  · rw [Platform.ld, hl.adr_qFlags, h.words 8 (by decide) (by decide), ← hl.adr_qFlags]
    exact htakes.dnr
  · rw [hseen p hp]
    exact htakes.highest p hqp hp
  · rw [h.headTime_eq hl hq (hasQueue_of_pending htakes.seen.1), h.readings_eq hl, hclk]
    exact htakes.still

omit h in
theorem BlockLayout.popHead_other (q : Nat) {a : Nat} (ha : a ≠ base + 7) :
    DataMaster.popHead P m node q a = m a :=
  P.st_other (by rwa [hl.adr_rdIdxs])

theorem SameBlock.popHead (q : Nat) :
    SameBlock P (popHead P m node q) (DataMaster.popHead P m' node q) node base lst buf := by
  have hl' := hl.of_sameShape (h.shape hl)
  have hflags : ∀ p, P.hasQueue (DataMaster.popHead P m node q) node p = P.hasQueue m node p := by
    intro p
    rw [Platform.hasQueue, Platform.hasQueue, Platform.ld, Platform.ld, hl.adr_nodeFlags,
      hl.popHead_other q (by omega)]
  refine ⟨?_, ?_, ?_, ?_⟩
  · intro k hk hne
    by_cases h7 : k = 7
    · subst h7
      have hword := h.words 7 (by decide) (by decide)
      simp only [DataMaster.popHead, Platform.ld, Platform.st_apply, hl.adr_rdIdxs, hword]
    · rw [hl.popHead_other q (by omega), hl'.popHead_other q (by omega), h.words k hk hne]
  · intro p hp
    rw [hflags, ← h.queues p hp, Platform.hasQueue, Platform.hasQueue, Platform.ld, Platform.ld,
      hl.adr_nodeFlags, hl'.popHead_other q (by omega)]
  · intro p hp hex j hj
    rw [hflags] at hex
    have hap := hl.node_list p hp hex
    simp only [Apart] at hap
    rw [hl.popHead_other q (by omega), hl'.popHead_other q (by omega), h.lists p hp hex j hj]
  · intro p hp hex j hj k hk
    rw [hflags] at hex
    have hne := hl.buf_ne_node hp hex hj hk (i := 7) (by decide)
    rw [hl.popHead_other q hne, hl'.popHead_other q hne, h.bufs p hp hex j hj k hk]

end Same

section Layout

variable {P : Platform} {m m' : Mem} {node : Word} {base : Nat} {lst : Nat → Nat}
  {buf : Nat → Nat → Nat} (hl : BlockLayout P m node base lst buf)
include hl

theorem BlockLayout.layout_popHead (q : Nat) : BlockLayout P (popHead P m node q) node base lst buf := by
  refine hl.of_sameShape (hl.sameShape ?_ ?_ ?_)
  · intro p _
    rw [Platform.hasQueue, Platform.hasQueue, Platform.ld, Platform.ld, hl.adr_nodeFlags,
      hl.popHead_other q (by omega)]
  · intro p hp
    exact hl.popHead_other q (by omega)
  · intro p hp hex j hj
    have hap := hl.node_list p hp hex
    simp only [Apart] at hap
    exact hl.popHead_other q (by omega)

omit hl in
theorem SameBlock.withoutHeads {q k : Nat} : ∀ {m m' : Mem}, BlockLayout P m node base lst buf →
    SameBlock P m m' node base lst buf →
    SameBlock P (withoutHeads P node q k m) (DataMaster.withoutHeads P node q k m') node base lst
      buf := by
  induction k with
  | zero => exact fun _ h => h
  | succ k ih => exact fun hl h => ih (hl.layout_popHead q) (h.popHead hl q)

omit hl in
theorem BlockLayout.layout_withoutHeads {q k : Nat} : ∀ {m : Mem}, BlockLayout P m node base lst buf →
    BlockLayout P (DataMaster.withoutHeads P node q k m) node base lst buf := by
  induction k with
  | zero => exact fun hl => hl
  | succ k ih => exact fun hl => ih (hl.layout_popHead q)

omit hl in
theorem BlockLayout.withoutHeads_other {q k a : Nat} (ha : a ≠ base + 7) : ∀ {m : Mem},
    BlockLayout P m node base lst buf → DataMaster.withoutHeads P node q k m a = m a := by
  induction k with
  | zero => exact fun _ => rfl
  | succ k ih => exact fun hl => (ih (hl.layout_popHead q)).trans (hl.popHead_other q ha)

theorem BlockLayout.sameBlock_of_ctl (h : ∀ a, (∀ o, o < shctlEnd → a ≠ P.ctl o) → m' a = m a) :
    SameBlock P m m' node base lst buf where
  words k hk _ := h _ fun o ho => (hl.ctl_ne_node ho hk).symm
  queues q _ := by
    rw [Platform.hasQueue, Platform.hasQueue, Platform.ld, Platform.ld, hl.adr_nodeFlags,
      h _ fun o ho => (hl.ctl_ne_node ho (by decide)).symm]
  lists q hq hex j hj := h _ fun o ho => ((hl.off_ctl ho).off_list q hq hex j hj)|>.symm
  bufs q hq hex j hj k hk := h _ fun o ho => (hl.ctl_ne_buf ho hq hex hj hk).symm

end Layout

/-! ### A visit that skips a command -/

section Skip

variable {P : Platform} {s : Cpu} {node : Word} {base : Nat} {lst : Nat → Nat}
  {buf : Nat → Nat → Nat} (hl : BlockLayout P s.mem node base lst buf) {q : Nat}
include hl

theorem BlockLayout.sameBlock_paint :
    SameBlock P s.mem (s.paint P node).mem node base lst buf where
  words k _ hne := hl.paint_other (by omega)
  queues q _ := hasQueue_paint P s node q
  lists q hq hex j hj := by
    have hap := hl.node_list q hq hex
    simp only [Apart] at hap
    exact hl.paint_other (by omega)
  bufs q hq hex j hj k hk := hl.paint_other (hl.buf_ne_node hq hex hj hk (by decide))

theorem BlockLayout.findCmd_takes (h : Takes P s node q) :
    findCmd P s node = .command (readElem P s.mem node q) q (atService P s node q) := by
  have hfind := hl.findCmd_hit ⟨h.dnr, idxsDiffer_of_pending h.lt h.seen.1⟩ h.lt h.seen h.highest
  rwa [if_neg (BitVec.not_lt.mpr h.still)] at hfind

omit hl in
theorem Takes.not_slip (h : Takes P s node q)
    (htype : actQty (headAct P s.mem node q) ≠ 0 →
      ActType.ofNum? (actType (headAct P s.mem node q)) ≠ none) : ¬ ScanSlip P s node := by
  have hch := chosen_of_seen h.lt h.seen h.highest
  rintro ⟨-, -, hnone | ⟨p, hp, ⟨hns, -⟩ | ⟨hqty, hno⟩⟩⟩
  · exact absurd (h.seen.1.symm.trans (hnone q h.lt)) (by decide)
  · obtain rfl := hp.unique hch
    exact hns h.seen
  · obtain rfl := hp.unique hch
    exact htype hqty hno

theorem BlockLayout.visit_skips {t : Nat} (ht : t < thrQty) (h : Takes P s node q)
    (hqty : actQty (headAct P s.mem node q) = 0) {aligned : Bool} {r : Word} {s₁ : Cpu}
    (hvisit : visitBlock P aligned s node (thrPtr t) = some (r, s₁)) :
    SameBlock P (popHead P s.mem node q) s₁.mem node base lst buf ∧
      thrTime P s₁.mem t = timeStep aligned (thrTime P s.mem t) (period P s.mem node) := by
  have hthr : thrQty = 8 := rfl
  have hend : shctlEnd = 820 := rfl
  have hex := hasQueue_of_pending h.seen.1
  have hl₁ := hl.of_sameShape hl.paint_sameShape
  obtain ⟨s₂, hblock, hleaves⟩ := visitBlock_leaves P ht hvisit
  have hmem : s₂.mem = popHead P (s.paint P node).mem node q := by
    have hact : P.ld (atService P s node q).mem (readElem P s.mem node q + tCmdAct) =
        headAct P s.mem node q := hl.headAct_paint h.lt hex
    rw [block_eq, hl.findCmd_takes h] at hblock
    simp only [serveCmd, hact, if_neg (not_not.mpr hqty)] at hblock
    split at hblock <;> cases hblock <;> rfl
  have hctl : ∀ o, o < shctlEnd → s₂.mem (P.ctl o) = s.mem (P.ctl o) := by
    intro o ho
    rw [hmem, hl₁.popHead_other q (hl.ctl_ne_node ho (by decide)),
      hl.paint_other (hl.ctl_ne_node ho (by decide))]
  constructor
  · have hpop : SameBlock P (popHead P s.mem node q) s₂.mem node base lst buf := by
      rw [hmem]
      exact hl.sameBlock_paint.popHead hl q
    refine hpop.trans (BlockLayout.sameBlock_of_ctl ?_ fun a ha => ?_)
    · exact (hl.layout_popHead q).of_sameShape (hpop.shape (hl.layout_popHead q))
    · exact hleaves.frame a fun o _ ho => ha _ (by omega)
  · have htime : thrTime P s₂.mem t = thrTime P s.mem t := by
      apply P.ld64_congr
      · rw [adr_currtime P ht, hctl _ (by omega)]
      · rw [adr_currtimeLo P ht, hctl _ (by omega)]
    have hperiod : period P s₂.mem node = period P s.mem node := by
      rw [hmem]
      apply P.ld64_congr
      · rw [hl.adr_period, hl₁.popHead_other q (by omega), hl.paint_other (by omega)]
      · rw [hl.adr_periodLo, hl₁.popHead_other q (by omega), hl.paint_other (by omega)]
    rw [hleaves.time, htime, hperiod]

end Skip

/-! ### Runs of visits that skip commands -/

/-- Between two visits of thread `t` nobody else changes the block, its queues or the time sum
of the thread. The clock goes on in any way. -/
structure Between (P : Platform) (t : Nat) (s s' : Cpu) (node : Word) (base : Nat) (lst : Nat → Nat)
    (buf : Nat → Nat → Nat) : Prop where
  block : SameBlock P s.mem s'.mem node base lst buf
  time : thrTime P s'.mem t = thrTime P s.mem t

/-- From `s` to `s'` the firmware has come back to the block `k` times, each time from a visit
that has skipped a command of quantity 0 at the head of queue `q`. -/
inductive Skips (P : Platform) (aligned : Bool) (t : Nat) (node : Word) (q base : Nat)
    (lst : Nat → Nat) (buf : Nat → Nat → Nat) : Nat → Cpu → Cpu → Prop
  | none {s : Cpu} : Skips P aligned t node q base lst buf 0 s s
  | skip {k : Nat} {s s₁ s₂ s' : Cpu} : Takes P s node q → actQty (headAct P s.mem node q) = 0 →
      visitBlock P aligned s node (thrPtr t) = some (node, s₁) →
      Between P t s₁ s₂ node base lst buf →
      Skips P aligned t node q base lst buf k s₂ s' →
      Skips P aligned t node q base lst buf (k + 1) s s'

/-- The commands are gone, and every one of them has cost a time step. -/
theorem Skips.spec {P : Platform} {aligned : Bool} {t : Nat} {node : Word} {q base : Nat}
    {lst : Nat → Nat} {buf : Nat → Nat → Nat} (ht : t < thrQty) {k : Nat} {s s' : Cpu}
    (h : Skips P aligned t node q base lst buf k s s') (hl : BlockLayout P s.mem node base lst buf) :
    SameBlock P (withoutHeads P node q k s.mem) s'.mem node base lst buf ∧
      thrTime P s'.mem t =
        (fun x => timeStep aligned x (period P s.mem node))^[k] (thrTime P s.mem t) := by
  induction h with
  | none => exact ⟨.refl, rfl⟩
  | @skip k s s₁ s₂ s' htakes hqty hvisit hbetween _ ih =>
    obtain ⟨hblock, htime⟩ := hl.visit_skips ht htakes hqty hvisit
    have hl₁ := hl.layout_popHead q
    have hpop : SameBlock P (popHead P s.mem node q) s₂.mem node base lst buf :=
      hblock.trans hbetween.block
    have hl₂ := hl₁.of_sameShape (hpop.shape hl₁)
    obtain ⟨hrest, htimes⟩ := ih hl₂
    have hperiod : period P s₂.mem node = period P s.mem node := by
      apply P.ld64_congr
      · rw [hl.adr_period, show base = base + 0 from rfl, hpop.words 0 (by decide) (by decide),
          hl.popHead_other q (by omega)]
      · rw [hl.adr_periodLo, hpop.words 1 (by decide) (by decide), hl.popHead_other q (by omega)]
    refine ⟨(SameBlock.withoutHeads hl₁ hpop).trans hrest, ?_⟩
    rw [htimes, hperiod, hbetween.time, htime, Function.iterate_succ_apply]

/-! ### Time steps that do not show -/

/-- What a visit adds to the time sum that is not replaced, before any rounding. -/
def advance (atype : ActType) (act : Word) (w p : Time) : Time :=
  if atype = .wait ∧ ¬ IsAbsolute act then w else p

/-- The command is an absolute wait, and the clock does not hold it back. -/
def WaitsAhead (atype : ActType) (act : Word) (now w p : Time) : Prop :=
  atype = .wait ∧ IsAbsolute act ∧ now < w - p

instance (atype : ActType) (act : Word) (now w p : Time) :
    Decidable (WaitsAhead atype act now w p) := inferInstanceAs (Decidable (_ ∧ _ ∧ _))

/-- Taken first, `k` time steps of period `p` at time sum `x` do not show behind an advance by
`d`: for a fixed block they add up to nothing; in an aligned block there are none, or they end
before the next grid point, and it makes no difference to round before the advance. -/
def StepsHidden (aligned : Bool) (k : Nat) (x p d : Time) : Prop :=
  if aligned then
    k = 0 ∨ ((p = 0 ∨ (k = 1 ∧ x.toNat + p.toNat ≤ gridUp x.toNat)) ∧
      gridUp (x.toNat + d.toNat) = gridUp x.toNat + gridUp d.toNat)
  else BitVec.ofNat 64 k * p = 0

theorem timeStep_add (aligned : Bool) (x p : Time) :
    timeStep aligned x p = timeStep aligned (x + p) 0 := by
  have hzero : x + p + 0 = x + p := BitVec.add_zero _
  cases aligned with
  | false => exact hzero.symm
  | true =>
    change alignUp x p = alignUp (x + p) 0
    simp only [alignUp, hzero]

/-- The time sum a visit leaves. -/
theorem timeStep_afterAction (aligned : Bool) (atype : ActType) (act : Word) (now w : Time)
    (x : WaitState) :
    timeStep aligned (afterAction atype act now w x).time (afterAction atype act now w x).period =
      if WaitsAhead atype act now w x.period then timeStep aligned (w - x.period) x.period
      else timeStep aligned (x.time + advance atype act w x.period) 0 := by
  unfold afterAction
  by_cases hwait : atype = .wait
  · rw [if_pos hwait]
    unfold afterWait
    by_cases habs : IsAbsolute act
    · rw [if_pos habs]
      by_cases hlater : now < w - x.period
      · rw [if_pos hlater, if_pos (show WaitsAhead atype act now w x.period from ⟨hwait, habs, hlater⟩)]
      · have hadvance : advance atype act w x.period = x.period := if_neg fun h => h.2 habs
        rw [if_neg hlater, if_neg (show ¬ WaitsAhead atype act now w x.period from fun h => hlater h.2.2),
          hadvance]
        exact timeStep_add _ _ _
    · have hahead : ¬ WaitsAhead atype act now w x.period := fun h => habs h.2.1
      have hadvance : advance atype act w x.period = w := if_pos ⟨hwait, habs⟩
      rw [if_neg habs, if_neg hahead, hadvance]
      by_cases hperm : IsPermanent act
      · rw [if_pos hperm]
        exact timeStep_add _ _ _
      · rw [if_neg hperm, timeStep_add]
        dsimp only
        rw [BitVec.add_assoc, BitVec.sub_add_cancel]
  · have hahead : ¬ WaitsAhead atype act now w x.period := fun h => hwait h.1
    have hadvance : advance atype act w x.period = x.period := if_neg fun h => hwait h.1
    rw [if_neg hwait, if_neg hahead, hadvance]
    exact timeStep_add _ _ _

theorem steps_fixed (x p : Time) (k : Nat) :
    (fun x => timeStep false x p)^[k] x = x + BitVec.ofNat 64 k * p := by
  induction k with
  | zero =>
    rw [Function.iterate_zero_apply, BitVec.zero_mul, BitVec.add_zero]
  | succ k ih =>
    rw [Function.iterate_succ_apply', ih, BitVec.ofNat_add, BitVec.add_mul, BitVec.one_mul,
      ← BitVec.add_assoc]
    rfl

theorem steps_aligned {x p : Time} {a : Nat} (ha : p.toNat + tGridSize.toNat ≤ a) : ∀ {k : Nat},
    x.toNat + (k + 1) * a ≤ 2 ^ 64 →
      ((fun x => timeStep true x p)^[k + 1] x).toNat =
        gridUp (x.toNat + p.toNat) + k * gridUp p.toNat := by
  have hsize : tGridSize.toNat = 10000 := rfl
  intro k
  induction k with
  | zero =>
    intro hfit
    rw [Nat.zero_add, Nat.one_mul] at hfit
    have hsum : (x + p).toNat = x.toNat + p.toNat := by
      rw [BitVec.toNat_add, Nat.mod_eq_of_lt (by omega)]
    change (alignUp x p).toNat = _
    rw [alignUp_toNat (by rw [hsum]; omega), hsum, Nat.zero_mul, Nat.add_zero]
  | succ k ih =>
    intro hfit
    rw [Nat.add_one_mul (k + 1)] at hfit
    have hx := ih (by omega)
    rw [Function.iterate_succ_apply']
    generalize (fun x => timeStep true x p)^[k + 1] x = y at hx ⊢
    have hp := gridUp_lt p.toNat
    have hstep : k * gridUp p.toNat ≤ k * a := Nat.mul_le_mul_left _ (by omega)
    have hfirst := gridUp_lt (x.toNat + p.toNat)
    rw [Nat.add_one_mul k] at hfit
    have hsum : (y + p).toNat = y.toNat + p.toNat := by
      rw [BitVec.toNat_add, Nat.mod_eq_of_lt (by omega)]
    change (alignUp y p).toNat = _
    rw [alignUp_toNat (by rw [hsum]; omega), hsum, hx, gridUp_add, Nat.add_one_mul]
    · omega
    · exact Nat.dvd_add (dvd_gridUp _) ((dvd_gridUp _).mul_left _)

theorem gridUp_steps_iff (n x p d : Nat) :
    gridUp (x + p) + n * gridUp p + gridUp d = gridUp (x + d) ↔
      (p = 0 ∨ (n = 0 ∧ x + p ≤ gridUp x)) ∧ gridUp (x + d) = gridUp x + gridUp d := by
  have hmono : gridUp x ≤ gridUp (x + p) := gridUp_mono (Nat.le_add_right _ _)
  have hsub := gridUp_add_le x d
  rw [← gridUp_eq_zero, ← gridUp_eq_iff]
  constructor
  · intro h
    have hnone : n * gridUp p = 0 := by omega
    refine ⟨?_, by omega⟩
    rcases Nat.mul_eq_zero.1 hnone with hn | hp
    · exact Or.inr ⟨hn, by omega⟩
    · exact Or.inl hp
  · rintro ⟨hp | ⟨hn, hp⟩, hd⟩
    · rw [hp, gridUp_eq_zero.1 hp, hd, Nat.add_zero, Nat.mul_zero, Nat.add_zero]
    · rw [hn, hp, hd, Nat.zero_mul, Nat.add_zero]

/-- The sums in question do not overflow. -/
def StepsFit (aligned : Bool) (k : Nat) (x p d : Time) : Prop :=
  aligned = true →
    x.toNat + k * (p.toNat + tGridSize.toNat) + d.toNat + tGridSize.toNat ≤ 2 ^ 64

theorem stepsHidden_iff {aligned : Bool} {k : Nat} {x p d : Time} (hfit : StepsFit aligned k x p d) :
    timeStep aligned ((fun x => timeStep aligned x p)^[k] x + d) 0 = timeStep aligned (x + d) 0 ↔
      StepsHidden aligned k x p d := by
  cases aligned with
  | false =>
    rw [steps_fixed]
    change x + BitVec.ofNat 64 k * p + d + 0 = x + d + 0 ↔ BitVec.ofNat 64 k * p = 0
    rw [BitVec.add_left_inj, BitVec.add_left_inj, BitVec.add_right_eq_self]
    exact Iff.rfl
  | true =>
    cases k with
    | zero => exact iff_of_true rfl (Or.inl rfl)
    | succ n =>
      have hfit := hfit rfl
      have hx := steps_aligned (Nat.le_refl _) (show x.toNat +
        (n + 1) * (p.toNat + tGridSize.toNat) ≤ 2 ^ 64 by omega)
      generalize (fun x => timeStep true x p)^[n + 1] x = y at hx ⊢
      have hp := gridUp_lt p.toNat
      have hfirst := gridUp_lt (x.toNat + p.toNat)
      have hsize : tGridSize.toNat = 10000 := rfl
      have hstep : n * gridUp p.toNat ≤ n * (p.toNat + tGridSize.toNat) :=
        Nat.mul_le_mul_left _ (by omega)
      rw [Nat.add_one_mul n] at hfit
      have hyd : (y + d + 0).toNat = y.toNat + d.toNat := by
        rw [show y + d + 0 = y + d from BitVec.add_zero _, BitVec.toNat_add,
          Nat.mod_eq_of_lt (by omega)]
      have hxd : (x + d + 0).toNat = x.toNat + d.toNat := by
        rw [show x + d + 0 = x + d from BitVec.add_zero _, BitVec.toNat_add,
          Nat.mod_eq_of_lt (by omega)]
      have hgrid : 10000 ∣ y.toNat := by
        rw [hx]
        exact Nat.dvd_add (dvd_gridUp _) ((dvd_gridUp _).mul_left _)
      change alignUp (y + d) 0 = alignUp (x + d) 0 ↔ n + 1 = 0 ∨ _
      rw [← BitVec.toNat_inj, alignUp_toNat (by rw [hyd]; omega), alignUp_toNat (by rw [hxd]; omega),
        hyd, hxd, gridUp_add hgrid, hx, gridUp_steps_iff, or_iff_right (Nat.succ_ne_zero n)]
      simp only [Nat.add_eq_right, ← BitVec.toNat_inj]
      rfl

/-! ### Deactivated commands in front of an active one -/

/-- Where a thread is left: its next node, time sum and deadline. -/
structure Left where
  next : Word
  time : Time
  deadline : Time
  deriving DecidableEq, Repr

def leaves (P : Platform) (aligned : Bool) (t : Nat) (node : Word) (s : Cpu) : Option Left :=
  (visitBlock P aligned s node (thrPtr t)).map fun o =>
    ⟨o.1, thrTime P o.2.mem t, dl P o.2.mem (thrPtr t)⟩

section Invisible

variable {P : Platform} {s : Cpu} {node : Word} {base : Nat} {lst : Nat → Nat}
  {buf : Nat → Nat → Nat} (hl : BlockLayout P s.mem node base lst buf) {q : Nat}
include hl

/-- A visit that takes an active command. -/
theorem BlockLayout.leaves_takes {t : Nat} (ht : t < thrQty) (h : Takes P s node q)
    {atype : ActType} (hqty : actQty (headAct P s.mem node q) ≠ 0)
    (htype : ActType.ofNum? (actType (headAct P s.mem node q)) = some atype) (aligned : Bool)
    {now w p : Time} (hnow : now = s.clk (readings P s.mem node q + 2))
    (hw : w = waitTime P s.mem (readElem P s.mem node q)) (hp : p = period P s.mem node)
    {left : Time}
    (hleft : left = if WaitsAhead atype (headAct P s.mem node q) now w p then
        timeStep aligned (w - p) p
      else timeStep aligned (thrTime P s.mem t + advance atype (headAct P s.mem node q) w p) 0) :
    leaves P aligned t node s = some
      ⟨actionDest atype (P.ld s.mem (readElem P s.mem node q + tCmdFlowDest)) (P.defDest s.mem node),
        left, left⟩ := by
  subst hnow hw hp
  have hrun : Runs P s node (readElem P s.mem node q) atype (atService P s node q) :=
    ⟨⟨q, hl.findCmd_takes h⟩, hqty, htype⟩
  obtain ⟨s', hvisit, hstate, hdl⟩ := hl.visit_runs ht hrun aligned rfl
  have htime : thrTime P s'.mem t = left := by
    have htime := congrArg WaitState.time hstate
    dsimp only at htime
    rw [timeStep_afterAction] at htime
    have hclk : (atService P s node q).clk 0 = s.clk (readings P s.mem node q + 2) := by
      change s.clk (0 + (readings P s.mem node q + 2)) = _
      rw [Nat.zero_add]
    rw [hclk] at htime
    rw [hleft]
    exact htime
  rw [leaves, hvisit, Option.map_some, hdl, htime]

/-- **Deactivated commands show in the time of the thread**: `k` of them in front of an active
command leave the thread where it would be left without them, if and only if that command is an
absolute wait that sets the time, or the `k` time steps they cost do not show behind it. -/
theorem deactivated_invisible_iff {t : Nat} (ht : t < thrQty) {aligned : Bool} {k : Nat} {s' : Cpu}
    (hskips : Skips P aligned t node q base lst buf k s s') (htakes : Takes P s' node q)
    {atype : ActType} (hqty : actQty (headAct P s'.mem node q) ≠ 0)
    (htype : ActType.ofNum? (actType (headAct P s'.mem node q)) = some atype)
    {now w : Time} (hnow : now = s'.clk (readings P s'.mem node q + 2))
    (hw : w = waitTime P s'.mem (readElem P s'.mem node q))
    (hfit : StepsFit aligned k (thrTime P s.mem t) (period P s.mem node)
      (advance atype (headAct P s'.mem node q) w (period P s.mem node))) :
    leaves P aligned t node s' =
        leaves P aligned t node { s' with mem := withoutHeads P node q k s.mem } ↔
      WaitsAhead atype (headAct P s'.mem node q) now w (period P s.mem node) ∨
        StepsHidden aligned k (thrTime P s.mem t) (period P s.mem node)
          (advance atype (headAct P s'.mem node q) w (period P s.mem node)) := by
  have hthr : thrQty = 8 := rfl
  have hend : shctlEnd = 820 := rfl
  obtain ⟨hsame, htime⟩ := hskips.spec ht hl
  have hl₀ : BlockLayout P (withoutHeads P node q k s.mem) node base lst buf :=
    BlockLayout.layout_withoutHeads hl
  have hl' := hl₀.of_sameShape (hsame.shape hl₀)
  have hback := hsame.symm
  have hq := htakes.lt
  have hex := hasQueue_of_pending htakes.seen.1
  have htime₀ : thrTime P (withoutHeads P node q k s.mem) t = thrTime P s.mem t := by
    apply P.ld64_congr
    · rw [adr_currtime P ht, BlockLayout.withoutHeads_other (hl.ctl_ne_node (by omega) (by decide)) hl]
    · rw [adr_currtimeLo P ht, BlockLayout.withoutHeads_other (hl.ctl_ne_node (by omega) (by decide)) hl]
  have hperiod₀ : period P (withoutHeads P node q k s.mem) node = period P s.mem node := by
    apply P.ld64_congr
    · rw [hl.adr_period, BlockLayout.withoutHeads_other (by omega) hl]
    · rw [hl.adr_periodLo, BlockLayout.withoutHeads_other (by omega) hl]
  have hperiod : period P s'.mem node = period P s.mem node := by rw [hsame.period_eq hl₀, hperiod₀]
  rw [hl'.leaves_takes ht htakes hqty htype aligned hnow hw hperiod.symm rfl]
  have htakes₀ : Takes P { s' with mem := withoutHeads P node q k s.mem } node q := by
    refine SameBlock.takes hl' hback (s := s') rfl ?_ ?_ htakes
    · rfl
    · rfl
  have hact := hback.headAct_eq hl' hq hex
  have hnow₀ : now = s'.clk (readings P (withoutHeads P node q k s.mem) node q + 2) := by
    rw [hback.readings_eq hl' q, hnow]
  have hw₀ : w = waitTime P (withoutHeads P node q k s.mem)
      (readElem P (withoutHeads P node q k s.mem) node q) := by
    rw [hback.waitTime_eq hl' hq hex, hw]
  rw [BlockLayout.leaves_takes (s := { s' with mem := withoutHeads P node q k s.mem }) hl₀ ht htakes₀
    (by rwa [hact]) (by rwa [hact]) aligned hnow₀ hw₀ hperiod₀.symm rfl]
  dsimp only
  rw [hact, hback.flowDest_eq hl' hq hex, hback.defDest_eq hl', htime, htime₀, Option.some_inj]
  by_cases hahead : WaitsAhead atype (headAct P s'.mem node q) now w (period P s.mem node)
  · rw [if_pos hahead, if_pos hahead]
    exact iff_of_true rfl (Or.inl hahead)
  · rw [if_neg hahead, if_neg hahead, or_iff_right hahead, ← stepsHidden_iff hfit]
    constructor
    · intro h
      exact congrArg Left.time h
    · intro h
      rw [h]

end Invisible

/-! ### A deactivated command in front of a noop -/

/-- `sampleBlock` with period 100, a command of quantity 0 and a noop behind it in the queue for
interlocks. The time sum of thread 0 is 5. -/
def deactivatedBlock : Cpu :=
  let m := samplePlatform.st sampleBlockMem (sampleBlock + blockCmdqWrIdxs) 0x020000
  let m := samplePlatform.st m (sampleElem + tCmdAct) 0x02100000
  let m := samplePlatform.st m (sampleElem + 20 + tCmdAct) 0x02100001
  let m := samplePlatform.st64 m (thrPtr 0 + tTdCurrtime) 5
  { sampleBlockCpu with
    mem := samplePlatform.st64 m (sampleBlock + blockPeriod) 100
    clk := fun _ => 10 }

def skippedOnce : Cpu :=
  ((visitBlock samplePlatform false deactivatedBlock sampleBlock (thrPtr 0)).map Prod.snd).getD
    deactivatedBlock

theorem skippedOnce_takes : Takes samplePlatform skippedOnce sampleBlock 2 where
  lt := by decide
  dnr := by decide +kernel
  seen := by unfold SeenValid; decide +kernel
  highest := fun p h2 h3 => by omega
  still := by decide +kernel

theorem skippedOnce_skips : Skips samplePlatform false 0 sampleBlock 2 0x20000400
    (fun q => 0x20000440 + 16 * q) (fun q j => 0x20000480 + 32 * q + 13 * j) 1 deactivatedBlock
    skippedOnce := by
  have htakes : Takes samplePlatform deactivatedBlock sampleBlock 2 :=
    { lt := by decide
      dnr := by decide +kernel
      seen := by unfold SeenValid; decide +kernel
      highest := fun p h2 h3 => by omega
      still := by decide +kernel }
  have hback : (visitBlock samplePlatform false deactivatedBlock sampleBlock (thrPtr 0)).map Prod.fst =
      some sampleBlock := by decide +kernel
  have hvisit : visitBlock samplePlatform false deactivatedBlock sampleBlock (thrPtr 0) =
      some (sampleBlock, skippedOnce) := by
    unfold skippedOnce
    cases h : visitBlock samplePlatform false deactivatedBlock sampleBlock (thrPtr 0) with
    | none =>
      rw [h] at hback
      cases hback
    | some o =>
      obtain ⟨r, s₁⟩ := o
      rw [h] at hback
      cases hback
      rfl
  exact .skip htakes (by decide +kernel) hvisit ⟨.refl, rfl⟩ .none

/-- **A deactivated command shifts the time**: behind it the noop leaves the thread at time 205,
and at 105 without it. -/
theorem deactivated_visible :
    Skips samplePlatform false 0 sampleBlock 2 0x20000400 (fun q => 0x20000440 + 16 * q)
        (fun q j => 0x20000480 + 32 * q + 13 * j) 1 deactivatedBlock skippedOnce ∧
      Takes samplePlatform skippedOnce sampleBlock 2 ∧
      leaves samplePlatform false 0 sampleBlock skippedOnce = some ⟨0, 205, 205⟩ ∧
      leaves samplePlatform false 0 sampleBlock { skippedOnce with
        mem := withoutHeads samplePlatform sampleBlock 2 1 deactivatedBlock.mem } =
          some ⟨0, 105, 105⟩ := by
  refine ⟨skippedOnce_skips, skippedOnce_takes, ?_, ?_⟩ <;> decide +kernel

/-- The equivalence for that block. -/
theorem deactivated_invisible_sample :
    leaves samplePlatform false 0 sampleBlock skippedOnce =
        leaves samplePlatform false 0 sampleBlock { skippedOnce with
          mem := withoutHeads samplePlatform sampleBlock 2 1 deactivatedBlock.mem } ↔
      WaitsAhead .noop (headAct samplePlatform skippedOnce.mem sampleBlock 2) 10
          (waitTime samplePlatform skippedOnce.mem (readElem samplePlatform skippedOnce.mem sampleBlock 2))
          (period samplePlatform deactivatedBlock.mem sampleBlock) ∨
        StepsHidden false 1 (thrTime samplePlatform deactivatedBlock.mem 0)
          (period samplePlatform deactivatedBlock.mem sampleBlock)
          (advance .noop (headAct samplePlatform skippedOnce.mem sampleBlock 2)
            (waitTime samplePlatform skippedOnce.mem
              (readElem samplePlatform skippedOnce.mem sampleBlock 2))
            (period samplePlatform deactivatedBlock.mem sampleBlock)) := by
  have hl : BlockLayout samplePlatform deactivatedBlock.mem sampleBlock 0x20000400
      (fun q => 0x20000440 + 16 * q) (fun q j => 0x20000480 + 32 * q + 13 * j) :=
    sampleBlock_layout.of_sameShape ⟨by decide +kernel, by decide +kernel, by decide +kernel⟩
  exact deactivated_invisible_iff hl (by decide) skippedOnce_skips skippedOnce_takes
    (by decide +kernel) (by decide +kernel) (by decide +kernel) rfl fun h => by cases h

end DataMaster
