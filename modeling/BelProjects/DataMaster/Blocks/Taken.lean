import BelProjects.DataMaster.Blocks.FlowVisits
import BelProjects.Library.Runs
import Mathlib.Algebra.Order.BigOperators.Group.Finset
import Mathlib.Order.Interval.Finset.Nat

/-!
# Commands taken from a queue

A visit takes a command from its queue if it executes it for the last time, or finds it without
executions.  In a run of visits, what was taken from a queue and what is still pending there is
what was pending at first, in its order, as long as no flush of the queue is executed.  The
elements may hold anything: only a flush looks at the priority that a command carries.
-/

namespace DataMaster

variable (P : Platform)

/-- The command that a visit takes from queue `q`. -/
def takenFrom (s : Cpu) (node : Word) (q : Nat) : List QueuedCmd :=
  match findCmd P s node with
  | .command c rdPrio s' =>
    if rdPrio = q ∧ (slotCmd P s'.mem c).qty ≤ 1 then [slotCmd P s'.mem c] else []
  | _ => []

/-- Memory, what was taken from a queue and what was executed so far. -/
structure TakeState where
  mem : Mem
  taken : List QueuedCmd
  out : List QueuedCmd

/-- What can happen to queue `q` while no command is added: visits by any thread at any time,
and changes of memory outside the queues. -/
inductive TakeEvent (node : Word) (base : Nat) (lst : Nat → Nat) (buf : Nat → Nat → Nat) (q : Nat) :
    TakeState → TakeState → Prop
  | visit {st : TakeState} {s s' : Cpu} {t : Nat} {r : Word} :
      s.mem = st.mem → t < thrQty → ¬ ScanSlip P s node →
      block P s node (thrPtr t) = some (r, s') →
      TakeEvent node base lst buf q st
        ⟨s'.mem, st.taken ++ takenFrom P s node q, st.out ++ executed P s node⟩
  | other {st : TakeState} {m' : Mem} :
      KeepsQueues P st.mem m' node base lst buf →
      TakeEvent node base lst buf q st ⟨m', st.taken, st.out⟩

def takeSystem (node : Word) (base : Nat) (lst : Nat → Nat) (buf : Nat → Nat → Nat) (q : Nat)
    (m₀ : Mem) : TransitionSystem TakeState where
  init st := st = ⟨m₀, [], []⟩
  step := TakeEvent P node base lst buf q

/-- What holds after every step: if queue `q` was not flushed, nothing of it was lost. -/
structure TakeInv (node : Word) (lst : Nat → Nat) (q : Nat) (m₀ : Mem) (st : TakeState) : Prop where
  shape : SameShape P m₀ st.mem node lst
  three_bit : ThreeBit P st.mem node
  cmds : (∀ y ∈ st.out, y.flushes q = false) →
    (st.taken ++ queueCmds P st.mem node q).map QueuedCmd.body =
      (queueCmds P m₀ node q).map QueuedCmd.body

section Run

variable {P} {m m' m₀ : Mem} {node : Word} {base : Nat} {lst : Nat → Nat} {buf : Nat → Nat → Nat}
  {q : Nat}

theorem taken_leftOf (x : QueuedCmd) (tl : List QueuedCmd) :
    ((if x.qty ≤ 1 then [x] else []) ++ leftOf x tl).map QueuedCmd.body =
      (x :: tl).map QueuedCmd.body := by
  unfold leftOf
  split
  · rfl
  · rw [List.nil_append, List.map_cons, List.map_cons, body_counted]

/-- **A visit** loses nothing of a queue that it does not flush. -/
theorem BlockLayout.visit_taken {s s' : Cpu} {r : Word} (hl : BlockLayout P s.mem node base lst buf)
    (hthree : ThreeBit P s.mem node) {t : Nat} (ht : t < thrQty) (hslip : ¬ ScanSlip P s node)
    (hblock : block P s node (thrPtr t) = some (r, s')) (hq : q < 3)
    (hex : P.hasQueue s.mem node q = true) :
    SameShape P s.mem s'.mem node lst ∧ ThreeBit P s'.mem node ∧
      (occupancy P s.mem node q ≤ 4 → (∀ y ∈ executed P s node, y.flushes q = false) →
        (takenFrom P s node q ++ queueCmds P s'.mem node q).map QueuedCmd.body =
          (queueCmds P s.mem node q).map QueuedCmd.body) := by
  obtain ⟨r₁, s₁, hblock₁, ⟨⟨s₂, hfind⟩, hkeep⟩ | ⟨p, e, x, tl, hfind, -, -, hpop, hx, hhead⟩⟩ :=
    hl.visit_served hthree ht hslip
  all_goals
    rw [hblock] at hblock₁
    obtain ⟨-, rfl⟩ := Prod.mk.inj (Option.some.inj hblock₁)
  · refine ⟨hkeep.shape, hl.threeBit_keeps hkeep hthree, fun _ _ => ?_⟩
    rw [takenFrom, hfind, (hl.queueCmds_keeps hkeep hq hex).2.2]
    rfl
  · refine ⟨hhead.shape, hhead.three_bit, fun hle hno => ?_⟩
    have hkept : x.qty = 0 ∨ x.flushes q = false := by
      by_cases hqty : actQty x.act = 0
      · exact Or.inl (qty_eq_zero_iff.2 hqty)
      · refine Or.inr (hno x ?_)
        have hact : P.ld (atService P s node p).mem (readElem P s.mem node p + tCmdAct) = x.act :=
          congrArg QueuedCmd.act hx
        rw [executed, hfind]
        dsimp only
        rw [hact, if_neg hqty, hx]
        exact List.mem_singleton_self x
    have htaken : takenFrom P s node q = if q = p ∧ x.qty ≤ 1 then [x] else [] := by
      rw [takenFrom, hfind]
      dsimp only
      rw [hx]
      refine if_congr ⟨?_, ?_⟩ rfl rfl
      · rintro ⟨rfl, hone⟩
        exact ⟨hpop hone, hone⟩
      · rintro ⟨rfl, hone⟩
        exact ⟨hpop hone, hone⟩
    rw [htaken, hhead.kept q hq hex hle hkept]
    by_cases hqp : q = p
    · subst hqp
      rw [if_pos rfl, hhead.head]
      simp only [true_and]
      exact taken_leftOf x tl
    · rw [if_neg hqp, if_neg fun h => hqp h.1, List.nil_append]

/-- A queue of which nothing was lost holds no more than at first. -/
theorem TakeInv.occupancy_le {st : TakeState} (h : TakeInv P node lst q m₀ st)
    (hno : ∀ y ∈ st.out, y.flushes q = false) :
    occupancy P st.mem node q ≤ occupancy P m₀ node q := by
  have hlen := congrArg List.length (h.cmds hno)
  rw [List.length_map, List.length_map, List.length_append, length_queueCmds, length_queueCmds] at hlen
  omega

theorem TakeInv.step {st st' : TakeState} (hl : BlockLayout P m₀ node base lst buf) (hq : q < 3)
    (hex : P.hasQueue m₀ node q = true) (hle : occupancy P m₀ node q ≤ 4)
    (h : TakeInv P node lst q m₀ st) (hstep : TakeEvent P node base lst buf q st st') :
    TakeInv P node lst q m₀ st' := by
  have hl' := hl.of_sameShape h.shape
  have hex' := (h.shape.queues q hq).trans hex
  cases hstep with
  | @visit s s' t r hmem ht hslip hblock =>
    rw [← hmem] at hl' hex'
    obtain ⟨hshape, hthree, hcmds⟩ :=
      hl'.visit_taken (by rw [hmem]; exact h.three_bit) ht hslip hblock hq hex'
    rw [hmem] at hshape hcmds
    refine ⟨h.shape.trans hshape, hthree, fun hno => ?_⟩
    have hbefore : ∀ y ∈ st.out, y.flushes q = false :=
      fun y hy => hno y (List.mem_append_left _ hy)
    have hnow := hcmds (Nat.le_trans (h.occupancy_le hbefore) hle)
      fun y hy => hno y (List.mem_append_right _ hy)
    rw [List.append_assoc, List.map_append, hnow, ← List.map_append]
    exact h.cmds hbefore
  | other hkeep =>
    refine ⟨h.shape.trans hkeep.shape, hl'.threeBit_keeps hkeep h.three_bit, fun hno => ?_⟩
    dsimp only
    rw [(hl'.queueCmds_keeps hkeep hq hex').2.2]
    exact h.cmds hno

/-- **Nothing is lost** in any run that does not flush the queue. -/
theorem takeInv_reachable (hl : BlockLayout P m₀ node base lst buf) (hthree : ThreeBit P m₀ node)
    (hq : q < 3) (hex : P.hasQueue m₀ node q = true) (hle : occupancy P m₀ node q ≤ 4) :
    ∀ st, (takeSystem P node base lst buf q m₀).Reachable st → TakeInv P node lst q m₀ st := by
  refine TransitionSystem.Reachable.invariant _ ?_ ?_
  · rintro st rfl
    exact ⟨⟨fun _ _ => rfl, fun _ _ _ => rfl, fun _ _ _ _ _ => rfl⟩, hthree, fun _ => rfl⟩
  · intro st st' _ h hstep
    exact h.step hl hq hex hle hstep

end Run

/-! ### Runs that empty a queue -/

/-- The pending command `x` of queue `p` does not keep visits from taking what is pending in
queue `q`: if it is executed, its type has a handler, it does not flush `q`, and a flush carries
the priority of its queue. -/
structure Spares (q p : Nat) (x : QueuedCmd) : Prop where
  known : x.qty ≠ 0 → ActType.ofNum? (actType x.act) ≠ none
  spared : x.flushes q = false
  filed : ∀ r, x.flushes r = true → x.prio = p

/-- Neither the lock of the block nor a command in queue `q` or above it keeps visits from
taking what is pending in queue `q`. -/
structure Unhindered (m : Mem) (node : Word) (q : Nat) : Prop where
  dnr : P.ld m (node + blockCmdqFlags) &&& blockCmdqDnrSmsk = 0
  cmds : ∀ p, q ≤ p → p < 3 → P.hasQueue m node p = true → ∀ x ∈ queueCmds P m node p, Spares q p x

/-- Visits can empty queue `q`. -/
structure Emptiable (m : Mem) (node : Word) (q : Nat) : Prop where
  three_bit : ThreeBit P m node
  occupancy_le : ∀ p, q ≤ p → p < 3 → P.hasQueue m node p = true → occupancy P m node p ≤ 4
  free : Unhindered P m node q

/-- Number of visits that empty queue `q` and those above it. -/
def workFrom (m : Mem) (node : Word) (q : Nat) : Nat :=
  ∑ p ∈ Finset.Ico q 3,
    if P.hasQueue m node p then CountedQueue.work QueuedCmd.qty (queueCmds P m node p) else 0

def lateCpu (m : Mem) : Cpu :=
  { mem := m, clk := fun _ => BitVec.allOnes 64, pqCnt := 0, pq := [], backlog := 0 }

section Empty

variable {P} {m m' m₀ : Mem} {node : Word} {base : Nat} {lst : Nat → Nat} {buf : Nat → Nat → Nat}
  {q : Nat}

theorem Spares.counted {p : Nat} {x : QueuedCmd} (h : Spares q p x) (hqty : x.qty ≠ 0) :
    Spares q p x.counted := by
  have htype : actType x.counted.act = actType x.act := by
    unfold actType QueuedCmd.counted
    rw [withQty_ushiftRight _ _ (show 20 ≤ actTypePos by decide)]
  have hflushes : ∀ r, x.counted.flushes r = x.flushes r := by
    intro r
    unfold QueuedCmd.flushes
    rw [htype]
    unfold QueuedCmd.counted
    rw [withQty_ushiftRight _ _ (show 20 ≤ actFlushPrioPos by decide)]
  refine ⟨fun _ => ?_, ?_, fun r hr => ?_⟩
  · rw [htype]
    exact h.known hqty
  · rw [hflushes]
    exact h.spared
  · rw [hflushes] at hr
    exact (prio_withQty x _).trans (h.filed r hr)

theorem Spares.leftOf {p : Nat} {x : QueuedCmd} {tl : List QueuedCmd}
    (h : ∀ y ∈ x :: tl, Spares q p y) : ∀ y ∈ leftOf x tl, Spares q p y := by
  intro y hy
  unfold DataMaster.leftOf at hy
  split at hy
  · exact h y (List.mem_cons_of_mem _ hy)
  · rcases List.mem_cons.1 hy with rfl | hy
    · exact (h x List.mem_cons_self).counted (by omega)
    · exact h y (List.mem_cons_of_mem _ hy)

theorem le_late (x : Time) : x ≤ BitVec.allOnes 64 := by
  rw [BitVec.le_def, BitVec.toNat_allOnes]
  omega

theorem seenValid_lateCpu {p : Nat} :
    SeenValid P (lateCpu m) node p ↔ isPending P m node p = true :=
  ⟨fun h => h.1, fun h => ⟨h, le_late _⟩⟩

/-- While queue `q` holds something, the last visit of all serves `q` or a queue above it. -/
theorem takes_late (hq : q < 3) (hdnr : P.ld m (node + blockCmdqFlags) &&& blockCmdqDnrSmsk = 0)
    (hpend : isPending P m node q = true) : ∃ p, q ≤ p ∧ Takes P (lateCpu m) node p := by
  obtain ⟨p, hp, hseen, hhigh⟩ := exists_highest ⟨q, hq, seenValid_lateCpu.2 hpend⟩
  refine ⟨p, ?_, hp, hdnr, hseen, hhigh, le_late _⟩
  by_contra hlt
  exact hhigh q (Nat.lt_of_not_le hlt) hq (seenValid_lateCpu.2 hpend)

section Served

variable {p : Nat} {x : QueuedCmd} {tl : List QueuedCmd} (hm : Emptiable P m node q) (hqp : q ≤ p)
  (hp : p < 3) (hex : P.hasQueue m node p = true) (h : HeadServed P m m' node lst p x tl)
include hm hqp hp hex h

theorem HeadServed.spares : ∀ y ∈ x :: tl, Spares q p y := by
  rw [← h.head]
  exact hm.free.cmds p hqp hp hex

/-- Commands that spare a queue add nothing to it or to those above. -/
theorem HeadServed.sublist {r : Nat} (hqr : q ≤ r) (hr : r < 3) (hexr : P.hasQueue m node r = true) :
    (queueCmds P m' node r).Sublist (if r = p then leftOf x tl else queueCmds P m node r) := by
  have hfiled := (h.spares hm hqp hp hex x List.mem_cons_self).filed
  have hle := hm.occupancy_le r hqr hr hexr
  cases hfl : x.flushes r with
  | false => rw [h.kept r hr hexr hle (Or.inr hfl)]
  | true => exact h.flushed (hfiled r hfl) r hr hexr hle

theorem HeadServed.emptiable
    (hdnr : P.ld m' (node + blockCmdqFlags) = P.ld m (node + blockCmdqFlags)) :
    Emptiable P m' node q := by
  refine ⟨h.three_bit, ?_, ⟨by rw [hdnr]; exact hm.free.dnr, ?_⟩⟩
  · intro r hqr hr hexr
    rw [h.shape.queues r hr] at hexr
    have hlen := (h.sublist hm hqp hp hex hqr hr hexr).length_le
    have hle := hm.occupancy_le r hqr hr hexr
    rw [length_queueCmds] at hlen
    by_cases hrp : r = p
    · subst hrp
      rw [← length_queueCmds, h.head, List.length_cons] at hle
      rw [if_pos rfl, leftOf] at hlen
      split at hlen
      · omega
      · rw [List.length_cons] at hlen
        omega
    · rw [if_neg hrp, length_queueCmds] at hlen
      omega
  · intro r hqr hr hexr y hy
    rw [h.shape.queues r hr] at hexr
    have hmem := (h.sublist hm hqp hp hex hqr hr hexr).subset hy
    by_cases hrp : r = p
    · subst hrp
      rw [if_pos rfl] at hmem
      exact Spares.leftOf (h.spares hm hqp hp hex) y hmem
    · rw [if_neg hrp] at hmem
      exact hm.free.cmds r hqr hr hexr y hmem

theorem HeadServed.workFrom_lt : workFrom P m' node q < workFrom P m node q := by
  have hdrop := work_leftOf x tl
  have hwork : ∀ r, q ≤ r → r < 3 → P.hasQueue m node r = true →
      CountedQueue.work QueuedCmd.qty (queueCmds P m' node r) ≤
        CountedQueue.work QueuedCmd.qty (if r = p then leftOf x tl else queueCmds P m node r) :=
    fun r hqr hr hexr => CountedQueue.work_sublist (h.sublist hm hqp hp hex hqr hr hexr)
  unfold workFrom
  apply Finset.sum_lt_sum
  · intro r hr
    obtain ⟨hqr, hr3⟩ := Finset.mem_Ico.1 hr
    rw [h.shape.queues r hr3]
    split
    next hexr =>
      have hle := hwork r hqr hr3 hexr
      by_cases hrp : r = p
      · subst hrp
        rw [if_pos rfl] at hle
        rw [h.head]
        omega
      · rwa [if_neg hrp] at hle
    next => exact Nat.le_refl 0
  · refine ⟨p, Finset.mem_Ico.2 ⟨hqp, hp⟩, ?_⟩
    have hle := hwork p hqp hp hex
    rw [if_pos rfl] at hle
    rw [h.shape.queues p hp, if_pos hex, if_pos hex, h.head]
    omega

end Served

theorem BlockLayout.not_slip_late (hl : BlockLayout P m node base lst buf)
    (hm : Emptiable P m node q) {p : Nat} (hqp : q ≤ p) (htakes : Takes P (lateCpu m) node p) :
    ¬ ScanSlip P (lateCpu m) node := by
  have hex : P.hasQueue m node p = true := hasQueue_of_pending (s := lateCpu m) htakes.seen.1
  have hcons := hl.queueCmds_cons htakes.lt hex (occupancy_pos hm.three_bit htakes.lt htakes.seen.1)
  generalize cmdAt m (slotAdr buf p (rdIdx P m node p % 4)) = y at hcons
  have hact : headAct P m node p = y.act :=
    congrArg QueuedCmd.act (BlockLayout.slotCmd_head (s := lateCpu m) hl htakes.lt hex hcons)
  have hy : y ∈ queueCmds P m node p := by
    rw [hcons]
    exact List.mem_cons_self
  refine htakes.not_slip fun hqty htype => ?_
  rw [show headAct P (lateCpu m).mem node p = y.act from hact] at hqty htype
  exact (hm.free.cmds p hqp htakes.lt hex y hy).known (fun h0 => hqty (qty_eq_zero_iff.1 h0)) htype

/-- **A visit at the end of time** does some of the work that is left. -/
theorem BlockLayout.visit_late (hl : BlockLayout P m node base lst buf) (hm : Emptiable P m node q)
    (hq : q < 3) (hpend : isPending P m node q = true) :
    ∃ r s', ¬ ScanSlip P (lateCpu m) node ∧
      block P (lateCpu m) node (thrPtr 0) = some (r, s') ∧
      (∀ y ∈ executed P (lateCpu m) node, y.flushes q = false) ∧
      Emptiable P s'.mem node q ∧ workFrom P s'.mem node q < workFrom P m node q := by
  obtain ⟨p, hqp, htakes⟩ := takes_late hq hm.free.dnr hpend
  have hp := htakes.lt
  have hex : P.hasQueue m node p = true := hasQueue_of_pending (s := lateCpu m) htakes.seen.1
  have hch := chosen_of_seen hp htakes.seen htakes.highest
  have hfind := BlockLayout.findCmd_takes (s := lateCpu m) hl htakes
  have hslip := hl.not_slip_late hm hqp htakes
  obtain ⟨r, s', hblock, ⟨⟨s₁, hidle⟩, -⟩ | ⟨p', e, x, tl, -, hch', -, -, hx, hhead⟩⟩ :=
    BlockLayout.visit_served (s := lateCpu m) hl hm.three_bit (t := 0) (by decide) hslip
  · rw [hfind] at hidle
    cases hidle
  obtain rfl := hch.unique hch'
  have hhead : HeadServed P m s'.mem node lst p x tl := hhead
  refine ⟨r, s', hslip, hblock, ?_, hhead.emptiable hm hqp hp hex ?_, hhead.workFrom_lt hm hqp hp hex⟩
  · intro y hy
    rw [executed, hfind] at hy
    dsimp only at hy
    rw [hx] at hy
    split at hy
    · cases hy
    · rw [List.mem_singleton.1 hy]
      exact (hhead.spares hm hqp hp hex x List.mem_cons_self).spared
  · rw [Platform.ld, Platform.ld, hl.adr_qFlags]
    exact (BlockLayout.visit_words (s := lateCpu m) hl (by decide) hblock).2

/-- **Everything pending is taken** by some run of visits that does not flush the queue. -/
theorem BlockLayout.run_empties (hl : BlockLayout P m₀ node base lst buf) (hq : q < 3)
    (hex : P.hasQueue m₀ node q = true) (hle : occupancy P m₀ node q ≤ 4) (hthree : ThreeBit P m₀ node) :
    ∀ (n : Nat) (st : TakeState), (takeSystem P node base lst buf q m₀).Reachable st →
      (∀ y ∈ st.out, y.flushes q = false) → Emptiable P st.mem node q →
      workFrom P st.mem node q = n →
      ∃ st', (takeSystem P node base lst buf q m₀).Reachable st' ∧
        (∀ y ∈ st'.out, y.flushes q = false) ∧ queueCmds P st'.mem node q = [] := by
  intro n
  induction n using Nat.strong_induction_on with
  | _ n ih =>
    intro st hst hno hm hn
    have hinv := takeInv_reachable hl hthree hq hex hle st hst
    have hl' := hl.of_sameShape hinv.shape
    have hex' := (hinv.shape.queues q hq).trans hex
    cases hcmds : queueCmds P st.mem node q with
    | nil => exact ⟨st, hst, hno, hcmds⟩
    | cons x tl =>
      obtain ⟨r, s', hslip, hblock, hexec, hm', hlt⟩ :=
        hl'.visit_late hm hq (isPending_of_cons hex' hcmds)
      have hnext := hst.step (TakeEvent.visit (s := lateCpu st.mem) rfl (by decide) hslip hblock)
      refine ih _ (by rw [← hn]; exact hlt) _ hnext ?_ hm' rfl
      intro y hy
      rcases List.mem_append.1 hy with hy | hy
      · exact hno y hy
      · exact hexec y hy

end Empty

end DataMaster
