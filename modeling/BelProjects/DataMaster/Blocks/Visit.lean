import BelProjects.DataMaster.Blocks.Queue

/-!
# What a visit does to the queues

A visit that does not slip executes at most the head of one queue.  The queue moves
on by one execution, the others stay as they are, except that a flush empties those it
names; a flush in its own queue keeps the last entry of that queue until the queue is
popped.
-/

namespace DataMaster

variable (P : Platform)

/-- The commands of priority `q` among those of a log. -/
def ofPrio (q : Nat) (log : List QueuedCmd) : List QueuedCmd := log.filter fun x => x.prio == q

/-- The command that a visit hands to an action handler. -/
def executed (s : Cpu) (node : Word) : List QueuedCmd :=
  match findCmd P s node with
  | .command c _ s' => if actQty (P.ld s'.mem (c + tCmdAct)) = 0 then [] else [slotCmd P s'.mem c]
  | _ => []

/-- From `m` to `m'` every queue of the block makes one move, where `inp` was enqueued
and `out` executed. Commands get lost only to a flush. -/
structure QueueStep (m m' : Mem) (node : Word) (lst : Nat → Nat) (inp out : List QueuedCmd) :
    Prop where
  shape : SameShape P m m' node lst
  three_bit : ThreeBit P m' node
  move : ∀ q, q < 3 → P.hasQueue m node q = true →
    CountedQueue.Move QueuedCmd.qty QueuedCmd.body 4 (queueCmds P m node q) (ofPrio q inp)
      (ofPrio q out) (out.any fun x => x.flushes q) (queueCmds P m' node q)

/-- What is left of a queue when its head `x` has been served. -/
def leftOf (x : QueuedCmd) (tl : List QueuedCmd) : List QueuedCmd :=
  if x.qty ≤ 1 then tl else x.counted :: tl

/-- From `m` to `m'` the head `x` of queue `q` was served. The other queues stay as they are,
apart from those that `x` flushes; a flush that carries the priority of its queue adds nothing
to any of them. -/
structure HeadServed (m m' : Mem) (node : Word) (lst : Nat → Nat) (q : Nat) (x : QueuedCmd)
    (tl : List QueuedCmd) : Prop where
  head : queueCmds P m node q = x :: tl
  shape : SameShape P m m' node lst
  three_bit : ThreeBit P m' node
  kept : ∀ p, p < 3 → P.hasQueue m node p = true → occupancy P m node p ≤ 4 →
    (x.qty = 0 ∨ x.flushes p = false) →
    queueCmds P m' node p = if p = q then leftOf x tl else queueCmds P m node p
  flushed : x.prio = q → ∀ p, p < 3 → P.hasQueue m node p = true → occupancy P m node p ≤ 4 →
    (queueCmds P m' node p).Sublist (if p = q then leftOf x tl else queueCmds P m node p)

section Step

variable {P} {m m' : Mem} {node : Word} {base : Nat} {lst : Nat → Nat} {buf : Nat → Nat → Nat}

theorem prio_body (x : QueuedCmd) : x.body.prio = x.prio := prio_withQty x 0

theorem QueueStep.inv {inp out : List QueuedCmd} (h : QueueStep P m m' node lst inp out)
    (hinv : QueueInv P m node) : QueueInv P m' node where
  three_bit := h.three_bit
  occupancy_le q hq hex := by
    rw [h.shape.queues q hq] at hex
    have hle := (h.move q hq hex).length_le (by rw [length_queueCmds]; exact hinv.occupancy_le q hq hex)
    rwa [length_queueCmds] at hle
  prio_eq q hq hex x hx := by
    rw [h.shape.queues q hq] at hex
    obtain ⟨z, hz, hname⟩ := (h.move q hq hex).name_mem hx
    rw [← prio_body, hname, prio_body]
    rcases List.mem_append.mp hz with hz | hz
    · exact hinv.prio_eq q hq hex z hz
    · exact beq_iff_eq.mp (List.mem_filter.mp hz).2

theorem BlockLayout.queueStep_keeps (hl : BlockLayout P m node base lst buf)
    (h : KeepsQueues P m m' node base lst buf) (hinv : QueueInv P m node) :
    QueueStep P m m' node lst [] [] where
  shape := h.shape
  three_bit := (hl.queueInv_keeps h hinv).three_bit
  move q hq hex := by
    rw [(hl.queueCmds_keeps h hq hex).2.2]
    exact .idle _

end Step

/-! ### Effects on the elements -/

theorem Booked.of_eq {P : Platform} {m m' : Mem} {node c c' act : Word} {q n : Nat}
    (h : Booked P m m' node c act q n) (hc : c' = c) : Booked P m m' node c' act q n := hc ▸ h

section Booked

variable {P} {m m' : Mem} {node c act : Word} {base : Nat} {lst : Nat → Nat} {buf : Nat → Nat → Nat}
  {q i n : Nat} (hl : BlockLayout P m node base lst buf) (hq : q < 3)
  (hex : P.hasQueue m node q = true) (hi : i < 4)
include hl hq hex hi

theorem BlockLayout.booked_frame (h : Booked P m m' node (slotElem P m node q i) act q n) {a : Nat}
    (hact : a ≠ slotAdr buf q i + 2) (hrd : a ≠ base + 7) : m' a = m a := by
  refine h.frame a ?_ ?_
  · rw [hl.adr_slotAct hq hex hi]
    rwa [slotAdr, Nat.add_assoc] at hact
  · rwa [hl.adr_rdIdxs]

theorem BlockLayout.booked_shape (h : Booked P m m' node (slotElem P m node q i) act q n) :
    SameShape P m m' node lst ∧ m' (base + 6) = m (base + 6) := by
  have hnode : ∀ k, k < 13 → k ≠ 7 → m' (base + k) = m (base + k) := by
    intro k hk h7
    exact hl.booked_frame hq hex hi h (hl.slotAdr_ne_node hq hex hi (by decide) hk).symm (by omega)
  refine ⟨hl.sameShape ?_ ?_ ?_, hnode 6 (by decide) (by decide)⟩
  · intro p _
    rw [Platform.hasQueue, Platform.hasQueue, Platform.ld, Platform.ld, hl.adr_nodeFlags,
      hnode 11 (by decide) (by decide)]
  · intro p hp
    exact hnode (3 + p) (by omega) (by omega)
  · intro p hp hexp j hj
    refine hl.booked_frame hq hex hi h (hl.slotAdr_ne_list hq hex hi (by decide) hp hexp hj).symm ?_
    have hap := hl.node_list p hp hexp
    simp only [Apart] at hap
    omega

/-- The command served gets its new action word, the others keep theirs. -/
theorem BlockLayout.booked_cmdAt (h : Booked P m m' node (slotElem P m node q i) act q n) {p j : Nat}
    (hp : p < 3) (hexp : P.hasQueue m node p = true) (hj : j < 4) :
    cmdAt m' (slotAdr buf p j) =
      if p = q ∧ j = i then { cmdAt m (slotAdr buf q i) with act := act }
      else cmdAt m (slotAdr buf p j) := by
  have hrd : ∀ k, k < 5 → slotAdr buf p j + k ≠ base + 7 :=
    fun k hk => hl.slotAdr_ne_node hp hexp hj hk (by decide)
  have hkeep : ∀ k, k < 5 → (p ≠ q ∨ j ≠ i ∨ k ≠ 2) →
      m' (slotAdr buf p j + k) = m (slotAdr buf p j + k) := by
    intro k hk hne
    exact hl.booked_frame hq hex hi h (hl.slotAdr_ne hp hexp hj hk hq hex hi (by decide) hne)
      (hrd k hk)
  have h0 := hkeep 0 (by decide) (by omega)
  rw [Nat.add_zero] at h0
  split
  · rename_i heq
    obtain ⟨rfl, rfl⟩ := heq
    have hact := h.act_eq
    rw [Platform.ld, hl.adr_slotAct hq hex hi, ← Nat.add_assoc] at hact
    simp only [cmdAt, h0, hkeep 1 (by decide) (by omega), hkeep 3 (by decide) (by omega),
      hkeep 4 (by decide) (by omega)]
    congr 1
  · rename_i hne
    have h2 : p ≠ q ∨ j ≠ i ∨ (2 : Nat) ≠ 2 := by
      by_cases hpq : p = q
      · exact Or.inr (Or.inl fun hji => hne ⟨hpq, hji⟩)
      · exact Or.inl hpq
    simp only [cmdAt, h0, hkeep 1 (by decide) (by omega), hkeep 2 (by decide) h2,
      hkeep 3 (by decide) (by omega), hkeep 4 (by decide) (by omega)]

/-- The other queues stay as they are. -/
theorem BlockLayout.booked_other (h : Booked P m m' node (slotElem P m node q i) act q n) {p : Nat}
    (hp : p < 3) (hexp : P.hasQueue m node p = true) (hne : p ≠ q) :
    queueCmds P m' node p = queueCmds P m node p := by
  obtain ⟨hshape, hwr⟩ := hl.booked_shape hq hex hi h
  have hl' := hl.of_sameShape hshape
  rw [hl'.queueCmds_eq hp ((hshape.queues p hp).trans hexp), hl.queueCmds_eq hp hexp, occupancy,
    occupancy, h.rd_eq p hp, if_neg hne, hl'.wrIdx_eq, hl.wrIdx_eq, hwr]
  apply Ring.entries_congr
  intro j _
  rw [hl.booked_cmdAt hq hex hi h hp hexp (Nat.mod_lt _ (by decide)), if_neg fun hh => hne hh.1]

theorem BlockLayout.booked_self (h : Booked P m m' node (slotElem P m node q i) act q n) :
    queueCmds P m' node q = Ring.entries 4
      (fun j => if j = i then { cmdAt m (slotAdr buf q i) with act := act }
        else cmdAt m (slotAdr buf q j))
      ((rdIdx P m node q + n) % 8)
      (Ring.count 4 ((rdIdx P m node q + n) % 8) (wrIdx P m node q)) := by
  obtain ⟨hshape, hwr⟩ := hl.booked_shape hq hex hi h
  have hl' := hl.of_sameShape hshape
  rw [hl'.queueCmds_eq hq ((hshape.queues q hq).trans hex), occupancy, h.rd_eq q hq, if_pos rfl,
    hl'.wrIdx_eq, hwr, ← hl.wrIdx_eq]
  apply Ring.entries_congr
  intro j _
  rw [hl.booked_cmdAt hq hex hi h hq hex (Nat.mod_lt _ (by decide))]
  simp only [true_and]

/-- A command with executions left stays at the head of its queue. -/
theorem BlockLayout.booked_head (h : Booked P m m' node (slotElem P m node q i) act q 0)
    (hrd : rdIdx P m node q % 4 = i) (hpos : 0 < occupancy P m node q)
    (hle : occupancy P m node q ≤ 4) :
    queueCmds P m' node q =
      { cmdAt m (slotAdr buf q i) with act := act } :: (queueCmds P m node q).tail := by
  have hlt : rdIdx P m node q < 2 * 4 := rdIdx_lt_eight q
  rw [hl.booked_self hq hex hi h, hl.queueCmds_eq hq hex, Nat.add_zero, Nat.mod_eq_of_lt hlt]
  change Ring.entries 4 _ _ (occupancy P m node q) = _
  obtain ⟨k, hk⟩ : ∃ k, occupancy P m node q = k + 1 := ⟨occupancy P m node q - 1, by omega⟩
  rw [hk, Ring.entries_modify_head (f := fun j => cmdAt m (slotAdr buf q j)) (by omega)]
  · rw [if_pos hrd]
  · intro j _ hj
    rw [hrd] at hj
    exact if_neg hj

/-- A command used up leaves its queue. -/
theorem BlockLayout.booked_pop (h : Booked P m m' node (slotElem P m node q i) act q 1)
    (hrd : rdIdx P m node q % 4 = i) (hpos : 0 < occupancy P m node q)
    (hle : occupancy P m node q ≤ 4) :
    queueCmds P m' node q = (queueCmds P m node q).tail := by
  have hrdlt : rdIdx P m node q < 2 * 4 := rdIdx_lt_eight q
  have hwrlt : wrIdx P m node q < 2 * 4 := wrIdx_lt_eight q
  rw [hl.booked_self hq hex hi h, hl.queueCmds_eq hq hex]
  rw [show (8 : Nat) = 2 * 4 from rfl, Ring.count_pop hrdlt hwrlt hpos, ← Ring.entries_tail]
  change (Ring.entries 4 _ _ (occupancy P m node q)).tail = _
  obtain ⟨k, hk⟩ : ∃ k, occupancy P m node q = k + 1 := ⟨occupancy P m node q - 1, by omega⟩
  rw [hk, Ring.entries_modify_head (f := fun j => cmdAt m (slotAdr buf q j)) (by omega),
    List.tail_cons]
  intro j _ hj
  rw [hrd] at hj
  exact if_neg hj

end Booked

/-! ### Effects of the actions -/

/-- Words that actions other than a flush write. -/
def quietFootprint (node thrData : Word) : List Nat :=
  P.w32 statusPtr ++ P.w32 badwaitcntPtr ++ P.w32 (node + nodeDefDestPtr) ++
    P.w64 (node + blockPeriod) ++ P.w64 (thrData + tTdCurrtime)

theorem actionFuncs_quiet {atype : ActType} (hne : atype ≠ .flush) (s : Cpu)
    (node c thrData : Word) :
    Frame (quietFootprint P node thrData) s.mem (actionFuncs P atype s node c thrData).2.mem := by
  have hrefl := Frame.refl (quietFootprint P node thrData) s.mem
  cases atype with
  | unknown => exact setStatus_frame P hrefl (by simp [quietFootprint, Platform.w32])
  | noop => exact hrefl
  | flow =>
      simp only [actionFuncs, execFlow]
      split
      · exact hrefl.st P (by simp [quietFootprint, Platform.w32])
      · exact hrefl
  | flush => exact absurd rfl hne
  | wait =>
      simp only [actionFuncs, execWait]
      split
      · split
        · exact hrefl.st64 P (by simp [quietFootprint, Platform.w64])
        · exact hrefl.st P (by simp [quietFootprint, Platform.w32])
      · split
        · exact hrefl.st64 P (by simp [quietFootprint, Platform.w64])
        · exact hrefl.st64 P (by simp [quietFootprint, Platform.w64])

/-- Every flushed queue gets its new read index, the others keep theirs. -/
theorem idxByte_flushRdIdxs (flushees flusher : BitVec 8) (wrIdxs : Word) {q : Nat} (hq : q < 4) :
    ∀ (prios : List Nat) (rdIdxs : Word),
      idxByte (flushRdIdxs flushees flusher wrIdxs prios rdIdxs) q =
        if q ∈ prios ∧ flushees &&& (1#8 <<< q) ≠ 0 then
          (idxByte wrIdxs q - (if flusher &&& (1#8 <<< q) ≠ 0 then 1 else 0)) &&& qIdxMaxOvfMsk
        else idxByte rdIdxs q := by
  intro prios
  induction prios with
  | nil => intro rdIdxs; rw [if_neg fun h => by simp at h]; rfl
  | cons prio prios ih =>
      intro rdIdxs
      rw [flushRdIdxs, ih]
      by_cases hmem : q ∈ prios ∧ flushees &&& (1#8 <<< q) ≠ 0
      · have hcons : q ∈ prio :: prios ∧ flushees &&& (1#8 <<< q) ≠ 0 :=
          ⟨List.mem_cons_of_mem _ hmem.1, hmem.2⟩
        rw [if_pos hmem, if_pos hcons]
      · rw [if_neg hmem]
        by_cases hqp : q = prio
        · subst hqp
          by_cases hfl : flushees &&& (1#8 <<< q) ≠ 0
          · have hcons : q ∈ q :: prios ∧ flushees &&& (1#8 <<< q) ≠ 0 := ⟨List.mem_cons_self, hfl⟩
            rw [if_pos hfl, if_pos hcons, idxByte_setIdxByte _ hq, if_pos rfl]
          · rw [if_neg hfl, if_neg fun h => hfl h.2]
        · have hcons : ¬ (q ∈ prio :: prios ∧ flushees &&& (1#8 <<< q) ≠ 0) := by
            rintro ⟨hin, hfl⟩
            rcases List.mem_cons.mp hin with rfl | hin
            · exact hqp rfl
            · exact hmem ⟨hin, hfl⟩
          rw [if_neg hcons]
          split
          · rw [idxByte_setIdxByte _ hq, if_neg hqp]
          · rfl

theorem flusher_bit {p q : Nat} (hp : p < 4) (hq : q < 4) :
    (1#8 <<< p) &&& (1#8 <<< q) ≠ 0 ↔ q = p := by
  have hall : ∀ p : Fin 4, ∀ q : Fin 4, (1#8 <<< p.1) &&& (1#8 <<< q.1) ≠ 0 ↔ q.1 = p.1 := by
    decide
  exact hall ⟨p, hp⟩ ⟨q, hq⟩

/-- From `m` to `m'` the flush `x` has been executed. -/
structure Flushed (m m' : Mem) (node : Word) (base : Nat) (lst : Nat → Nat) (buf : Nat → Nat → Nat)
    (x : QueuedCmd) : Prop where
  shape : SameShape P m m' node lst
  wr : m' (base + 6) = m (base + 6)
  elem : ∀ q, q < 3 → P.hasQueue m node q = true → ∀ i, i < 4 →
    cmdAt m' (slotAdr buf q i) = cmdAt m (slotAdr buf q i)
  rd_eq : ∀ q, q < 3 → rdIdx P m' node q =
    if x.flushes q then (wrIdx P m node q + (if q = x.prio then 7 else 0)) % 8
    else rdIdx P m node q
  rd_small : ∀ q, q < 3 → (idxByte (P.ld m (node + blockCmdqRdIdxs)) q).toNat < 8 →
    (idxByte (P.ld m' (node + blockCmdqRdIdxs)) q).toNat < 8

/-! ### Words off the queues -/

section Off

variable {P} {m : Mem} {node : Word} {base : Nat} {lst : Nat → Nat} {buf : Nat → Nat → Nat}
  (hl : BlockLayout P m node base lst buf)
include hl

theorem BlockLayout.off_ctl {o : Nat} (ho : o < shctlEnd) :
    OffQueues P m node base lst buf (P.ctl o) where
  off_node k _ hk _ := hl.ctl_ne_node ho (by omega)
  off_list q hq hex j hj := by
    have hend : shctlEnd = 820 := rfl
    have hap := hl.list_ctl q hq hex
    simp only [Apart, Platform.ctl, sharedOffs] at hap ⊢
    omega
  off_buf q hq hex j hj k hk := hl.ctl_ne_buf ho hq hex hj hk

theorem BlockLayout.off_base {n : Nat} (hn : n < 13) (hfree : n < 3 ∨ n = 8 ∨ n = 12) :
    OffQueues P m node base lst buf (base + n) where
  off_node k _ _ _ := by omega
  off_list q hq hex j hj := by
    have hap := hl.node_list q hq hex
    simp only [Apart] at hap
    omega
  off_buf q hq hex j hj k hk := (hl.buf_ne_node hq hex hj hk hn).symm

end Off

section Actions

variable {P} {s : Cpu} {node c thrData : Word} {base : Nat} {lst : Nat → Nat} {buf : Nat → Nat → Nat}
  (hl : BlockLayout P s.mem node base lst buf)
include hl

theorem BlockLayout.keepsQueues_action {atype : ActType} (hne : atype ≠ .flush) {t : Nat}
    (ht : t < thrQty) : KeepsQueues P s.mem (actionFuncs P atype s node c (thrPtr t)).2.mem node
      base lst buf := by
  have hq : thrQty = 8 := rfl
  have hend : shctlEnd = 820 := rfl
  refine hl.keepsQueues (actionFuncs_quiet P hne s node c (thrPtr t)) ?_
  intro a ha
  simp only [quietFootprint, Platform.w32, Platform.w64, List.mem_append, List.mem_cons,
    List.not_mem_nil, or_false, adr_status, adr_badwaitcnt, hl.adr_defDest, hl.adr_period,
    hl.adr_periodLo, adr_currtime P ht, adr_currtimeLo P ht] at ha
  rcases ha with (((rfl | rfl) | rfl) | (rfl | rfl)) | (rfl | rfl)
  · exact hl.off_ctl (by decide)
  · exact hl.off_ctl (by decide)
  · exact hl.off_base (by decide) (by omega)
  · exact hl.off_base (n := 0) (by decide) (by omega)
  · exact hl.off_base (by decide) (by omega)
  · exact hl.off_ctl (by omega)
  · exact hl.off_ctl (by omega)

theorem BlockLayout.flushed_action (htype : actType (P.ld s.mem (c + tCmdAct)) = 3) :
    Flushed P s.mem (actionFuncs P .flush s node c thrData).2.mem node base lst buf
      (slotCmd P s.mem c) := by
  -- the override writes the default destination only
  have hframe : ∃ v, v = flushRdIdxs
        (((P.ld s.mem (c + tCmdAct) >>> actFlushPrioPos) &&& actFlushPrioMsk).setWidth 8)
        (1#8 <<< (slotCmd P s.mem c).prio) (P.ld s.mem (node + blockCmdqWrIdxs) &&& blockCmdqIdxsSmsk)
        [prioLo, prioHi, prioIl] (P.ld s.mem (node + blockCmdqRdIdxs) &&& blockCmdqIdxsSmsk) ∧
      ∀ a, a ≠ base + 12 → (actionFuncs P .flush s node c thrData).2.mem a =
        P.st s.mem (node + blockCmdqRdIdxs) v a := by
    refine ⟨_, rfl, ?_⟩
    intro a ha
    simp only [actionFuncs, execFlush]
    split
    · split
      · exact P.st_other (by rwa [hl.adr_defDest])
      · rfl
    · rfl
  obtain ⟨v, hv, hframe⟩ := hframe
  have hother : ∀ a, a ≠ base + 12 → a ≠ base + 7 →
      (actionFuncs P .flush s node c thrData).2.mem a = s.mem a := by
    intro a h12 h7
    rw [hframe a h12, P.st_other (by rwa [hl.adr_rdIdxs])]
  have hbyte : ∀ q, q < 3 → idxByte (P.ld (actionFuncs P .flush s node c thrData).2.mem
      (node + blockCmdqRdIdxs)) q = if (slotCmd P s.mem c).flushes q then
        (idxByte (P.ld s.mem (node + blockCmdqWrIdxs)) q -
          (if q = (slotCmd P s.mem c).prio then 1 else 0)) &&& qIdxMaxOvfMsk
      else idxByte (P.ld s.mem (node + blockCmdqRdIdxs)) q := by
    intro q hq
    have hprio : (slotCmd P s.mem c).prio < 4 := by
      rw [QueuedCmd.prio, BitVec.toNat_and]
      exact Nat.lt_of_le_of_lt Nat.and_le_right (by decide)
    have hin : q ∈ [prioLo, prioHi, prioIl] := by
      obtain rfl | rfl | rfl : q = 0 ∨ q = 1 ∨ q = 2 := by omega
      all_goals decide
    have hfl : (slotCmd P s.mem c).flushes q = true ↔
        ((P.ld s.mem (c + tCmdAct) >>> actFlushPrioPos) &&& actFlushPrioMsk).setWidth 8 &&&
          (1#8 <<< q) ≠ 0 := by
      simp only [QueuedCmd.flushes, slotCmd, htype, BEq.rfl, Bool.true_and, bne_iff_ne, ne_eq]
    rw [Platform.ld, hframe _ (by rw [hl.adr_rdIdxs]; omega), Platform.st, Function.update_self, hv,
      idxByte_flushRdIdxs _ _ _ (by omega), idxByte_masked _ hq, idxByte_masked _ hq]
    simp only [hin, true_and, flusher_bit hprio (show q < 4 by omega), ← hfl]
  refine ⟨hl.sameShape ?_ ?_ ?_, hother _ (by omega) (by omega), ?_, ?_, ?_⟩
  · intro q _
    rw [Platform.hasQueue, Platform.hasQueue, Platform.ld, Platform.ld, hl.adr_nodeFlags,
      hother _ (by omega) (by omega)]
  · intro q hq
    exact hother _ (by omega) (by omega)
  · intro q hq hex j hj
    have hap := hl.node_list q hq hex
    simp only [Apart] at hap
    exact hother _ (by omega) (by omega)
  · intro q hq hex i hi
    have hword : ∀ k, k < 5 → (actionFuncs P .flush s node c thrData).2.mem (slotAdr buf q i + k) =
        s.mem (slotAdr buf q i + k) := fun k hk =>
      hother _ (hl.slotAdr_ne_node hq hex hi hk (by decide))
        (hl.slotAdr_ne_node hq hex hi hk (by decide))
    have h0 := hword 0 (by decide)
    rw [Nat.add_zero] at h0
    rw [cmdAt, cmdAt, h0, hword 1 (by decide), hword 2 (by decide), hword 3 (by decide),
      hword 4 (by decide)]
  · intro q hq
    rw [rdIdx, hbyte q hq]
    split
    · rw [toNat_and_ovf, wrIdx, BitVec.toNat_sub]
      split
      · rw [show (1 : BitVec 8).toNat = 1 from rfl]
        omega
      · rw [show (0 : BitVec 8).toNat = 0 from rfl]
        omega
    · rfl
  · intro q hq hlt
    rw [hbyte q hq]
    split
    · rw [toNat_and_ovf]
      omega
    · exact hlt

end Actions

/-! ### The step of a visit -/

theorem ofNum?_eq_flush {n : Nat} : ActType.ofNum? n = some .flush ↔ n = 3 := by
  rcases n with _ | _ | _ | _ | _ | n <;> simp [ActType.ofNum?]

theorem ofPrio_singleton (q : Nat) (x : QueuedCmd) :
    ofPrio q [x] = if x.prio = q then [x] else [] := by
  simp only [ofPrio, List.filter_cons, List.filter_nil, beq_iff_eq]

theorem BlockLayout.action_elems {P : Platform} {s : Cpu} {node c : Word} {base : Nat}
    {lst : Nat → Nat} {buf : Nat → Nat → Nat} (hl : BlockLayout P s.mem node base lst buf)
    {atype : ActType} (htype : ActType.ofNum? (actType (P.ld s.mem (c + tCmdAct))) = some atype)
    {t : Nat} (ht : t < thrQty) :
    SameShape P s.mem (actionFuncs P atype s node c (thrPtr t)).2.mem node lst ∧
      ∀ q, q < 3 → P.hasQueue s.mem node q = true → ∀ i, i < 4 →
        cmdAt (actionFuncs P atype s node c (thrPtr t)).2.mem (slotAdr buf q i) =
          cmdAt s.mem (slotAdr buf q i) := by
  by_cases hflush : atype = .flush
  · subst hflush
    have hfl : Flushed P s.mem (actionFuncs P .flush s node c (thrPtr t)).2.mem node base lst buf _ :=
      hl.flushed_action (ofNum?_eq_flush.mp htype)
    exact ⟨hfl.shape, hfl.elem⟩
  · have hkeep := hl.keepsQueues_action (c := c) hflush ht
    exact ⟨hkeep.shape, hkeep.elem⟩

section Visit

variable {P} {m m' : Mem} {node : Word} {base : Nat} {lst : Nat → Nat} {buf : Nat → Nat → Nat} {q : Nat}

/-- The head of a queue that is not empty. -/
theorem BlockLayout.queueCmds_cons (hl : BlockLayout P m node base lst buf) (hq : q < 3)
    (hex : P.hasQueue m node q = true) (hpos : 0 < occupancy P m node q) :
    queueCmds P m node q =
      cmdAt m (slotAdr buf q (rdIdx P m node q % 4)) :: (queueCmds P m node q).tail := by
  obtain ⟨k, hk⟩ : ∃ k, occupancy P m node q = k + 1 := ⟨occupancy P m node q - 1, by omega⟩
  rw [hl.queueCmds_eq hq hex, hk, Ring.entries_succ, List.tail_cons]

/-- A queue whose indices differ is not empty. -/
theorem occupancy_pos (hthree : ThreeBit P m node) (hq : q < 3)
    (hpend : isPending P m node q = true) : 0 < occupancy P m node q := by
  obtain ⟨hex, hne⟩ := Bool.and_eq_true_iff.mp hpend
  obtain ⟨hrd, hwr⟩ := hthree q hq hex
  rw [queuePending, bne_iff_ne] at hne
  refine Nat.pos_of_ne_zero fun h0 => hne (BitVec.eq_of_toNat_eq ?_)
  have heq := (Ring.count_eq_zero (rdIdx_lt_eight q) (wrIdx_lt_eight q)).mp h0
  rwa [rdIdx, wrIdx, Nat.mod_eq_of_lt hrd, Nat.mod_eq_of_lt hwr] at heq

theorem BlockLayout.last_mem (hl : BlockLayout P m node base lst buf) (hq : q < 3)
    (hex : P.hasQueue m node q = true) {x : QueuedCmd} {tl : List QueuedCmd}
    (hcons : queueCmds P m node q = x :: tl) :
    (wrIdx P m node q + 7) % 8 % 4 = rdIdx P m node q % 4 ∨
      cmdAt m (slotAdr buf q ((wrIdx P m node q + 7) % 8 % 4)) ∈ tl := by
  have hrd : rdIdx P m node q < 2 * 4 := rdIdx_lt_eight q
  have hwr : wrIdx P m node q < 2 * 4 := wrIdx_lt_eight q
  have hlen : occupancy P m node q = tl.length + 1 := by
    rw [← length_queueCmds, hcons, List.length_cons]
  have hcount := hlen
  rw [occupancy, Ring.count_eq hrd hwr] at hcount
  rcases Nat.eq_zero_or_pos tl.length with h0 | hpos
  · left
    split at hcount <;> omega
  · right
    have htl : tl = (queueCmds P m node q).tail := by rw [hcons, List.tail_cons]
    rw [htl, hl.queueCmds_eq hq hex, Ring.entries_tail, hlen, Nat.add_sub_cancel]
    refine List.mem_map.mpr ⟨tl.length - 1, List.mem_range.mpr (by omega), ?_⟩
    rw [show ((rdIdx P m node q + 1) % (2 * 4) + (tl.length - 1)) % 4 =
      (wrIdx P m node q + 7) % 8 % 4 by split at hcount <;> omega]

/-- One execution of the head `x`, which lies at ring element `i`. -/
theorem BlockLayout.booked_run (hl : BlockLayout P m node base lst buf) (hq : q < 3)
    (hex : P.hasQueue m node q = true) {i : Nat} (hi : i < 4) {x : QueuedCmd}
    (hx : cmdAt m (slotAdr buf q i) = x) (hqty : actQty x.act ≠ 0)
    (h : Booked P m m' node (slotElem P m node q i) x.counted.act q (if actQty x.act = 1 then 1 else 0))
    (hrd : rdIdx P m node q % 4 = i) (hpos : 0 < occupancy P m node q)
    (hle : occupancy P m node q ≤ 4) :
    queueCmds P m' node q = leftOf x (queueCmds P m node q).tail := by
  have hone := qty_le_one_iff hqty
  unfold leftOf
  by_cases h1 : actQty x.act = 1
  · rw [if_pos h1] at h
    rw [if_pos (hone.2 h1)]
    exact hl.booked_pop hq hex hi h hrd hpos hle
  · rw [if_neg h1] at h
    rw [if_neg fun hle => h1 (hone.1 hle), hl.booked_head hq hex hi h hrd hpos hle, hx]
    rfl

/-- A flush of its own queue leaves at most the last entry. -/
theorem BlockLayout.booked_flush (hl : BlockLayout P m node base lst buf) (hq : q < 3)
    (hex : P.hasQueue m node q = true) {i : Nat} (hi : i < 4) {x : QueuedCmd}
    (hx : cmdAt m (slotAdr buf q i) = x) (hqty : actQty x.act ≠ 0)
    (h : Booked P m m' node (slotElem P m node q i) x.counted.act q (if actQty x.act = 1 then 1 else 0))
    (hrd : rdIdx P m node q = (wrIdx P m node q + 7) % 8) {rest : List QueuedCmd}
    (hlast : rdIdx P m node q % 4 = i ∨ cmdAt m (slotAdr buf q (rdIdx P m node q % 4)) ∈ rest) :
    (queueCmds P m' node q).Sublist (leftOf x rest) := by
  have hwr : wrIdx P m node q < 2 * 4 := wrIdx_lt_eight q
  have hone := qty_le_one_iff hqty
  rw [hl.booked_self hq hex hi h]
  unfold leftOf
  by_cases h1 : actQty x.act = 1
  · rw [if_pos h1, if_pos (hone.2 h1), hrd,
      show ((wrIdx P m node q + 7) % 8 + 1) % 8 = wrIdx P m node q by omega, Ring.count_self hwr]
    exact List.nil_sublist _
  · rw [if_neg h1, if_neg fun hle => h1 (hone.1 hle), Nat.add_zero, hrd, Nat.mod_mod,
      show (wrIdx P m node q + 7) % 8 = (wrIdx P m node q + 2 * 4 - 1) % (2 * 4) by omega,
      Ring.count_last hwr, Ring.entries_succ, Ring.entries_zero,
      show (wrIdx P m node q + 2 * 4 - 1) % (2 * 4) % 4 = rdIdx P m node q % 4 by rw [hrd]; omega]
    rw [List.singleton_sublist]
    split
    · rw [hx]
      exact List.mem_cons_self
    · rename_i hne
      exact List.mem_cons_of_mem _ (hlast.resolve_left hne)

theorem BlockLayout.booked_threeBit (hl : BlockLayout P m node base lst buf) (hq : q < 3)
    (hex : P.hasQueue m node q = true) {i n : Nat} {act : Word} (hi : i < 4)
    (h : Booked P m m' node (slotElem P m node q i) act q n) (hthree : ThreeBit P m node) :
    ThreeBit P m' node := by
  obtain ⟨hshape, hwr⟩ := hl.booked_shape hq hex hi h
  intro p hp hexp
  rw [hshape.queues p hp] at hexp
  obtain ⟨hrdp, hwrp⟩ := hthree p hp hexp
  refine ⟨h.rd_small p hp hrdp, ?_⟩
  rw [Platform.ld, hl.adr_wrIdxs] at hwrp ⊢
  rwa [hwr]

theorem Flushed.threeBit (hl : BlockLayout P m node base lst buf) {x : QueuedCmd}
    (h : Flushed P m m' node base lst buf x) (hthree : ThreeBit P m node) : ThreeBit P m' node := by
  intro p hp hexp
  rw [h.shape.queues p hp] at hexp
  obtain ⟨hrdp, hwrp⟩ := hthree p hp hexp
  refine ⟨h.rd_small p hp hrdp, ?_⟩
  rw [Platform.ld, hl.adr_wrIdxs] at hwrp ⊢
  rwa [h.wr]

theorem Flushed.queueCmds_eq (hl : BlockLayout P m node base lst buf) {x : QueuedCmd}
    (h : Flushed P m m' node base lst buf x) (hq : q < 3) (hex : P.hasQueue m node q = true)
    (hno : x.flushes q = false) :
    rdIdx P m' node q = rdIdx P m node q ∧ queueCmds P m' node q = queueCmds P m node q := by
  have hl' := hl.of_sameShape h.shape
  have hrd := h.rd_eq q hq
  rw [hno, if_neg (by decide)] at hrd
  refine ⟨hrd, ?_⟩
  rw [hl'.queueCmds_eq hq ((h.shape.queues q hq).trans hex), hl.queueCmds_eq hq hex, occupancy,
    occupancy, hrd, hl'.wrIdx_eq, hl.wrIdx_eq, h.wr]
  apply Ring.entries_congr
  intro i _
  exact h.elem q hq hex _ (Nat.mod_lt _ (by decide))

theorem Flushed.queueCmds_nil (hl : BlockLayout P m node base lst buf) {x : QueuedCmd}
    (h : Flushed P m m' node base lst buf x) (hq : q < 3) (hfl : x.flushes q = true)
    (hne : q ≠ x.prio) : queueCmds P m' node q = [] := by
  have hl' := hl.of_sameShape h.shape
  have hrd := h.rd_eq q hq
  have hwr : wrIdx P m node q < 2 * 4 := wrIdx_lt_eight q
  have hwr' : wrIdx P m' node q = wrIdx P m node q := by rw [hl'.wrIdx_eq, hl.wrIdx_eq, h.wr]
  rw [hfl, if_pos rfl, if_neg hne, Nat.add_zero, Nat.mod_eq_of_lt hwr] at hrd
  rw [queueCmds, occupancy, hrd, hwr', Ring.count_self hwr, Ring.entries_zero]

theorem BlockLayout.booked_cmds (hl : BlockLayout P m node base lst buf) (hq : q < 3)
    (hex : P.hasQueue m node q = true) {m₁ : Mem} (hshape : SameShape P m m₁ node lst)
    {x : QueuedCmd} {tl : List QueuedCmd} (hcons : queueCmds P m node q = x :: tl)
    (hqty : actQty x.act ≠ 0) {i : Nat} (hi : i < 4) (hx : cmdAt m₁ (slotAdr buf q i) = x)
    (hrd : rdIdx P m node q % 4 = i)
    (h : Booked P m₁ m' node (slotElem P m₁ node q i) x.counted.act q
      (if actQty x.act = 1 then 1 else 0))
    {p : Nat} (hp : p < 3) (hexp : P.hasQueue m node p = true) (hle : occupancy P m node p ≤ 4)
    (hsame : rdIdx P m₁ node p = rdIdx P m node p ∧ queueCmds P m₁ node p = queueCmds P m node p) :
    queueCmds P m' node p = if p = q then leftOf x tl else queueCmds P m node p := by
  have hl₁ := hl.of_sameShape hshape
  have hex₁ := (hshape.queues q hq).trans hex
  by_cases hpq : p = q
  · subst hpq
    have hlen : occupancy P m node p = tl.length + 1 := by
      rw [← length_queueCmds, hcons, List.length_cons]
    have hlen₁ : occupancy P m₁ node p = occupancy P m node p := by
      rw [← length_queueCmds, hsame.2, length_queueCmds]
    have hrun := hl₁.booked_run hp hex₁ hi hx hqty h (by rw [hsame.1, hrd]) (by omega) (by omega)
    rw [hrun, hsame.2, hcons, if_pos rfl, List.tail_cons]
  · rw [if_neg hpq, hl₁.booked_other hq hex₁ hi h hp ((hshape.queues p hp).trans hexp) hpq, hsame.2]

/-- An execution that leaves the queues alone, booked afterwards. -/
theorem BlockLayout.quiet_served (hl : BlockLayout P m node base lst buf) (hthree : ThreeBit P m node)
    (hq : q < 3) (hex : P.hasQueue m node q = true) {m₁ : Mem}
    (hkeep : KeepsQueues P m m₁ node base lst buf) {x : QueuedCmd} {tl : List QueuedCmd}
    (hcons : queueCmds P m node q = x :: tl) (hqty : actQty x.act ≠ 0) {i : Nat} (hi : i < 4)
    (hx : cmdAt m (slotAdr buf q i) = x) (hrd : rdIdx P m node q % 4 = i)
    (h : Booked P m₁ m' node (slotElem P m node q i) x.counted.act q
      (if actQty x.act = 1 then 1 else 0)) : HeadServed P m m' node lst q x tl := by
  have hl₁ := hl.of_sameShape hkeep.shape
  have hex₁ := (hkeep.shape.queues q hq).trans hex
  rw [← hl.slotElem_same hkeep.shape hq hex hi] at h
  rw [← hkeep.elem q hq hex i hi] at hx
  have hcmds : ∀ p, p < 3 → P.hasQueue m node p = true → occupancy P m node p ≤ 4 →
      queueCmds P m' node p = if p = q then leftOf x tl else queueCmds P m node p := by
    intro p hp hexp hle
    obtain ⟨hrdp, -, hsame⟩ := hl.queueCmds_keeps hkeep hp hexp
    exact hl.booked_cmds hq hex hkeep.shape hcons hqty hi hx hrd h hp hexp hle ⟨hrdp, hsame⟩
  refine ⟨hcons, hkeep.shape.trans (hl₁.booked_shape hq hex₁ hi h).1,
    hl₁.booked_threeBit hq hex₁ hi h (hl.threeBit_keeps hkeep hthree), ?_, ?_⟩
  · intro p hp hexp hle _
    exact hcmds p hp hexp hle
  · intro _ p hp hexp hle
    rw [hcmds p hp hexp hle]

theorem BlockLayout.flush_served (hl : BlockLayout P m node base lst buf) (hthree : ThreeBit P m node)
    (hq : q < 3) (hex : P.hasQueue m node q = true) {m₁ : Mem} {x : QueuedCmd}
    (hfl : Flushed P m m₁ node base lst buf x) {tl : List QueuedCmd}
    (hcons : queueCmds P m node q = x :: tl) (hqty : actQty x.act ≠ 0) {i : Nat} (hi : i < 4)
    (hx : cmdAt m (slotAdr buf q i) = x) (hrd : rdIdx P m node q % 4 = i)
    (h : Booked P m₁ m' node (slotElem P m node q i) x.counted.act q
      (if actQty x.act = 1 then 1 else 0)) : HeadServed P m m' node lst q x tl := by
  have hl₁ := hl.of_sameShape hfl.shape
  have hex₁ := (hfl.shape.queues q hq).trans hex
  have hx₁ : cmdAt m₁ (slotAdr buf q i) = x := by rw [hfl.elem q hq hex i hi, hx]
  rw [← hl.slotElem_same hfl.shape hq hex hi] at h
  have hcmds : ∀ p, p < 3 → P.hasQueue m node p = true → occupancy P m node p ≤ 4 →
      x.flushes p = false →
      queueCmds P m' node p = if p = q then leftOf x tl else queueCmds P m node p := by
    intro p hp hexp hle hno
    exact hl.booked_cmds hq hex hfl.shape hcons hqty hi hx₁ hrd h hp hexp hle
      (hfl.queueCmds_eq hl hp hexp hno)
  refine ⟨hcons, hfl.shape.trans (hl₁.booked_shape hq hex₁ hi h).1,
    hl₁.booked_threeBit hq hex₁ hi h (hfl.threeBit hl hthree), ?_, ?_⟩
  · intro p hp hexp hle hno
    exact hcmds p hp hexp hle (hno.resolve_left fun h0 => hqty (qty_eq_zero_iff.1 h0))
  · intro hprio p hp hexp hle
    cases hown : x.flushes p with
    | false => rw [hcmds p hp hexp hle hown]
    | true =>
      by_cases hpq : p = q
      · subst hpq
        have hrd₁ := hfl.rd_eq p hp
        rw [hown, if_pos rfl, if_pos hprio.symm] at hrd₁
        have hwr₁ : wrIdx P m₁ node p = wrIdx P m node p := by
          rw [hl₁.wrIdx_eq, hl.wrIdx_eq, hfl.wr]
        rw [if_pos rfl]
        refine hl₁.booked_flush hp hex₁ hi hx₁ hqty h (by rw [hrd₁, hwr₁]) ?_
        -- the last entry is the head itself or lies behind it
        rw [hrd₁, hfl.elem p hp hexp _ (Nat.mod_lt _ (by decide)), ← hrd]
        exact hl.last_mem hp hexp hcons
      · rw [hl₁.booked_other hq hex₁ hi h hp ((hfl.shape.queues p hp).trans hexp) hpq,
          hfl.queueCmds_nil hl hp hown (by rwa [hprio])]
        exact List.nil_sublist _

theorem BlockLayout.serves_head {s s' : Cpu} {r : Word} (hl : BlockLayout P s.mem node base lst buf)
    (hthree : ThreeBit P s.mem node) {t : Nat} (ht : t < thrQty) (hq : q < 3)
    (hpend : isPending P s.mem node q = true)
    (h : Serves P s node (thrPtr t) (readElem P s.mem node q) q r s') :
    ∃ tl, HeadServed P s.mem s'.mem node lst q (slotCmd P s.mem (readElem P s.mem node q)) tl := by
  have hex := hasQueue_of_pending hpend
  have hpos := occupancy_pos hthree hq hpend
  generalize hi' : rdIdx P s.mem node q % 4 = i
  have hi : i < 4 := hi' ▸ Nat.mod_lt _ (by decide)
  have hcons := hl.queueCmds_cons hq hex hpos
  rw [hi'] at hcons
  have helem : readElem P s.mem node q = _ := readElem_eq_slot q
  rw [hi'] at helem
  have hx := hl.slotCmd_eq hq hex hi s.mem
  rw [helem, hx]
  rw [helem] at h
  generalize hxx : cmdAt s.mem (slotAdr buf q i) = x at hx hcons ⊢
  generalize (queueCmds P s.mem node q).tail = tl at hcons
  have hact : P.ld s.mem (slotElem P s.mem node q i + tCmdAct) = x.act := by rw [← hx]; rfl
  refine ⟨tl, ?_⟩
  simp only [Serves, hact] at h
  by_cases hqty : actQty x.act = 0
  · rw [if_pos hqty] at h
    obtain ⟨-, hbook⟩ := h
    have hle1 : x.qty ≤ 1 := by rw [qty_eq_zero_iff.2 hqty]; exact Nat.zero_le 1
    have hcmds : ∀ p, p < 3 → P.hasQueue s.mem node p = true → occupancy P s.mem node p ≤ 4 →
        queueCmds P s'.mem node p = if p = q then leftOf x tl else queueCmds P s.mem node p := by
      intro p hp hexp hle
      by_cases hpq : p = q
      · subst hpq
        rw [hl.booked_pop hq hex hi hbook hi' hpos hle, hcons, if_pos rfl, leftOf, if_pos hle1,
          List.tail_cons]
      · rw [if_neg hpq, hl.booked_other hq hex hi hbook hp hexp hpq]
    refine ⟨hcons, (hl.booked_shape hq hex hi hbook).1, hl.booked_threeBit hq hex hi hbook hthree,
      fun p hp hexp hle _ => hcmds p hp hexp hle, fun _ p hp hexp hle => ?_⟩
    rw [hcmds p hp hexp hle]
  rw [if_neg hqty] at h
  obtain ⟨atype, htype, -, hbook⟩ := h
  by_cases hflush : atype = .flush
  · -- a flush moves the read indices of the queues it names before it is booked
    subst hflush
    have hfl : Flushed P s.mem (actionFuncs P .flush s node (slotElem P s.mem node q i)
        (thrPtr t)).2.mem node base lst buf _ :=
      hl.flushed_action (by rw [hact]; exact ofNum?_eq_flush.mp htype)
    rw [hx] at hfl
    exact hl.flush_served hthree hq hex hfl hcons hqty hi hxx hi' hbook
  · exact hl.quiet_served hthree hq hex (hl.keepsQueues_action hflush ht) hcons hqty hi hxx hi' hbook

theorem HeadServed.of_keeps (hl : BlockLayout P m node base lst buf) {m₁ : Mem}
    (hkeep : KeepsQueues P m m₁ node base lst buf) (hq : q < 3) (hex : P.hasQueue m node q = true)
    {x : QueuedCmd} {tl : List QueuedCmd} (h : HeadServed P m₁ m' node lst q x tl) :
    HeadServed P m m' node lst q x tl := by
  have hsame : ∀ p, p < 3 → P.hasQueue m node p = true →
      P.hasQueue m₁ node p = true ∧ queueCmds P m₁ node p = queueCmds P m node p ∧
        occupancy P m₁ node p = occupancy P m node p := by
    intro p hp hexp
    have hcmds := (hl.queueCmds_keeps hkeep hp hexp).2.2
    refine ⟨(hkeep.shape.queues p hp).trans hexp, hcmds, ?_⟩
    rw [← length_queueCmds, hcmds, length_queueCmds]
  refine ⟨(hsame q hq hex).2.1 ▸ h.head, hkeep.shape.trans h.shape, h.three_bit, ?_, ?_⟩
  · intro p hp hexp hle hno
    obtain ⟨hexp₁, hcmds, hocc⟩ := hsame p hp hexp
    rw [← hcmds]
    exact h.kept p hp hexp₁ (by rwa [hocc]) hno
  · intro hprio p hp hexp hle
    obtain ⟨hexp₁, hcmds, hocc⟩ := hsame p hp hexp
    rw [← hcmds]
    exact h.flushed hprio p hp hexp₁ (by rwa [hocc])

theorem BlockLayout.paint_keeps {s : Cpu} (hl : BlockLayout P s.mem node base lst buf) :
    KeepsQueues P s.mem (s.paint P node).mem node base lst buf := by
  refine ⟨hl.paint_sameShape, hl.paint_other (by omega), hl.paint_other (by omega), ?_⟩
  intro q hq hex i hi
  have hword : ∀ k, k < 5 → (s.paint P node).mem (slotAdr buf q i + k) =
      s.mem (slotAdr buf q i + k) :=
    fun k hk => hl.paint_other (hl.slotAdr_ne_node hq hex hi hk (by decide))
  have h0 := hword 0 (by decide)
  rw [Nat.add_zero] at h0
  rw [cmdAt, cmdAt, h0, hword 1 (by decide), hword 2 (by decide), hword 3 (by decide),
    hword 4 (by decide)]

theorem BlockLayout.visit_served {s : Cpu} (hl : BlockLayout P s.mem node base lst buf)
    (hthree : ThreeBit P s.mem node) {t : Nat} (ht : t < thrQty) (hslip : ¬ ScanSlip P s node) :
    ∃ r s', block P s node (thrPtr t) = some (r, s') ∧
      (((∃ s₁, findCmd P s node = .idle s₁) ∧ KeepsQueues P s.mem s'.mem node base lst buf) ∨
        ∃ q e x tl, findCmd P s node = .command (readElem P s.mem node q) e (atService P s node q) ∧
          Chosen P s node q ∧ P.hasQueue s.mem node q = true ∧ (x.qty ≤ 1 → e = q) ∧
          slotCmd P (atService P s node q).mem (readElem P s.mem node q) = x ∧
          HeadServed P s.mem s'.mem node lst q x tl) := by
  have hpaint := hl.paint_keeps
  obtain ⟨r, s', hblock, ⟨s₁, hfind, hmem⟩ | ⟨q, e, hfind, hch, hpend, hserves⟩⟩ :=
    hl.block_of_not_slip (thrPtr t) hslip
  · refine ⟨r, s', hblock, Or.inl ⟨⟨s₁, hfind⟩, ?_⟩⟩
    rw [hmem]
    exact hpaint
  · have hl₁ := hl.of_sameShape hpaint.shape
    have hex := hasQueue_of_pending hpend
    have hpop : (slotCmd P (atService P s node q).mem (readElem P s.mem node q)).qty ≤ 1 → e = q := by
      intro hqty
      have hserve := hblock
      rw [block_eq, hfind] at hserve
      exact Serves.queue_unique hch.lt (hl.serves_of_serveCmd hch.lt hpend hserve) hserves hqty
    have helem := hl.readElem_paint hch.lt hex
    rw [← helem] at hserves
    obtain ⟨tl, hhead⟩ := hl₁.serves_head (s := atService P s node q)
      (hl.threeBit_keeps hpaint hthree) ht hch.lt (by rw [← hpend]; exact hl.pending_paint) hserves
    rw [show readElem P (atService P s node q).mem node q = readElem P s.mem node q from helem] at hhead
    exact ⟨r, s', hblock, Or.inr ⟨q, e, _, tl, hfind, hch, hex, hpop, rfl,
      HeadServed.of_keeps hl hpaint hch.lt hex hhead⟩⟩

theorem HeadServed.step {x : QueuedCmd} {tl : List QueuedCmd} (hinv : QueueInv P m node)
    (hq : q < 3) (hex : P.hasQueue m node q = true) (h : HeadServed P m m' node lst q x tl) :
    QueueStep P m m' node lst [] (if actQty x.act = 0 then [] else [x]) := by
  have hprio : x.prio = q := hinv.prio_eq q hq hex x (by rw [h.head]; exact List.mem_cons_self)
  refine ⟨h.shape, h.three_bit, ?_⟩
  intro p hp hexp
  have hle := hinv.occupancy_le p hp hexp
  by_cases hqty : actQty x.act = 0
  · have h0 := qty_eq_zero_iff.2 hqty
    rw [if_pos hqty, h.kept p hp hexp hle (Or.inl h0)]
    by_cases hpq : p = q
    · subst hpq
      rw [if_pos rfl, h.head, leftOf, h0, if_pos (Nat.zero_le 1)]
      exact .skip x tl h0
    · rw [if_neg hpq]
      exact .idle _
  have hpred := qty_counted hqty
  have hleft : leftOf x tl = if x.counted.qty = 0 then tl else x.counted :: tl := by
    unfold leftOf
    by_cases hone : x.qty ≤ 1
    · rw [if_pos hone, if_pos (by omega)]
    · rw [if_neg hone, if_neg (by omega)]
  have hany : ([x].any fun x => x.flushes p) = x.flushes p := by simp
  rw [if_neg hqty, hany, ofPrio_singleton, hprio]
  cases hown : x.flushes p with
  | false =>
    rw [h.kept p hp hexp hle (Or.inr hown)]
    by_cases hpq : p = q
    · subst hpq
      rw [if_pos rfl, if_pos rfl, h.head, hleft]
      exact .run x x.counted tl hpred (body_counted x)
    · rw [if_neg fun heq => hpq heq.symm, if_neg hpq]
      exact .idle _
  | true =>
    have hsub := h.flushed hprio p hp hexp hle
    by_cases hpq : p = q
    · subst hpq
      rw [if_pos rfl, hleft] at hsub
      rw [if_pos rfl, h.head]
      exact .runDrop x x.counted tl _ hpred (body_counted x) hsub
    · rw [if_neg hpq] at hsub
      rw [if_neg fun heq => hpq heq.symm]
      exact .drop _ _ hsub

theorem work_leftOf (x : QueuedCmd) (tl : List QueuedCmd) :
    CountedQueue.work QueuedCmd.qty (leftOf x tl) < CountedQueue.work QueuedCmd.qty (x :: tl) := by
  unfold leftOf
  rw [CountedQueue.work_cons]
  split
  · omega
  · rename_i hone
    have hpred := qty_counted (x := x) fun h0 => by
      rw [← qty_eq_zero_iff] at h0
      omega
    rw [CountedQueue.work_cons]
    omega

/-- **A visit is a step of the queues**, unless it slips: it comes back, and executes
the head of one queue or nothing. -/
theorem BlockLayout.visit_step {s : Cpu} (hl : BlockLayout P s.mem node base lst buf)
    (hinv : QueueInv P s.mem node) {t : Nat} (ht : t < thrQty) (hslip : ¬ ScanSlip P s node) :
    ∃ r s', block P s node (thrPtr t) = some (r, s') ∧
      QueueStep P s.mem s'.mem node lst [] (executed P s node) := by
  obtain ⟨r, s', hblock, ⟨⟨s₁, hfind⟩, hkeep⟩ | ⟨q, e, x, tl, hfind, hch, hex, -, rfl, hhead⟩⟩ :=
    hl.visit_served hinv.three_bit ht hslip
  · refine ⟨r, s', hblock, ?_⟩
    rw [executed, hfind]
    exact hl.queueStep_keeps hkeep hinv
  · refine ⟨r, s', hblock, ?_⟩
    rw [executed, hfind]
    exact hhead.step hinv hch.lt hex

/-! ### Visits that serve a queue -/

/-- A visit finds the block open for reading and the head of queue `q` to be the one to
serve, valid up to the last reading of the clock. -/
structure ServesQueue (P : Platform) (s : Cpu) (node : Word) (q : Nat) : Prop where
  dnr : P.ld s.mem (node + blockCmdqFlags) &&& blockCmdqDnrSmsk = 0
  chosen : Chosen P s node q
  valid : headTime P s.mem node q ≤ s.clk (readings P s.mem node q + 1)

/-- A pending queue shows in the index words. -/
theorem idxsDiffer_of_pending (hq : q < 3) (h : isPending P m node q = true) :
    idxsDiffer P m node = true := by
  obtain ⟨-, hne⟩ := Bool.and_eq_true_iff.mp h
  rw [queuePending, bne_iff_ne] at hne
  rw [idxsDiffer, bne_iff_ne]
  intro heq
  refine hne ?_
  rw [← idxByte_masked _ hq, ← heq, idxByte_masked _ hq]

theorem Chosen.pending {s : Cpu} (h : Chosen P s node q) : isPending P s.mem node q = true := by
  rcases h.found with hs | he
  · exact hs.1
  · exact he.1

theorem BlockLayout.findCmd_serves {s : Cpu} (hl : BlockLayout P s.mem node base lst buf)
    (h : ServesQueue P s node q) :
    ∃ e, findCmd P s node = .command (readElem P s.mem node q) e (atService P s node q) := by
  have hpend := h.chosen.pending
  have hgate := And.intro h.dnr (idxsDiffer_of_pending h.chosen.lt hpend)
  have hvalid := BitVec.not_lt.mpr h.valid
  by_cases hseen : SeenValid P s node q
  · have hfind := hl.findCmd_hit hgate h.chosen.lt hseen
      fun p hqp hp hs => h.chosen.highest p hqp hp (Or.inl hs)
    exact ⟨q, by rw [hfind, if_neg hvalid]⟩
  · obtain ⟨-, hlast, -⟩ := h.chosen.found.resolve_left hseen
    have hnone : ∀ p, p < 3 → ¬ SeenValid P s node p := by
      intro p hp hs
      rcases Nat.lt_trichotomy p q with hlt | rfl | hgt
      · exact absurd hs.1 (by rw [hlast p hlt]; decide)
      · exact hseen hs
      · exact h.chosen.highest p hgt hp (Or.inl hs)
    obtain ⟨e, he, hex, hlowe⟩ := exists_lowest (p := fun e => P.hasQueue s.mem node e = true)
      ⟨q, h.chosen.lt, hasQueue_of_pending hpend⟩
    have hfind := hl.findCmd_miss hgate hnone h.chosen.lt hpend hlast he hex
      fun p hp => Bool.eq_false_iff.mpr (hlowe p hp)
    exact ⟨e, by rw [hfind, if_neg hvalid]⟩

theorem BlockLayout.visit_progress {s s' : Cpu} {r : Word}
    (hl : BlockLayout P s.mem node base lst buf) (hinv : QueueInv P s.mem node) {t : Nat}
    (ht : t < thrQty) (hslip : ¬ ScanSlip P s node) (hserve : ServesQueue P s node q)
    (h : block P s node (thrPtr t) = some (r, s')) :
    CountedQueue.work QueuedCmd.qty (queueCmds P s'.mem node q) <
      CountedQueue.work QueuedCmd.qty (queueCmds P s.mem node q) := by
  obtain ⟨e, hfind⟩ := hl.findCmd_serves hserve
  obtain ⟨r₁, s₁, hblock, ⟨⟨s₂, hidle⟩, -⟩ | ⟨p, e', x, tl, -, hch, hex, -, -, hhead⟩⟩ :=
    hl.visit_served hinv.three_bit ht hslip
  · rw [hfind] at hidle
    cases hidle
  · rw [h] at hblock
    obtain ⟨-, rfl⟩ := Prod.mk.inj (Option.some.inj hblock)
    obtain rfl := hch.unique hserve.chosen
    have hprio := hinv.prio_eq p hch.lt hex x (by rw [hhead.head]; exact List.mem_cons_self)
    have hsub := hhead.flushed hprio p hch.lt hex (hinv.occupancy_le p hch.lt hex)
    rw [if_pos rfl] at hsub
    rw [hhead.head]
    exact Nat.lt_of_le_of_lt (CountedQueue.work_sublist hsub) (work_leftOf x tl)

/-! ### What a visit leaves alone -/

/-- A visit writes neither the write indices nor the lock bits. -/
theorem BlockLayout.visit_words {s s' : Cpu} {r : Word} (hl : BlockLayout P s.mem node base lst buf)
    {t : Nat} (ht : t < thrQty) (h : block P s node (thrPtr t) = some (r, s')) :
    s'.mem (base + 6) = s.mem (base + 6) ∧ s'.mem (base + 8) = s.mem (base + 8) := by
  have hthr : thrQty = 8 := rfl
  have hend : shctlEnd = 820 := rfl
  have hnot : ∀ n, (n = 6 ∨ n = 8) → base + n ∉ blockFootprint P s node (thrPtr t) := by
    intro n hn hmem
    simp only [blockFootprint, headFootprint, actionFootprint, Platform.w32, Platform.w64,
      List.mem_append, List.mem_cons, List.not_mem_nil, or_false, hl.adr_nodeFlags, adr_status,
      adr_badwaitcnt, hl.adr_defDest, hl.adr_rdIdxs, hl.adr_period, hl.adr_periodLo,
      adr_currtime P ht, adr_currtimeLo P ht, adr_deadline P ht, adr_deadlineLo P ht,
      List.mem_flatMap, List.mem_filter] at hmem
    have hctl : ∀ o, o < shctlEnd → P.ctl o ≠ base + n := fun o ho => hl.ctl_ne_node ho (by omega)
    rcases hmem with ((h | ⟨q, ⟨hq, hex⟩, hadr⟩) | h) | h
    · omega
    · have hq3 : q < 3 := mem_scanPrios.mp (by rw [scanPrios]; simpa using hq)
      rw [hasQueue_paint] at hex
      rw [hl.readElem_paint hq3 hex] at hadr
      exact hl.adr_headAct_ne hq3 hex (by omega) hadr.symm
    · rcases h with ((((h | h) | h) | h) | (h | h)) | (h | h)
      · exact hctl _ (by decide) h.symm
      · exact hctl _ (by decide) h.symm
      · omega
      · omega
      · omega
      · omega
      · exact hctl _ (by omega) h.symm
      · exact hctl _ (by omega) h.symm
    · rcases h with h | h
      · exact hctl _ (by omega) h.symm
      · exact hctl _ (by omega) h.symm
  have hframe := block_frame P h
  exact ⟨hframe _ (hnot 6 (Or.inl rfl)), hframe _ (hnot 8 (Or.inr rfl))⟩

/-- An element other than the head of a queue that holds something. -/
def NotHead (P : Platform) (m : Mem) (node : Word) (q i : Nat) : Prop :=
  0 < occupancy P m node q → i ≠ rdIdx P m node q % 4

theorem BlockLayout.visit_elem {s s' : Cpu} {r : Word} (hl : BlockLayout P s.mem node base lst buf)
    (hinv : QueueInv P s.mem node) {t : Nat} (ht : t < thrQty) (hslip : ¬ ScanSlip P s node)
    (h : block P s node (thrPtr t) = some (r, s')) {p i : Nat} (hp : p < 3)
    (hexp : P.hasQueue s.mem node p = true) (hi : i < 4) (hnot : NotHead P s.mem node p i) :
    cmdAt s'.mem (slotAdr buf p i) = cmdAt s.mem (slotAdr buf p i) := by
  have hpaint := hl.paint_keeps
  obtain ⟨r', s'', hblock, ⟨s₁, -, hmem⟩ | ⟨q, e, -, hch, hpend, hserves⟩⟩ :=
    hl.block_of_not_slip (thrPtr t) hslip
  all_goals
    rw [h] at hblock
    obtain ⟨-, rfl⟩ := Prod.mk.inj (Option.some.inj hblock)
  · rw [hmem]
    exact hpaint.elem p hp hexp i hi
  · have hex := hasQueue_of_pending hpend
    have hl₁ := hl.of_sameShape hpaint.shape
    have hex₁ : P.hasQueue (s.paint P node).mem node q = true := (hpaint.shape.queues q hch.lt).trans hex
    have hexp₁ : P.hasQueue (s.paint P node).mem node p = true := (hpaint.shape.queues p hp).trans hexp
    have hhead : ¬ (p = q ∧ i = rdIdx P s.mem node q % 4) := by
      rintro ⟨rfl, hi'⟩
      exact hnot (occupancy_pos hinv.three_bit hp hpend) hi'
    have hlt : rdIdx P s.mem node q % 4 < 4 := Nat.mod_lt _ (by decide)
    rw [readElem_eq_slot, ← hl.slotElem_same hpaint.shape hch.lt hex hlt] at hserves
    simp only [Serves] at hserves
    split at hserves
    · have hbook := hserves.2
      have helem := hl₁.booked_cmdAt (m := (s.paint P node).mem) hch.lt hex₁ hlt hbook hp hexp₁ hi
      rw [if_neg hhead] at helem
      exact helem.trans (hpaint.elem p hp hexp i hi)
    · obtain ⟨atype, htype, -, hbook⟩ := hserves
      have hbefore := BlockLayout.action_elems (s := atService P s node q) hl₁ htype ht
      have hl₂ := hl₁.of_sameShape hbefore.1
      have hslot := hl₁.slotElem_same hbefore.1 hch.lt hex₁ hlt
      have helem := hl₂.booked_cmdAt hch.lt ((hbefore.1.queues q hch.lt).trans hex₁) hlt
        (hbook.of_eq hslot) hp ((hbefore.1.queues p hp).trans hexp₁) hi
      rw [if_neg hhead] at helem
      exact helem.trans ((hbefore.2 p hp hexp₁ i hi).trans (hpaint.elem p hp hexp i hi))

end Visit

end DataMaster
