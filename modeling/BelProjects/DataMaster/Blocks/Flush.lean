import BelProjects.DataMaster.Blocks.Fifo

/-!
# Flush commands

A flush moves the read indices of the queues it names to their write indices.  In its own
queue it stays one behind, because the queue is popped afterwards.  So the flushed queues are
empty if the queue that is popped is the one the flush came from.
-/

namespace DataMaster

/-- From `m` to `m'` the queues that the flush `x` names have been emptied, and queue `q`, where
the flush came from, has been popped if it is not among them. -/
structure EmptiesFlushed (P : Platform) (m m' : Mem) (node : Word) (q : Nat) (x : QueuedCmd) :
    Prop where
  flushed : ∀ p, p < 3 → x.flushes p = true → rdIdx P m' node p = wrIdx P m' node p
  others : ∀ p, p < 3 → x.flushes p = false →
    rdIdx P m' node p = if p = q then (rdIdx P m node p + 1) % 8 else rdIdx P m node p
  wr : P.ld m' (node + blockCmdqWrIdxs) = P.ld m (node + blockCmdqWrIdxs)

section Flush

variable {P : Platform} {s : Cpu} {node : Word} {base : Nat} {lst : Nat → Nat}
  {buf : Nat → Nat → Nat} (hl : BlockLayout P s.mem node base lst buf) {q : Nat}
include hl

theorem BlockLayout.popped_iff {e : Nat} (hserve : ServesQueue P s node q)
    (hqty : (actQty (headAct P s.mem node q)).toNat ≤ 1)
    (htype : ActType.ofNum? (actType (headAct P s.mem node q)) ≠ none)
    (hfind : findCmd P s node = .command (readElem P s.mem node q) e (atService P s node q)) :
    e = q ↔ ¬ ScanSlip P s node := by
  have hq := hserve.chosen.lt
  have hpend := hserve.chosen.pending
  constructor
  · rintro rfl ⟨hdnr, hdiffer, hnone | ⟨q', hch, hbad⟩⟩
    · exact absurd (hpend.symm.trans (hnone e hq)) (by decide)
    obtain rfl := hch.unique hserve.chosen
    rcases hbad with ⟨hseen, ⟨p, hp, hex⟩, -⟩ | ⟨-, hnone⟩
    · -- found behind the loop, the loop has gone on to a lower queue
      obtain ⟨-, hlast, -⟩ := hch.found.resolve_left hseen
      have hunseen : ∀ p, p < 3 → ¬ SeenValid P s node p := by
        intro p hp hs
        rcases Nat.lt_trichotomy p q' with hlt | rfl | hgt
        · exact absurd hs.1 (by rw [hlast p hlt]; decide)
        · exact hseen hs
        · exact hch.highest p hgt hp (Or.inl hs)
      obtain ⟨l, hl3, hexl, hlowest⟩ := exists_lowest (p := fun e => P.hasQueue s.mem node e = true)
        ⟨p, by omega, hex⟩
      have hmiss := hl.findCmd_miss ⟨hdnr, hdiffer⟩ hunseen hq hpend hlast hl3 hexl
        fun p hp => Bool.eq_false_iff.mpr (hlowest p hp)
      rw [if_neg (BitVec.not_lt.mpr hserve.valid), hfind] at hmiss
      obtain ⟨-, rfl, -⟩ := Found.command.inj hmiss
      exact hlowest p hp hex
    · exact htype hnone
  · intro hslip
    rcases hl.findCmd_of_not_slip hslip with ⟨s', hidle, -⟩ | ⟨p, e', hfind', hch, -, -, hpop, -⟩
    · rw [hfind] at hidle
      cases hidle
    · obtain rfl := hch.unique hserve.chosen
      rw [hfind] at hfind'
      obtain ⟨-, rfl, -⟩ := Found.command.inj hfind'
      exact hpop.resolve_right (by omega)

/-- What a flush with one execution left does to the indices, popped from queue `e`. -/
theorem BlockLayout.empties_iff {e : Nat} {t : Nat} {r : Word} {s' : Cpu} (hq : q < 3)
    (hpend : isPending P s.mem node q = true) {x : QueuedCmd}
    (hx : x = slotCmd P s.mem (readElem P s.mem node q)) (hprio : x.prio = q)
    (hflush : actType (headAct P s.mem node q) = 3) (hqty : actQty (headAct P s.mem node q) = 1)
    (hwr : P.ld s'.mem (node + blockCmdqWrIdxs) = P.ld s.mem (node + blockCmdqWrIdxs))
    (h : Serves P (atService P s node q) node (thrPtr t) (readElem P s.mem node q) e r s') :
    EmptiesFlushed P s.mem s'.mem node q x ↔ e = q := by
  have hex := hasQueue_of_pending hpend
  have hl₁ : BlockLayout P (atService P s node q).mem node base lst buf :=
    hl.of_sameShape hl.paint_sameShape
  have hact : P.ld (atService P s node q).mem (readElem P s.mem node q + tCmdAct) =
      headAct P s.mem node q := hl.headAct_paint hq hex
  have hslot : slotCmd P (atService P s node q).mem (readElem P s.mem node q) = x := by
    have hlt : rdIdx P s.mem node q % 4 < 4 := Nat.mod_lt _ (by decide)
    rw [hx, readElem_eq_slot, hl.slotCmd_eq hq hex hlt, hl.slotCmd_eq hq hex hlt]
    exact hl.paint_keeps.elem q hq hex _ hlt
  have htype : ActType.ofNum? (actType (headAct P s.mem node q)) = some .flush := by rw [hflush]; rfl
  have hne : actQty (headAct P s.mem node q) ≠ 0 := by rw [hqty]; decide
  simp only [Serves, hact, if_neg hne, if_pos hqty] at h
  obtain ⟨atype, hatype, -, hbook⟩ := h
  obtain rfl : atype = .flush := Option.some.inj (hatype.symm.trans htype)
  have hfl : Flushed P (atService P s node q).mem (actionFuncs P .flush (atService P s node q) node
      (readElem P s.mem node q) (thrPtr t)).2.mem node base lst buf _ :=
    hl₁.flushed_action (by rw [hact]; exact hflush)
  rw [hslot] at hfl
  -- the read indices before the pop
  have hrd : ∀ p, p < 3 → rdIdx P (actionFuncs P .flush (atService P s node q) node
      (readElem P s.mem node q) (thrPtr t)).2.mem node p =
        if x.flushes p then (wrIdx P s.mem node p + (if p = q then 7 else 0)) % 8
        else rdIdx P s.mem node p := by
    intro p hp
    rw [hfl.rd_eq p hp, hprio]
    have hrd₁ : rdIdx P (atService P s node q).mem node p = rdIdx P s.mem node p := hl.rdIdx_paint p
    have hwr₁ : wrIdx P (atService P s node q).mem node p = wrIdx P s.mem node p :=
      (hl.queuesSame_paint rfl).wr_eq p hp
    rw [hrd₁, hwr₁]
  have hwrs : ∀ p, wrIdx P s'.mem node p = wrIdx P s.mem node p := by
    intro p
    rw [wrIdx, wrIdx, hwr]
  have hlt : ∀ p, wrIdx P s.mem node p < 8 := fun p => wrIdx_lt_eight p
  have hlt' : ∀ p, rdIdx P s.mem node p < 8 := fun p => rdIdx_lt_eight p
  constructor
  · intro hemp
    by_contra hne'
    have hown := hbook.rd_eq q hq
    rw [if_neg fun h => hne' h.symm, hrd q hq] at hown
    by_cases hown' : x.flushes q = true
    · have hsame := hemp.flushed q hq hown'
      rw [hwrs, hown, if_pos hown', if_pos rfl] at hsame
      have := hlt q
      omega
    · have hsame := hemp.others q hq (Bool.eq_false_iff.mpr hown')
      rw [hown, if_neg hown', if_pos rfl] at hsame
      have := hlt' q
      omega
  · rintro rfl
    refine ⟨fun p hp hfls => ?_, fun p hp hfls => ?_, hwr⟩
    · rw [hwrs, hbook.rd_eq p hp, hrd p hp, if_pos hfls]
      have := hlt p
      split <;> omega
    · rw [hbook.rd_eq p hp, hrd p hp, if_neg (Bool.eq_false_iff.mp hfls)]

/-- **A flush empties the queues it names** and pops its own, if and only if the visit that
executes it does not slip. Then no later run of visits that do not slip executes a command that
was pending in one of them: what it executes of their priorities was enqueued later. -/
theorem flush_empties_iff (hinv : QueueInv P s.mem node) {t : Nat} (ht : t < thrQty)
    (hserve : ServesQueue P s node q) {x : QueuedCmd}
    (hx : x = slotCmd P s.mem (readElem P s.mem node q))
    (hflush : actType (headAct P s.mem node q) = 3) (hqty : actQty (headAct P s.mem node q) = 1) :
    ∃ r s', block P s node (thrPtr t) = some (r, s') ∧
      (EmptiesFlushed P s.mem s'.mem node q x ↔ ¬ ScanSlip P s node) ∧
      (¬ ScanSlip P s node → ∀ st, (queueSystem P node base lst buf s'.mem).Reachable st →
        ∀ p, p < 3 → P.hasQueue s.mem node p = true → x.flushes p = true →
          ((ofPrio p st.out).map QueuedCmd.body).Sublist
            (CountedQueue.runs QueuedCmd.qty QueuedCmd.body (ofPrio p st.inp))) := by
  have hq := hserve.chosen.lt
  have hpend := hserve.chosen.pending
  have hex := hasQueue_of_pending hpend
  have htype : ActType.ofNum? (actType (headAct P s.mem node q)) ≠ none := by
    rw [hflush]
    exact Option.some_ne_none _
  have hprio : x.prio = q := by
    have hlt : rdIdx P s.mem node q % 4 < 4 := Nat.mod_lt _ (by decide)
    refine hinv.prio_eq q hq hex x ?_
    rw [hx, readElem_eq_slot, hl.slotCmd_eq hq hex hlt,
      hl.queueCmds_cons hq hex (occupancy_pos hinv.three_bit hq hpend)]
    exact List.mem_cons_self
  obtain ⟨e, hfind⟩ := hl.findCmd_serves hserve
  have hact : P.ld (atService P s node q).mem (readElem P s.mem node q + tCmdAct) =
      headAct P s.mem node q := hl.headAct_paint hq hex
  cases hcmd : serveCmd P (atService P s node q) node (thrPtr t) (readElem P s.mem node q) e
      (P.defDest s.mem node) with
  | none =>
    obtain ⟨-, hnone⟩ := serveCmd_eq_none.mp hcmd
    rw [hact] at hnone
    exact absurd hnone htype
  | some out =>
    obtain ⟨r, s'⟩ := out
    have hblock : block P s node (thrPtr t) = some (r, s') := by rw [block_eq, hfind]; exact hcmd
    have hwr : P.ld s'.mem (node + blockCmdqWrIdxs) = P.ld s.mem (node + blockCmdqWrIdxs) := by
      rw [Platform.ld, Platform.ld, hl.adr_wrIdxs, (hl.visit_words ht hblock).1]
    have hempties := hl.empties_iff hq hpend hx hprio hflush hqty hwr
      (hl.serves_of_serveCmd hq hpend hcmd)
    have hpopped := hl.popped_iff hserve (by rw [hqty]; decide) htype hfind
    refine ⟨r, s', hblock, hempties.trans hpopped, ?_⟩
    intro hslip st hst p hp hexp hfls
    have hemp := (hempties.trans hpopped).2 hslip
    obtain ⟨r', s'', hblock', hstep⟩ := hl.visit_step hinv ht hslip
    rw [hblock] at hblock'
    obtain ⟨-, rfl⟩ := Prod.mk.inj (Option.some.inj hblock')
    have hexp' := (hstep.shape.queues p hp).trans hexp
    have hnil : queueCmds P s'.mem node p = [] := by
      rw [queueCmds, occupancy, hemp.flushed p hp hfls, Ring.count_self (wrIdx_lt_eight p),
        Ring.entries_zero]
    have hfifo := fifoInv_reachable (hl.of_sameShape hstep.shape) (hstep.inv hinv) st hst
    have hruns := (hfifo.moves p hp hexp').runs_sublist
    rw [hnil, List.nil_append] at hruns
    exact (List.sublist_append_left _ _).trans hruns

end Flush

/-! ### Flushes of a sample block -/

theorem fullBlock_inv : QueueInv samplePlatform fullBlockMem sampleBlock where
  three_bit := by unfold ThreeBit; decide +kernel
  occupancy_le := by decide +kernel
  prio_eq := by decide +kernel

theorem fullBlock_serves : ServesQueue samplePlatform fullBlockCpu sampleBlock 2 where
  dnr := by decide +kernel
  chosen := chosen_of_seen (by decide) (by unfold SeenValid; decide +kernel) fun p h2 h3 => by omega
  valid := by decide +kernel

/-- A flush in the queue for interlocks of the full queue for low priority. -/
theorem flush_empties_sample : ∃ r s',
    block samplePlatform fullBlockCpu sampleBlock (thrPtr 0) = some (r, s') ∧
      (EmptiesFlushed samplePlatform fullBlockMem s'.mem sampleBlock 2
          { validTime := 10, act := 0x12300001, arg1 := 0, arg2 := 0 } ↔
        ¬ ScanSlip samplePlatform fullBlockCpu sampleBlock) := by
  have hl : BlockLayout samplePlatform fullBlockCpu.mem sampleBlock 0x20000400
      (fun q => 0x20000440 + 16 * q) (fun q j => 0x20000480 + 32 * q + 13 * j) :=
    sampleBlock_layout.of_sameShape ⟨by decide +kernel, by decide +kernel, by decide +kernel⟩
  obtain ⟨r, s', hblock, hiff, -⟩ := flush_empties_iff hl fullBlock_inv (t := 0) (by decide)
    fullBlock_serves (x := { validTime := 10, act := 0x12300001, arg1 := 0, arg2 := 0 })
    (by decide +kernel) (by decide +kernel) (by decide +kernel)
  exact ⟨r, s', hblock, hiff⟩

/-- `sampleBlock` with a flush of the queues for interlocks and for low priority in the queue
for interlocks. It becomes valid between two readings of the clock. -/
def lateFlush : Cpu :=
  { sampleBlockCpu with mem := samplePlatform.st sampleBlockMem (sampleElem + tCmdAct) 0x52300001 }

/-- **A flush that slips empties neither queue**: behind the visit the read index of the queue for
low priority is one ahead of its write index, and that of the queue for interlocks one behind. -/
theorem flush_slips :
    executed samplePlatform lateFlush sampleBlock =
        [{ validTime := 10, act := 0x52300001, arg1 := 0, arg2 := 0 }] ∧
      QueuedCmd.flushes { validTime := 10, act := 0x52300001, arg1 := 0, arg2 := 0 } 0 = true ∧
      QueuedCmd.flushes { validTime := 10, act := 0x52300001, arg1 := 0, arg2 := 0 } 2 = true ∧
      ((block samplePlatform lateFlush sampleBlock (thrPtr 0)).map fun o =>
        (rdIdx samplePlatform o.2.mem sampleBlock 0, wrIdx samplePlatform o.2.mem sampleBlock 0)) =
          some (1, 0) ∧
      ((block samplePlatform lateFlush sampleBlock (thrPtr 0)).map fun o =>
        (rdIdx samplePlatform o.2.mem sampleBlock 2, wrIdx samplePlatform o.2.mem sampleBlock 2)) =
          some (0, 1) := by
  refine ⟨?_, ?_, ?_, ?_, ?_⟩ <;> decide +kernel

end DataMaster
