import BelProjects.DataMaster.Blocks.Visit

/-!
# What a command node does to the queues

`cmd` may run on any CPU that reaches the block: it sees the block, its lists and its
buffers through pointers of its own, into which it converts the pointers of the
block's owner.  A command that is accepted is appended to the queue of its priority.
-/

namespace DataMaster

variable (P P' : Platform)

/-- A pointer of the CPU that owns `tg`, as `cmd` converts it. -/
def peerPtr (tg ptr : Word) : Word := ptr - intBaseAdr + (tg &&& ~~~P.peerAdrMsk)

def cmdTg (m : Mem) (cnode : Word) : Word := P.ld m (cnode + cmdTarget)

/-- The command node `cnode` of a CPU `P'` targets the block `node` of CPU `P`: its
pointers reach the words of the block, and its own words are none of the block's. -/
structure CmdReaches (m : Mem) (node cnode : Word) (base : Nat) (lst : Nat → Nat)
    (buf : Nat → Nat → Nat) : Prop where
  tg_adr : ∀ k, k < 13 → P'.adr (cmdTg P' m cnode + BitVec.ofNat 32 (4 * k)) = base + k
  list_adr : ∀ q, q < 3 → P.hasQueue m node q = true → ∀ k, k < 2 →
    P'.adr (peerPtr P' (cmdTg P' m cnode) (m (base + (3 + q))) + BitVec.ofNat 32 (k * 4)) = lst q + k
  buf_adr : ∀ q, q < 3 → P.hasQueue m node q = true → ∀ j, j < 2 → ∀ k, k < 10 →
    P'.adr (peerPtr P' (cmdTg P' m cnode) (m (lst q + j)) + BitVec.ofNat 32 (4 * k)) = buf q j + k
  three_queues : P'.hasQueue m (cmdTg P' m cnode) 3 = false
  src : ∃ a, (∀ k, k < 13 → P'.adr (cnode + BitVec.ofNat 32 (4 * k)) = a + k) ∧
    Apart a 13 base 13 ∧ ∀ k, k < 13 → OffQueues P m node base lst buf (a + k)
  ctl : ∀ o, o < shctlEnd → OffQueues P m node base lst buf (P'.ctl o)
  ctl_node : Apart base 13 (P'.ctl 0) 205

/-- The command node writes a queue element. -/
def accepted (s : Cpu) (cnode : Word) : Bool :=
  let tg := cmdTg P' s.mem cnode
  P'.hasQueue s.mem tg (cmdPrio P' s.mem cnode) && tg != lm32NullPtr &&
    P'.ld (s.paint P' cnode).mem (tg + blockCmdqFlags) &&& blockCmdqDnwSmsk == 0

/-- The command that `cnode` makes out of its own words. -/
def newCmd (s : Cpu) (cnode thrData : Word) : QueuedCmd :=
  let m := (s.paint P' cnode).mem
  { validTime := cmdValid P' m cnode thrData, act := P'.ld m (cnode + cmdAct),
    arg1 := P'.ld m (cnode + (cmdAct + 4)), arg2 := P'.ld m (cnode + (cmdAct + 8)) }

def enqueued (s : Cpu) (cnode thrData : Word) : List QueuedCmd :=
  if accepted P' s cnode then [newCmd P' s cnode thrData] else []

theorem writeElem_eq (m : Mem) (tg : Word) (prio : Nat) :
    writeElem P' m tg prio =
      peerPtr P' tg (P'.ld m (peerPtr P' tg (P'.ld m (tg + (blockCmdqPtrs + BitVec.ofNat 32 (prio * 4)))) +
        BitVec.ofNat 32 (ringSlot (idxByte (P'.ld m (tg + blockCmdqWrIdxs)) prio) / 2 * 4))) +
      BitVec.ofNat 32 (ringSlot (idxByte (P'.ld m (tg + blockCmdqWrIdxs)) prio) % 2 * 20) := rfl

section Cmd

variable {P P'} {s : Cpu} {node cnode thrData : Word} {base : Nat} {lst : Nat → Nat}
  {buf : Nat → Nat → Nat} (hl : BlockLayout P s.mem node base lst buf)
  (hr : CmdReaches P P' s.mem node cnode base lst buf)
include hr

theorem CmdReaches.adr_wrIdxs : P'.adr (cmdTg P' s.mem cnode + blockCmdqWrIdxs) = base + 6 := by
  rw [show blockCmdqWrIdxs = BitVec.ofNat 32 (4 * 6) from rfl]
  exact hr.tg_adr 6 (by decide)

include hl

theorem CmdReaches.hasQueue_eq (q : Nat) :
    P'.hasQueue s.mem (cmdTg P' s.mem cnode) q = P.hasQueue s.mem node q := by
  have hflags : P'.adr (cmdTg P' s.mem cnode + nodeFlags) = base + 11 := by
    rw [show nodeFlags = BitVec.ofNat 32 (4 * 11) from rfl]
    exact hr.tg_adr 11 (by decide)
  rw [Platform.hasQueue, Platform.hasQueue, Platform.ld, Platform.ld, hflags, hl.adr_nodeFlags]

omit hl in
/-- Words `k` of the element that the next command goes to. -/
theorem CmdReaches.adr_writeElem {m : Mem} {q k : Nat} (hq : q < 3)
    (hex : P.hasQueue s.mem node q = true) (hk : k < 5)
    (hptr : m (base + (3 + q)) = s.mem (base + (3 + q)))
    (hlst : ∀ j, j < 2 → m (lst q + j) = s.mem (lst q + j)) :
    P'.adr (writeElem P' m (cmdTg P' s.mem cnode) q + BitVec.ofNat 32 (4 * k)) =
      slotAdr buf q (ringSlot (idxByte (m (base + 6)) q)) + k := by
  have hlt := ringSlot_lt (idxByte (m (base + 6)) q)
  have hqp : P'.adr (cmdTg P' s.mem cnode + (blockCmdqPtrs + BitVec.ofNat 32 (q * 4))) =
      base + (3 + q) := by
    rw [show blockCmdqPtrs = BitVec.ofNat 32 12 from rfl, ← BitVec.ofNat_add,
      show 12 + q * 4 = 4 * (3 + q) by omega]
    exact hr.tg_adr (3 + q) (by omega)
  have hwr : P'.ld m (cmdTg P' s.mem cnode + blockCmdqWrIdxs) = m (base + 6) := by
    rw [Platform.ld, hr.adr_wrIdxs]
  rw [writeElem_eq, hwr]
  generalize ringSlot (idxByte (m (base + 6)) q) = i at hlt ⊢
  rw [Platform.ld, Platform.ld, hqp, hptr, hr.list_adr q hq hex (i / 2) (by omega),
    hlst (i / 2) (by omega), BitVec.add_assoc, ← BitVec.ofNat_add,
    show i % 2 * 20 + 4 * k = 4 * (i % 2 * 5 + k) by omega,
    hr.buf_adr q hq hex (i / 2) (by omega) (i % 2 * 5 + k) (by omega), slotAdr, Nat.add_assoc]

end Cmd

/-! ### Storing a command -/

/-- From `m` to `m'` the command `x` is stored behind the last entry of queue `q`. -/
structure Stored (m m' : Mem) (base : Nat) (buf : Nat → Nat → Nat) (q : Nat) (x : QueuedCmd) :
    Prop where
  wr : m' (base + 6) =
    setIdxByte (m (base + 6)) q ((idxByte (m (base + 6)) q + 1) &&& qIdxMaxOvfMsk)
  elem : cmdAt m' (slotAdr buf q (ringSlot (idxByte (m (base + 6)) q))) = x
  frame : ∀ a, a ≠ base + 6 →
    (∀ k, k < 5 → a ≠ slotAdr buf q (ringSlot (idxByte (m (base + 6)) q)) + k) → m' a = m a

section Stored

variable {P P'} {m m' : Mem} {node : Word} {base : Nat} {lst : Nat → Nat} {buf : Nat → Nat → Nat}
  {q : Nat} {x : QueuedCmd}

theorem enqueue_stored {s : Cpu} {cnode e tg : Word} {tValid : Time} {a : Nat}
    (he : ∀ k, k < 5 → P'.adr (e + BitVec.ofNat 32 (4 * k)) =
      slotAdr buf q (ringSlot (idxByte (s.mem (base + 6)) q)) + k)
    (hwr : P'.adr (tg + blockCmdqWrIdxs) = base + 6)
    (hsrc : ∀ k, k < 13 → P'.adr (cnode + BitVec.ofNat 32 (4 * k)) = a + k)
    (hoff : ∀ k, k < 13 → ∀ j, j < 5 →
      a + k ≠ slotAdr buf q (ringSlot (idxByte (s.mem (base + 6)) q)) + j)
    (hne : ∀ j, j < 5 → slotAdr buf q (ringSlot (idxByte (s.mem (base + 6)) q)) + j ≠ base + 6)
    (hx : x = { validTime := tValid, act := P'.ld s.mem (cnode + cmdAct),
                arg1 := P'.ld s.mem (cnode + (cmdAct + 4)),
                arg2 := P'.ld s.mem (cnode + (cmdAct + 8)) }) :
    Stored s.mem (enqueue P' s cnode e tg q tValid).mem base buf q x := by
  generalize hA : slotAdr buf q (ringSlot (idxByte (s.mem (base + 6)) q)) = A at he hoff hne
  have h0 : P'.adr (e + tCmdTime) = A := by
    rw [show tCmdTime = BitVec.ofNat 32 (4 * 0) from rfl]
    exact he 0 (by decide)
  have h1 : P'.adr (e + tCmdTime + 4) = A + 1 := by
    rw [BitVec.add_assoc, show tCmdTime + 4 = BitVec.ofNat 32 (4 * 1) from rfl]
    exact he 1 (by decide)
  have h2 : P'.adr (e + tCmdAct) = A + 2 := by
    rw [show tCmdAct = BitVec.ofNat 32 (4 * 2) from rfl]
    exact he 2 (by decide)
  have h3 : P'.adr (e + (tCmdAct + 4)) = A + 3 := by
    rw [show tCmdAct + 4 = BitVec.ofNat 32 (4 * 3) from rfl]
    exact he 3 (by decide)
  have h4 : P'.adr (e + (tCmdAct + 8)) = A + 4 := by
    rw [show tCmdAct + 8 = BitVec.ofNat 32 (4 * 4) from rfl]
    exact he 4 (by decide)
  have c5 : P'.adr (cnode + cmdAct) = a + 5 := by
    rw [show cmdAct = BitVec.ofNat 32 (4 * 5) from rfl]
    exact hsrc 5 (by decide)
  have c6 : P'.adr (cnode + (cmdAct + 4)) = a + 6 := by
    rw [show cmdAct + 4 = BitVec.ofNat 32 (4 * 6) from rfl]
    exact hsrc 6 (by decide)
  have c7 : P'.adr (cnode + (cmdAct + 8)) = a + 7 := by
    rw [show cmdAct + 8 = BitVec.ofNat 32 (4 * 7) from rfl]
    exact hsrc 7 (by decide)
  have hne0 := hne 0 (by decide)
  rw [Nat.add_zero] at hne0
  have hmem : ∀ b, (enqueue P' s cnode e tg q tValid).mem b =
      if b = base + 6 then
        setIdxByte (s.mem (base + 6)) q ((idxByte (s.mem (base + 6)) q + 1) &&& qIdxMaxOvfMsk)
      else if b = A + 4 then s.mem (a + 7)
      else if b = A + 3 then s.mem (a + 6)
      else if b = A + 2 then s.mem (a + 5)
      else if b = A + 1 then loW tValid
      else if b = A then hiW tValid
      else s.mem b := by
    have hcopy : ∀ k, k < 13 → a + k ≠ A ∧ ∀ j, j < 5 → a + k ≠ A + j := fun k hk =>
      ⟨hoff k hk 0 (by decide), hoff k hk⟩
    intro b
    simp only [enqueue, Cpu.st_mem, Cpu.st64_mem, Platform.st64, Platform.ld, Platform.st_apply,
      h0, h1, h2, h3, h4, hwr, c5, c6, c7, if_neg hne0.symm, if_neg (hne 1 (by decide)).symm,
      if_neg (hne 2 (by decide)).symm, if_neg (hne 3 (by decide)).symm,
      if_neg (hne 4 (by decide)).symm, if_neg (hcopy 5 (by decide)).1,
      if_neg ((hcopy 5 (by decide)).2 1 (by decide)), if_neg (hcopy 6 (by decide)).1,
      if_neg ((hcopy 6 (by decide)).2 1 (by decide)), if_neg ((hcopy 6 (by decide)).2 2 (by decide)),
      if_neg (hcopy 7 (by decide)).1, if_neg ((hcopy 7 (by decide)).2 1 (by decide)),
      if_neg ((hcopy 7 (by decide)).2 2 (by decide)), if_neg ((hcopy 7 (by decide)).2 3 (by decide))]
  refine ⟨?_, ?_, ?_⟩
  · rw [hmem, if_pos rfl]
  · rw [hA, hx]
    simp only [cmdAt, hmem, Platform.ld, c5, c6, c7]
    rw [if_neg hne0, if_neg (hne 1 (by decide)), if_neg (hne 2 (by decide)),
      if_neg (hne 3 (by decide)), if_neg (hne 4 (by decide))]
    simp [hiW_append_loW]
  · intro b hb hbA
    rw [hA] at hbA
    have hb0 := hbA 0 (by decide)
    rw [Nat.add_zero] at hb0
    rw [hmem, if_neg hb, if_neg (hbA 4 (by decide)), if_neg (hbA 3 (by decide)),
      if_neg (hbA 2 (by decide)), if_neg (hbA 1 (by decide)), if_neg hb0]

variable (hl : BlockLayout P m node base lst buf) (hq : q < 3) (hex : P.hasQueue m node q = true)
include hl hq hex

theorem BlockLayout.stored_shape (h : Stored m m' base buf q x) :
    SameShape P m m' node lst ∧ m' (base + 7) = m (base + 7) := by
  have hslot : ringSlot (idxByte (m (base + 6)) q) < 4 := ringSlot_lt _
  have hnode : ∀ k, k < 13 → k ≠ 6 → m' (base + k) = m (base + k) := by
    intro k hk h6
    exact h.frame _ (by omega) fun j hj => (hl.slotAdr_ne_node hq hex hslot hj hk).symm
  refine ⟨hl.sameShape ?_ ?_ ?_, hnode 7 (by decide) (by decide)⟩
  · intro p _
    rw [Platform.hasQueue, Platform.hasQueue, Platform.ld, Platform.ld, hl.adr_nodeFlags,
      hnode 11 (by decide) (by decide)]
  · intro p hp
    exact hnode (3 + p) (by omega) (by omega)
  · intro p hp hexp j hj
    have hap := hl.node_list p hp hexp
    simp only [Apart] at hap
    exact h.frame _ (by omega) fun k hk => (hl.slotAdr_ne_list hq hex hslot hk hp hexp hj).symm

theorem BlockLayout.stored_cmdAt (h : Stored m m' base buf q x) {p j : Nat} (hp : p < 3)
    (hexp : P.hasQueue m node p = true) (hj : j < 4) :
    cmdAt m' (slotAdr buf p j) =
      if p = q ∧ j = ringSlot (idxByte (m (base + 6)) q) then x else cmdAt m (slotAdr buf p j) := by
  have hslot : ringSlot (idxByte (m (base + 6)) q) < 4 := ringSlot_lt _
  split
  · rename_i heq
    rw [heq.1, heq.2, h.elem]
  · rename_i hne
    have hkeep : ∀ k, k < 5 → m' (slotAdr buf p j + k) = m (slotAdr buf p j + k) := by
      intro k hk
      refine h.frame _ (hl.slotAdr_ne_node hp hexp hj hk (by decide)) fun l hl' => ?_
      refine hl.slotAdr_ne hp hexp hj hk hq hex hslot hl' ?_
      by_cases hpq : p = q
      · exact Or.inr (Or.inl fun hji => hne ⟨hpq, hji⟩)
      · exact Or.inl hpq
    have h0 := hkeep 0 (by decide)
    rw [Nat.add_zero] at h0
    simp only [cmdAt, h0, hkeep 1 (by decide), hkeep 2 (by decide), hkeep 3 (by decide),
      hkeep 4 (by decide)]

theorem BlockLayout.stored_step (hinv : QueueInv P m node) (h : Stored m m' base buf q x)
    (hprio : x.prio = q) (hroom : occupancy P m node q < 4) :
    QueueStep P m m' node lst [x] [] := by
  obtain ⟨hshape, hrd⟩ := hl.stored_shape hq hex h
  have hl' := hl.of_sameShape hshape
  have hrdlt : rdIdx P m node q < 2 * 4 := rdIdx_lt_eight q
  have hwrlt : wrIdx P m node q < 2 * 4 := wrIdx_lt_eight q
  have hrd' : ∀ p, rdIdx P m' node p = rdIdx P m node p := by
    intro p
    rw [hl'.rdIdx_eq, hl.rdIdx_eq, hrd]
  have hbyte : ∀ p, p < 3 → idxByte (m' (base + 6)) p =
      if p = q then (idxByte (m (base + 6)) q + 1) &&& qIdxMaxOvfMsk else idxByte (m (base + 6)) p := by
    intro p hp
    rw [h.wr, idxByte_setIdxByte _ (by omega)]
  refine ⟨hshape, ?_, ?_⟩
  · intro p hp hexp
    rw [hshape.queues p hp] at hexp
    obtain ⟨hrdp, hwrp⟩ := hinv.three_bit p hp hexp
    rw [Platform.ld, hl.adr_rdIdxs] at hrdp
    rw [Platform.ld, hl.adr_wrIdxs] at hwrp
    rw [Platform.ld, Platform.ld, hl.adr_rdIdxs, hl.adr_wrIdxs, hrd, hbyte p hp]
    refine ⟨hrdp, ?_⟩
    split
    · rw [toNat_and_ovf]
      omega
    · exact hwrp
  · intro p hp hexp
    rw [ofPrio_singleton, hprio]
    by_cases hpq : p = q
    · subst hpq
      have hwr' : wrIdx P m' node p = (wrIdx P m node p + 1) % (2 * 4) := by
        rw [hl'.wrIdx_eq, hbyte p hp, if_pos rfl, toNat_and_ovf, BitVec.toNat_add, hl.wrIdx_eq,
          show (1 : BitVec 8).toNat = 1 from rfl]
        omega
      have hcount := Ring.count_push hrdlt hwrlt (by rw [← occupancy]; omega)
      have hslot : ringSlot (idxByte (m (base + 6)) p) =
          (rdIdx P m node p + occupancy P m node p) % 4 := by
        have hocc : occupancy P m node p = _ := Ring.count_eq hrdlt hwrlt
        rw [ringSlot_eq, ← hl.wrIdx_eq]
        split at hocc <;> omega
      have hpush := Ring.entries_push (N := 4)
        (f := fun j => cmdAt m (slotAdr buf p j)) (g := fun j => cmdAt m' (slotAdr buf p j))
        hroom fun j hj hne => by
          rw [← hslot] at hne
          rw [hl.stored_cmdAt hp hexp h hp hexp hj, if_neg fun hh => hne hh.2]
      rw [if_pos rfl, hl'.queueCmds_eq hp ((hshape.queues p hp).trans hexp), hrd' p, occupancy,
        hrd' p, hwr', hcount, ← occupancy, hpush, ← hl.queueCmds_eq hp hexp, ← hslot, h.elem]
      exact .push _ _ (by rw [length_queueCmds]; exact hroom)
    · have hwr' : wrIdx P m' node p = wrIdx P m node p := by
        rw [hl'.wrIdx_eq, hbyte p hp, if_neg hpq, hl.wrIdx_eq]
      have hsame : queueCmds P m' node p = queueCmds P m node p := by
        rw [hl'.queueCmds_eq hp ((hshape.queues p hp).trans hexp), hl.queueCmds_eq hp hexp, occupancy,
          occupancy, hrd' p, hwr']
        apply Ring.entries_congr
        intro j _
        rw [hl.stored_cmdAt hq hex h hp hexp (Nat.mod_lt _ (by decide)), if_neg fun hh => hpq hh.1]
      rw [if_neg fun heq => hpq heq.symm, hsame]
      exact .idle _

end Stored

/-! ### The step of a command node -/

section CmdStep

variable {P P'} {s : Cpu} {node cnode : Word} {base : Nat} {lst : Nat → Nat} {buf : Nat → Nat → Nat}
  (hl : BlockLayout P s.mem node base lst buf)
  (hr : CmdReaches P P' s.mem node cnode base lst buf)
include hl hr

theorem CmdReaches.paint_keeps : KeepsQueues P s.mem (s.paint P' cnode).mem node base lst buf := by
  obtain ⟨a, hadr, -, hoff⟩ := hr.src
  have hflags : P'.adr (cnode + nodeFlags) = a + 11 := by
    rw [show nodeFlags = BitVec.ofNat 32 (4 * 11) from rfl]
    exact hadr 11 (by decide)
  refine hl.keepsQueues (W := [a + 11]) ?_ ?_
  · intro b hb
    rw [Cpu.paint, Cpu.st_mem, P'.st_other]
    rw [hflags]
    exact fun h => hb (List.mem_singleton.mpr h)
  · intro b hb
    rw [List.mem_singleton.mp hb]
    exact hoff 11 (by decide)

omit hl in
theorem CmdReaches.paint_other : ∃ a, (∀ k, k < 13 → P'.adr (cnode + BitVec.ofNat 32 (4 * k)) = a + k) ∧
    Apart a 13 base 13 ∧ (∀ k, k < 13 → OffQueues P s.mem node base lst buf (a + k)) ∧
    ∀ b, b ≠ a + 11 → (s.paint P' cnode).mem b = s.mem b := by
  obtain ⟨a, hadr, hap, hoff⟩ := hr.src
  have hflags : P'.adr (cnode + nodeFlags) = a + 11 := by
    rw [show nodeFlags = BitVec.ofNat 32 (4 * 11) from rfl]
    exact hadr 11 (by decide)
  refine ⟨a, hadr, hap, hoff, fun b hb => ?_⟩
  rw [Cpu.paint, Cpu.st_mem, P'.st_other (by rwa [hflags])]

omit hl in
/-- The other words of a command node. -/
theorem CmdReaches.ld_painted {k : Nat} (hk : k < 13) (hne : k ≠ 11) :
    P'.ld (s.paint P' cnode).mem (cnode + BitVec.ofNat 32 (4 * k)) =
      P'.ld s.mem (cnode + BitVec.ofNat 32 (4 * k)) := by
  obtain ⟨a, hadr, -, -, hpaint⟩ := hr.paint_other
  rw [Platform.ld, Platform.ld, hadr k hk, hpaint _ (by omega)]

omit hl in
/-- The lock bits of the target. -/
theorem CmdReaches.flags_painted :
    P'.ld (s.paint P' cnode).mem (cmdTg P' s.mem cnode + blockCmdqFlags) = s.mem (base + 8) := by
  obtain ⟨a, -, hap, -, hpaint⟩ := hr.paint_other
  have hqflags : P'.adr (cmdTg P' s.mem cnode + blockCmdqFlags) = base + 8 := by
    rw [show blockCmdqFlags = BitVec.ofNat 32 (4 * 8) from rfl]
    exact hr.tg_adr 8 (by decide)
  simp only [Apart] at hap
  rw [Platform.ld, hqflags, hpaint _ (by omega)]

omit hl in
theorem CmdReaches.refused_of_locked (hlock : s.mem (base + 8) &&& blockCmdqDnwSmsk ≠ 0) :
    accepted P' s cnode = false := by
  rw [accepted, hr.flags_painted, beq_false_of_ne hlock, Bool.and_false]

theorem CmdReaches.cmd_refused (thrData : Word) (h : accepted P' s cnode = false) :
    KeepsQueues P s.mem (cmd P' s cnode thrData).2.mem node base lst buf := by
  have htg : P'.ld s.mem (cnode + cmdTarget) = cmdTg P' s.mem cnode := rfl
  simp only [cmd, htg]
  split
  · refine hl.keepsQueues (W := [P'.adr abort1Ptr, P'.adr statusPtr]) ?_ ?_
    · intro b hb
      simp only [List.mem_cons, List.not_mem_nil, or_false, not_or] at hb
      rw [Cpu.setStatus, Cpu.st_mem, P'.st_other hb.2, Cpu.st_mem, P'.st_other hb.1]
    · intro b hb
      rcases List.mem_cons.mp hb with rfl | hb
      · rw [adr_abort1]
        exact hr.ctl _ (by decide)
      · rw [List.mem_singleton.mp hb, adr_status]
        exact hr.ctl _ (by decide)
  · rename_i hqueue
    split
    · exact hr.paint_keeps hl
    · rename_i hnull
      split
      · exact hr.paint_keeps hl
      · rename_i hdnw
        refine absurd h ?_
        simp [accepted, hqueue, hnull, not_not.mp hdnw]

theorem CmdReaches.cmd_accepted (thrData : Word) (h : accepted P' s cnode = true) :
    cmdPrio P' s.mem cnode < 3 ∧ P.hasQueue s.mem node (cmdPrio P' s.mem cnode) = true ∧
      (newCmd P' s cnode thrData).prio = cmdPrio P' s.mem cnode ∧
      Stored (s.paint P' cnode).mem (cmd P' s cnode thrData).2.mem base buf (cmdPrio P' s.mem cnode)
        (newCmd P' s cnode thrData) := by
  have htg : P'.ld s.mem (cnode + cmdTarget) = cmdTg P' s.mem cnode := rfl
  simp only [accepted, Bool.and_eq_true, bne_iff_ne, beq_iff_eq] at h
  obtain ⟨⟨hqueue, hnull⟩, hdnw⟩ := h
  have hlt4 : cmdPrio P' s.mem cnode < 4 := by
    rw [cmdPrio, BitVec.toNat_and]
    exact Nat.lt_of_le_of_lt Nat.and_le_right (by decide)
  have hq : cmdPrio P' s.mem cnode < 3 := by
    by_contra hge
    rw [show cmdPrio P' s.mem cnode = 3 by omega, hr.three_queues] at hqueue
    exact absurd hqueue (by decide)
  have hex := hqueue
  rw [hr.hasQueue_eq hl] at hex
  have hkeep := hr.paint_keeps hl
  obtain ⟨a, hadr, -, hoff, hpaint⟩ := hr.paint_other
  refine ⟨hq, hex, ?_, ?_⟩
  · have hword : P'.ld (s.paint P' cnode).mem (cnode + cmdAct) = P'.ld s.mem (cnode + cmdAct) :=
      hr.ld_painted (k := 5) (by decide) (by decide)
    rw [QueuedCmd.prio, newCmd, cmdPrio, hword]
  · have hslot : ringSlot (idxByte ((s.paint P' cnode).mem (base + 6)) (cmdPrio P' s.mem cnode)) < 4 :=
      ringSlot_lt _
    simp only [cmd, htg, hqueue, Bool.true_eq_false, if_false, if_neg hnull, hdnw, ne_eq,
      not_true_eq_false]
    refine enqueue_stored (a := a) ?_ hr.adr_wrIdxs hadr ?_ ?_ rfl
    · intro k hk
      exact hr.adr_writeElem hq hex hk
        (hpaint _ fun heq => (hoff 11 (by decide)).off_node (3 + cmdPrio P' s.mem cnode) (by omega)
          (by omega) (by omega) heq.symm)
        fun j hj => hpaint _ fun heq => (hoff 11 (by decide)).off_list _ hq hex j hj heq.symm
    · intro k hk j hj
      rw [slotAdr, Nat.add_assoc]
      exact (hoff k hk).off_buf _ hq hex _ (by omega) _ (by omega)
    · intro j hj
      exact hl.slotAdr_ne_node hq hex hslot hj (by decide)

/-- A command node leaves the lock bits of its target alone. -/
theorem CmdReaches.cmd_flags (thrData : Word) :
    (cmd P' s cnode thrData).2.mem (base + 8) = s.mem (base + 8) := by
  obtain ⟨a, -, hap, -, hother⟩ := hr.paint_other
  have hpaint : (s.paint P' cnode).mem (base + 8) = s.mem (base + 8) := by
    simp only [Apart] at hap
    exact hother _ (by omega)
  cases hacc : accepted P' s cnode with
  | true =>
      obtain ⟨hq, hex, -, hstored⟩ := hr.cmd_accepted hl thrData hacc
      rw [hstored.frame _ (by omega) fun k hk =>
        (hl.slotAdr_ne_node hq hex (ringSlot_lt _) hk (by decide)).symm, hpaint]
  | false =>
      have hctl := hr.ctl_node
      have htg : P'.ld s.mem (cnode + cmdTarget) = cmdTg P' s.mem cnode := rfl
      simp only [cmd, htg]
      split
      · simp only [Apart, Platform.ctl, sharedOffs] at hctl
        rw [Cpu.setStatus, Cpu.st_mem, P'.st_other, Cpu.st_mem, P'.st_other]
        · rw [adr_abort1, Platform.ctl, sharedOffs]
          omega
        · rw [adr_status, Platform.ctl, sharedOffs]
          omega
      · rename_i hqueue
        split
        · exact hpaint
        · rename_i hnull
          split
          · exact hpaint
          · rename_i hdnw
            refine absurd hacc ?_
            simp [accepted, hqueue, hnull, not_not.mp hdnw]

/-- **A command node is a step of the queues**, unless it writes to a full queue: what
it enqueues is appended to the queue of its priority. -/
theorem CmdReaches.cmd_step (hinv : QueueInv P s.mem node) (thrData : Word)
    (hroom : accepted P' s cnode = true →
      occupancy P s.mem node (cmdPrio P' s.mem cnode) < 4) :
    QueueStep P s.mem (cmd P' s cnode thrData).2.mem node lst (enqueued P' s cnode thrData) [] := by
  cases hacc : accepted P' s cnode with
  | false =>
      rw [enqueued, hacc, if_neg (by decide)]
      exact hl.queueStep_keeps (hr.cmd_refused hl thrData hacc) hinv
  | true =>
      obtain ⟨hq, hex, hprio, hstored⟩ := hr.cmd_accepted hl thrData hacc
      have hkeep := hr.paint_keeps hl
      have hl₁ := hl.of_sameShape hkeep.shape
      have hsame := hl.queueCmds_keeps hkeep hq hex
      have hstep := hl₁.stored_step hq ((hkeep.shape.queues _ hq).trans hex)
        (hl.queueInv_keeps hkeep hinv) hstored hprio
        (by rw [occupancy, hsame.1, hsame.2.1]; exact hroom hacc)
      rw [enqueued, hacc, if_pos rfl]
      refine ⟨hkeep.shape.trans hstep.shape, hstep.three_bit, ?_⟩
      intro p hp hexp
      have hmove := hstep.move p hp ((hkeep.shape.queues p hp).trans hexp)
      rwa [(hl.queueCmds_keeps hkeep hp hexp).2.2] at hmove

end CmdStep

end DataMaster
