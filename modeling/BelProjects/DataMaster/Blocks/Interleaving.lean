import BelProjects.DataMaster.Blocks.Fifo
import BelProjects.DataMaster.Blocks.Host

/-!
# Host and firmware writing to one queue

The host's steps interleave with command nodes, visits and everything else.  The index
word that the host writes comes from its copy of the block: it is right as long as no
command node has enqueued since the download.  The write lock sees to that once it is
set, so what remains is the time between download and lock.
-/

namespace DataMaster

variable (P : Platform)

/-- Memory, logs of what was enqueued and executed, how many visits served each queue,
and where the host is. -/
structure SendState extends QueueState where
  served : Nat → Nat
  host : HostPhase

/-- A step of the firmware, of the host, or of anything else outside the queues. -/
inductive SendEvent (node : Word) (base : Nat) (lst : Nat → Nat) (buf : Nat → Nat → Nat) :
    SendState → SendState → Prop
  | cmd {st : SendState} {P' : Platform} {s : Cpu} {cnode thrData : Word} :
      s.mem = st.mem → CmdReaches P P' s.mem node cnode base lst buf →
      (accepted P' s cnode = true → st.host.unlockedMirror = false ∧
        occupancy P s.mem node (cmdPrio P' s.mem cnode) < 4) →
      SendEvent node base lst buf st
        ⟨⟨(cmd P' s cnode thrData).2.mem, st.inp ++ enqueued P' s cnode thrData, st.out⟩,
          st.served, st.host⟩
  | visit {st : SendState} {s s' : Cpu} {t : Nat} {r : Word} {served : Nat → Nat} :
      s.mem = st.mem → t < thrQty → ¬ ScanSlip P s node →
      block P s node (thrPtr t) = some (r, s') →
      (∀ q, (ServesQueue P s node q → served q = st.served q + 1) ∧
        (¬ ServesQueue P s node q → served q = st.served q)) →
      SendEvent node base lst buf st
        ⟨⟨s'.mem, st.inp, st.out ++ executed P s node⟩, served, st.host⟩
  | other {st : SendState} {m' : Mem} :
      KeepsQueues P st.mem m' node base lst buf → m' (base + 8) = st.mem (base + 8) →
      SendEvent node base lst buf st ⟨⟨m', st.inp, st.out⟩, st.served, st.host⟩
  | host {st : SendState} {h' : HostPhase} {m' : Mem} {new : List QueuedCmd} :
      SendStep P node st.host st.mem h' m' new →
      SendEvent node base lst buf st ⟨⟨m', st.inp ++ new, st.out⟩, st.served, h'⟩

/-- The commands of a plan fit to the index word `w`, one after the other. -/
def PlanFrom (m : Mem) (node : Word) (buf : Nat → Nat → Nat) : Word → List HostCmd → Prop
  | _, [] => True
  | w, c :: plan => (c.prio < 3 ∧ P.hasQueue m node c.prio = true ∧ c.cmd.prio = c.prio ∧
      c.elemAdr = slotAdr buf c.prio (ringSlot (idxByte w c.prio)) ∧
      c.newIdxs = setIdxByte w c.prio ((idxByte w c.prio + 1) &&& qIdxMaxOvfMsk)) ∧
      PlanFrom m node buf c.newIdxs plan

def planEnd (w : Word) (plan : List HostCmd) : Word := plan.foldl (fun _ c => c.newIdxs) w

/-- Number of commands of priority `q` in a plan. -/
def planned (q : Nat) (plan : List HostCmd) : Nat := plan.countP fun c => c.prio == q

/-- The plan fits the block: it starts at its index word and leaves no queue over-full. -/
structure Fits (m : Mem) (node : Word) (base : Nat) (buf : Nat → Nat → Nat) (plan : List HostCmd) :
    Prop where
  from_idxs : PlanFrom P m node buf (m (base + 6)) plan
  room : ∀ q, q < 3 → P.hasQueue m node q = true → occupancy P m node q + planned q plan ≤ 4

def WriteLocked (m : Mem) (base : Nat) : Prop := m (base + 8) &&& blockCmdqDnwSmsk ≠ 0

/-- What the host may rely on in each of its phases. -/
def HostInv (m : Mem) (node : Word) (base : Nat) (lst : Nat → Nat) (buf : Nat → Nat → Nat) :
    HostPhase → Prop
  | .idle => True
  | .creating mirror plan => SameShape P m mirror node lst ∧
      PlanFrom P m node buf (m (base + 6)) plan ∧ mirror (base + 6) = planEnd (m (base + 6)) plan ∧
      ∀ q, q < 3 → P.hasQueue m node q = true → occupancy P mirror node q ≤ 4 ∧
        occupancy P m node q + planned q plan ≤ occupancy P mirror node q
  | .statRead _ plan => Fits P m node base buf plan
  | .locked _ plan | .polled _ plan _ _ _ | .ready _ plan =>
      Fits P m node base buf plan ∧ WriteLocked m base
  | .elemWritten _ c plan => Fits P m node base buf (c :: plan) ∧ WriteLocked m base ∧
      cmdAt m c.elemAdr = c.cmd

section Plan

variable {P} {m m' : Mem} {node : Word} {base : Nat} {lst : Nat → Nat} {buf : Nat → Nat → Nat}

theorem PlanFrom.of_sameShape (h : SameShape P m m' node lst) :
    ∀ {w : Word} {plan : List HostCmd}, PlanFrom P m node buf w plan → PlanFrom P m' node buf w plan := by
  intro w plan
  induction plan generalizing w with
  | nil => exact fun _ => trivial
  | cons c plan ih =>
      rintro ⟨⟨hq, hex, hrest⟩, hplan⟩
      exact ⟨⟨hq, (h.queues _ hq).trans hex, hrest⟩, ih hplan⟩

theorem planFrom_snoc {c : HostCmd} : ∀ {w : Word} {plan : List HostCmd},
    PlanFrom P m node buf w plan → PlanFrom P m node buf (planEnd w plan) [c] →
    PlanFrom P m node buf w (plan ++ [c]) := by
  intro w plan
  induction plan generalizing w with
  | nil => exact fun _ h => h
  | cons d plan ih => exact fun h hc => ⟨h.1, ih h.2 hc⟩

theorem planEnd_snoc (w : Word) (plan : List HostCmd) (c : HostCmd) :
    planEnd w (plan ++ [c]) = c.newIdxs := by
  rw [planEnd, List.foldl_append]
  rfl

theorem planned_snoc (q : Nat) (plan : List HostCmd) (c : HostCmd) :
    planned q (plan ++ [c]) = planned q plan + if c.prio = q then 1 else 0 := by
  rw [planned, List.countP_append, planned, List.countP_singleton]
  by_cases h : c.prio = q <;> simp [h]

theorem planned_cons (q : Nat) (plan : List HostCmd) (c : HostCmd) :
    planned q (c :: plan) = planned q plan + if c.prio = q then 1 else 0 := by
  rw [planned, List.countP_cons, planned]
  by_cases h : c.prio = q <;> simp [h]

/-- A plan still fits when queues get shorter and the index word stays. -/
theorem Fits.of_le {plan : List HostCmd} (h : Fits P m node base buf plan)
    (hshape : SameShape P m m' node lst) (hwr : m' (base + 6) = m (base + 6))
    (hle : ∀ q, q < 3 → P.hasQueue m node q = true → occupancy P m' node q ≤ occupancy P m node q) :
    Fits P m' node base buf plan where
  from_idxs := by
    rw [hwr]
    exact PlanFrom.of_sameShape hshape h.from_idxs
  room q hq hex := by
    rw [hshape.queues q hq] at hex
    have h₁ := h.room q hq hex
    have h₂ := hle q hq hex
    omega

theorem Fits.notHead {c : HostCmd} {plan : List HostCmd} (h : Fits P m node base buf (c :: plan))
    (hl : BlockLayout P m node base lst buf) :
    NotHead P m node c.prio (ringSlot (idxByte (m (base + 6)) c.prio)) := by
  intro hpos heq
  obtain ⟨hq, hex, -⟩ := h.from_idxs.1
  have hroom := h.room c.prio hq hex
  rw [planned_cons, if_pos rfl] at hroom
  have hrd : rdIdx P m node c.prio < 2 * 4 := rdIdx_lt_eight c.prio
  have hwr : wrIdx P m node c.prio < 2 * 4 := wrIdx_lt_eight c.prio
  have hocc : occupancy P m node c.prio = _ := Ring.count_eq hrd hwr
  rw [ringSlot_eq, ← hl.wrIdx_eq] at heq
  split at hocc <;> omega

/-- From `m` to `m'` index word and free elements stay, and queues only get shorter. -/
structure Leaves (P : Platform) (m m' : Mem) (node : Word) (base : Nat) (lst : Nat → Nat)
    (buf : Nat → Nat → Nat) : Prop where
  shape : SameShape P m m' node lst
  wr : m' (base + 6) = m (base + 6)
  le : ∀ q, q < 3 → P.hasQueue m node q = true → occupancy P m' node q ≤ occupancy P m node q
  elem : ∀ q, q < 3 → P.hasQueue m node q = true → ∀ i, i < 4 → NotHead P m node q i →
    cmdAt m' (slotAdr buf q i) = cmdAt m (slotAdr buf q i)

theorem Fits.of_leaves {plan : List HostCmd} (h : Fits P m node base buf plan)
    (hleave : Leaves P m m' node base lst buf) : Fits P m' node base buf plan :=
  h.of_le hleave.shape hleave.wr hleave.le

/-- The element of the next command stays where it is. -/
theorem Fits.cmdAt_of_leaves {c : HostCmd} {plan : List HostCmd}
    (h : Fits P m node base buf (c :: plan)) (hl : BlockLayout P m node base lst buf)
    (hleave : Leaves P m m' node base lst buf) : cmdAt m' c.elemAdr = cmdAt m c.elemAdr := by
  obtain ⟨hq, hex, -, hadr, -⟩ := h.from_idxs.1
  rw [hadr]
  exact hleave.elem c.prio hq hex _ (ringSlot_lt _) (h.notHead hl)

/-- A copy of the block that commands are planned in stays as good as it is. -/
theorem HostInv.creating_of_leaves {mirror : Mem} {plan : List HostCmd}
    (hinv : HostInv P m node base lst buf (.creating mirror plan))
    (hleave : Leaves P m m' node base lst buf) :
    HostInv P m' node base lst buf (.creating mirror plan) := by
  obtain ⟨hmirror, hplan, hend, hroom⟩ := hinv
  have hshape := hleave.shape
  refine ⟨⟨?_, ?_, ?_⟩, ?_, by rw [hleave.wr]; exact hend, ?_⟩
  · intro q hq
    rw [hmirror.queues q hq, hshape.queues q hq]
  · intro q hq hex
    rw [hshape.queues q hq] at hex
    rw [hmirror.lists q hq hex, hshape.lists q hq hex]
  · intro q hq hex j hj
    rw [hshape.queues q hq] at hex
    rw [hmirror.bufs q hq hex j hj, hshape.bufs q hq hex j hj]
  · rw [hleave.wr]
    exact PlanFrom.of_sameShape hshape hplan
  · intro q hq hex
    rw [hshape.queues q hq] at hex
    have h₁ := hroom q hq hex
    have h₂ := hleave.le q hq hex
    exact ⟨h₁.1, by omega⟩

/-- Steps that leave index word, lock bits and free elements alone, and only shorten
queues, do not matter to the host. -/
theorem HostInv.of_leaves {h : HostPhase} (hinv : HostInv P m node base lst buf h)
    (hl : BlockLayout P m node base lst buf) (hleave : Leaves P m m' node base lst buf)
    (hflags : m' (base + 8) = m (base + 8)) : HostInv P m' node base lst buf h := by
  cases h with
  | idle => trivial
  | creating mirror plan => exact hinv.creating_of_leaves hleave
  | statRead stat plan => exact Fits.of_leaves hinv hleave
  | locked stat plan | ready stat plan =>
      exact ⟨hinv.1.of_leaves hleave, by rw [WriteLocked, hflags]; exact hinv.2⟩
  | polled stat plan flags wrIdxs rdIdxs =>
      exact ⟨hinv.1.of_leaves hleave, by rw [WriteLocked, hflags]; exact hinv.2⟩
  | elemWritten stat c plan =>
      obtain ⟨hfits, hlock, hcmd⟩ := hinv
      exact ⟨hfits.of_leaves hleave, by rw [WriteLocked, hflags]; exact hlock,
        (hfits.cmdAt_of_leaves hl hleave).trans hcmd⟩

end Plan

/-! ### Steps of the host -/

section Host

variable {P} {m m' : Mem} {node : Word} {base : Nat} {lst : Nat → Nat} {buf : Nat → Nat → Nat}

theorem cmdAt_storeCmd (m : Mem) (a : Nat) (x : QueuedCmd) : cmdAt (storeCmd m a x) a = x := by
  simp [cmdAt, storeCmd, hiW_append_loW]

theorem storeCmd_other {a b : Nat} (x : QueuedCmd) (h : ∀ k, k < 5 → b ≠ a + k) :
    storeCmd m a x b = m b := by
  have h0 := h 0 (by decide)
  rw [Nat.add_zero] at h0
  rw [storeCmd, Function.update_of_ne (h 4 (by decide)), Function.update_of_ne (h 3 (by decide)),
    Function.update_of_ne (h 2 (by decide)), Function.update_of_ne (h 1 (by decide)),
    Function.update_of_ne h0]

theorem KeepsQueues.refl : KeepsQueues P m m node base lst buf :=
  ⟨⟨fun _ _ => rfl, fun _ _ _ => rfl, fun _ _ _ _ _ => rfl⟩, rfl, rfl, fun _ _ _ _ _ => rfl⟩

variable (hl : BlockLayout P m node base lst buf)
include hl

/-- Writing the lock bits. -/
theorem BlockLayout.keeps_flags (w : Word) :
    KeepsQueues P m (P.st m (node + blockCmdqFlags) w) node base lst buf := by
  refine hl.keepsQueues (W := [base + 8]) ?_ ?_
  · intro a ha
    rw [P.st_other]
    rw [hl.adr_qFlags]
    exact fun h => ha (List.mem_singleton.mpr h)
  · intro a ha
    rw [List.mem_singleton.mp ha]
    exact hl.off_base (n := 8) (by decide) (by omega)

/-- Writing an element that is not in use. -/
theorem BlockLayout.free_elem_step (hinv : QueueInv P m node) {q : Nat} (hq : q < 3)
    (hex : P.hasQueue m node q = true) (hroom : occupancy P m node q < 4) {x : QueuedCmd}
    (hm' : m' = storeCmd m (slotAdr buf q (ringSlot (idxByte (m (base + 6)) q))) x) :
    QueueStep P m m' node lst [] [] := by
  have hslot : ringSlot (idxByte (m (base + 6)) q) < 4 := ringSlot_lt _
  have hother : ∀ a, (∀ k, k < 5 → a ≠ slotAdr buf q (ringSlot (idxByte (m (base + 6)) q)) + k) →
      m' a = m a := fun a ha => by rw [hm']; exact storeCmd_other x ha
  have hnode : ∀ k, k < 13 → m' (base + k) = m (base + k) := fun k hk =>
    hother _ fun j hj => (hl.slotAdr_ne_node hq hex hslot hj hk).symm
  have hshape : SameShape P m m' node lst := by
    refine hl.sameShape ?_ ?_ ?_
    · intro p _
      rw [Platform.hasQueue, Platform.hasQueue, Platform.ld, Platform.ld, hl.adr_nodeFlags,
        hnode 11 (by decide)]
    · intro p hp
      exact hnode (3 + p) (by omega)
    · intro p hp hexp j hj
      exact hother _ fun k hk => (hl.slotAdr_ne_list hq hex hslot hk hp hexp hj).symm
  have hl' := hl.of_sameShape hshape
  refine ⟨hshape, ?_, ?_⟩
  · intro p hp hexp
    rw [hshape.queues p hp] at hexp
    have hbit := hinv.three_bit p hp hexp
    rw [Platform.ld, Platform.ld, hl.adr_rdIdxs, hl.adr_wrIdxs] at hbit
    rwa [Platform.ld, Platform.ld, hl.adr_rdIdxs, hl.adr_wrIdxs, hnode 6 (by decide),
      hnode 7 (by decide)]
  · intro p hp hexp
    have hsame : queueCmds P m' node p = queueCmds P m node p := by
      have hocc : occupancy P m' node p = occupancy P m node p := by
        rw [occupancy, occupancy, hl'.rdIdx_eq, hl.rdIdx_eq, hl'.wrIdx_eq, hl.wrIdx_eq,
          hnode 6 (by decide), hnode 7 (by decide)]
      rw [hl'.queueCmds_eq hp ((hshape.queues p hp).trans hexp), hl.queueCmds_eq hp hexp, hocc,
        hl'.rdIdx_eq, hl.rdIdx_eq, hnode 7 (by decide), ← hl.rdIdx_eq]
      apply Ring.entries_congr
      intro i hi
      have hlt : (rdIdx P m node p + i) % 4 < 4 := Nat.mod_lt _ (by decide)
      have hword : ∀ k, k < 5 → m' (slotAdr buf p ((rdIdx P m node p + i) % 4) + k) =
          m (slotAdr buf p ((rdIdx P m node p + i) % 4) + k) := by
        intro k hk
        refine hother _ fun j hj => hl.slotAdr_ne hp hexp hlt hk hq hex hslot hj ?_
        by_cases hpq : p = q
        · -- a pending entry lies before the slot that the write index selects
          subst hpq
          have hrd : rdIdx P m node p < 2 * 4 := rdIdx_lt_eight p
          have hwr : wrIdx P m node p < 2 * 4 := wrIdx_lt_eight p
          have hocc' : occupancy P m node p = _ := Ring.count_eq hrd hwr
          refine Or.inr (Or.inl ?_)
          rw [ringSlot_eq, ← hl.wrIdx_eq]
          split at hocc' <;> omega
        · exact Or.inl hpq
      have h0 := hword 0 (by decide)
      rw [Nat.add_zero] at h0
      simp only [cmdAt, h0, hword 1 (by decide), hword 2 (by decide), hword 3 (by decide),
        hword 4 (by decide)]
    rw [hsame]
    exact .idle _

omit hl in
/-- The host's index in its copy, and the slot it selects. -/
theorem eIdx_eq (w : Word) (q : Nat) :
    (eIdx w q).toNat = (idxByte w q).toNat % 8 ∧
      (eIdx w q &&& qIdxMaxMsk).toNat = ringSlot (idxByte w q) ∧
      (eIdx w q + 1) &&& qIdxMaxOvfMsk = (idxByte w q + 1) &&& qIdxMaxOvfMsk := by
  have h8 : (eIdx w q).toNat = (idxByte w q).toNat % 8 := toNat_and_ovf _
  refine ⟨h8, ?_, ?_⟩
  · rw [BitVec.toNat_and, show qIdxMaxMsk.toNat = 2 ^ 2 - 1 from rfl,
      Nat.and_two_pow_sub_one_eq_mod, h8, ringSlot_eq]
  · apply BitVec.eq_of_toNat_eq
    rw [toNat_and_ovf, toNat_and_ovf, BitVec.toNat_add, BitVec.toNat_add, h8]
    omega

omit hl in
theorem lockWord_set (stat : Word) :
    lockWord (wrRequest.readIn 0 stat) (rdRequest.readIn 1 stat) &&& blockCmdqDnwSmsk ≠ 0 := by
  have hset : (wrRequest.readIn 0 stat).set = true := rfl
  rw [lockWord, hset, Bool.true_or, if_pos rfl]
  split <;> decide

/-- Advancing the write index of a queue that is not full adds one to its occupancy. -/
theorem BlockLayout.occupancy_advanced (hl' : BlockLayout P m' node base lst buf)
    (hrd : m' (base + 7) = m (base + 7)) {q p : Nat} (hwr : m' (base + 6) =
      setIdxByte (m (base + 6)) q ((idxByte (m (base + 6)) q + 1) &&& qIdxMaxOvfMsk))
    (hroom : occupancy P m node q < 4) (hp : p < 3) :
    occupancy P m' node p = occupancy P m node p + if q = p then 1 else 0 := by
  have hrd' : rdIdx P m' node p = rdIdx P m node p := by rw [hl'.rdIdx_eq, hl.rdIdx_eq, hrd]
  rw [occupancy, hrd', hl'.wrIdx_eq, hwr, idxByte_setIdxByte _ (by omega)]
  by_cases hpq : q = p
  · subst hpq
    rw [if_pos rfl, if_pos rfl, toNat_and_ovf, BitVec.toNat_add, show (1 : BitVec 8).toNat = 1 from rfl,
      show ((idxByte (m (base + 6)) q).toNat + 1) % 2 ^ 8 % 8 % 8 = (wrIdx P m node q + 1) % (2 * 4) by
        rw [hl.wrIdx_eq]; omega]
    exact Ring.count_push (rdIdx_lt_eight q) (wrIdx_lt_eight q) (Nat.lt_trans hroom (by decide))
  · rw [if_neg fun h => hpq h.symm, if_neg hpq, ← hl.wrIdx_eq]
    rfl

theorem BlockLayout.lt_of_not_full {q : Nat} (hle : occupancy P m node q ≤ 4)
    (hfull : ¬ (ringSlot (idxByte (m (base + 6)) q) = ringSlot (idxByte (m (base + 7)) q) ∧
      wrIdx P m node q ≠ rdIdx P m node q)) : occupancy P m node q < 4 := by
  refine Nat.lt_of_le_of_ne hle fun h4 => hfull ⟨?_, fun heq => ?_⟩
  · rw [ringSlot_eq, ringSlot_eq, ← hl.wrIdx_eq, ← hl.rdIdx_eq]
    have hocc : occupancy P m node q = _ := Ring.count_eq (rdIdx_lt_eight q) (wrIdx_lt_eight q)
    split at hocc <;> omega
  · rw [occupancy, heq, Ring.count_self (rdIdx_lt_eight q)] at h4
    exact absurd h4 (by decide)

/-- Planning one more command. -/
theorem BlockLayout.hostInv_create {mirror : Mem} {plan : List HostCmd} {q a : Nat} {x : QueuedCmd}
    (hinv : HostInv P m node base lst buf (.creating mirror plan)) (hq : q < 3)
    (hex : P.hasQueue mirror node q = true) (hprio : x.prio = q)
    (hadr : getCmdWrAdrs P mirror node q = some a) :
    HostInv P m node base lst buf
      (.creating (P.st mirror (node + blockCmdqWrIdxs) (getCmdInc P mirror node q))
        (plan ++ [⟨q, x, a, getCmdInc P mirror node q⟩])) := by
  obtain ⟨hshape, hplan, hend, hroom⟩ := hinv
  have hlm := hl.of_sameShape hshape
  have hexm : P.hasQueue m node q = true := (hshape.queues q hq).symm.trans hex
  obtain ⟨h8, hslot, hinc⟩ := eIdx_eq (mirror (base + 6)) q
  have h8' := (eIdx_eq (mirror (base + 7)) q).1
  have hslot' := (eIdx_eq (mirror (base + 7)) q).2.1
  have hnew : getCmdInc P mirror node q =
      setIdxByte (mirror (base + 6)) q ((idxByte (mirror (base + 6)) q + 1) &&& qIdxMaxOvfMsk) := by
    rw [getCmdInc, Platform.ld, hlm.adr_wrIdxs, hinc]
  -- the element is free in the copy
  have hfree : occupancy P mirror node q < 4 ∧
      a = slotAdr buf q (ringSlot (idxByte (mirror (base + 6)) q)) := by
    simp only [getCmdWrAdrs, Platform.ld, hlm.adr_wrIdxs, hlm.adr_rdIdxs] at hadr
    split at hadr
    · exact absurd hadr (by simp)
    split at hadr
    · exact absurd hadr (by simp)
    rename_i hfull
    refine ⟨?_, ?_⟩
    · refine hlm.lt_of_not_full (hroom q hq hexm).1 ?_
      rintro ⟨hsame, hne⟩
      refine hfull ⟨?_, fun heq => hne ?_⟩
      · exact BitVec.eq_of_toNat_eq (by rw [hslot, hslot', hsame])
      · rw [hlm.wrIdx_eq, hlm.rdIdx_eq, ← h8, ← h8', heq]
    · rw [← Option.some.inj hadr, hslot, slotAdr, ← hlm.adr_slotTime hq hex (ringSlot_lt _),
        show tCmdTime = 0#32 from rfl, BitVec.add_zero]
  obtain ⟨hfree, rfl⟩ := hfree
  have hother : ∀ b, b ≠ base + 6 →
      P.st mirror (node + blockCmdqWrIdxs) (getCmdInc P mirror node q) b = mirror b := by
    intro b hb
    rw [P.st_other]
    rwa [hlm.adr_wrIdxs]
  have hwr : P.st mirror (node + blockCmdqWrIdxs) (getCmdInc P mirror node q) (base + 6) =
      getCmdInc P mirror node q := by
    rw [← hlm.adr_wrIdxs]
    exact P.ld_st_same _ _ _
  have hshape' : SameShape P mirror
      (P.st mirror (node + blockCmdqWrIdxs) (getCmdInc P mirror node q)) node lst := by
    refine hlm.sameShape ?_ ?_ ?_
    · intro p _
      rw [Platform.hasQueue, Platform.hasQueue, Platform.ld, Platform.ld, hlm.adr_nodeFlags,
        hother _ (by omega)]
    · intro p hp
      exact hother _ (by omega)
    · intro p hp hexp j hj
      have hap := hlm.node_list p hp hexp
      simp only [Apart] at hap
      exact hother _ (by omega)
  refine ⟨hshape.trans hshape', ?_, by rw [hwr, planEnd_snoc], ?_⟩
  · refine planFrom_snoc hplan ⟨⟨hq, hexm, hprio, ?_, ?_⟩, trivial⟩
    · rw [← hend]
    · rw [← hend, ← hnew]
  · intro p hp hexp
    have hocc := hlm.occupancy_advanced (hlm.of_sameShape hshape') (hother _ (by omega))
      (hwr.trans hnew) hfree hp
    obtain ⟨hle, hsum⟩ := hroom p hp hexp
    rw [planned_snoc, hocc]
    by_cases hpq : q = p
    · subst hpq
      rw [if_pos rfl]
      omega
    · rw [if_neg hpq]
      omega

/-- Writing the element of the next command. -/
theorem BlockLayout.fits_elem {c : HostCmd} {plan : List HostCmd} (hinv : QueueInv P m node)
    (hfits : Fits P m node base buf (c :: plan)) :
    QueueStep P m (storeCmd m c.elemAdr c.cmd) node lst [] [] ∧
      Fits P (storeCmd m c.elemAdr c.cmd) node base buf (c :: plan) ∧
      storeCmd m c.elemAdr c.cmd (base + 8) = m (base + 8) := by
  obtain ⟨hq, hex, -, hadr, -⟩ := hfits.from_idxs.1
  have hroom := hfits.room c.prio hq hex
  rw [planned_cons, if_pos rfl] at hroom
  have hstep : QueueStep P m (storeCmd m c.elemAdr c.cmd) node lst [] [] :=
    hl.free_elem_step hinv hq hex (by omega) (by rw [hadr])
  have hl' := hl.of_sameShape hstep.shape
  have hnode : ∀ k, k < 13 → storeCmd m c.elemAdr c.cmd (base + k) = m (base + k) := by
    intro k hk
    rw [hadr]
    exact storeCmd_other _ fun j hj => (hl.slotAdr_ne_node hq hex (ringSlot_lt _) hj hk).symm
  refine ⟨hstep, hfits.of_le hstep.shape (hnode 6 (by decide)) ?_, hnode 8 (by decide)⟩
  intro p hp hexp
  rw [occupancy, occupancy, hl'.rdIdx_eq, hl'.wrIdx_eq, hnode 6 (by decide), hnode 7 (by decide),
    ← hl.rdIdx_eq, ← hl.wrIdx_eq]

/-- Writing the index word of the next command. -/
theorem BlockLayout.fits_idxs {c : HostCmd} {plan : List HostCmd} (hinv : QueueInv P m node)
    (hfits : Fits P m node base buf (c :: plan)) (hcmd : cmdAt m c.elemAdr = c.cmd) :
    QueueStep P m (P.st m (node + blockCmdqWrIdxs) c.newIdxs) node lst [c.cmd] [] ∧
      Fits P (P.st m (node + blockCmdqWrIdxs) c.newIdxs) node base buf plan ∧
      P.st m (node + blockCmdqWrIdxs) c.newIdxs (base + 8) = m (base + 8) := by
  obtain ⟨⟨hq, hex, hprio, hadr, hnew⟩, hplan⟩ := hfits.from_idxs
  have hroom := hfits.room c.prio hq hex
  rw [planned_cons, if_pos rfl] at hroom
  have hother : ∀ b, b ≠ base + 6 → P.st m (node + blockCmdqWrIdxs) c.newIdxs b = m b := by
    intro b hb
    rw [P.st_other]
    rwa [hl.adr_wrIdxs]
  have hwr : P.st m (node + blockCmdqWrIdxs) c.newIdxs (base + 6) = c.newIdxs := by
    rw [← hl.adr_wrIdxs]
    exact P.ld_st_same _ _ _
  have hstored : Stored m (P.st m (node + blockCmdqWrIdxs) c.newIdxs) base buf c.prio c.cmd := by
    refine ⟨hwr.trans hnew, ?_, fun a ha _ => hother a ha⟩
    have hword : ∀ k, k < 5 → P.st m (node + blockCmdqWrIdxs) c.newIdxs
        (slotAdr buf c.prio (ringSlot (idxByte (m (base + 6)) c.prio)) + k) =
          m (slotAdr buf c.prio (ringSlot (idxByte (m (base + 6)) c.prio)) + k) :=
      fun k hk => hother _ (hl.slotAdr_ne_node hq hex (ringSlot_lt _) hk (by decide))
    have h0 := hword 0 (by decide)
    rw [Nat.add_zero] at h0
    rw [← hcmd, hadr, cmdAt, cmdAt, h0, hword 1 (by decide), hword 2 (by decide),
      hword 3 (by decide), hword 4 (by decide)]
  have hstep := hl.stored_step hq hex hinv hstored hprio (by omega)
  refine ⟨hstep, ⟨?_, ?_⟩, hother _ (by omega)⟩
  · rw [hwr]
    exact PlanFrom.of_sameShape hstep.shape hplan
  · intro p hp hexp
    rw [hstep.shape.queues p hp] at hexp
    have hroom' := hfits.room p hp hexp
    rw [planned_cons] at hroom'
    rw [hl.occupancy_advanced (hl.of_sameShape hstep.shape) (hother _ (by omega)) (hwr.trans hnew)
      (by omega) hp]
    omega

/-- **Every step of the host is a step of the queues**, and keeps what the host relies
on. -/
theorem SendStep.queueStep {h h' : HostPhase} {new : List QueuedCmd}
    (hstep : SendStep P node h m h' m' new) (hinv : QueueInv P m node)
    (hhost : HostInv P m node base lst buf h) :
    QueueStep P m m' node lst new [] ∧ HostInv P m' node base lst buf h' := by
  have hstay : QueueStep P m m node lst [] [] := hl.queueStep_keeps .refl hinv
  have hflags : ∀ w, QueueStep P m (P.st m (node + blockCmdqFlags) w) node lst [] [] :=
    fun w => hl.queueStep_keeps (hl.keeps_flags w) hinv
  cases hstep with
  | download =>
      refine ⟨hstay, ⟨fun _ _ => rfl, fun _ _ _ => rfl, fun _ _ _ _ _ => rfl⟩, trivial, rfl, ?_⟩
      exact fun q hq hex => ⟨hinv.occupancy_le q hq hex, Nat.le_refl _⟩
  | create hq hex hprio hadr => exact ⟨hstay, hl.hostInv_create hhost hq hex hprio hadr⟩
  | readStat =>
      obtain ⟨-, hplan, -, hroom⟩ := hhost
      refine ⟨hstay, hplan, fun q hq hex => ?_⟩
      exact Nat.le_trans (hroom q hq hex).2 (hroom q hq hex).1
  | @lock _ stat plan =>
      have hkeep := hl.keeps_flags (lockWord (wrRequest.readIn 0 stat) (rdRequest.readIn 1 stat))
      refine ⟨hflags _, hhost.of_le hkeep.shape hkeep.wr fun q hq hex => ?_, ?_⟩
      · obtain ⟨hrd, hwr, -⟩ := hl.queueCmds_keeps hkeep hq hex
        rw [occupancy, occupancy, hrd, hwr]
      · rw [WriteLocked, ← hl.adr_qFlags]
        change P.ld (P.st m (node + blockCmdqFlags) _) (node + blockCmdqFlags) &&& _ ≠ 0
        rw [P.ld_st_same]
        exact lockWord_set stat
  | poll => exact ⟨hstay, hhost⟩
  | notReady _ => exact ⟨hstay, hhost⟩
  | ready _ => exact ⟨hstay, hhost⟩
  | @writeElem _ stat c plan =>
      obtain ⟨hfits, hlock⟩ := hhost
      obtain ⟨hstep, hfits', h8⟩ := hl.fits_elem hinv hfits
      refine ⟨hstep, hfits', ?_, cmdAt_storeCmd _ _ _⟩
      rwa [WriteLocked, h8]
  | @writeIdxs _ stat c plan =>
      obtain ⟨hfits, hlock, hcmd⟩ := hhost
      obtain ⟨hstep, hfits', h8⟩ := hl.fits_idxs hinv hfits hcmd
      refine ⟨hstep, hfits', ?_⟩
      rwa [WriteLocked, h8]
  | unlock => exact ⟨hflags _, trivial⟩
  | giveUp => exact ⟨hflags _, trivial⟩

end Host

/-! ### Runs -/

section Run

variable {P} {node : Word} {base : Nat} {lst : Nat → Nat} {buf : Nat → Nat → Nat} {m₀ : Mem}

theorem BlockLayout.leaves_of_keeps {m m' : Mem} (hl : BlockLayout P m node base lst buf)
    (hkeep : KeepsQueues P m m' node base lst buf) : Leaves P m m' node base lst buf := by
  refine ⟨hkeep.shape, hkeep.wr, fun q hq hex => ?_, fun q hq hex i hi _ => hkeep.elem q hq hex i hi⟩
  obtain ⟨hrd, hwr, -⟩ := hl.queueCmds_keeps hkeep hq hex
  rw [occupancy, occupancy, hrd, hwr]

theorem BlockLayout.leaves_of_visit {s s' : Cpu} {t : Nat} {r : Word}
    (hl : BlockLayout P s.mem node base lst buf) (hinv : QueueInv P s.mem node) (ht : t < thrQty)
    (hslip : ¬ ScanSlip P s node) (hblock : block P s node (thrPtr t) = some (r, s')) :
    QueueStep P s.mem s'.mem node lst [] (executed P s node) ∧
      Leaves P s.mem s'.mem node base lst buf := by
  obtain ⟨r', s'', hblock', hstep⟩ := hl.visit_step hinv ht hslip
  rw [hblock] at hblock'
  obtain ⟨-, rfl⟩ := Prod.mk.inj (Option.some.inj hblock')
  refine ⟨hstep, hstep.shape, (hl.visit_words ht hblock).1, fun q hq hex => ?_,
    fun q hq hex i hi hnot => hl.visit_elem hinv ht hslip hblock hq hex hi hnot⟩
  have hle := (hstep.move q hq hex).length_le_of_nil
  rwa [length_queueCmds, length_queueCmds] at hle

theorem HostInv.of_keeps {m m' : Mem} {h : HostPhase} (hinv : HostInv P m node base lst buf h)
    (hl : BlockLayout P m node base lst buf) (hkeep : KeepsQueues P m m' node base lst buf)
    (hflags : m' (base + 8) = m (base + 8)) : HostInv P m' node base lst buf h :=
  hinv.of_leaves hl (hl.leaves_of_keeps hkeep) hflags

theorem HostInv.of_visit {s s' : Cpu} {t : Nat} {r : Word} {h : HostPhase}
    (hhost : HostInv P s.mem node base lst buf h) (hl : BlockLayout P s.mem node base lst buf)
    (hinv : QueueInv P s.mem node) (ht : t < thrQty) (hslip : ¬ ScanSlip P s node)
    (hblock : block P s node (thrPtr t) = some (r, s')) : HostInv P s'.mem node base lst buf h :=
  hhost.of_leaves hl (hl.leaves_of_visit hinv ht hslip hblock).2 (hl.visit_words ht hblock).2

/-- While the host relies on what it read, no command node gets through. -/
theorem HostInv.idle_of_accepted {P' : Platform} {s : Cpu} {cnode : Word} {h : HostPhase}
    (hhost : HostInv P s.mem node base lst buf h)
    (hr : CmdReaches P P' s.mem node cnode base lst buf) (hacc : accepted P' s cnode = true)
    (hopen : h.unlockedMirror = false) : h = .idle := by
  have hlocked : ¬ WriteLocked s.mem base := by
    intro hlock
    rw [hr.refused_of_locked hlock] at hacc
    exact absurd hacc (by decide)
  cases h with
  | idle => rfl
  | creating mirror plan => exact absurd hopen (by simp [HostPhase.unlockedMirror])
  | statRead stat plan => exact absurd hopen (by simp [HostPhase.unlockedMirror])
  | locked stat plan => exact absurd hhost.2 hlocked
  | polled stat plan flags wrIdxs rdIdxs => exact absurd hhost.2 hlocked
  | ready stat plan => exact absurd hhost.2 hlocked
  | elemWritten stat c plan => exact absurd hhost.2.1 hlocked

/-- The queues and the work done on them, when `served q` visits have served queue `q`. -/
structure Accounted (P : Platform) (node : Word) (lst : Nat → Nat) (m₀ : Mem) (st : QueueState)
    (served : Nat → Nat) : Prop where
  fifo : FifoInv P node lst m₀ st
  work : ∀ q, q < 3 → P.hasQueue m₀ node q = true →
    served q + CountedQueue.work QueuedCmd.qty (queueCmds P st.mem node q) ≤
      CountedQueue.work QueuedCmd.qty (queueCmds P m₀ node q ++ ofPrio q st.inp)

/-- A step of the queues does not add to the work, apart from what it takes in. -/
def KeepsWork (P : Platform) (node : Word) (m m' : Mem) (served served' : Nat → Nat)
    (inp : List QueuedCmd) : Prop :=
  ∀ q, q < 3 → P.hasQueue m node q = true →
    served' q + CountedQueue.work QueuedCmd.qty (queueCmds P m' node q) ≤
      served q + CountedQueue.work QueuedCmd.qty (queueCmds P m node q) +
        CountedQueue.work QueuedCmd.qty (ofPrio q inp)

theorem QueueStep.keepsWork {m m' : Mem} {inp out : List QueuedCmd}
    (h : QueueStep P m m' node lst inp out) (served : Nat → Nat) :
    KeepsWork P node m m' served served inp := by
  intro q hq hex
  rw [Nat.add_assoc]
  exact Nat.add_le_add_left (h.move q hq hex).work_le _

theorem BlockLayout.visit_keepsWork {s s' : Cpu} {t : Nat} {r : Word} {served served' : Nat → Nat}
    (hl : BlockLayout P s.mem node base lst buf) (hinv : QueueInv P s.mem node) (ht : t < thrQty)
    (hslip : ¬ ScanSlip P s node) (hblock : block P s node (thrPtr t) = some (r, s'))
    (hserved : ∀ q, (ServesQueue P s node q → served' q = served q + 1) ∧
      (¬ ServesQueue P s node q → served' q = served q)) :
    KeepsWork P node s.mem s'.mem served served' [] := by
  obtain ⟨hstep, -⟩ := hl.leaves_of_visit hinv ht hslip hblock
  intro q hq hex
  obtain ⟨hyes, hno⟩ := hserved q
  by_cases hserve : ServesQueue P s node q
  · have hlt := hl.visit_progress hinv ht hslip hserve hblock
    rw [hyes hserve]
    omega
  · rw [hno hserve]
    exact hstep.keepsWork served q hq hex

namespace Accounted

theorem start (hinv : QueueInv P m₀ node) : Accounted P node lst m₀ ⟨m₀, [], []⟩ fun _ => 0 := by
  refine ⟨⟨⟨fun _ _ => rfl, fun _ _ _ => rfl, fun _ _ _ _ _ => rfl⟩, hinv, fun q _ _ => .nil _⟩, ?_⟩
  intro q _ _
  rw [show ofPrio q ([] : List QueuedCmd) = [] from rfl, List.append_nil, Nat.zero_add]

theorem step {st : QueueState} {m' : Mem} {inp out : List QueuedCmd} {served served' : Nat → Nat}
    (h : Accounted P node lst m₀ st served) (hstep : QueueStep P st.mem m' node lst inp out)
    (hwork : KeepsWork P node st.mem m' served served' inp) :
    Accounted P node lst m₀ ⟨m', st.inp ++ inp, st.out ++ out⟩ served' := by
  refine ⟨h.fifo.step hstep, fun q hq hex => ?_⟩
  have hle := hwork q hq ((h.fifo.shape.queues q hq).trans hex)
  have hbefore := h.work q hq hex
  rw [ofPrio_append, ← List.append_assoc, CountedQueue.work_append]
  exact Nat.le_trans hle (Nat.add_le_add_right hbefore _)

variable {st : QueueState} {served : Nat → Nat} (h : Accounted P node lst m₀ st served) {q : Nat}
  (hq : q < 3) (hex : P.hasQueue m₀ node q = true)
include h hq hex

theorem room : occupancy P st.mem node q ≤ 4 :=
  h.fifo.inv.occupancy_le q hq ((h.fifo.shape.queues q hq).trans hex)

/-- What was executed and what is pending come from the commands, in their order. -/
theorem order : ((ofPrio q st.out).map QueuedCmd.body ++
      CountedQueue.runs QueuedCmd.qty QueuedCmd.body (queueCmds P st.mem node q)).Sublist
    (CountedQueue.runs QueuedCmd.qty QueuedCmd.body (queueCmds P m₀ node q ++ ofPrio q st.inp)) :=
  (h.fifo.moves q hq hex).runs_sublist

variable (hno : ∀ x ∈ st.out, x.flushes q = false)
include hno

omit h hq hex in
theorem any_flushes : (st.out.any fun x => x.flushes q) = false := by
  refine List.any_eq_false.mpr fun x hx => ?_
  rw [hno x hx]
  decide

/-- It is all of them, unless a flush named the queue. -/
theorem all : (ofPrio q st.out).map QueuedCmd.body ++
      CountedQueue.runs QueuedCmd.qty QueuedCmd.body (queueCmds P st.mem node q) =
    CountedQueue.runs QueuedCmd.qty QueuedCmd.body (queueCmds P m₀ node q ++ ofPrio q st.inp) :=
  (h.fifo.moves q hq hex).runs_eq (any_flushes hno)

/-- When the queue has been served often enough, a command and those before it have been
executed completely. -/
theorem done {A B : List QueuedCmd} {x : QueuedCmd}
    (hsplit : queueCmds P m₀ node q ++ ofPrio q st.inp = A ++ x :: B)
    (hserved : CountedQueue.work QueuedCmd.qty (A ++ [x]) ≤ served q) :
    CountedQueue.runs QueuedCmd.qty QueuedCmd.body (A ++ [x]) <+:
      (ofPrio q st.out).map QueuedCmd.body := by
  have hmoves := h.fifo.moves q hq hex
  refine hmoves.runs_prefix (any_flushes hno) hsplit ?_
  have hwork := h.work q hq hex
  rw [hsplit, show A ++ x :: B = (A ++ [x]) ++ B by simp, CountedQueue.work_append] at hwork
  omega

end Accounted

theorem SendEvent.queueStep {st st' : SendState} (h : SendEvent P node base lst buf st st')
    (hl : BlockLayout P st.mem node base lst buf) (hinv : QueueInv P st.mem node)
    (hhost : HostInv P st.mem node base lst buf st.host) :
    ∃ inp out, st'.inp = st.inp ++ inp ∧ st'.out = st.out ++ out ∧
      QueueStep P st.mem st'.mem node lst inp out ∧ HostInv P st'.mem node base lst buf st'.host ∧
      KeepsWork P node st.mem st'.mem st.served st'.served inp := by
  cases h with
  | @cmd P' s cnode thrData hmem hr hguard =>
      rw [← hmem] at hl hinv hhost ⊢
      have hstep := hr.cmd_step hl hinv thrData fun hacc => (hguard hacc).2
      refine ⟨_, [], rfl, (List.append_nil _).symm, hstep, ?_, hstep.keepsWork _⟩
      cases hacc : accepted P' s cnode with
      | true =>
          rw [hhost.idle_of_accepted hr hacc (hguard hacc).1]
          trivial
      | false =>
          exact hhost.of_keeps hl (hr.cmd_refused hl thrData hacc) (hr.cmd_flags hl thrData)
  | @visit s s' t r served hmem ht hslip hblock hserved =>
      rw [← hmem] at hl hinv hhost ⊢
      obtain ⟨hstep, -⟩ := hl.leaves_of_visit hinv ht hslip hblock
      exact ⟨[], _, (List.append_nil _).symm, rfl, hstep, hhost.of_visit hl hinv ht hslip hblock,
        hl.visit_keepsWork hinv ht hslip hblock hserved⟩
  | other hkeep h8 =>
      have hstep := hl.queueStep_keeps hkeep hinv
      exact ⟨[], [], (List.append_nil _).symm, (List.append_nil _).symm, hstep,
        hhost.of_keeps hl hkeep h8, hstep.keepsWork _⟩
  | @host h' m' new hsend =>
      obtain ⟨hstep, hhost'⟩ := hsend.queueStep hl hinv hhost
      exact ⟨new, [], rfl, (List.append_nil _).symm, hstep, hhost', hstep.keepsWork _⟩

/-- Queue `q` loses nothing and mixes nothing up: it never holds more than four
commands, and every further step is a move of the queue, which appends the command it
accepts to those pending, or counts down or removes the first one, and drops others only
in a flush. -/
structure Conserved (P : Platform) (node : Word) (base : Nat) (lst : Nat → Nat)
    (buf : Nat → Nat → Nat) (m₀ : Mem) (st : SendState) (q : Nat) : Prop where
  room : occupancy P st.mem node q ≤ 4
  next : ∀ st', SendEvent P node base lst buf st st' → ∃ inp out,
    st'.inp = st.inp ++ inp ∧ st'.out = st.out ++ out ∧
      CountedQueue.Move QueuedCmd.qty QueuedCmd.body 4 (queueCmds P st.mem node q) (ofPrio q inp)
        (ofPrio q out) (out.any fun x => x.flushes q) (queueCmds P st'.mem node q)
  /-- What was executed and what is pending come from the commands, in their order. -/
  order : ((ofPrio q st.out).map QueuedCmd.body ++
      CountedQueue.runs QueuedCmd.qty QueuedCmd.body (queueCmds P st.mem node q)).Sublist
    (CountedQueue.runs QueuedCmd.qty QueuedCmd.body (queueCmds P m₀ node q ++ ofPrio q st.inp))
  /-- It is all of them, unless a flush named the queue. -/
  all : (∀ x ∈ st.out, x.flushes q = false) →
    (ofPrio q st.out).map QueuedCmd.body ++
        CountedQueue.runs QueuedCmd.qty QueuedCmd.body (queueCmds P st.mem node q) =
      CountedQueue.runs QueuedCmd.qty QueuedCmd.body (queueCmds P m₀ node q ++ ofPrio q st.inp)
  /-- When the queue has been served often enough, a command and those before it have been
  executed completely. -/
  done : (∀ x ∈ st.out, x.flushes q = false) →
    ∀ A x B, queueCmds P m₀ node q ++ ofPrio q st.inp = A ++ x :: B →
      CountedQueue.work QueuedCmd.qty (A ++ [x]) ≤ st.served q →
      CountedQueue.runs QueuedCmd.qty QueuedCmd.body (A ++ [x]) <+:
        (ofPrio q st.out).map QueuedCmd.body

end Run

/-! ### The host sends a command to the sample block -/

end DataMaster
