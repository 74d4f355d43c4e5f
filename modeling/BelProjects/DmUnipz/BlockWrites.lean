import BelProjects.DataMaster.Blocks.Interleaving
import BelProjects.DmUnipz.DataMasterAccess

/-!
# The gateway next to command nodes

The gateway reads a block, looks up the element for its flush command, waits for the
UNILAC and then writes the element and the whole word of write indices, all without a
lock.  As long as no command node enqueues into the block between the first and the last
of these steps, the queues account for every command; a command that is enqueued in
between is overwritten or forgotten.
-/

namespace DmUnipz

open DataMaster

/-! ### Memory over the network -/

section Network

variable (net : Word → Nat)

/-- What the gateway is told: the words of a block as they were when it read it, and a
word as it is now. -/
def readsOf (mirror m : Mem) : EbmReads where
  block addr := .ok fun k => mirror (net (addr + BitVec.ofNat 32 (4 * k)))
  word addr := .ok (m (net addr))

def writeWords (m : Mem) (addr : Word) : List Word → Mem
  | [] => m
  | v :: vs => writeWords (Function.update m (net addr) v) (addr + 4) vs

def EbmWrite.apply (m : Mem) (w : EbmWrite) : Mem := writeWords net m w.addr w.data

end Network

def DmComm.queued (c : DmComm) : QueuedCmd :=
  { validTime := c.cmdData 0 ++ c.cmdData 1, act := c.cmdData 2, arg1 := c.cmdData 3,
    arg2 := c.cmdData 4 }

def DmComm.hostCmd (net : Word → Nat) (c : DmComm) : HostCmd :=
  { prio := prioHi, cmd := c.queued, elemAdr := net c.cmdAddr, newIdxs := c.blockWrIdxs }

variable (B : Build) (net : Word → Nat) (P : Platform)

/-- The address `dynpar` leads the gateway to the block at word `base`, and its address
conversion to the lists and buffers. -/
structure Reaches (m : Mem) (node : Word) (base : Nat) (lst : Nat → Nat) (buf : Nat → Nat → Nat)
    (dynpar : Word) : Prop where
  block_adr : ∀ k, k < 13 → net (dynpar + BitVec.ofNat 32 (4 * k)) = base + k
  list_adr : ∀ q, q < 3 → P.hasQueue m node q = true → ∀ k, k < 2 →
    net (dmInt2ExtAddr (m (base + (3 + q))) (dmExt2BaseAddr B dynpar) + BitVec.ofNat 32 (k * 4)) =
      lst q + k
  buf_adr : ∀ q, q < 3 → P.hasQueue m node q = true → ∀ j, j < 2 → ∀ k, k < 10 →
    net (dmInt2ExtAddr (m (lst q + j)) (dmExt2BaseAddr B dynpar) + BitVec.ofNat 32 (4 * k)) =
      buf q j + k

/-- Where the gateway is with its command for a block: it has read the block, which looked
like `mirror`; it has the flush command ready and waits; it has written the element. -/
inductive GatewayPhase where
  | idle
  | blockRead (c : DmComm) (mirror : Mem)
  | prepared (c : DmComm)
  | elemWritten (c : DmComm)

/-- One step of the gateway: its phase and the memory before and after, and the commands
that become visible to the block. -/
inductive GatewayStep (node : Word) (base : Nat) (lst : Nat → Nat) (buf : Nat → Nat → Nat) :
    GatewayPhase → Mem → GatewayPhase → Mem → List QueuedCmd → Prop
  | readBlock {c : DmComm} {m : Mem} :
      Reaches B net P m node base lst buf c.dynpar → P.hasQueue m node prioHi = true →
      GatewayStep node base lst buf .idle m (.blockRead c m) m []
  | prepare {c c' : DmComm} {mirror m : Mem} {checkEmptyQ : Bool} {tCmdValid : Long} :
      dmPrepCmdCommon B (readsOf net mirror m) c prioHi checkEmptyQ tCmdValid = (statusOk, c') →
      GatewayStep node base lst buf (.blockRead c mirror) m (.prepared (dmPrepCmdFlush c')) m []
  /-- `dmPrepCmdCommon` fails, or a packet is lost. -/
  | noPrepare {c : DmComm} {mirror m : Mem} :
      GatewayStep node base lst buf (.blockRead c mirror) m .idle m []
  | setValid {c : DmComm} {m : Mem} {tCmdValid : Long} :
      GatewayStep node base lst buf (.prepared c) m (.prepared (dmSetTValidCmdCommon c tCmdValid)) m []
  /-- The wait ends such that no command is to be sent. -/
  | noCmd {c : DmComm} {m : Mem} : GatewayStep node base lst buf (.prepared c) m .idle m []
  | writeElem {c : DmComm} {m : Mem} {w w' : EbmWrite} :
      dmChangeBlock c = [w, w'] →
      GatewayStep node base lst buf (.prepared c) m (.elemWritten c) (w.apply net m) []
  | writeIdxs {c : DmComm} {m : Mem} {w w' : EbmWrite} :
      dmChangeBlock c = [w, w'] →
      GatewayStep node base lst buf (.elemWritten c) m .idle (w'.apply net m) [c.queued]

/-! ### Runs -/

/-- Memory, logs, visits that served a queue, and where the gateway is. -/
structure BlockState extends QueueState where
  served : Nat → Nat
  gateway : GatewayPhase

/-- Who takes the next step. -/
inductive BlockAct where
  | cmd (P' : Platform) (s : Cpu) (cnode thrData : Word)
  | visit (s s' : Cpu) (t : Nat) (r : Word)
  | other
  | gateway

/-- The next step. -/
inductive BlockEvent (node : Word) (base : Nat) (lst : Nat → Nat) (buf : Nat → Nat → Nat)
    (st : BlockState) : BlockAct → BlockState → Prop
  | cmd {P' : Platform} {s : Cpu} {cnode thrData : Word} :
      s.mem = st.mem → CmdReaches P P' s.mem node cnode base lst buf →
      BlockEvent node base lst buf st (.cmd P' s cnode thrData)
        ⟨⟨(cmd P' s cnode thrData).2.mem, st.inp ++ enqueued P' s cnode thrData, st.out⟩,
          st.served, st.gateway⟩
  | visit {s s' : Cpu} {t : Nat} {r : Word} {served : Nat → Nat} :
      s.mem = st.mem → t < thrQty → block P s node (thrPtr t) = some (r, s') →
      (∀ q, (ServesQueue P s node q → served q = st.served q + 1) ∧
        (¬ ServesQueue P s node q → served q = st.served q)) →
      BlockEvent node base lst buf st (.visit s s' t r)
        ⟨⟨s'.mem, st.inp, st.out ++ executed P s node⟩, served, st.gateway⟩
  | other {m' : Mem} :
      KeepsQueues P st.mem m' node base lst buf →
      BlockEvent node base lst buf st .other ⟨⟨m', st.inp, st.out⟩, st.served, st.gateway⟩
  | gateway {g' : GatewayPhase} {m' : Mem} {new : List QueuedCmd} :
      GatewayStep B net P node base lst buf st.gateway st.mem g' m' new →
      BlockEvent node base lst buf st .gateway ⟨⟨m', st.inp ++ new, st.out⟩, st.served, g'⟩

/-- No command node enqueues while the gateway works from what it has read, nor into a full
queue, and no visit slips. -/
def Undisturbed (node : Word) (st : BlockState) : BlockAct → Prop
  | .cmd P' s cnode _ => accepted P' s cnode = true →
      st.gateway = .idle ∧ occupancy P st.mem node (cmdPrio P' st.mem cnode) < 4
  | .visit s _ _ _ => ¬ ScanSlip P s node
  | .other => True
  | .gateway => True

/-! ### What the gateway may rely on -/

/-- The command of a record fits the block, and the record leads to its places. -/
structure CmdReady (m : Mem) (node : Word) (base : Nat) (buf : Nat → Nat → Nat) (c : DmComm) :
    Prop where
  fits : Fits P m node base buf [c.hostCmd net]
  elem : ∀ k, k < 5 → net (c.cmdAddr + BitVec.ofNat 32 (4 * k)) = net c.cmdAddr + k
  idxs : net c.blockWrIdxsAddr = base + 6

def GatewayInv (m : Mem) (node : Word) (base : Nat) (lst : Nat → Nat) (buf : Nat → Nat → Nat) :
    GatewayPhase → Prop
  | .idle => True
  | .blockRead c mirror => HostInv P m node base lst buf (.creating mirror []) ∧
      Reaches B net P m node base lst buf c.dynpar ∧ P.hasQueue m node prioHi = true
  | .prepared c => CmdReady net P m node base buf c
  | .elemWritten c => CmdReady net P m node base buf c ∧ cmdAt m (net c.cmdAddr) = c.queued

section Records

variable {B net P} {m m' : Mem} {node : Word} {base : Nat} {lst : Nat → Nat} {buf : Nat → Nat → Nat}

theorem Reaches.of_sameShape {dynpar : Word} (h : Reaches B net P m node base lst buf dynpar)
    (hl : BlockLayout P m node base lst buf) (hshape : SameShape P m m' node lst) :
    Reaches B net P m' node base lst buf dynpar where
  block_adr := h.block_adr
  list_adr q hq hex k hk := by
    rw [hshape.queues q hq] at hex
    have hlist := hshape.lists q hq hex
    rw [queueList, queueList, Platform.ld, Platform.ld, hl.adr_queuePtr hq] at hlist
    rw [hlist]
    exact h.list_adr q hq hex k hk
  buf_adr q hq hex j hj k hk := by
    rw [hshape.queues q hq] at hex
    rw [hshape.bufs q hq hex j hj]
    exact h.buf_adr q hq hex j hj k hk

/-- The element that the gateway finds for an index. -/
theorem Reaches.adr_elem {dynpar cmdAddr : Word} (h : Reaches B net P m node base lst buf dynpar)
    {q k : Nat} (hq : q < 3) (hex : P.hasQueue m node q = true) {idx : BitVec 8}
    (hcmd : cmdAddr = dmInt2ExtAddr (m (net (dmInt2ExtAddr (m (base + (3 + q)))
      (dmExt2BaseAddr B dynpar) + bufOffs idx))) (dmExt2BaseAddr B dynpar) + elOffs idx) (hk : k < 5) :
    net (cmdAddr + BitVec.ofNat 32 (4 * k)) = slotAdr buf q (ringSlot idx) + k := by
  have hslot := ringSlot_lt idx
  have hbuf : bufOffs idx = BitVec.ofNat 32 (ringSlot idx / 2 * 4) := rfl
  have hel : elOffs idx = BitVec.ofNat 32 (ringSlot idx % 2 * 20) := rfl
  rw [hcmd, hbuf, hel]
  generalize ringSlot idx = i at hslot ⊢
  rw [h.list_adr q hq hex (i / 2) (by omega), BitVec.add_assoc, ← BitVec.ofNat_add,
    show i % 2 * 20 + 4 * k = 4 * (i % 2 * 5 + k) by omega,
    h.buf_adr q hq hex (i / 2) (by omega) (i % 2 * 5 + k) (by omega), slotAdr, Nat.add_assoc]

theorem CmdReady.of_leaves {c : DmComm} (h : CmdReady net P m node base buf c)
    (hleave : Leaves P m m' node base lst buf) : CmdReady net P m' node base buf c :=
  ⟨h.fits.of_leaves hleave, h.elem, h.idxs⟩

/-- Steps that only shorten queues do not matter to the gateway. -/
theorem GatewayInv.of_leaves {g : GatewayPhase} (h : GatewayInv B net P m node base lst buf g)
    (hl : BlockLayout P m node base lst buf) (hleave : Leaves P m m' node base lst buf) :
    GatewayInv B net P m' node base lst buf g := by
  cases g with
  | idle => trivial
  | blockRead c mirror =>
      obtain ⟨hmirror, hreach, hex⟩ := h
      exact ⟨hmirror.creating_of_leaves hleave, hreach.of_sameShape hl hleave.shape,
        (hleave.shape.queues _ (by decide)).trans hex⟩
  | prepared c => exact CmdReady.of_leaves h hleave
  | elemWritten c =>
      obtain ⟨hprep, hcmd⟩ := h
      exact ⟨hprep.of_leaves hleave, (hprep.fits.cmdAt_of_leaves hl hleave).trans hcmd⟩

/-- What a plan of one command says does not depend on the rest of the command. -/
theorem fits_withCmd {d : HostCmd} {x : QueuedCmd} (h : Fits P m node base buf [d])
    (hx : x.prio = d.cmd.prio) : Fits P m node base buf [{ d with cmd := x }] := by
  obtain ⟨hq, hex, hprio, hadr, hnew⟩ := h.from_idxs.1
  refine ⟨⟨⟨hq, hex, hx.trans hprio, hadr, hnew⟩, trivial⟩, fun q hq hex => ?_⟩
  have hroom := h.room q hq hex
  rw [planned, List.countP_singleton] at hroom ⊢
  exact hroom

theorem setTime_act (c : DmComm) (t : Long) : (c.setTime t).queued.act = c.queued.act := by
  simp [DmComm.setTime, DmComm.queued]

/-- The time a command becomes valid does not matter to the places it goes to. -/
theorem CmdReady.setTime {c : DmComm} (h : CmdReady net P m node base buf c) (t : Long) :
    CmdReady net P m node base buf (dmSetTValidCmdCommon c t) := by
  have hprio : (c.setTime t).queued.prio = c.queued.prio := by
    rw [QueuedCmd.prio, setTime_act, QueuedCmd.prio]
  exact ⟨fits_withCmd h.fits hprio, h.elem, h.idxs⟩

theorem flushAction_prio : ((flushAction >>> actPrioPos) &&& actPrioMsk).toNat = prioHi := by decide

theorem dmPrepCmdFlush_prio (c : DmComm) : (dmPrepCmdFlush c).queued.prio = prioHi := by
  have hact : (dmPrepCmdFlush c).queued.act = flushAction := by
    simp [dmPrepCmdFlush, DmComm.queued]
  rw [QueuedCmd.prio, hact, flushAction_prio]

/-- What `dmPrepCmdCommon` finds out, if it succeeds. -/
theorem dmPrepCmdCommon_eq {mirror : Mem} {c c' : DmComm} {prio : Nat} {checkEmptyQ : Bool}
    {t : Long} {wrIdxs rdIdxs : Word}
    (hwr : mirror (net (c.dynpar + blockCmdqWrIdxs)) = wrIdxs)
    (hrd : mirror (net (c.dynpar + blockCmdqRdIdxs)) = rdIdxs)
    (h : dmPrepCmdCommon B (readsOf net mirror m) c prio checkEmptyQ t = (statusOk, c')) :
    ¬ (idxByte wrIdxs prio &&& qIdxMaxOvfMsk ≠ idxByte rdIdxs prio &&& qIdxMaxOvfMsk ∧
      idxByte wrIdxs prio &&& qIdxMaxMsk = idxByte rdIdxs prio &&& qIdxMaxMsk) ∧
    c'.blockWrIdxs = setIdxByte wrIdxs prio ((idxByte wrIdxs prio + 1) &&& qIdxMaxOvfMsk) ∧
    c'.blockWrIdxsAddr = c.dynpar + blockCmdqWrIdxs ∧
    c'.cmdAddr = dmInt2ExtAddr (m (net (dmInt2ExtAddr
        (mirror (net (c.dynpar + BitVec.ofNat 32 (4 * (3 + prio))))) (dmExt2BaseAddr B c.dynpar) +
          bufOffs (idxByte wrIdxs prio)))) (dmExt2BaseAddr B c.dynpar) + elOffs (idxByte wrIdxs prio) ∧
    c'.cmdData 4 = 0 := by
  subst hwr hrd
  unfold dmPrepCmdCommon at h
  split at h
  · exact absurd (congrArg Prod.fst h) (show statusOutOfRange ≠ statusOk by decide)
  · dsimp only [readsOf] at h
    split at h
    · exact absurd (congrArg Prod.fst h) (show statusDmQNotEmpty ≠ statusOk by decide)
    split at h
    · exact absurd (congrArg Prod.fst h) (show statusOutOfRange ≠ statusOk by decide)
    rename_i hfull
    obtain rfl := congrArg Prod.snd h
    exact ⟨hfull, rfl, rfl, rfl, rfl⟩

/-- It succeeds unless the queue is full. -/
theorem dmPrepCmdCommon_ok {mirror : Mem} {c : DmComm} {prio : Nat} {t : Long}
    {wrIdxs rdIdxs : Word} (hprio : prio < 3)
    (hwr : mirror (net (c.dynpar + blockCmdqWrIdxs)) = wrIdxs)
    (hrd : mirror (net (c.dynpar + blockCmdqRdIdxs)) = rdIdxs)
    (hfull : ¬ (idxByte wrIdxs prio &&& qIdxMaxOvfMsk ≠ idxByte rdIdxs prio &&& qIdxMaxOvfMsk ∧
      idxByte wrIdxs prio &&& qIdxMaxMsk = idxByte rdIdxs prio &&& qIdxMaxMsk)) :
    (dmPrepCmdCommon B (readsOf net mirror m) c prio false t).1 = statusOk := by
  subst hwr hrd
  unfold dmPrepCmdCommon
  rw [if_neg (by omega)]
  dsimp only [readsOf]
  rw [if_neg (fun h => absurd h.1 (by decide))]
  exact congrArg Prod.fst (if_neg hfull)

theorem CmdReady.of_prepare {mirror : Mem} {c c' : DmComm} {checkEmptyQ : Bool} {t : Long}
    (hl : BlockLayout P m node base lst buf)
    (hinv : GatewayInv B net P m node base lst buf (.blockRead c mirror))
    (h : dmPrepCmdCommon B (readsOf net mirror m) c prioHi checkEmptyQ t = (statusOk, c')) :
    CmdReady net P m node base buf (dmPrepCmdFlush c') := by
  obtain ⟨⟨hshape, -, hend, hroom⟩, hreach, hex⟩ := hinv
  have hq : prioHi < 3 := by decide
  have hlm := hl.of_sameShape hshape
  have h6 : net (c.dynpar + blockCmdqWrIdxs) = base + 6 := hreach.block_adr 6 (by decide)
  have h7 : net (c.dynpar + blockCmdqRdIdxs) = base + 7 := hreach.block_adr 7 (by decide)
  have hwr : mirror (base + 6) = m (base + 6) := hend
  have hptr : mirror (base + (3 + prioHi)) = m (base + (3 + prioHi)) := by
    have hlist := hshape.lists prioHi hq hex
    rwa [queueList, queueList, Platform.ld, Platform.ld, hl.adr_queuePtr hq] at hlist
  obtain ⟨hfull, hnew, hidxs, hcmd, -⟩ :=
    dmPrepCmdCommon_eq (congrArg mirror h6) (congrArg mirror h7) h
  rw [hreach.block_adr (3 + prioHi) (by decide), hptr, hwr] at hcmd
  rw [hwr] at hfull hnew
  have hadr : ∀ k, k < 5 → net (c'.cmdAddr + BitVec.ofNat 32 (4 * k)) =
      slotAdr buf prioHi (ringSlot (idxByte (m (base + 6)) prioHi)) + k :=
    fun k hk => hreach.adr_elem hq hex hcmd hk
  have helem : net c'.cmdAddr = slotAdr buf prioHi (ringSlot (idxByte (m (base + 6)) prioHi)) := by
    have h0 := hadr 0 (by decide)
    rwa [Nat.mul_zero, BitVec.add_zero, Nat.add_zero] at h0
  -- the queue is not full in the copy, so it is not full now
  have hlt : occupancy P mirror node prioHi < 4 := by
    refine hlm.lt_of_not_full (hroom prioHi hq hex).1 ?_
    rintro ⟨hsame, hne⟩
    refine hfull ⟨fun heq => hne ?_, ?_⟩
    · rw [hlm.wrIdx_eq, hlm.rdIdx_eq, hwr, ← toNat_and_ovf, ← toNat_and_ovf, heq]
    · rw [hwr] at hsame
      exact BitVec.eq_of_toNat_eq hsame
  have hocc := (hroom prioHi hq hex).2
  have hlater : occupancy P m node prioHi < 4 := by
    rw [planned, List.countP_nil, Nat.add_zero] at hocc
    omega
  refine ⟨⟨⟨⟨hq, hex, dmPrepCmdFlush_prio c', helem, hnew⟩, trivial⟩, fun q hq' hex' => ?_⟩, ?_, ?_⟩
  · rw [planned, List.countP_singleton]
    change occupancy P m node q + (if prioHi == q then 1 else 0) ≤ 4
    have hle := hroom q hq' hex'
    rw [planned, List.countP_nil, Nat.add_zero] at hle
    by_cases hqp : prioHi = q
    · subst hqp
      rw [beq_self_eq_true, if_pos rfl]
      exact hlater
    · rw [beq_false_of_ne hqp, if_neg (by decide)]
      omega
  · intro k hk
    change net (c'.cmdAddr + _) = net c'.cmdAddr + k
    rw [hadr k hk, helem]
  · change net c'.blockWrIdxsAddr = base + 6
    rw [hidxs, h6]

end Records

/-! ### Steps of the gateway -/

section Steps

variable {B net P} {m m' : Mem} {node : Word} {base : Nat} {lst : Nat → Nat} {buf : Nat → Nat → Nat}

/-- The five words of a command are written like the host writes them. -/
theorem apply_elem {c : DmComm} {w w' : EbmWrite} (h : dmChangeBlock c = [w, w'])
    (hadr : ∀ k, k < 5 → net (c.cmdAddr + BitVec.ofNat 32 (4 * k)) = net c.cmdAddr + k) :
    w.apply net m = storeCmd m (net c.cmdAddr) c.queued := by
  obtain rfl := (List.cons.inj h).1
  have hhi : hiW c.queued.validTime = c.cmdData 0 := BitVec.extractLsb'_append_eq_left
  have hlo : loW c.queued.validTime = c.cmdData 1 := BitVec.extractLsb'_append_eq_right
  have h4 : (4 : Word) = BitVec.ofNat 32 4 := rfl
  change Function.update (Function.update (Function.update (Function.update (Function.update m
    (net c.cmdAddr) (c.cmdData 0)) (net (c.cmdAddr + 4)) (c.cmdData 1)) (net (c.cmdAddr + 4 + 4))
    (c.cmdData 2)) (net (c.cmdAddr + 4 + 4 + 4)) (c.cmdData 3)) (net (c.cmdAddr + 4 + 4 + 4 + 4))
    (c.cmdData 4) = _
  simp only [BitVec.add_assoc, h4, ← BitVec.ofNat_add]
  rw [hadr 1 (by decide), hadr 2 (by decide), hadr 3 (by decide), hadr 4 (by decide), storeCmd, hhi,
    hlo, DmComm.queued]

theorem apply_idxs {c : DmComm} {w w' : EbmWrite} (h : dmChangeBlock c = [w, w'])
    (hwr : P.adr (node + blockCmdqWrIdxs) = base + 6) (hidxs : net c.blockWrIdxsAddr = base + 6) :
    w'.apply net m = P.st m (node + blockCmdqWrIdxs) c.blockWrIdxs := by
  obtain rfl := (List.cons.inj (List.cons.inj h).2).1
  change Function.update m (net c.blockWrIdxsAddr) c.blockWrIdxs = _
  rw [hidxs, Platform.st, hwr]

/-- **Every step of the gateway is a step of the queues**, and keeps what the gateway
relies on. -/
theorem GatewayStep.queueStep {g g' : GatewayPhase} {new : List QueuedCmd}
    (hstep : GatewayStep B net P node base lst buf g m g' m' new)
    (hl : BlockLayout P m node base lst buf) (hinv : QueueInv P m node)
    (hg : GatewayInv B net P m node base lst buf g) :
    QueueStep P m m' node lst new [] ∧ GatewayInv B net P m' node base lst buf g' := by
  have hstay : QueueStep P m m node lst [] [] := hl.queueStep_keeps .refl hinv
  cases hstep with
  | readBlock hreach hex =>
      refine ⟨hstay, ⟨⟨fun _ _ => rfl, fun _ _ _ => rfl, fun _ _ _ _ _ => rfl⟩, trivial, rfl, ?_⟩,
        hreach, hex⟩
      exact fun q hq hex => ⟨hinv.occupancy_le q hq hex, Nat.le_refl _⟩
  | prepare h => exact ⟨hstay, CmdReady.of_prepare hl hg h⟩
  | noPrepare => exact ⟨hstay, trivial⟩
  | setValid => exact ⟨hstay, CmdReady.setTime hg _⟩
  | noCmd => exact ⟨hstay, trivial⟩
  | @writeElem c _ w w' h =>
      obtain ⟨hfits, helem, hidxs⟩ := hg
      obtain ⟨hstep, hfits', -⟩ := hl.fits_elem hinv hfits
      rw [apply_elem h helem]
      exact ⟨hstep, ⟨hfits', helem, hidxs⟩, cmdAt_storeCmd _ _ _⟩
  | @writeIdxs c _ w w' h =>
      obtain ⟨⟨hfits, helem, hidxs⟩, hcmd⟩ := hg
      obtain ⟨hstep, -, -⟩ := hl.fits_idxs hinv hfits hcmd
      rw [apply_idxs h hl.adr_wrIdxs hidxs]
      exact ⟨hstep, trivial⟩

end Steps

/-! ### All interleavings -/

section Run

variable {B net P} {node : Word} {base : Nat} {lst : Nat → Nat} {buf : Nat → Nat → Nat} {m₀ : Mem}

theorem BlockEvent.queueStep {st st' : BlockState} {act : BlockAct}
    (h : BlockEvent B net P node base lst buf st act st') (hok : Undisturbed P node st act)
    (hl : BlockLayout P st.mem node base lst buf) (hinv : QueueInv P st.mem node)
    (hg : GatewayInv B net P st.mem node base lst buf st.gateway) :
    ∃ inp out, st'.inp = st.inp ++ inp ∧ st'.out = st.out ++ out ∧
      QueueStep P st.mem st'.mem node lst inp out ∧
      GatewayInv B net P st'.mem node base lst buf st'.gateway ∧
      KeepsWork P node st.mem st'.mem st.served st'.served inp := by
  cases h with
  | @cmd P' s cnode thrData hmem hr =>
      rw [Undisturbed, ← hmem] at hok
      rw [← hmem] at hl hinv hg ⊢
      have hstep := hr.cmd_step hl hinv thrData fun hacc => (hok hacc).2
      refine ⟨_, [], rfl, (List.append_nil _).symm, hstep, ?_, hstep.keepsWork _⟩
      cases hacc : accepted P' s cnode with
      | true =>
          change GatewayInv B net P _ node base lst buf st.gateway
          rw [(hok hacc).1]
          trivial
      | false => exact hg.of_leaves hl (hl.leaves_of_keeps (hr.cmd_refused hl thrData hacc))
  | @visit s s' t r served hmem ht hblock hserved =>
      rw [← hmem] at hl hinv hg ⊢
      obtain ⟨hstep, hleave⟩ := hl.leaves_of_visit hinv ht hok hblock
      exact ⟨[], _, (List.append_nil _).symm, rfl, hstep, hg.of_leaves hl hleave,
        hl.visit_keepsWork hinv ht hok hblock hserved⟩
  | other hkeep =>
      have hstep := hl.queueStep_keeps hkeep hinv
      exact ⟨[], [], (List.append_nil _).symm, (List.append_nil _).symm, hstep,
        hg.of_leaves hl (hl.leaves_of_keeps hkeep), hstep.keepsWork _⟩
  | @gateway g' m' new hgate =>
      obtain ⟨hstep, hg'⟩ := hgate.queueStep hl hinv hg
      exact ⟨new, [], rfl, (List.append_nil _).symm, hstep, hg', hstep.keepsWork _⟩

/-- Queue `q` loses nothing and mixes nothing up. -/
structure Kept (B : Build) (net : Word → Nat) (P : Platform) (node : Word) (base : Nat)
    (lst : Nat → Nat) (buf : Nat → Nat → Nat) (m₀ : Mem) (st : BlockState) (q : Nat) : Prop where
  room : occupancy P st.mem node q ≤ 4
  /-- A further step appends the command it brings to those pending, or counts down or
  removes the first one, and drops others only in a flush. -/
  next : ∀ act st', Undisturbed P node st act → BlockEvent B net P node base lst buf st act st' →
    ∃ inp out, st'.inp = st.inp ++ inp ∧ st'.out = st.out ++ out ∧
      CountedQueue.Move QueuedCmd.qty QueuedCmd.body 4 (queueCmds P st.mem node q) (ofPrio q inp)
        (ofPrio q out) (out.any fun x => x.flushes q) (queueCmds P st'.mem node q)
  order : ((ofPrio q st.out).map QueuedCmd.body ++
      CountedQueue.runs QueuedCmd.qty QueuedCmd.body (queueCmds P st.mem node q)).Sublist
    (CountedQueue.runs QueuedCmd.qty QueuedCmd.body (queueCmds P m₀ node q ++ ofPrio q st.inp))
  all : (∀ x ∈ st.out, x.flushes q = false) →
    (ofPrio q st.out).map QueuedCmd.body ++
        CountedQueue.runs QueuedCmd.qty QueuedCmd.body (queueCmds P st.mem node q) =
      CountedQueue.runs QueuedCmd.qty QueuedCmd.body (queueCmds P m₀ node q ++ ofPrio q st.inp)
  done : (∀ x ∈ st.out, x.flushes q = false) →
    ∀ A x C, queueCmds P m₀ node q ++ ofPrio q st.inp = A ++ x :: C →
      CountedQueue.work QueuedCmd.qty (A ++ [x]) ≤ st.served q →
      CountedQueue.runs QueuedCmd.qty QueuedCmd.body (A ++ [x]) <+:
        (ofPrio q st.out).map QueuedCmd.body

end Run

/-! ### A block that both write to -/

def sampleNet (addr : Word) : Nat := addr.toNat / 4

def waitingBlock : DmComm :=
  { dynpar := 0x80001000, cmdAddr := 0, cmdData := fun _ => 0, blockWrIdxsAddr := 0, blockWrIdxs := 0 }

section Sample

variable {allowed : BlockState → BlockAct → Prop} (hgate : ∀ st, allowed st .gateway)
include hgate

end Sample

end DmUnipz
