import BelProjects.DataMaster.Alloc.Sequences
import BelProjects.DataMaster.Commands.Send
import BelProjects.DmUnipz.BlockWrites

/-!
# Three ways to write a flush command

The gateway, the host and a command node each look up the next element of the queue for
high priority, convert its address for themselves and write the command and the index word.
They write the same, as long as the masks that gateway and command node use for their
conversions fit the windows in which they see the block.
-/

namespace DmUnipz

open DataMaster

/-- A flush of the queue for low priority; a command node hands on its flag for absolute
times with the action word. -/
def flushCmd (t : Time) (vabs : Bool) : QueuedCmd :=
  { validTime := t, act := flushAction ||| (bit vabs <<< actVabsPos), arg1 := 0, arg2 := 0 }

/-- From `m` to `m'` the command `x` is written to the next element of the queue for high
priority, and nothing else changes in the queues. -/
structure Enqueued (P : Platform) (m m' : Mem) (node : Word) (base : Nat) (buf : Nat → Nat → Nat)
    (x : QueuedCmd) : Prop where
  elem : cmdAt m' (slotAdr buf prioHi (ringSlot (idxByte (m (base + 6)) prioHi))) = x
  idxs : m' (base + 6) =
    setIdxByte (m (base + 6)) prioHi ((idxByte (m (base + 6)) prioHi + 1) &&& qIdxMaxOvfMsk)
  others : ∀ q, q < 4 → q ≠ prioHi → idxByte (m' (base + 6)) q = idxByte (m (base + 6)) q
  pending : ∀ q, q < 3 → P.hasQueue m node q = true → ∀ i, i < 4 →
    (q ≠ prioHi ∨ i ≠ ringSlot (idxByte (m (base + 6)) prioHi)) →
    cmdAt m' (slotAdr buf q i) = cmdAt m (slotAdr buf q i)

/-! ### The writers -/

def gatewayFlush (B : Build) (net : Word → Nat) (m : Mem) (c : DmComm) (tPrepare tCmdValid : Long) :
    Mem :=
  let p := dmPrepCmdCommon B (readsOf net m m) c prioHi false tPrepare
  if p.1 ≠ statusOk then m
  else
    (dmChangeBlock (dmSetTValidCmdCommon (dmPrepCmdFlush p.2) tCmdValid)).foldl
      (fun m w => w.apply net m) m

/-- The host, with a command from `createCommand`. -/
def hostFlush (t : AllocTable) (net : Word → Nat) (m : Mem) (hash : Word) (tValid : Time)
    (b : List BigEndian.Octet) : Mem :=
  sendCommand t net m hash prioHi (miniFlush tValid 1 false false true lm32NullPtr false) b

/-- A command node that is to write a flush command to the block, which its CPU sees in a
window at `b`. -/
structure FlushNode (P P' : Platform) (s : Cpu) (node cnode thrData b : Word) (base : Nat)
    (lst : Nat → Nat) (buf : Nat → Nat → Nat) (tValid : Time) (vabs : Bool) : Prop where
  window : Window P P'.adr b
  target : cmdTg P' s.mem cnode = node - intBaseAdr + b
  not_null : cmdTg P' s.mem cnode ≠ lm32NullPtr
  three_queues : P'.hasQueue s.mem (cmdTg P' s.mem cnode) 3 = false
  src : ∃ a, (∀ k, k < 13 → P'.adr (cnode + BitVec.ofNat 32 (4 * k)) = a + k) ∧
    Apart a 13 base 13 ∧ ∀ k, k < 13 → OffQueues P s.mem node base lst buf (a + k)
  ctl : ∀ o, o < shctlEnd → OffQueues P s.mem node base lst buf (P'.ctl o)
  ctl_node : Apart base 13 (P'.ctl 0) 205
  act : P'.ld s.mem (cnode + cmdAct) = flushAction ||| (bit vabs <<< actVabsPos)
  args : P'.ld s.mem (cnode + (cmdAct + 4)) = 0 ∧ P'.ld s.mem (cnode + (cmdAct + 8)) = 0
  time : cmdValid P' (s.paint P' cnode).mem cnode thrData = tValid

section Writers

variable {P : Platform} {m m' : Mem} {node : Word} {base : Nat} {lst : Nat → Nat}
  {buf : Nat → Nat → Nat}

/-- The two halves of a time make up the time. -/
theorem halves_append (t : Long) :
    ((t >>> 32).setWidth 32 : Word) ++ ((t &&& 0xffffffff).setWidth 32 : Word) = t := by
  apply BitVec.eq_of_getLsbD_eq
  intro i hi
  have hmask : (0xffffffff : Long) = BitVec.ofNat 64 (2 ^ 32 - 1) := rfl
  rw [BitVec.getLsbD_append, BitVec.getLsbD_setWidth, BitVec.getLsbD_setWidth, hmask,
    BitFields.and_lowMask, BitVec.getLsbD_setWidth, BitVec.getLsbD_setWidth,
    BitVec.getLsbD_ushiftRight]
  by_cases hlow : i < 32
  · simp [hlow, hi]
  · simp [hlow, show i - 32 < 32 by omega, show 32 + (i - 32) = i by omega]

theorem flush_element (tValid : Time) (arg : Word × Word) :
    (miniFlush tValid 1 false false true lm32NullPtr false).element arg = flushCmd tValid false := by
  rfl

theorem flush_queued (c : DmComm) (h4 : c.cmdData 4 = 0) (t : Long) :
    (dmSetTValidCmdCommon (dmPrepCmdFlush c) t).queued = flushCmd t false := by
  have htime : (dmSetTValidCmdCommon (dmPrepCmdFlush c) t).queued.validTime = t := halves_append t
  have hact : flushAction ||| (bit false <<< actVabsPos) = flushAction := by decide
  have hwords : (dmSetTValidCmdCommon (dmPrepCmdFlush c) t).queued =
      { validTime := (dmSetTValidCmdCommon (dmPrepCmdFlush c) t).queued.validTime,
        act := flushAction, arg1 := 0, arg2 := c.cmdData 4 } := by
    simp [DmComm.queued, dmSetTValidCmdCommon, DmComm.setTime, dmPrepCmdFlush]
  rw [hwords, htime, h4, flushCmd, hact]

variable (hl : BlockLayout P m node base lst buf) (hex : P.hasQueue m node prioHi = true)
include hl hex

/-- What a write to the next element amounts to. -/
theorem Enqueued.of_stored {m₁ : Mem} {x : QueuedCmd} (hkeep : KeepsQueues P m m₁ node base lst buf)
    (h : Stored m₁ m' base buf prioHi x) : Enqueued P m m' node base buf x := by
  have hl₁ := hl.of_sameShape hkeep.shape
  have hq : prioHi < 3 := by decide
  have hwr := h.wr
  have helem := h.elem
  rw [hkeep.wr] at hwr helem
  refine ⟨helem, hwr, ?_, ?_⟩
  · intro q hq4 hne
    rw [hwr, idxByte_setIdxByte _ hq4, if_neg hne]
  · intro q hq3 hexq i hi hne
    rw [hl₁.stored_cmdAt hq ((hkeep.shape.queues _ hq).trans hex) h hq3
      ((hkeep.shape.queues _ hq3).trans hexq) hi, if_neg, hkeep.elem q hq3 hexq i hi]
    rw [hkeep.wr]
    rintro ⟨rfl, rfl⟩
    exact hne.elim (fun h => h rfl) (fun h => h rfl)

/-- Element and index word, written one after the other. -/
theorem Enqueued.of_write {x : QueuedCmd} {w : Word}
    (hw : w = setIdxByte (m (base + 6)) prioHi ((idxByte (m (base + 6)) prioHi + 1) &&& qIdxMaxOvfMsk))
    (hm' : m' = P.st (storeCmd m (slotAdr buf prioHi (ringSlot (idxByte (m (base + 6)) prioHi))) x)
      (node + blockCmdqWrIdxs) w) : Enqueued P m m' node base buf x := by
  have hq : prioHi < 3 := by decide
  have hne : ∀ k, k < 5 →
      slotAdr buf prioHi (ringSlot (idxByte (m (base + 6)) prioHi)) + k ≠ base + 6 := fun k hk =>
    hl.slotAdr_ne_node hq hex (ringSlot_lt _) hk (by decide)
  have hother : ∀ a, a ≠ base + 6 → m' a =
      storeCmd m (slotAdr buf prioHi (ringSlot (idxByte (m (base + 6)) prioHi))) x a := by
    intro a ha
    rw [hm', P.st_other]
    rwa [hl.adr_wrIdxs]
  refine .of_stored hl hex .refl ⟨?_, ?_, ?_⟩
  · rw [hm', P.st_apply, hl.adr_wrIdxs, if_pos rfl, hw]
  · have h0 := hother _ (hne 0 (by decide))
    rw [Nat.add_zero] at h0
    rw [cmdAt, h0, hother _ (hne 1 (by decide)), hother _ (hne 2 (by decide)),
      hother _ (hne 3 (by decide)), hother _ (hne 4 (by decide))]
    exact cmdAt_storeCmd _ _ _
  · intro a ha hslot
    rw [hother a ha, storeCmd_other _ hslot]

end Writers

/-! ### Each of the three -/

section Three

variable {P : Platform} {m : Mem} {node : Word} {base : Nat} {lst : Nat → Nat}
  {buf : Nat → Nat → Nat} (hb : RamBlock P m node base lst buf)
  (hex : P.hasQueue m node prioHi = true)

/-- The queue for high priority is full, as index words tell it. -/
def FullHi (P : Platform) (m : Mem) (node : Word) (base : Nat) : Prop :=
  ringSlot (idxByte (m (base + 6)) prioHi) = ringSlot (idxByte (m (base + 7)) prioHi) ∧
    wrIdx P m node prioHi ≠ rdIdx P m node prioHi

include hb

theorem reaches_of_window {B : Build} {net : Word → Nat} {ext : Word} (hw : Window P net ext)
    (ha : Aligned (roundUp B.ramSize) ext P.ramSize.toNat) :
    Reaches B net P m node base lst buf (node - intBaseAdr + ext) := by
  have hbase : dmExt2BaseAddr B (node - intBaseAdr + ext) = ext := ha.base hb.node_ram (by decide)
  refine ⟨fun k hk => hb.node_word hw hk, ?_, ?_⟩
  · intro q hq hexq k hk
    rw [hbase]
    exact hb.list_word hw hq hexq hk
  · intro q hq hexq j hj k hk
    rw [hbase]
    exact hb.buf_word hw hq hexq hj hk

include hex

theorem gatewayFlush_enqueued {B : Build} {net : Word → Nat} {ext : Word} (hw : Window P net ext)
    (ha : Aligned (roundUp B.ramSize) ext P.ramSize.toNat) (hfull : ¬ FullHi P m node base)
    {c : DmComm} (hc : c.dynpar = node - intBaseAdr + ext) (tPrepare tCmdValid : Long) :
    Enqueued P m (gatewayFlush B net m c tPrepare tCmdValid) node base buf
      (flushCmd tCmdValid false) := by
  have hreach := reaches_of_window hb hw ha
  rw [← hc] at hreach
  have hq : prioHi < 3 := by decide
  have h6 : net (c.dynpar + blockCmdqWrIdxs) = base + 6 := hreach.block_adr 6 (by decide)
  have h7 : net (c.dynpar + blockCmdqRdIdxs) = base + 7 := hreach.block_adr 7 (by decide)
  have hok : (dmPrepCmdCommon B (readsOf net m m) c prioHi false tPrepare).1 = statusOk := by
    refine dmPrepCmdCommon_ok hq (congrArg m h6) (congrArg m h7) fun ⟨hne, hsame⟩ =>
      hfull ⟨congrArg BitVec.toNat hsame, fun heq => hne (BitVec.eq_of_toNat_eq ?_)⟩
    rw [toNat_and_ovf, toNat_and_ovf, ← hb.layout.wrIdx_eq, ← hb.layout.rdIdx_eq, heq]
  obtain ⟨r, hr⟩ : ∃ r, dmPrepCmdCommon B (readsOf net m m) c prioHi false tPrepare = (statusOk, r) :=
    ⟨_, Prod.ext hok rfl⟩
  obtain ⟨-, hnew, hidxs, hcmd, h4⟩ := dmPrepCmdCommon_eq (congrArg m h6) (congrArg m h7) hr
  rw [hreach.block_adr (3 + prioHi) (by decide)] at hcmd
  have hadr := fun k hk => hreach.adr_elem (k := k) hq hex hcmd hk
  unfold gatewayFlush
  rw [hr]
  dsimp only
  rw [if_neg (fun h => h rfl)]
  have helem : net r.cmdAddr = slotAdr buf prioHi (ringSlot (idxByte (m (base + 6)) prioHi)) := by
    have h0 := hadr 0 (by decide)
    rwa [Nat.mul_zero, BitVec.add_zero, Nat.add_zero] at h0
  obtain ⟨w, w', hwrites⟩ :
      ∃ w w', dmChangeBlock (dmSetTValidCmdCommon (dmPrepCmdFlush r) tCmdValid) = [w, w'] := ⟨_, _, rfl⟩
  refine .of_write hb.layout hex hnew ?_
  rw [hwrites]
  change w'.apply net (w.apply net m) = _
  rw [apply_idxs hwrites hb.layout.adr_wrIdxs (show net r.blockWrIdxsAddr = base + 6 by rw [hidxs, h6]),
    apply_elem hwrites (fun k hk => show net (r.cmdAddr + _) = net r.cmdAddr + k by
      rw [hadr k hk, helem]), flush_queued r h4, ← helem]
  rfl

theorem hostFlush_enqueued {t : AllocTable} {net : Word → Nat} {hash ext : Word}
    (hw : Window P net ext) (hfits : ext.toNat + P.ramSize.toNat ≤ 2 ^ 32)
    (hfull : ¬ FullHi P m node base) (copy : BlockCopy P t m node base lst prioHi hash ext)
    (tValid : Time) {b : List BigEndian.Octet} (hlen : b.length = 24) :
    Enqueued P m (hostFlush t net m hash tValid b) node base buf (flushCmd tValid false) := by
  have hsend := copy.sendCommand_eq hb (by decide) hex hw hfits hfull
    (miniFlush tValid 1 false false true lm32NullPtr false) hlen
  rw [flush_element] at hsend
  exact .of_write hb.layout hex rfl hsend

omit hex in
theorem cmd_enqueued {P' : Platform} {s : Cpu} {cnode thrData b : Word} {tValid : Time} {vabs : Bool}
    (hs : s.mem = m) (hex : P.hasQueue m node prioHi = true)
    (ha : Aligned P'.ramSize b P.ramSize.toNat)
    (hn : FlushNode P P' s node cnode thrData b base lst buf tValid vabs) :
    (m (base + 8) &&& blockCmdqDnwSmsk = 0 →
      Enqueued P m (cmd P' s cnode thrData).2.mem node base buf (flushCmd tValid vabs)) ∧
    (m (base + 8) &&& blockCmdqDnwSmsk ≠ 0 →
      KeepsQueues P m (cmd P' s cnode thrData).2.mem node base lst buf) := by
  subst hs
  have hr := hb.cmdReaches hn.window ha hn.target hn.three_queues hn.src hn.ctl hn.ctl_node
  have hprio : cmdPrio P' s.mem cnode = prioHi := by
    rw [cmdPrio, hn.act]
    cases vabs <;> decide
  refine ⟨fun hopen => ?_, fun hlock => hr.cmd_refused hb.layout thrData (hr.refused_of_locked hlock)⟩
  have hacc : accepted P' s cnode = true := by
    rw [accepted, hprio, hr.hasQueue_eq hb.layout, hex, hr.flags_painted, hopen,
      bne_iff_ne.2 hn.not_null]
    rfl
  obtain ⟨-, -, -, hstored⟩ := hr.cmd_accepted hb.layout thrData hacc
  have hnew : newCmd P' s cnode thrData = flushCmd tValid vabs := by
    have hact := hr.ld_painted (k := 5) (by decide) (by decide)
    have harg1 := hr.ld_painted (k := 6) (by decide) (by decide)
    have harg2 := hr.ld_painted (k := 7) (by decide) (by decide)
    have hargs := hn.args
    rw [newCmd, hn.time, flushCmd]
    congr 1
    · exact hact.trans hn.act
    · exact harg1.trans hargs.1
    · exact harg2.trans hargs.2
  rw [hprio, hnew] at hstored
  exact .of_stored hb.layout hex (hr.paint_keeps hb.layout) hstored

/-- **The three writers agree** in aligned windows: gateway and host write the same, and
so does a command node, apart from its flag for absolute times, unless the block is locked
against writing. -/
theorem writers_agree {B : Build} {net : Word → Nat} {ext b : Word} {P' : Platform} {c : DmComm}
    {t : AllocTable} {hash : Word} {s : Cpu} {cnode thrData : Word} {tValid : Time} {vabs : Bool}
    {bytes : List BigEndian.Octet} (tPrepare : Time) (hfull : ¬ FullHi P m node base)
    (hnet : Window P net ext) (hgate : Aligned (roundUp B.ramSize) ext P.ramSize.toNat)
    (hc : c.dynpar = node - intBaseAdr + ext)
    (copy : BlockCopy P t m node base lst prioHi hash ext) (hlen : bytes.length = 24)
    (hs : s.mem = m) (hnode : Aligned P'.ramSize b P.ramSize.toNat)
    (hn : FlushNode P P' s node cnode thrData b base lst buf tValid vabs) :
    Enqueued P m (gatewayFlush B net m c tPrepare tValid) node base buf (flushCmd tValid false) ∧
      Enqueued P m (hostFlush t net m hash tValid bytes) node base buf (flushCmd tValid false) ∧
      (m (base + 8) &&& blockCmdqDnwSmsk = 0 →
        Enqueued P m (cmd P' s cnode thrData).2.mem node base buf (flushCmd tValid vabs)) ∧
      (m (base + 8) &&& blockCmdqDnwSmsk ≠ 0 →
        KeepsQueues P m (cmd P' s cnode thrData).2.mem node base lst buf) :=
  ⟨gatewayFlush_enqueued hb hex hnet hgate hfull hc tPrepare tValid,
    hostFlush_enqueued hb hex hnet hgate.fits hfull copy tValid hlen,
    cmd_enqueued hb hs hex hnode hn⟩

end Three

/-! ### Writing to a block of a sample memory -/

/-- A Data Master with 128 KiB of RAM for each CPU, and one whose RAM is no power of two. -/
def writerPlatform (odd : Bool) : Platform :=
  ⟨if odd then 0x28000 else 0x20000, 0x20000000, by cases odd <;> decide⟩

def writerSpace : Space where
  extBaseAdr := 0x4120000
  intBaseAdr := 0x10000000
  peerBaseAdr := 0x84120000
  sharedOffs := 0x500
  space := 0x10000
  rawSize := 0x1ffff
  sharedInRam := by decide
  intLow := AllocTable.fourBlocks.intLow
  peerHigh := AllocTable.fourBlocks.peerHigh
  peerFits := AllocTable.fourBlocks.peerFits

def writerNet (addr : Word) : Nat := 0x20000000 + (addr - writerSpace.extBaseAdr).toNat / 4

def writerBlock : Word := 0x100082e4

def writerNode : Word := 0x100083b4

/-- A block with an empty queue for high priority, and a command node that is to flush its
queue for low priority. -/
def writerMem (locked vabs : Bool) : Mem :=
  storeAll (writerPlatform false) (fun _ => 0)
    [(writerBlock + nodeFlags, 0x200007), (writerBlock + (blockCmdqPtrs + 4), 0x10008318),
      (0x10008318, 0x1000834c), (0x1000831c, 0x10008380),
      (writerBlock + blockCmdqFlags, if locked then 1 else 0), (writerNode + nodeFlags, 3),
      (writerNode + cmdTarget, writerBlock), (writerNode + cmdValidTime + 4, 7),
      (writerNode + cmdAct, flushAction ||| (bit vabs <<< actVabsPos))]

def writerCpu (locked vabs : Bool) : Cpu := { sampleCpu 0 with mem := writerMem locked vabs }

theorem writerMem_block (odd locked vabs : Bool) :
    RamBlock (writerPlatform odd) (writerMem locked vabs) writerBlock 0x200020b9
      (fun _ => 0x200020c6) (fun _ j => 0x200020d3 + 13 * j) := by
  have hexists : ∀ q, q < 3 →
      (writerPlatform odd).hasQueue (writerMem locked vabs) writerBlock q = true → q = 1 := by
    cases odd <;> cases locked <;> cases vabs <;> decide +kernel
  have hctl : (writerPlatform odd).ctl 0 = 0x20000140 := rfl
  refine ⟨⟨?_, ?_, ?_, Or.inr ?_, ?_, ?_, ?_, ?_, ?_, ?_⟩, ?_, ?_, ?_⟩
  · cases odd <;> decide +kernel
  · cases odd <;> cases locked <;> cases vabs <;> decide +kernel
  · cases odd <;> cases locked <;> cases vabs <;> decide +kernel
  · rw [hctl]
    decide
  · exact fun q _ _ => Or.inl (by decide)
  · intro q _ _
    rw [hctl]
    exact Or.inr (by decide)
  · intro q _ _ j _
    simp only [Apart]
    omega
  · intro q _ _ j _
    rw [hctl]
    simp only [Apart]
    omega
  · intro q _ _ r _ _ j _
    simp only [Apart]
    omega
  · intro q hq hexq r hr hexr i hi j hj hne
    have hq1 := hexists q hq hexq
    have hr1 := hexists r hr hexr
    simp only [Apart]
    omega
  · cases odd <;> decide +kernel
  · cases odd <;> cases locked <;> cases vabs <;> decide +kernel
  · cases odd <;> cases locked <;> cases vabs <;> decide +kernel

theorem writerCpu_node (odd locked vabs : Bool) :
    FlushNode (writerPlatform odd) (writerPlatform odd) (writerCpu locked vabs) writerBlock writerNode
      (thrPtr 0) intBaseAdr 0x200020b9 (fun _ => 0x200020c6) (fun _ j => 0x200020d3 + 13 * j) 7
      vabs where
  window := window_own
  target := by cases odd <;> cases locked <;> cases vabs <;> decide +kernel
  not_null := by cases odd <;> cases locked <;> cases vabs <;> decide +kernel
  three_queues := by cases odd <;> cases locked <;> cases vabs <;> decide +kernel
  src := by
    refine ⟨0x200020ed, by cases odd <;> decide +kernel, Or.inr (by decide), fun k hk => ⟨?_, ?_, ?_⟩⟩
    · intro i _ _ _
      omega
    · intro q hq _ j hj
      omega
    · intro q hq _ j hj i hi
      omega
  ctl o ho := by
    have hctl : (writerPlatform odd).ctl o = 0x20000000 + (0x500 + o) / 4 := rfl
    have hend : shctlEnd = 820 := rfl
    refine ⟨?_, ?_, ?_⟩
    · intro i _ _ _
      omega
    · intro q hq _ j hj
      omega
    · intro q hq _ j hj i hi
      omega
  ctl_node := by
    rw [show (writerPlatform odd).ctl 0 = 0x20000140 from rfl]
    exact Or.inr (by decide)
  act := by cases odd <;> cases locked <;> cases vabs <;> decide +kernel
  args := by cases odd <;> cases locked <;> cases vabs <;> decide +kernel
  time := by cases odd <;> cases locked <;> cases vabs <;> decide +kernel

/-- The node at an offset of the RAM, as the host has downloaded it. -/
def downloaded (m : Mem) (adr hash : Word) (v : Nat) : AllocMeta where
  cpu := 0
  adr := adr
  hash := hash
  v := v
  b := Vector.ofFn fun i =>
    (BigEndian.be32 (m (0x20000000 + adr.toNat / 4 + i.1 / 4))).getD (i.1 % 4) 0
  staged := false

def writerTable (m : Mem) : AllocTable where
  a := ⟨[downloaded m 0x82e4 1 0, downloaded m 0x8318 2 1], by
    refine List.pairwise_pair.2 ?_
    rintro (h | h | h)
    · exact absurd h (show 0 ≠ 1 by decide)
    · exact absurd h (show (1 : Word) ≠ 2 by decide)
    · exact absurd (congrArg Prod.snd h) (show (0x82e4 : Word) ≠ 0x8318 by decide)⟩
  m := .empty
  vPool := [MemPool.new writerSpace]

def writerCopy (locked vabs : Bool) :
    BlockCopy (writerPlatform false) (writerTable (writerMem locked vabs)) (writerMem locked vabs)
      writerBlock 0x200020b9 (fun _ => 0x200020c6) prioHi 1 writerSpace.extBaseAdr where
  x := downloaded (writerMem locked vabs) 0x82e4 1 0
  pmBl := downloaded (writerMem locked vabs) 0x8318 2 1
  pool := MemPool.new writerSpace
  hash_eq := rfl
  pool_eq := rfl
  size := rfl
  int_eq := rfl
  ext_eq := rfl
  chunk := by
    have hchunk : writerSpace.IsChunk 0x82e4 := by decide
    exact hchunk
  adr := show (0x82e4 : Word) = writerBlock - intBaseAdr by decide
  words := by cases locked <;> cases vabs <;> decide +kernel
  list := by
    have hptr : writerMem locked vabs (0x200020b9 + (3 + prioHi)) = 0x10008318 := by
      cases locked <;> cases vabs <;> decide +kernel
    rw [hptr]
    rfl
  list_words := by cases locked <;> cases vabs <;> decide +kernel

theorem writerNet_window : Window (writerPlatform false) writerNet writerSpace.extBaseAdr := by
  intro offs hoffs
  have hlt : offs < 0x20000 := hoffs
  rw [writerNet, BitVec.add_comm, BitVec.add_sub_cancel, BitVec.toNat_ofNat]
  change _ = 0x20000000 + offs / 4
  omega

theorem aligned_round : Aligned 0x20000 intBaseAdr (writerPlatform false).ramSize.toNat :=
  ⟨17, by decide, rfl, by decide, by decide⟩

def writerBuild (small : Bool) : Build :=
  ⟨if small then 0x8000 else 0x20000, by cases small <;> decide⟩

theorem aligned_ext : Aligned (roundUp (writerBuild false).ramSize) writerSpace.extBaseAdr
    (writerPlatform false).ramSize.toNat :=
  ⟨17, by decide, by decide, by decide, by decide⟩

def writerRecord : DmComm := { waitingBlock with dynpar := writerBlock - intBaseAdr + writerSpace.extBaseAdr }

theorem writerMem_free (odd locked vabs : Bool) :
    (writerPlatform odd).hasQueue (writerMem locked vabs) writerBlock prioHi = true ∧
      ¬ FullHi (writerPlatform odd) (writerMem locked vabs) writerBlock 0x200020b9 := by
  unfold FullHi
  cases odd <;> cases locked <;> cases vabs <;> decide +kernel

/-- All three write the flush command to the sample block. -/
theorem writers_agree_sample :
    Enqueued (writerPlatform false) (writerMem false false)
        (gatewayFlush (writerBuild false) writerNet (writerMem false false) writerRecord 0 7)
        writerBlock 0x200020b9 (fun _ j => 0x200020d3 + 13 * j) (flushCmd 7 false) ∧
      Enqueued (writerPlatform false) (writerMem false false)
        (hostFlush (writerTable (writerMem false false)) writerNet (writerMem false false) 1 7
          (List.replicate 24 0)) writerBlock 0x200020b9 (fun _ j => 0x200020d3 + 13 * j)
        (flushCmd 7 false) ∧
      Enqueued (writerPlatform false) (writerMem false false)
        (cmd (writerPlatform false) (writerCpu false false) writerNode (thrPtr 0)).2.mem
        writerBlock 0x200020b9 (fun _ j => 0x200020d3 + 13 * j) (flushCmd 7 false) := by
  obtain ⟨hex, hfull⟩ := writerMem_free false false false
  have hlen : (List.replicate 24 0 : List BigEndian.Octet).length = 24 := rfl
  have hmem : (writerCpu false false).mem = writerMem false false := rfl
  have hrecord : writerRecord.dynpar = writerBlock - intBaseAdr + writerSpace.extBaseAdr := rfl
  obtain ⟨hgateway, hhost, hnode, -⟩ :=
    writers_agree (writerMem_block false false false) hex 0 hfull writerNet_window aligned_ext hrecord
      (writerCopy false false) hlen hmem aligned_round (writerCpu_node false false false)
  exact ⟨hgateway, hhost, hnode (by decide +kernel)⟩

/-- Where they differ: a command node leaves a locked block alone; its flag for absolute times
ends up in the element; in a RAM whose size is no power of two its mask finds another
address; and so does the mask of a gateway with a smaller RAM. -/
theorem writers_disagree :
    ¬ Enqueued (writerPlatform false) (writerMem true false)
        (cmd (writerPlatform false) (writerCpu true false) writerNode (thrPtr 0)).2.mem
        writerBlock 0x200020b9 (fun _ j => 0x200020d3 + 13 * j) (flushCmd 7 false) ∧
      ¬ Enqueued (writerPlatform false) (writerMem false true)
        (cmd (writerPlatform false) (writerCpu false true) writerNode (thrPtr 0)).2.mem
        writerBlock 0x200020b9 (fun _ j => 0x200020d3 + 13 * j) (flushCmd 7 false) ∧
      ¬ Enqueued (writerPlatform true) (writerMem false false)
        (cmd (writerPlatform true) (writerCpu false false) writerNode (thrPtr 0)).2.mem
        writerBlock 0x200020b9 (fun _ j => 0x200020d3 + 13 * j) (flushCmd 7 false) ∧
      ¬ Enqueued (writerPlatform false) (writerMem false false)
        (gatewayFlush (writerBuild true) writerNet (writerMem false false) writerRecord 0 7)
        writerBlock 0x200020b9 (fun _ j => 0x200020d3 + 13 * j) (flushCmd 7 false) := by
  refine ⟨fun h => ?_, fun h => ?_, fun h => ?_, fun h => ?_⟩
  · exact absurd h.elem (by decide +kernel)
  · exact absurd h.elem (by decide +kernel)
  · exact absurd h.elem (by decide +kernel)
  · exact absurd h.elem (by decide +kernel)

end DmUnipz
