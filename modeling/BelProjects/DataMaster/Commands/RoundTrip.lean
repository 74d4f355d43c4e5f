import BelProjects.DataMaster.Alloc.Sequences
import BelProjects.DataMaster.Commands.Decode

/-!
# Commands from end to end

For which parameters the element that the host writes means the same to the host that
reads it back and to the CPU that executes it.
-/

namespace DataMaster

open BigEndian

namespace HostView

variable (H : HostView)

/-! ### What a command means -/

def node? (name : String) : Option AllocMeta :=
  if name = sIdle then none else (H.hashOf name).bind H.table.lookupHash

/-- The pointer to a node that a CPU can use: its own RAM it sees at an internal address,
that of others on the bus. -/
def pointer (cpu : CpuIdx) (name : String) : Word :=
  match H.node? name with
  | none => lm32NullPtr
  | some e =>
    (H.table.adrConv .MGMT (if e.cpu = cpu then .INT else .PEER) e.cpu e.adr).getD lm32NullPtr

/-- The parameters a command is created with. Its valid time is the point in time from
which on it is valid, and a flush overrides the destination if its destination is a node. -/
def params (x : CmdArgs) : CmdParams :=
  let validTime := H.adjustValidTime x.cmdTvalid x.vabs
  match x.type with
  | .noop => { type := .noop, validTime, qty := x.cmdQty }
  | .flow => { type := .flow, validTime, qty := x.cmdQty, dst := x.destination, perma := x.perma }
  | .flush =>
    { type := .flush, validTime, qty := x.cmdQty, perma := x.perma
      dst := if (H.node? x.destination).isSome then x.destination else "No Ovr"
      flushIl := x.qIl, flushHi := x.qHi, flushLo := x.qLo }
  | .wait =>
    { type := .wait, validTime, qty := x.cmdQty, perma := x.perma, waitTime := x.cmdTwait
      waitAbs := x.abswait }

def fwParams (cpu : CpuIdx) (x : CmdArgs) : FwParams :=
  let validTime := H.adjustValidTime x.cmdTvalid x.vabs
  let prio := x.cmdPrio.toNat
  match x.type with
  | .noop => { type := .noop, prio, validTime, qty := x.cmdQty }
  | .flow =>
    { type := .flow, prio, validTime, qty := x.cmdQty, dst := H.pointer cpu x.destination
      perma := x.perma }
  | .flush =>
    { type := .flush, prio, validTime, qty := x.cmdQty, dst := H.pointer cpu x.destination
      perma := x.perma
      flushees := (if x.qIl then 4 else 0) ||| (if x.qHi then 2 else 0) ||| (if x.qLo then 1 else 0) }
  | .wait =>
    { type := .wait, prio, validTime, qty := x.cmdQty, perma := x.perma, waitTime := x.cmdTwait
      waitAbs := x.abswait }

/-- The element in slot `idx` of the buffer `buf` means to the host and to the CPU what
the command was created with. -/
def Decodes (x : CmdArgs) (idx : BitVec 8) (buf : AllocMeta) (b : List Octet) : Prop :=
  (H.getQelement idx buf []).bind QueueElement.params = some (H.params x) ∧
    (elementOf b).fwParams = some (H.fwParams buf.cpu x)

/-- The parameters that survive: quantities of one byte, one for commands that have none,
no flag that is dropped on the way, and destinations on the CPU of the block. -/
def Survives (cpu : CpuIdx) (x : CmdArgs) : Prop :=
  match x.type with
  | .noop => x.cmdQty < 256
  | .flow => x.cmdQty < 256 ∧ ∀ e, H.node? x.destination = some e → e.cpu = cpu
  | .flush =>
    x.cmdQty = 1 ∧ x.perma = false ∧ ∀ e, H.node? x.destination = some e → e.cpu = cpu
  | .wait => x.cmdQty = 1 ∧ x.perma = false ∧ x.abswait = false

/-! ### Destinations -/

variable {H}

theorem poolOf {e : AllocMeta} (he : e ∈ H.table.a) :
    ∃ p, H.table.vPool[e.cpu.toNat]? = some p ∧ p.consts.IsChunk e.adr := H.onChunk e he

theorem node?_spec {name : String} {e : AllocMeta} (h : H.node? name = some e) :
    e ∈ H.table.a ∧ H.nodeName e.v = name := by
  unfold node? at h
  split at h
  next => cases h
  next =>
    obtain ⟨hash, hhash, hlookup⟩ := Option.bind_eq_some_iff.1 h
    obtain ⟨he, rfl⟩ := AllocTable.lookupHash_eq.1 hlookup
    exact ⟨he, H.hashOf_inj _ _ _ (H.named e he) hhash⟩

theorem adrConv_chunk {S : Space} {adr : Word} (h : S.IsChunk adr) :
    S.adrConv .MGMT .INT adr = some (adr + S.intBaseAdr) ∧
    S.adrConv .MGMT .PEER adr = some (adr + S.peerBaseAdr) := by
  have hne : adr ≠ lm32NullPtr := by
    rintro rfl
    exact Nat.lt_irrefl 0 (S.chunk_inRam h).1
  unfold Space.adrConv
  rw [if_neg hne, if_neg hne]
  exact ⟨rfl, rfl⟩

theorem getNodeAdr_node {name : String} {e : AllocMeta} (h : H.node? name = some e) {p : MemPool}
    (hp : H.table.vPool[e.cpu.toNat]? = some p) (hchunk : p.consts.IsChunk e.adr) :
    H.getNodeAdr name .INT = .ok (e.adr + p.consts.intBaseAdr) := by
  unfold node? at h
  unfold getNodeAdr
  split at h
  next => cases h
  next hidle =>
    obtain ⟨hash, hhash, hlookup⟩ := Option.bind_eq_some_iff.1 h
    rw [if_neg hidle, hhash]
    dsimp only
    rw [hlookup]
    unfold AllocTable.adrConv
    dsimp only
    rw [hp]
    dsimp only
    rw [(adrConv_chunk hchunk).1]
    rfl

theorem getNodeAdr_other {name : String} (h : H.node? name = none) :
    H.getNodeAdr name .INT = .ok lm32NullPtr ∧ name = sIdle ∨
      (∃ what, H.getNodeAdr name .INT = .error what) := by
  unfold node? at h
  unfold getNodeAdr
  split at h
  next hidle => exact Or.inl ⟨if_pos hidle, hidle⟩
  next hidle =>
    right
    rw [if_neg hidle]
    cases hhash : H.hashOf name with
    | none => exact ⟨_, rfl⟩
    | some hash =>
      rw [hhash] at h
      have hlookup : H.table.lookupHash hash = none := h
      dsimp only
      rw [hlookup]
      exact ⟨_, rfl⟩

/-- The host finds the node again exactly if it is on the CPU of the block. -/
theorem destName_iff {name : String} {e : AllocMeta} (h : H.node? name = some e) {p : MemPool}
    (hp : H.table.vPool[e.cpu.toNat]? = some p) (hchunk : p.consts.IsChunk e.adr) {cpu : CpuIdx}
    {q : MemPool} (hq : H.table.vPool[cpu.toNat]? = some q) :
    H.destName cpu [] (e.adr + p.consts.intBaseAdr) = (name, false) ↔ e.cpu = cpu := by
  obtain ⟨he, hname⟩ := node?_spec h
  have hconv : H.table.adrConv .INT .MGMT cpu (e.adr + p.consts.intBaseAdr) =
      some (e.adr + p.consts.intBaseAdr - q.consts.intBaseAdr) := by
    unfold AllocTable.adrConv
    rw [hq]
    dsimp only
    unfold Space.adrConv
    rw [if_neg (AllocTable.intAdr_ne_null hchunk)]
  unfold destName
  rw [AllocTable.adrClassification_int hp hchunk]
  dsimp only
  rw [if_neg (by decide), hconv]
  dsimp only
  constructor
  · intro hfound
    split at hfound
    next => cases (Prod.mk.inj hfound).2
    next dst hdst =>
      obtain ⟨hmem, hcpu, -⟩ := AllocTable.lookupAdr_eq.1 hdst
      have hsame : H.nodeName dst.v = H.nodeName e.v := (Prod.mk.inj hfound).1.trans hname.symm
      have hhash : dst.hash = e.hash := by
        have h₁ := H.named dst hmem
        rw [hsame, H.named e he] at h₁
        exact (Option.some.inj h₁).symm
      rw [← UniqueSet.eq_of_collide hmem he (Or.inr (Or.inl hhash))]
      exact hcpu
  · intro hcpu
    rw [hcpu, hq] at hp
    cases hp
    have hback : e.adr + p.consts.intBaseAdr - p.consts.intBaseAdr = e.adr :=
      BitVec.add_sub_cancel ..
    rw [hback, AllocTable.lookupAdr_eq.2 ⟨he, hcpu, rfl⟩]
    dsimp only
    rw [hname]
    rfl

theorem pointer_iff {name : String} {e : AllocMeta} (h : H.node? name = some e) {p : MemPool}
    (hp : H.table.vPool[e.cpu.toNat]? = some p) (hchunk : p.consts.IsChunk e.adr) {cpu : CpuIdx} :
    e.adr + p.consts.intBaseAdr = H.pointer cpu name ↔ e.cpu = cpu := by
  unfold pointer AllocTable.adrConv
  rw [h]
  dsimp only
  rw [hp]
  dsimp only
  by_cases hcpu : e.cpu = cpu
  · rw [if_pos hcpu, (adrConv_chunk hchunk).1]
    exact iff_of_true rfl hcpu
  · rw [if_neg hcpu, (adrConv_chunk hchunk).2]
    refine iff_of_false ?_ hcpu
    intro heq
    have hadr := AllocTable.intAdr_toNat hchunk
    have hram := p.consts.chunk_inRam hchunk
    have hlow := p.consts.intLow
    have hhigh := p.consts.peerHigh
    have hfits := p.consts.peerFits
    have hpeer : (e.adr + p.consts.peerBaseAdr).toNat =
        p.consts.peerBaseAdr.toNat + e.adr.toNat := by
      rw [BitVec.toNat_add]
      omega
    rw [heq] at hadr
    change (e.adr + p.consts.peerBaseAdr).toNat = _ at hadr
    omega

/-! ### Reading an element back -/

/-- Slot `idx` of the buffer holds the first twenty bytes of `b`. -/
def HoldsSlot (buf : AllocMeta) (idx : BitVec 8) (b : List Octet) : Prop :=
  ∀ k, k < tCmdSize → buf.b.toList[idx.toNat % 2 * tCmdSize + k]? = b[k]?

theorem elementOf_slot {buf : AllocMeta} {idx : BitVec 8} {b : List Octet}
    (h : HoldsSlot buf idx b) :
    elementOf (buf.b.toList.drop (idx.toNat % 2 * tCmdSize)) = elementOf b := by
  have hread : ∀ off, off + 4 ≤ tCmdSize →
      read32 (buf.b.toList.drop (idx.toNat % 2 * tCmdSize)) off = read32 b off := by
    intro off hoff
    rw [read32_drop]
    apply read32_congr
    intro i hi
    rw [Nat.add_assoc]
    exact h (off + i) (by omega)
  unfold elementOf read64
  rw [hread 0 (by decide), hread 4 (by decide), hread 8 (by decide), hread 12 (by decide),
    hread 16 (by decide)]

theorem getQelement_params {buf : AllocMeta} {idx : BitVec 8} {x : QueuedCmd} {p : MemPool}
    (hp : H.table.vPool[buf.cpu.toNat]? = some p)
    (hx : elementOf (buf.b.toList.drop (idx.toNat % 2 * tCmdSize)) = x) :
    (H.getQelement idx buf []).bind QueueElement.params =
      match ActType.ofNum? (actType x.act) with
      | some .noop => some { type := .noop, validTime := x.validTime, qty := x.qty }
      | some .flow =>
        let dst := if x.arg1 = lm32NullPtr then (sIdle, false) else H.destName buf.cpu [] x.arg1
        some
          { type := .flow, validTime := x.validTime, qty := x.qty, dst := dst.1, orphaned := dst.2
            perma := (x.act >>> actChpPos) &&& actChpMsk != 0 }
      | some .flush =>
        let flPrio := (x.act >>> actFlushPrioPos) &&& actFlushPrioMsk
        let dst := if x.arg1 = lm32NullPtr then ("No Ovr", false) else H.destName buf.cpu [] x.arg1
        some
          { type := .flush, validTime := x.validTime, qty := x.qty, dst := dst.1, orphaned := dst.2
            flushIl := flPrio &&& (1 <<< prioIl) != 0
            flushHi := flPrio &&& (1 <<< prioHi) != 0
            flushLo := flPrio &&& (1 <<< prioLo) != 0 }
      | some .wait =>
        some
          { type := .wait, validTime := x.validTime, qty := x.qty, waitTime := x.arg1 ++ x.arg2
            waitAbs := (x.act >>> actWaitAbsPos) &&& actWaitAbsMsk != 0 }
      | _ => none := by
  obtain ⟨ext, hext⟩ : ∃ ext, H.table.adrConv .MGMT .EXT buf.cpu buf.adr = some ext := by
    unfold AllocTable.adrConv Space.adrConv
    rw [hp]
    dsimp only
    split
    next => exact ⟨_, rfl⟩
    next => exact ⟨_, rfl⟩
  subst hx
  unfold getQelement
  rw [hext]
  dsimp only [elementOf, QueuedCmd.qty, actType, actQty]
  generalize buf.b.toList.drop (idx.toNat % 2 * tCmdSize) = b
  cases hty : ActType.ofNum? ((read32 b 8 >>> actTypePos &&& actTypeMsk).toNat) with
  | none => rfl
  | some ty =>
    cases ty with
    | unknown => rfl
    | noop => rfl
    | flow => rfl
    | flush => rfl
    | wait => rfl

/-! ### The four commands -/

section Commands

variable {x : CmdArgs} {buf : AllocMeta} {idx : BitVec 8} {b : List Octet} {p : MemPool}

theorem prio_packed {y : QueuedCmd} {type prio qty spec : Word} {chp : Bool}
    (hact : y.act = packAct type prio qty spec chp) (htype : type.toNat < 16)
    (hprio : prio.toNat < 4) : y.prio = prio.toNat := by
  unfold QueuedCmd.prio
  rw [hact, packAct_prio htype hprio]

theorem toNat_prio {prio : BitVec 8} (hprio : prio.toNat < 3) :
    (prio.setWidth 32).toNat = prio.toNat := by
  rw [BitVec.toNat_setWidth]
  omega

theorem decodes_noop_iff (hp : H.table.vPool[buf.cpu.toNat]? = some p) (hprio : x.cmdPrio.toNat < 3)
    (hslot : HoldsSlot buf idx b) (htype : x.type = .noop)
    (hact : (elementOf b).act = packAct 1 (x.cmdPrio.setWidth 32)
      ((BitVec.ofNat 8 x.cmdQty).setWidth 32) 0 false)
    (htime : (elementOf b).validTime = H.adjustValidTime x.cmdTvalid x.vabs) :
    H.Decodes x idx buf b ↔ H.Survives buf.cpu x := by
  have hkind : ActType.ofNum? (actType (elementOf b).act) = some .noop := by
    rw [hact, actType_packAct (by decide)]
    rfl
  have hqty : (elementOf b).qty = x.cmdQty % 256 := by
    unfold QueuedCmd.qty
    rw [hact, actQty_packAct]
    rfl
  have hprio' : (elementOf b).prio = x.cmdPrio.toNat :=
    (prio_packed hact (by decide) (by rw [toNat_prio hprio]; omega)).trans (toNat_prio hprio)
  unfold Decodes Survives params fwParams QueuedCmd.fwParams
  rw [getQelement_params hp (elementOf_slot hslot), hkind, htype]
  simp only [htime, hqty, hprio', Option.some.injEq, CmdParams.mk.injEq, FwParams.mk.injEq,
    true_and, and_true]
  omega

/-- An address the host resolved is found by host and CPU exactly if it is on the CPU
of the block. -/
theorem resolved_iff {name : String} {e : AllocMeta} (h : H.node? name = some e) {cpu : CpuIdx}
    {q : MemPool} (hq : H.table.vPool[cpu.toNat]? = some q) {adr : Word}
    (hadr : H.getNodeAdr name .INT = .ok adr) :
    adr ≠ lm32NullPtr ∧ (H.destName cpu [] adr = (name, false) ↔ e.cpu = cpu) ∧
      (adr = H.pointer cpu name ↔ e.cpu = cpu) := by
  obtain ⟨p, hp, hchunk⟩ := H.poolOf (node?_spec h).1
  rw [getNodeAdr_node h hp hchunk] at hadr
  cases hadr
  exact ⟨AllocTable.intAdr_ne_null hchunk, destName_iff h hp hchunk hq, pointer_iff h hp hchunk⟩

theorem decodes_flow_iff (hp : H.table.vPool[buf.cpu.toNat]? = some p) (hprio : x.cmdPrio.toNat < 3)
    (hslot : HoldsSlot buf idx b) (htype : x.type = .flow)
    (hact : (elementOf b).act = packAct 2 (x.cmdPrio.setWidth 32)
      ((BitVec.ofNat 8 x.cmdQty).setWidth 32) 0 x.perma)
    (htime : (elementOf b).validTime = H.adjustValidTime x.cmdTvalid x.vabs)
    (hdst : H.getNodeAdr x.destination .INT = .ok (elementOf b).arg1) :
    H.Decodes x idx buf b ↔ H.Survives buf.cpu x := by
  have hkind : ActType.ofNum? (actType (elementOf b).act) = some .flow := by
    rw [hact, actType_packAct (by decide)]
    rfl
  have hqty : (elementOf b).qty = x.cmdQty % 256 := by
    unfold QueuedCmd.qty
    rw [hact, actQty_packAct]
    rfl
  have hprio' : (elementOf b).prio = x.cmdPrio.toNat :=
    (prio_packed hact (by decide) (by rw [toNat_prio hprio]; omega)).trans (toNat_prio hprio)
  have hperma : (((elementOf b).act >>> actChpPos) &&& actChpMsk != 0) = x.perma := by
    rw [hact]
    exact shift_and_one_bne.trans (packAct_chp (by decide))
  have hperma' : ((elementOf b).act &&& actChpSmsk != 0) = x.perma := by
    rw [hact]
    exact (and_bit_bne (by decide)).trans (packAct_chp (by decide))
  unfold Decodes Survives params fwParams QueuedCmd.fwParams
  rw [getQelement_params hp (elementOf_slot hslot), hkind, htype]
  simp only [htime, hqty, hprio', hperma, hperma', Option.some.injEq, CmdParams.mk.injEq,
    FwParams.mk.injEq, true_and, and_true]
  cases hnode : H.node? x.destination with
  | some e =>
    obtain ⟨hne, hhost, hcpu⟩ := resolved_iff hnode hp hdst
    have hmod : x.cmdQty % 256 = x.cmdQty ↔ x.cmdQty < 256 := by omega
    rw [if_neg hne, ← Prod.mk.injEq, hhost, hcpu, hmod]
    simp only [Option.some.injEq, forall_eq']
    exact and_self_iff
  | none =>
    rcases getNodeAdr_other hnode with ⟨hnull, hidle⟩ | ⟨what, herror⟩
    · rw [hnull] at hdst
      have hptr : H.pointer buf.cpu x.destination = lm32NullPtr := by
        unfold pointer
        rw [hnode]
      rw [← Except.ok.inj hdst, hptr, hidle]
      simp only [if_true, and_true, reduceCtorEq, false_implies, implies_true]
      omega
    · rw [herror] at hdst
      cases hdst

theorem decodes_flush_iff (hp : H.table.vPool[buf.cpu.toNat]? = some p)
    (hprio : x.cmdPrio.toNat < 3) (hslot : HoldsSlot buf idx b) (htype : x.type = .flush)
    (hact : (elementOf b).act = packAct 3 (x.cmdPrio.setWidth 32) 1
      ((bit x.qIl <<< prioIl) ||| (bit x.qHi <<< prioHi) ||| (bit x.qLo <<< prioLo)) x.perma)
    (htime : (elementOf b).validTime = H.adjustValidTime x.cmdTvalid x.vabs)
    (hdst : (elementOf b).arg1 =
      match H.getNodeAdr x.destination .INT with
      | .ok adr => adr
      | .error _ => lm32NullPtr) :
    H.Decodes x idx buf b ↔ H.Survives buf.cpu x := by
  have hkind : ActType.ofNum? (actType (elementOf b).act) = some .flush := by
    rw [hact, actType_packAct (by decide)]
    rfl
  have hqty : (elementOf b).qty = 1 := by
    unfold QueuedCmd.qty
    rw [hact]
    exact actQty_packAct (q := 1)
  have hprio' : (elementOf b).prio = x.cmdPrio.toNat :=
    (prio_packed hact (by decide) (by rw [toNat_prio hprio]; omega)).trans (toNat_prio hprio)
  have hperma : ((elementOf b).act &&& actChpSmsk != 0) = x.perma := by
    rw [hact]
    exact (and_bit_bne (by decide)).trans (packAct_chp (by decide))
  have hspec : ∀ il hi lo : Bool,
      ((bit il <<< prioIl) ||| (bit hi <<< prioHi) ||| (bit lo <<< prioLo)).toNat < 8 := by
    decide
  have hmask : ((elementOf b).act >>> actFlushPrioPos) &&& actFlushPrioMsk =
      (bit x.qIl <<< prioIl) ||| (bit x.qHi <<< prioHi) ||| (bit x.qLo <<< prioLo) := by
    rw [hact]
    exact packAct_spec (by decide) (hspec x.qIl x.qHi x.qLo)
  have hil : ∀ il hi lo : Bool, (((bit il <<< prioIl) ||| (bit hi <<< prioHi) |||
      (bit lo <<< prioLo)) &&& (1 <<< prioIl) != 0) = il := by decide
  have hhi : ∀ il hi lo : Bool, (((bit il <<< prioIl) ||| (bit hi <<< prioHi) |||
      (bit lo <<< prioLo)) &&& (1 <<< prioHi) != 0) = hi := by decide
  have hlo : ∀ il hi lo : Bool, (((bit il <<< prioIl) ||| (bit hi <<< prioHi) |||
      (bit lo <<< prioLo)) &&& (1 <<< prioLo) != 0) = lo := by decide
  have hflushees : ∀ il hi lo : Bool,
      ((bit il <<< prioIl) ||| (bit hi <<< prioHi) ||| (bit lo <<< prioLo)).setWidth 8 =
        (if il then 4 else 0 : BitVec 8) ||| (if hi then 2 else 0) ||| (if lo then 1 else 0) := by
    decide
  unfold Decodes Survives params fwParams QueuedCmd.fwParams
  rw [getQelement_params hp (elementOf_slot hslot), hkind, htype]
  simp only [htime, hqty, hprio', hperma, hmask, hil, hhi, hlo, hflushees, Option.some.injEq,
    CmdParams.mk.injEq, FwParams.mk.injEq, true_and, and_true]
  cases hnode : H.node? x.destination with
  | some e =>
    obtain ⟨q, hq, hchunk⟩ := H.poolOf (node?_spec hnode).1
    have hadr := getNodeAdr_node hnode hq hchunk
    rw [hadr] at hdst
    obtain ⟨hne, hhost, hcpu⟩ := resolved_iff hnode hp (hadr.trans (congrArg Except.ok hdst.symm))
    rw [if_neg hne, Option.isSome_some, if_pos rfl]
    simp only [Option.some.injEq, forall_eq']
    constructor
    · rintro ⟨⟨hone, hname, hfound, hperm⟩, -, -⟩
      exact ⟨hone.symm, hperm.symm, hhost.1 (Prod.ext hname hfound)⟩
    · rintro ⟨hone, hperm, hsame⟩
      have hfound := hhost.2 hsame
      rw [hfound]
      exact ⟨⟨hone.symm, rfl, rfl, hperm.symm⟩, hone.symm, hcpu.2 hsame⟩
  | none =>
    have hnull : (elementOf b).arg1 = lm32NullPtr := by
      rcases getNodeAdr_other hnode with ⟨hnull, -⟩ | ⟨what, herror⟩
      · rw [hdst, hnull]
      · rw [hdst, herror]
    have hptr : H.pointer buf.cpu x.destination = lm32NullPtr := by
      unfold pointer
      rw [hnode]
    rw [hnull, hptr]
    simp only [if_true, Option.isSome_none, Bool.false_eq_true, if_false, true_and, and_true,
      reduceCtorEq, false_implies, implies_true]
    constructor
    · rintro ⟨⟨hone, hperm⟩, -⟩
      exact ⟨hone.symm, hperm.symm⟩
    · rintro ⟨hone, hperm⟩
      exact ⟨⟨hone.symm, hperm.symm⟩, hone.symm⟩

theorem decodes_wait_iff (hp : H.table.vPool[buf.cpu.toNat]? = some p)
    (hprio : x.cmdPrio.toNat < 3) (hslot : HoldsSlot buf idx b) (htype : x.type = .wait)
    (hact : (elementOf b).act = packAct 4 (x.cmdPrio.setWidth 32) 1 0 false)
    (htime : (elementOf b).validTime = H.adjustValidTime x.cmdTvalid x.vabs)
    (hwait : (elementOf b).arg1 ++ (elementOf b).arg2 = x.cmdTwait) :
    H.Decodes x idx buf b ↔ H.Survives buf.cpu x := by
  have hkind : ActType.ofNum? (actType (elementOf b).act) = some .wait := by
    rw [hact, actType_packAct (by decide)]
    rfl
  have hqty : (elementOf b).qty = 1 := by
    unfold QueuedCmd.qty
    rw [hact]
    exact actQty_packAct (q := 1)
  have hprio' : (elementOf b).prio = x.cmdPrio.toNat :=
    (prio_packed hact (by decide) (by rw [toNat_prio hprio]; omega)).trans (toNat_prio hprio)
  have hperma : ((elementOf b).act &&& actChpSmsk != 0) = false := by
    rw [hact]
    exact (and_bit_bne (by decide)).trans (packAct_chp (by decide))
  have habs : (((elementOf b).act >>> actWaitAbsPos) &&& actWaitAbsMsk != 0) = false := by
    rw [hact]
    exact shift_and_one_bne.trans (packAct_waitAbs (by decide))
  have habs' : ((elementOf b).act &&& actWaitAbsSmsk != 0) = false := by
    rw [hact]
    exact (and_bit_bne (by decide)).trans (packAct_waitAbs (by decide))
  unfold Decodes Survives params fwParams QueuedCmd.fwParams
  rw [getQelement_params hp (elementOf_slot hslot), hkind, htype]
  simp only [htime, hqty, hprio', hperma, habs, habs', hwait, Option.some.injEq,
    CmdParams.mk.injEq, FwParams.mk.injEq, true_and]
  constructor
  · rintro ⟨⟨hone, hperm, hrel⟩, -⟩
    exact ⟨hone.symm, hperm.symm, hrel.symm⟩
  · rintro ⟨hone, hperm, hrel⟩
    exact ⟨⟨hone.symm, hperm.symm, hrel.symm⟩, hone.symm, hperm.symm, hrel.symm⟩

/-- **Commands from end to end**: the element of a command means to the host and to the
CPU what the command was created with if and only if its parameters survive, and then its
handler does on the CPU what they say. -/
theorem command_decodes_iff {mc : MiniCommand} (hmc : H.createCommand x = .ok mc)
    (hprio : x.cmdPrio.toNat < 3) {b₀ : List Octet} (hb₀ : b₀.length = tCmdSize + 4) {inc : Word}
    (hbuf : buf ∈ H.table.a) (hslot : HoldsSlot buf idx (mc.bytes b₀ inc)) :
    (H.Decodes x idx buf (mc.bytes b₀ inc) ↔ H.Survives buf.cpu x) ∧
    (H.Survives buf.cpu x →
      ∀ (P : Platform) (s : Cpu) (node cmd thrData : Word) (ty : ActType),
        slotCmd P s.mem cmd = elementOf (mc.bytes b₀ inc) →
        ActType.ofNum? (actType (P.ld s.mem (cmd + tCmdAct))) = some ty →
        P.adr (cmd + tCmdAct) ≠ P.adr (node + blockCmdqRdIdxs) →
        P.adr (cmd + tCmdFlushOvr) ≠ P.adr (node + blockCmdqRdIdxs) →
        actionFuncs P ty s node cmd thrData = (H.fwParams buf.cpu x).exec P s node thrData) := by
  obtain ⟨p, hp, -⟩ := H.poolOf hbuf
  have hiff : H.Decodes x idx buf (mc.bytes b₀ inc) ↔ H.Survives buf.cpu x := by
    have hel := elementOf_bytes mc hb₀ inc
    unfold createCommand at hmc
    cases htype : x.type with
    | noop =>
      rw [htype] at hmc
      cases hmc
      exact decodes_noop_iff hp hprio hslot htype (by rw [hel, miniNoop_eq]; rfl) (by rw [hel]; rfl)
    | flow =>
      rw [htype] at hmc
      dsimp only at hmc
      split at hmc
      next adr hadr =>
        cases hmc
        exact decodes_flow_iff hp hprio hslot htype (by rw [hel, miniFlow_eq]; rfl)
          (by rw [hel]; rfl) (by rw [hadr, hel]; rfl)
      next => cases hmc
    | flush =>
      rw [htype] at hmc
      cases hmc
      exact decodes_flush_iff hp hprio hslot htype (by rw [hel, miniFlush_eq]; rfl)
        (by rw [hel]; rfl) (by rw [hel]; rfl)
    | wait =>
      rw [htype] at hmc
      cases hmc
      exact decodes_wait_iff hp hprio hslot htype (by rw [hel, miniWait_eq]; rfl)
        (by rw [hel]; rfl) (by rw [hel]; exact append_extract x.cmdTwait)
  refine ⟨hiff, ?_⟩
  intro hsurvives P s node cmd thrData ty hstored hty hact harg
  refine actionFuncs_eq ?_ ?_ hact harg
  · rw [hstored]
    exact (hiff.2 hsurvives).2
  · exact hty

end Commands

/-! ### Sample -/

def sampleNoop (qty : Nat) : CmdArgs where
  type := .noop
  destination := ""
  cmdPrio := 1
  cmdQty := qty
  vabs := true
  cmdTvalid := 0
  perma := false
  qIl := false
  qHi := false
  qLo := false
  cmdTwait := 0
  abswait := false

def sampleMini (qty : Nat) : MiniCommand := miniNoop 0 1 ((BitVec.ofNat 8 qty).setWidth 32)

def sampleBuf (qty : Nat) : AllocMeta where
  cpu := 0
  adr := 0x868
  hash := 1
  v := 0
  b := Vector.ofFn fun i => ((sampleMini qty).bytes (List.replicate 24 0) 0).getD i.1 0
  staged := false

def sampleView (qty : Nat) : HostView where
  table :=
    { a := ⟨[sampleBuf qty], List.pairwise_singleton ..⟩, m := .empty
      vPool := [MemPool.new AllocTable.fourBlocks] }
  hashOf name := if name = "buffer" then some 1 else none
  nodeName _ := "buffer"
  modTime := 0
  testmode := true
  onChunk e he := by
    rw [List.mem_singleton.1 he]
    have hchunk : AllocTable.fourBlocks.IsChunk 0x868 := by decide
    exact ⟨MemPool.new AllocTable.fourBlocks, rfl, hchunk⟩
  named e he := by
    rw [List.mem_singleton.1 he]
    rfl
  hashOf_inj x y h hx hy := by
    split at hx
    next hx' =>
      split at hy
      next hy' => rw [hx', hy']
      next => cases hy
    next => cases hx

theorem command_decodes_sample :
    (sampleView 5).createCommand (sampleNoop 5) = .ok (sampleMini 5) ∧
      (sampleView 5).Decodes (sampleNoop 5) 0 (sampleBuf 5)
        ((sampleMini 5).bytes (List.replicate 24 0) 0) := by
  have hcreated : (sampleView 5).createCommand (sampleNoop 5) = .ok (sampleMini 5) := rfl
  have hslot : HoldsSlot (sampleBuf 5) 0 ((sampleMini 5).bytes (List.replicate 24 0) 0) := by
    unfold HoldsSlot
    decide +kernel
  have hsurvives : (sampleView 5).Survives 0 (sampleNoop 5) := by
    unfold Survives sampleNoop
    decide
  exact ⟨hcreated, (command_decodes_iff hcreated (by decide) (by decide)
    (List.mem_singleton.2 rfl) hslot).1.2 hsurvives⟩

/-- A quantity of 300 arrives as 44. -/
theorem quantity_truncated :
    (sampleView 300).createCommand (sampleNoop 300) = .ok (sampleMini 300) ∧
      (sampleNoop 300).cmdPrio.toNat < 3 ∧ (sampleNoop 300).cmdQty < 2 ^ 20 ∧
      sampleBuf 300 ∈ (sampleView 300).table.a ∧
      HoldsSlot (sampleBuf 300) 0 ((sampleMini 300).bytes (List.replicate 24 0) 0) ∧
      ¬ (sampleView 300).Decodes (sampleNoop 300) 0 (sampleBuf 300)
        ((sampleMini 300).bytes (List.replicate 24 0) 0) := by
  have hslot : HoldsSlot (sampleBuf 300) 0 ((sampleMini 300).bytes (List.replicate 24 0) 0) := by
    unfold HoldsSlot
    decide +kernel
  refine ⟨rfl, by decide, by decide, List.mem_singleton.2 rfl, hslot, ?_⟩
  rintro ⟨-, hcpu⟩
  have hread : (elementOf ((sampleMini 300).bytes (List.replicate 24 0) 0)).fwParams =
      some { type := .noop, prio := 1, validTime := 0, qty := 44 } := by
    decide +kernel
  rw [hread] at hcpu
  cases hcpu

end HostView
end DataMaster
