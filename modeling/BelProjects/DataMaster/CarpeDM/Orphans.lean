import BelProjects.DataMaster.CarpeDM.StaleDefault
import BelProjects.DataMaster.Commands.Send

/-!
# Deactivating orphaned commands

Before nodes are removed the host sets the quantity of the queued commands that lead to
them to zero.  It writes the whole action word of such an element, which it puts together
from the report on the queue.
-/

namespace DataMaster

open BigEndian

/-- The field `validAbs` of a report, to which `getQelement` assigns nothing. -/
def QueueElement.validAbs (_ : QueueElement) : Bool := false

/-- A slot of the queue `prio` whose element is reported as orphaned. -/
structure Orphan where
  prio : Nat
  slot : SlotReport

def Orphan.actAdr (o : Orphan) : Word := o.slot.elem.extAdr + tCmdAct

def Orphan.action (o : Orphan) : Word :=
  let qty : Word := 0
  (BitVec.ofNat 32 o.slot.elem.type <<< actTypePos) |||
    ((BitVec.ofNat 32 o.prio &&& actPrioMsk) <<< actPrioPos) ||| (qty &&& actQtyMsk) |||
    (bit o.slot.elem.validAbs <<< actVabsPos) ||| (bit o.slot.elem.flowPerma <<< actChpPos)

def QueueBuffer.orphans (prio : Nat) (q : QueueBuffer) : List Orphan :=
  (((List.range 4).map fun k => q.aQe ((q.rdIdx.toNat + k) % 4)).filter
    fun s => s.elem.orphaned).map (Orphan.mk prio)

def QueueReport.orphans (qr : QueueReport) : List Orphan :=
  [prioIl, prioHi, prioLo].flatMap fun prio =>
    match qr.aQ prio with
    | none => []
    | some q => q.orphans prio

/-- `deactivateOrphanedCommands`: addresses and bytes of the writes. -/
def deactivateOrphanedCommands (vQr : List QueueReport) : List Word × List Octet :=
  let os := vQr.flatMap QueueReport.orphans
  (os.map Orphan.actAdr, os.flatMap fun o => be32 o.action)

/-! ### What may change -/

namespace HostView

/-- The downloaded chunks are copies of the memory `m`, behind the addresses of the network. -/
def CopyOf (H : HostView) (net : Word → Nat) (m : Mem) : Prop :=
  ∀ e ∈ H.table.a, ∀ adr, H.table.adrConv .MGMT .EXT e.cpu e.adr = some adr → ∀ k, k < 13 →
    read32 e.b.toList (4 * k) = m (net (adr + BitVec.ofNat 32 (4 * k)))

end HostView

section Effect

variable (net : Word → Nat) (m : Mem) (vQr : List QueueReport)

/-- The action word of a pending element that is reported as orphaned lies at `a`. -/
def PendingOrphanAt (a : Nat) : Prop :=
  ∃ o ∈ vQr.flatMap QueueReport.orphans, o.slot.pending = true ∧ net o.actAdr = a

/-- Only the quantities of pending orphans change, to zero. -/
def OnlyQuantities : Prop :=
  ∀ a, (PendingOrphanAt net vQr a →
      writeCycle net m (deactivateOrphanedCommands vQr).1 (deactivateOrphanedCommands vQr).2 a =
        m a &&& ~~~actQtyMsk) ∧
    (¬ PendingOrphanAt net vQr a →
      writeCycle net m (deactivateOrphanedCommands vQr).1 (deactivateOrphanedCommands vQr).2 a = m a)

def actHighMsk : Word := 0xff000000

/-- An action word with nothing in its highest byte but the priority of the queue and, for a
flow, whether it is permanent. -/
def Plain (prio : Nat) (act : Word) : Prop :=
  act &&& actHighMsk =
    (BitVec.ofNat 32 prio <<< actPrioPos) ||| if actType act = 2 then act &&& actChpSmsk else 0

instance (prio : Nat) (act : Word) : Decidable (Plain prio act) :=
  inferInstanceAs (Decidable (_ = _))

/-- The words that the host writes for orphans are right: where several slots lie at one
address, the last one counts. -/
def PlainOrphans : Prop :=
  ∀ a o, lastAt net Orphan.actAdr (vQr.flatMap QueueReport.orphans) a = some o →
    Plain o.prio (m a) ∧ (PendingOrphanAt net vQr a ∨ m a &&& actQtyMsk = 0)

end Effect

/-! ### Reconstructed words -/

/-- The report `o` is on the action word `act`. -/
structure Orphan.Of (o : Orphan) (act : Word) : Prop where
  prio : o.prio < 3
  type : o.slot.elem.type = actType act
  perma : o.slot.elem.flowPerma = (decide (actType act = 2) && act.getLsbD actChpPos)

theorem Orphan.Of.action_eq {o : Orphan} {act : Word} (h : o.Of act) :
    o.action = (act &&& (actTypeMsk <<< actTypePos)) |||
      ((BitVec.ofNat 32 o.prio <<< actPrioPos) |||
        if actType act = 2 then act &&& actChpSmsk else 0) := by
  have hperma : bit o.slot.elem.flowPerma <<< actChpPos =
      if actType act = 2 then act &&& actChpSmsk else 0 := by
    have hbit : ∀ p : Bool, bit p <<< actChpPos = if p then actChpSmsk else 0#32 := by decide
    have hchp : act &&& actChpSmsk = if act.getLsbD actChpPos then actChpSmsk else 0#32 :=
      BitVec.and_twoPow act actChpPos
    rw [h.perma, hbit, hchp]
    by_cases hflow : actType act = 2
    · rw [decide_eq_true hflow, Bool.true_and, if_pos hflow]
    · rw [decide_eq_false hflow, Bool.false_and, if_neg hflow, if_neg Bool.false_ne_true]
      rfl
  have htype : BitVec.ofNat 32 o.slot.elem.type <<< actTypePos =
      act &&& (actTypeMsk <<< actTypePos) := by
    rw [h.type, actType, BitVec.ofNat_toNat, BitVec.setWidth_eq]
    exact BitFields.shift_field act actTypeMsk actTypePos
  have hprio : ∀ prio < 3, (BitVec.ofNat 32 prio &&& actPrioMsk) <<< actPrioPos =
      BitVec.ofNat 32 prio <<< actPrioPos := by decide
  have hvabs : bit false <<< actVabsPos = 0#32 := by decide
  have hqty : (0 : Word) &&& actQtyMsk = 0#32 := by decide
  unfold Orphan.action QueueElement.validAbs
  dsimp only
  rw [htype, hperma, hprio _ h.prio, hvabs, hqty, BitVec.or_zero, BitVec.or_zero, BitVec.or_assoc]

theorem Orphan.Of.action_eq_iff {o : Orphan} {act : Word} (h : o.Of act) :
    o.action = act &&& ~~~actQtyMsk ↔ Plain o.prio act := by
  have hprio : ∀ prio < 3, (BitVec.ofNat 32 prio <<< actPrioPos) &&& actHighMsk =
      BitVec.ofNat 32 prio <<< actPrioPos := by decide
  have hchp : (if actType act = 2 then act &&& actChpSmsk else 0) &&& actHighMsk =
      if actType act = 2 then act &&& actChpSmsk else 0 := by
    have hmask : actChpSmsk &&& actHighMsk = actChpSmsk := by decide
    split
    · rw [BitVec.and_assoc, hmask]
    · exact BitVec.zero_and
  have hapart : (actTypeMsk <<< actTypePos) &&& actHighMsk = 0#32 := by decide
  have hsplit : act &&& ~~~actQtyMsk =
      (act &&& (actTypeMsk <<< actTypePos)) ||| (act &&& actHighMsk) := by
    have hmask : ~~~actQtyMsk = (actTypeMsk <<< actTypePos) ||| actHighMsk := by decide
    rw [← BitVec.and_or_distrib_left, ← hmask]
  rw [h.action_eq, hsplit, Plain]
  constructor
  · intro heq
    -- only the highest byte is left
    have hmasked : _ &&& actHighMsk = _ &&& actHighMsk := congrArg (· &&& actHighMsk) heq
    rw [BitVec.and_or_distrib_right, BitVec.and_or_distrib_right, BitVec.and_or_distrib_right,
      BitVec.and_assoc, hapart, hprio _ h.prio, hchp, BitVec.and_assoc, BitVec.and_self,
      BitVec.and_zero, BitVec.zero_or, BitVec.zero_or] at hmasked
    exact hmasked.symm
  · intro hplain
    rw [hplain]

theorem Orphan.Of.action_qty {o : Orphan} {act : Word} (h : o.Of act) :
    o.action &&& actQtyMsk = 0 := by
  have hprio : ∀ prio < 3, (BitVec.ofNat 32 prio <<< actPrioPos) &&& actQtyMsk = 0#32 := by decide
  have htype : (actTypeMsk <<< actTypePos) &&& actQtyMsk = 0#32 := by decide
  have hchp : (if actType act = 2 then act &&& actChpSmsk else 0) &&& actQtyMsk = 0#32 := by
    have hmask : actChpSmsk &&& actQtyMsk = 0#32 := by decide
    split
    · rw [BitVec.and_assoc, hmask, BitVec.and_zero]
    · exact BitVec.zero_and
  rw [h.action_eq, BitVec.and_or_distrib_right, BitVec.and_or_distrib_right, BitVec.and_assoc, htype,
    hprio _ h.prio, hchp, BitVec.and_zero]
  rfl

/-! ### Reported orphans -/

section Reported

variable {H : HostView} {net : Word → Nat} {m : Mem}

theorem HostView.getQelement_decodes {idx : BitVec 8} {buf : AllocMeta} {futureOrphan : List String}
    {elem : QueueElement} (helem : H.getQelement idx buf futureOrphan = some elem) :
    ∃ extAdr, H.table.adrConv .MGMT .EXT buf.cpu buf.adr = some extAdr ∧
      elem.extAdr = extAdr + BitVec.ofNat 32 (idx.toNat % 2 * tCmdSize) ∧
      elem.type = actType (read32 (buf.b.toList.drop (idx.toNat % 2 * tCmdSize)) 8) ∧
      elem.flowPerma =
        (decide (elem.type = 2) &&
          (read32 (buf.b.toList.drop (idx.toNat % 2 * tCmdSize)) 8).getLsbD actChpPos) := by
  unfold getQelement at helem
  cases hext : H.table.adrConv .MGMT .EXT buf.cpu buf.adr with
  | none =>
    rw [hext] at helem
    cases helem
  | some extAdr =>
    rw [hext] at helem
    dsimp only at helem
    refine ⟨extAdr, rfl, ?_⟩
    generalize buf.b.toList.drop (idx.toNat % 2 * tCmdSize) = b at helem
    have hother : ActType.ofNum? (actType (read32 b 8)) ≠ some .flow →
        false = (decide (actType (read32 b 8) = 2) && (read32 b 8).getLsbD actChpPos) := by
      intro hne
      by_cases htwo : actType (read32 b 8) = 2
      · rw [htwo] at hne
        exact absurd rfl hne
      · rw [decide_eq_false htwo, Bool.false_and]
    cases htype : ActType.ofNum? (actType (read32 b 8)) with
    | none =>
      rw [htype] at hother
      unfold actType at htype
      rw [htype] at helem
      cases helem
      exact ⟨rfl, rfl, hother (by simp)⟩
    | some atype =>
      rw [htype] at hother
      have hflow : atype = .flow → actType (read32 b 8) = 2 := by
        rintro rfl
        unfold ActType.ofNum? at htype
        split at htype <;> simp_all
      unfold actType at htype
      rw [htype] at helem
      cases atype with
      | flow =>
        cases helem
        refine ⟨rfl, rfl, ?_⟩
        have htwo := hflow rfl
        dsimp only
        unfold actType at htwo
        rw [htwo, decide_eq_true rfl, Bool.true_and]
        exact shift_and_one_bne
      | _ =>
        cases helem
        exact ⟨rfl, rfl, hother (by decide)⟩

theorem QueueReport.mem_orphans {qr : QueueReport} {o : Orphan} (ho : o ∈ qr.orphans) :
    o.prio < 3 ∧ ∃ q i, qr.aQ o.prio = some q ∧ o.slot = q.aQe i ∧ o.slot.elem.orphaned = true := by
  have hprios : ∀ prio ∈ [prioIl, prioHi, prioLo], prio < 3 := by decide
  unfold QueueReport.orphans at ho
  obtain ⟨prio, hprio, ho⟩ := List.mem_flatMap.1 ho
  cases hq : qr.aQ prio with
  | none =>
    rw [hq] at ho
    exact absurd ho List.not_mem_nil
  | some q =>
    rw [hq] at ho
    obtain ⟨s, hs, rfl⟩ := List.mem_map.1 ho
    obtain ⟨hs, horphan⟩ := List.mem_filter.1 hs
    obtain ⟨k, -, rfl⟩ := List.mem_map.1 hs
    exact ⟨hprios prio hprio, q, _, hq, rfl, horphan⟩

theorem HostView.queueBuffer_orphan {cpu : CpuIdx} {wrIdxs rdIdxs : Word} {futureOrphan : List String}
    {bBL : AllocMeta} {prio i : Nat}
    (h : ((H.queueBuffer cpu wrIdxs rdIdxs futureOrphan bBL prio).aQe i).elem.orphaned = true) :
    ∃ buf ∈ H.table.a, H.getQelement (BitVec.ofNat 8 i) buf futureOrphan =
      some ((H.queueBuffer cpu wrIdxs rdIdxs futureOrphan bBL prio).aQe i).elem := by
  unfold queueBuffer at h ⊢
  dsimp only at h ⊢
  cases hbuf : H.chunkAt cpu (read32 bBL.b.toList (i / 2 * 4)) with
  | none =>
    rw [hbuf] at h
    cases h
  | some buf =>
    rw [hbuf] at h
    dsimp only at h ⊢
    have hmem : buf ∈ H.table.a := by
      unfold chunkAt at hbuf
      split at hbuf
      · cases hbuf
      · exact (AllocTable.lookupAdr_eq.1 hbuf).1
    cases helem : H.getQelement (BitVec.ofNat 8 i) buf futureOrphan with
    | none =>
      rw [helem] at h
      cases h
    | some elem => exact ⟨buf, hmem, helem⟩

theorem HostView.CopyOf.orphan (hcopy : H.CopyOf net m) {blockName : String}
    {futureOrphan : List String} {qr : QueueReport}
    (hqr : H.getQReport blockName futureOrphan = some qr) {o : Orphan} (ho : o ∈ qr.orphans) :
    o.Of (m (net o.actAdr)) := by
  obtain ⟨hprio, q, i, hq, hslot, horphan⟩ := QueueReport.mem_orphans ho
  unfold getQReport at hqr
  split at hqr
  · cases hqr
  rename_i x hx
  cases hqr
  obtain ⟨bBL, -, rfl⟩ := Option.map_eq_some_iff.1 hq
  rw [hslot] at horphan
  obtain ⟨buf, hmem, helem⟩ := queueBuffer_orphan horphan
  rw [← hslot] at helem
  obtain ⟨extAdr, hext, hadr, htype, hperma⟩ := getQelement_decodes helem
  have hact : read32 (buf.b.toList.drop ((BitVec.ofNat 8 i).toNat % 2 * tCmdSize)) 8 =
      m (net o.actAdr) := by
    have hhalf : (BitVec.ofNat 8 i).toNat % 2 < 2 := Nat.mod_lt _ (by decide)
    generalize (BitVec.ofNat 8 i).toNat % 2 = j at hhalf hadr ⊢
    have hword := hcopy buf hmem extAdr hext (j * 5 + 2) (by omega)
    have hoff : 4 * (j * 5 + 2) = j * tCmdSize + 8 := by
      change 4 * (j * 5 + 2) = j * 20 + 8
      omega
    rw [read32_drop, ← hoff, hword, hoff, BitVec.ofNat_add, ← BitVec.add_assoc, ← hadr]
    rfl
  rw [hact] at htype hperma
  rw [htype] at hperma
  exact ⟨hprio, htype, hperma⟩

theorem and_not_eq_self_iff (x q : Word) : x &&& ~~~q = x ↔ x &&& q = 0#32 := by
  have h := BitFields.or_and_eq_self_iff x (t := 0#32) (m := ~~~q) BitVec.zero_and
  rwa [BitVec.zero_or, BitVec.not_not] at h

/-- Where the writes go. -/
theorem deactivated_at {vQr : List QueueReport} {a : Nat} {o : Orphan}
    (h : lastAt net Orphan.actAdr (vQr.flatMap QueueReport.orphans) a = some o) :
    writeCycle net m (deactivateOrphanedCommands vQr).1 (deactivateOrphanedCommands vQr).2 a =
      o.action := by
  unfold deactivateOrphanedCommands
  dsimp only
  rw [writeCycle_apply net Orphan.actAdr Orphan.action, h]

theorem deactivated_other {vQr : List QueueReport} {a : Nat}
    (h : lastAt net Orphan.actAdr (vQr.flatMap QueueReport.orphans) a = none) :
    writeCycle net m (deactivateOrphanedCommands vQr).1 (deactivateOrphanedCommands vQr).2 a = m a := by
  unfold deactivateOrphanedCommands
  dsimp only
  rw [writeCycle_apply net Orphan.actAdr Orphan.action, h]

/-- **Deactivation** changes nothing but the quantities of pending orphans exactly if the words
of all orphans are plain. -/
theorem deactivate_only_quantities_iff (hcopy : H.CopyOf net m) {vQr : List QueueReport}
    (hvQr : ∀ qr ∈ vQr, ∃ blockName futureOrphan, H.getQReport blockName futureOrphan = some qr) :
    OnlyQuantities net m vQr ↔ PlainOrphans net m vQr := by
  have hof : ∀ o ∈ vQr.flatMap QueueReport.orphans, o.Of (m (net o.actAdr)) := by
    intro o ho
    obtain ⟨qr, hqr, ho⟩ := List.mem_flatMap.1 ho
    obtain ⟨blockName, futureOrphan, hreport⟩ := hvQr qr hqr
    exact hcopy.orphan hreport ho
  have hword : ∀ {a : Nat} {o : Orphan},
      lastAt net Orphan.actAdr (vQr.flatMap QueueReport.orphans) a = some o → o.Of (m a) := by
    intro a o hlast
    obtain ⟨hmem, hadr⟩ := lastAt_spec hlast
    exact hadr ▸ hof o hmem
  constructor
  · intro h a o hlast
    by_cases hpending : PendingOrphanAt net vQr a
    · have hkept := (h a).1 hpending
      rw [deactivated_at hlast] at hkept
      exact ⟨(hword hlast).action_eq_iff.1 hkept, Or.inl hpending⟩
    · have hkept := (h a).2 hpending
      rw [deactivated_at hlast] at hkept
      have hzero : m a &&& actQtyMsk = 0 := by
        rw [← hkept]
        exact (hword hlast).action_qty
      have hsame := (and_not_eq_self_iff (m a) actQtyMsk).2 hzero
      exact ⟨(hword hlast).action_eq_iff.1 (hkept.trans hsame.symm), Or.inr hzero⟩
  · intro h a
    cases hlast : lastAt net Orphan.actAdr (vQr.flatMap QueueReport.orphans) a with
    | none =>
      refine ⟨?_, fun _ => deactivated_other hlast⟩
      rintro ⟨o, ho, -, hadr⟩
      obtain ⟨z, hz⟩ := lastAt_isSome net Orphan.actAdr ho
      rw [hadr, hlast] at hz
      cases hz
    | some o =>
      obtain ⟨hplain, hqty⟩ := h a o hlast
      have hcleared := (deactivated_at (m := m) hlast).trans ((hword hlast).action_eq_iff.2 hplain)
      refine ⟨fun _ => hcleared, fun hpending => ?_⟩
      have hzero := hqty.resolve_left hpending
      exact hcleared.trans ((and_not_eq_self_iff (m a) actQtyMsk).2 hzero)

end Reported

/-! ### A block with one orphan pending -/

open HostView

def sampleNet (adr : Word) : Nat :=
  samplePlatform.adr (adr - fiveChunks.extBaseAdr + intBaseAdr)

theorem staleView_copyOf (m : Mem) : (staleView m).CopyOf sampleNet m := by
  intro e he extAdr hext k hk
  have hword : ∀ adr v, e = downloadedChunk m adr v → adr ≠ lm32NullPtr →
      read32 e.b.toList (4 * k) = m (sampleNet (extAdr + BitVec.ofNat 32 (4 * k))) := by
    rintro adr v rfl hne
    have hadr : fiveChunks.adrConv .MGMT .EXT adr = some (adr + fiveChunks.extBaseAdr) := by
      unfold Space.adrConv
      rw [if_neg hne]
    have hshift : ∀ ext int n : Word, adr + ext + n - ext + int = adr + int + n := by
      intro ext int n
      rw [BitVec.add_assoc, BitVec.add_comm ext, ← BitVec.add_assoc, BitVec.add_sub_cancel,
        BitVec.add_assoc, BitVec.add_comm n, ← BitVec.add_assoc]
    obtain rfl := Option.some.inj (hadr.symm.trans hext)
    unfold sampleNet
    rw [hshift]
    exact downloadedChunk_word m adr v hk
  rcases mem_staleChunks.1 he with heq | heq | heq | heq <;> exact hword _ _ heq (by decide)

/-- The report on the block whose pending element has the action word `act`, and leads to a node
that is not there. -/
def orphanReports (act : Word) : List QueueReport :=
  ((staleView (staleMem act 0x10000938)).getQReport "block" []).toList

theorem orphanReports_reports (act : Word) : ∀ qr ∈ orphanReports act, ∃ blockName futureOrphan,
    (staleView (staleMem act 0x10000938)).getQReport blockName futureOrphan = some qr :=
  fun _ hqr => ⟨"block", [], Option.mem_toList.1 hqr⟩

/-- A permanent flow is deactivated and keeps the rest of its action word. -/
theorem deactivate_only_quantities_flow :
    OnlyQuantities sampleNet (staleMem 0x08200001 0x10000938) (orphanReports 0x08200001) := by
  refine (deactivate_only_quantities_iff (staleView_copyOf _) (orphanReports_reports _)).2 ?_
  intro a o hlast
  obtain ⟨hmem, rfl⟩ := lastAt_spec hlast
  have hall : ((orphanReports 0x08200001).flatMap QueueReport.orphans).all (fun o =>
      decide (Plain o.prio (staleMem 0x08200001 0x10000938 (sampleNet o.actAdr))) && o.slot.pending) =
        true := by
    decide +kernel
  have ho := List.all_eq_true.1 hall o hmem
  rw [Bool.and_eq_true, decide_eq_true_iff] at ho
  exact ⟨ho.1, Or.inl ⟨o, hmem, ho.2, rfl⟩⟩

/-- A flush loses the priorities it is for. -/
theorem deactivate_flush_mask : ¬ ∀ (H : HostView) (net : Word → Nat) (m : Mem) (vQr : List QueueReport),
    H.CopyOf net m → (∀ qr ∈ vQr, ∃ blockName futureOrphan,
      H.getQReport blockName futureOrphan = some qr) → OnlyQuantities net m vQr := by
  intro h
  have hflush := h _ _ _ _ (staleView_copyOf (staleMem 0x10300001 0x10000938))
    (orphanReports_reports 0x10300001)
  have hpending : PendingOrphanAt sampleNet (orphanReports 0x10300001)
      (samplePlatform.adr (0x100008d0 + tCmdAct)) := by
    have hany : ((orphanReports 0x10300001).flatMap QueueReport.orphans).any (fun o =>
        o.slot.pending && sampleNet o.actAdr == samplePlatform.adr (0x100008d0 + tCmdAct)) = true := by
      decide +kernel
    obtain ⟨o, ho, hcond⟩ := List.any_eq_true.1 hany
    rw [Bool.and_eq_true, beq_iff_eq] at hcond
    exact ⟨o, ho, hcond.1, hcond.2⟩
  have hkept := (hflush _).1 hpending
  revert hkept
  decide +kernel

end DataMaster
