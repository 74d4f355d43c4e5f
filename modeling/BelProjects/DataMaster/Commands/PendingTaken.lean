import BelProjects.DataMaster.Blocks.Taken
import BelProjects.DataMaster.CarpeDM.StaleDefault

/-!
# Reported commands are taken

The host marks the slots of a queue as pending from its copy of the index words, by a formula of
its own.  What `block` takes from the queue afterwards, visit by visit, are the elements marked, in
the order of the report from the index of reading on.  Two things lie outside: a flush empties
queues whose commands were reported, and an index byte with more than three bits is compared as
a whole by the firmware and masked by the host.
-/

namespace DataMaster

namespace HostView

/-- The commands `cmds` are those that the report `B` of a queue of `cpu` marks as pending, in its
order, apart from executions that they have had in the meantime. -/
def Foretells (H : HostView) (cpu : CpuIdx) (B : QueueBuffer) (cmds : List QueuedCmd) : Prop :=
  ∃ pending, List.Forall₂ (H.Reports cpu) B.pendingElems pending ∧
    cmds.map QueuedCmd.body = pending.map QueuedCmd.body

/-- In all runs of visits whose states satisfy `ok`, what was taken from queue `q` and what is
still pending there are the elements that `B` marks as pending. -/
def TakenAsReported (H : HostView) (P : Platform) (m : Mem) (node : Word) (base : Nat)
    (lst : Nat → Nat) (buf : Nat → Nat → Nat) (cpu : CpuIdx) (q : Nat) (B : QueueBuffer)
    (ok : TakeState → Prop) : Prop :=
  ∀ st, (takeSystem P node base lst buf q m).Reachable st → ok st →
    H.Foretells cpu B (st.taken ++ queueCmds P st.mem node q)

section Report

variable {H : HostView} {P : Platform} {m : Mem} {x : AllocMeta} {node : Word} {base : Nat}
  {lst : Nat → Nat} {buf : Nat → Nat → Nat} {name : String} {futureOrphan : List String}
  {qr : QueueReport}

/-- **What is reported as pending is taken**, in the order of the report: a queue that the block
does not have is not reported; in any run of visits that does not flush the queue, what was taken
from it and what is still pending there are the elements marked, and if nothing hinders it, some
run takes them all. -/
theorem pending_taken (hl : BlockLayout P m node base lst buf) (hthree : ThreeBit P m node)
    (hocc : ∀ q, q < 3 → P.hasQueue m node q = true → occupancy P m node q ≤ 4)
    (hcopies : H.Copies P m x node) (hname : (H.hashOf name).bind H.table.lookupHash = some x)
    (hqr : H.getQReport name futureOrphan = some qr) {q : Nat} (hq : q < 3) :
    (P.hasQueue m node q = false → qr.aQ q = none) ∧
      (P.hasQueue m node q = true → ∃ B, qr.aQ q = some B ∧
        List.Forall₂ (H.Reports x.cpu) B.pendingElems (queueCmds P m node q) ∧
        H.TakenAsReported P m node base lst buf x.cpu q B
          (fun st => ∀ y ∈ st.out, y.flushes q = false) ∧
        (Unhindered P m node q → ∃ st, (takeSystem P node base lst buf q m).Reachable st ∧
          queueCmds P st.mem node q = [] ∧ H.Foretells x.cpu B st.taken)) := by
  obtain ⟨hnone, hsome⟩ := hcopies.aQ hname hqr hq
  refine ⟨hnone, fun hex => ?_⟩
  obtain ⟨bBL, hlist, haQ⟩ := hsome hex
  have hle := hocc q hq hex
  have hpending := hcopies.pendingElems futureOrphan hq hex hle hlist
  generalize H.queueBuffer x.cpu (getWrIdxs x) (getRdIdxs x) futureOrphan bBL q = B at haQ hpending
  have hruns : H.TakenAsReported P m node base lst buf x.cpu q B
      fun st => ∀ y ∈ st.out, y.flushes q = false := by
    intro st hst hno
    exact ⟨_, hpending, (takeInv_reachable hl hthree hq hex hle st hst).cmds hno⟩
  refine ⟨B, haQ, hpending, hruns, fun hfree => ?_⟩
  have hstart : Emptiable P m node q :=
    ⟨hthree, fun p _ hp hexp => hocc p hp hexp, hfree⟩
  obtain ⟨st, hst, hno, hempty⟩ := hl.run_empties hq hex hle hthree _ ⟨m, [], []⟩ (.init rfl)
    (fun y hy => absurd hy List.not_mem_nil) hstart rfl
  refine ⟨st, hst, hempty, ?_⟩
  have hall := hruns st hst hno
  rwa [hempty, List.append_nil] at hall

end Report

/-- Every report of a copied block lists what runs of visits take, from the memories that satisfy
`good` and in the states that satisfy `ok`. -/
def AllTakenAsReported (good : Platform → Mem → Word → Prop) (ok : Nat → TakeState → Prop) : Prop :=
  ∀ (H : HostView) (P : Platform) (m : Mem) (x : AllocMeta) (node : Word) (base : Nat)
    (lst : Nat → Nat) (buf : Nat → Nat → Nat) (name : String) (futureOrphan : List String)
    (qr : QueueReport) (q : Nat) (B : QueueBuffer), BlockLayout P m node base lst buf →
    good P m node → (∀ q, q < 3 → P.hasQueue m node q = true → occupancy P m node q ≤ 4) →
    H.Copies P m x node → (H.hashOf name).bind H.table.lookupHash = some x →
    H.getQReport name futureOrphan = some qr → q < 3 → qr.aQ q = some B →
    H.TakenAsReported P m node base lst buf x.cpu q B (ok q)

/-! ### Reports of a sample block -/

/-- A permanent flow of the block to itself is reported and taken. -/
theorem pending_taken_sample : ∃ qr B,
    (staleView (staleMem 0x08200001 staleBlock)).getQReport "block" [] = some qr ∧
      qr.aQ 0 = some B ∧ B.pendingElems.length = 1 ∧
      ∃ st, (takeSystem samplePlatform staleBlock 0x2000021a (fun _ => 0x20000227)
          (fun _ j => 0x20000234 + 13 * j) 0 (staleMem 0x08200001 staleBlock)).Reachable st ∧
        queueCmds samplePlatform st.mem staleBlock 0 = [] ∧
        (staleView (staleMem 0x08200001 staleBlock)).Foretells 0 B st.taken := by
  have hshape : StaleShape (staleMem 0x08200001 staleBlock) :=
    ⟨by decide +kernel, by decide +kernel, by decide +kernel⟩
  have hcmds : queueCmds samplePlatform (staleMem 0x08200001 staleBlock) staleBlock 0 =
      [{ validTime := 0, act := 0x08200001, arg1 := staleBlock, arg2 := 0 }] := by
    decide +kernel
  have hfree : Unhindered samplePlatform (staleMem 0x08200001 staleBlock) staleBlock 0 := by
    refine ⟨by decide +kernel, fun p _ hp hex y hy => ?_⟩
    rw [hshape.queues p hp] at hex
    obtain rfl : p = 0 := of_decide_eq_true hex
    rw [hcmds] at hy
    rw [List.mem_singleton.1 hy]
    exact ⟨fun _ => by decide, rfl, fun r hr => by cases hr⟩
  have hname : ((staleView (staleMem 0x08200001 staleBlock)).hashOf "block").bind
      (staleView (staleMem 0x08200001 staleBlock)).table.lookupHash = some _ := rfl
  have hqr : (staleView (staleMem 0x08200001 staleBlock)).getQReport "block" [] = some _ := rfl
  obtain ⟨-, hsome⟩ := pending_taken hshape.layout (by unfold ThreeBit; decide +kernel)
    (by decide +kernel) hshape.copies hname hqr (q := 0) (by decide)
  obtain ⟨B, haQ, hpending, -, hall⟩ := hsome (by decide +kernel)
  refine ⟨_, B, hqr, haQ, ?_, hall hfree⟩
  rw [hpending.length_eq, hcmds]
  rfl

/-- Two commands are pending, the first of which flushes the queue. -/
def flushedMem : Mem :=
  storeAll samplePlatform (staleMem 0x10300001 lm32NullPtr) [(staleBlock + blockCmdqWrIdxs, 2)]

def unmaskedMem : Mem :=
  storeAll samplePlatform (staleMem 0x08200001 staleBlock)
    [(staleBlock + blockCmdqWrIdxs, 0), (staleBlock + blockCmdqRdIdxs, 8)]

section Sample

variable {m : Mem} (hshape : StaleShape m)
include hshape

theorem StaleShape.visit (hdnr : samplePlatform.ld m (staleBlock + blockCmdqFlags) &&& blockCmdqDnrSmsk = 0)
    (hseen : SeenValid samplePlatform { sampleCpu 10 with mem := m } staleBlock 0)
    (htype : ActType.ofNum? (actType (headAct samplePlatform m staleBlock 0)) ≠ none)
    (hgoes : (block samplePlatform { sampleCpu 10 with mem := m } staleBlock (thrPtr 0)).isSome = true) :
    ∃ st, (takeSystem samplePlatform staleBlock 0x2000021a (fun _ => 0x20000227)
        (fun _ j => 0x20000234 + 13 * j) 0 m).Reachable st ∧
      st.taken = takenFrom samplePlatform { sampleCpu 10 with mem := m } staleBlock 0 ∧
      st.out = executed samplePlatform { sampleCpu 10 with mem := m } staleBlock ∧
      (block samplePlatform { sampleCpu 10 with mem := m } staleBlock (thrPtr 0)).map
        (fun o => o.2.mem) = some st.mem := by
  have hnone : ∀ p, 0 < p → p < 3 →
      ¬ SeenValid samplePlatform { sampleCpu 10 with mem := m } staleBlock p := by
    intro p h0 hp hs
    have hex : samplePlatform.hasQueue m staleBlock p = true :=
      hasQueue_of_pending (s := { sampleCpu 10 with mem := m }) hs.1
    rw [hshape.queues p hp, decide_eq_true_iff] at hex
    omega
  have htakes : Takes samplePlatform { sampleCpu 10 with mem := m } staleBlock 0 :=
    ⟨by decide, hdnr, hseen, hnone, hseen.2⟩
  obtain ⟨⟨r, s'⟩, hblock⟩ := Option.isSome_iff_exists.1 hgoes
  have hstep := TransitionSystem.Reachable.step (T := takeSystem samplePlatform staleBlock 0x2000021a
      (fun _ => 0x20000227) (fun _ j => 0x20000234 + 13 * j) 0 m) (.init rfl)
    (.visit (s := { sampleCpu 10 with mem := m }) rfl (by decide)
      (htakes.not_slip fun _ => htype) hblock)
  exact ⟨_, hstep, rfl, rfl, by rw [hblock]; rfl⟩

variable (hocc : occupancy samplePlatform m staleBlock 0 ≤ 4)
include hocc

theorem StaleShape.occupancy_le : ∀ q, q < 3 → samplePlatform.hasQueue m staleBlock q = true →
    occupancy samplePlatform m staleBlock q ≤ 4 := by
  intro q hq hex
  rw [hshape.queues q hq] at hex
  obtain rfl : q = 0 := of_decide_eq_true hex
  exact hocc

/-- The report has as many elements as the queue has commands. -/
theorem StaleShape.report : ∃ qr B, (staleView m).getQReport "block" [] = some qr ∧ qr.aQ 0 = some B ∧
    ∀ cmds, (staleView m).Foretells 0 B cmds →
      cmds.length = occupancy samplePlatform m staleBlock 0 := by
  have hex : samplePlatform.hasQueue m staleBlock 0 = true := hshape.queues 0 (by decide)
  have hname : ((staleView m).hashOf "block").bind (staleView m).table.lookupHash = some _ := rfl
  have hqr : (staleView m).getQReport "block" [] = some _ := rfl
  obtain ⟨bBL, hlist, haQ⟩ := (hshape.copies.aQ hname hqr (q := 0) (by decide)).2 hex
  refine ⟨_, _, hqr, haQ, ?_⟩
  rintro cmds ⟨pending, hpending, hbody⟩
  have hlen := congrArg List.length hbody
  rw [List.length_map, List.length_map] at hlen
  rw [hlen, ← hpending.length_eq,
    (hshape.copies.pendingElems [] (by decide) hex hocc hlist).length_eq, length_queueCmds]

end Sample

/-- **A flush, and an index of four bits**: two commands are reported, and the visit that executes
the first, a flush of the queue, leaves nothing of the second; none is reported while the indices
are eight and zero, and a visit takes one. -/
theorem pending_not_taken :
    ¬ AllTakenAsReported ThreeBit (fun _ _ => True) ∧
      ¬ AllTakenAsReported (fun _ _ _ => True) fun q st => ∀ y ∈ st.out, y.flushes q = false := by
  constructor
  · intro h
    have hshape : StaleShape flushedMem := ⟨by decide +kernel, by decide +kernel, by decide +kernel⟩
    have htwo : occupancy samplePlatform flushedMem staleBlock 0 = 2 := by decide +kernel
    have hocc : occupancy samplePlatform flushedMem staleBlock 0 ≤ 4 := by rw [htwo]; decide
    obtain ⟨qr, B, hqr, haQ, hlen⟩ := hshape.report hocc
    obtain ⟨st, hst, htaken, -, hmem⟩ := hshape.visit (by decide +kernel)
      (by unfold SeenValid; decide +kernel) (by decide +kernel) (by decide +kernel)
    have hone : (takenFrom samplePlatform { sampleCpu 10 with mem := flushedMem } staleBlock 0).length =
        1 := by
      decide +kernel
    have hempty : ((block samplePlatform { sampleCpu 10 with mem := flushedMem } staleBlock
        (thrPtr 0)).map fun o => o.2.mem).map (queueCmds samplePlatform · staleBlock 0) = some [] := by
      decide +kernel
    rw [hmem] at hempty
    have hleft : queueCmds samplePlatform st.mem staleBlock 0 = [] := Option.some.inj hempty
    have hsum := hlen _ (h _ _ _ _ _ _ _ _ "block" [] qr 0 B hshape.layout
      (by unfold ThreeBit; decide +kernel) (hshape.occupancy_le hocc) hshape.copies rfl hqr
      (by decide) haQ st hst trivial)
    rw [htaken, hleft, List.append_nil, hone, htwo] at hsum
    exact absurd hsum (by decide)
  · intro h
    have hshape : StaleShape unmaskedMem := ⟨by decide +kernel, by decide +kernel, by decide +kernel⟩
    have hzero : occupancy samplePlatform unmaskedMem staleBlock 0 = 0 := by decide +kernel
    have hocc : occupancy samplePlatform unmaskedMem staleBlock 0 ≤ 4 := by rw [hzero]; decide
    obtain ⟨qr, B, hqr, haQ, hlen⟩ := hshape.report hocc
    obtain ⟨st, hst, htaken, hout, -⟩ := hshape.visit (by decide +kernel)
      (by unfold SeenValid; decide +kernel) (by decide +kernel) (by decide +kernel)
    have hone : (takenFrom samplePlatform { sampleCpu 10 with mem := unmaskedMem } staleBlock 0).length =
        1 := by
      decide +kernel
    have hno : ∀ y ∈ executed samplePlatform { sampleCpu 10 with mem := unmaskedMem } staleBlock,
        y.flushes 0 = false := by
      decide +kernel
    rw [← hout] at hno
    have hsum := hlen _ (h _ _ _ _ _ _ _ _ "block" [] qr 0 B hshape.layout trivial
      (hshape.occupancy_le hocc) hshape.copies rfl hqr (by decide) haQ st hst hno)
    rw [List.length_append, htaken, hone, hzero] at hsum
    omega

end HostView
end DataMaster
