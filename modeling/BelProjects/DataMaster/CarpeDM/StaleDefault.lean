import BelProjects.DataMaster.Blocks.FlowVisits
import BelProjects.DataMaster.CarpeDM.ResidentEdges
import BelProjects.DataMaster.Commands.QueueReport
import BelProjects.DataMaster.Schedule.Graph
import BelProjects.Library.Runs
import Mathlib.Data.List.TakeWhile

/-!
# Stale default destinations

If the pending commands of a block are flows up to one that is permanent, the block will not be
left for its default destination again, and a node may be removed that only this destination
leads to.  `getDominantFlowDst` looks for such a flow in the host's copy of the queues.
-/

namespace DataMaster

open BigEndian

/-- The slots the scan looks at: four of every queue, from the read index on. -/
def QueueReport.slots (qr : QueueReport) : List (Nat × Nat × SlotReport) :=
  scanPrios.flatMap fun prio =>
    match qr.aQ prio with
    | none => []
    | some q => (List.range 4).map fun k =>
      (prio, (q.rdIdx.toNat + k) % 4, q.aQe ((q.rdIdx.toNat + k) % 4))

/-- What the scan collects: destinations, where idle is no vertex, and the elements that a
covenant may be made about. -/
structure DominantFlows where
  dst : Finset (Option Nat) := ∅
  covTab : List (Nat × Nat × QueueElement) := []
  deriving DecidableEq

namespace HostView

variable (H : HostView)

/-- The loops of `getDominantFlowDst`. A destination that is not in the table raises an
exception. -/
def scanSlots : List (Nat × Nat × SlotReport) → DominantFlows → Option DominantFlows
  | [], ret => some ret
  | (prio, i, slot) :: slots, ret =>
    let qe := slot.elem
    if !slot.pending then scanSlots slots ret
    else if H.modTime < qe.validTime then some ret
    else if qe.type ≠ 2 then some ret
    -- a flow to idle ends the scan, be it permanent or not
    else if qe.flowDst = sIdle then some { ret with dst := insert none ret.dst }
    else if !qe.flowPerma then scanSlots slots ret
    else
      match (H.hashOf qe.flowDst).bind H.table.lookupHash with
      | none => none
      | some x =>
        scanSlots slots
          { dst := insert (some x.v) ret.dst, covTab := ret.covTab ++ [(prio, i, qe)] }

def getDominantFlowDst (name : String) : Option DominantFlows :=
  match H.getQReport name [] with
  | none => none
  | some qr => H.scanSlots qr.slots {}

/-! ### What the scan finds -/

/-- A flow that neither goes to idle nor replaces the default destination, as the host reports
it. -/
def transient (cpu : CpuIdx) (x : QueuedCmd) : Bool :=
  H.flowDst cpu x != sIdle && (x.act &&& actChpSmsk == 0)

/-- The first of the commands that the host takes for a flow that dominates the others. -/
def dominant (cpu : CpuIdx) (cmds : List QueuedCmd) : Option QueuedCmd :=
  (cmds.dropWhile (H.transient cpu)).head?

structure ValidFlow (x : QueuedCmd) : Prop where
  type : actType x.act = 2
  valid : x.validTime ≤ H.modTime

section Scan

variable {H}

theorem scanSlots_pending (slots : List (Nat × Nat × SlotReport)) (ret : DominantFlows) :
    H.scanSlots slots ret = H.scanSlots (slots.filter fun r => r.2.2.pending) ret := by
  induction slots generalizing ret with
  | nil => rfl
  | cons r slots ih =>
    obtain ⟨prio, i, slot⟩ := r
    by_cases hpend : slot.pending = true
    · rw [List.filter_cons_of_pos (a := (prio, i, slot)) hpend]
      simp only [scanSlots, ih]
    · rw [List.filter_cons_of_neg (a := (prio, i, slot)) hpend, ← ih]
      simp only [scanSlots, hpend]
      rfl

/-- **What a result means**: the scan has found a valid flow that is idle or permanent, behind
valid flows that are neither. -/
theorem scanSlots_nonempty {cpu : CpuIdx} {slots : List (Nat × Nat × SlotReport)}
    {cmds : List QueuedCmd} (hpend : ∀ r ∈ slots, r.2.2.pending = true)
    (hrep : List.Forall₂ (fun r x => H.Reports cpu r.2.2.elem x) slots cmds)
    {ret : DominantFlows} (hret : H.scanSlots slots {} = some ret) (hne : ret.dst.Nonempty) :
    ∃ d post, cmds.dropWhile (H.transient cpu) = d :: post ∧
      ∀ x ∈ cmds.takeWhile (H.transient cpu) ++ [d], H.ValidFlow x := by
  induction hrep with
  | nil =>
    cases hret
    exact absurd hne Finset.not_nonempty_empty
  | @cons r x slots cmds hx hrest ih =>
    obtain ⟨prio, i, slot⟩ := r
    have hslot : slot.pending = true := hpend _ List.mem_cons_self
    simp only [scanSlots, hslot, Bool.not_true, Bool.false_eq_true, if_false] at hret
    split at hret
    · cases hret
      exact absurd hne Finset.not_nonempty_empty
    next hvalid =>
    split at hret
    · cases hret
      exact absurd hne Finset.not_nonempty_empty
    next htype =>
    rw [not_not] at htype
    have htwo : actType x.act = 2 := hx.type.symm.trans htype
    have hflow : H.ValidFlow x := by
      refine ⟨htwo, ?_⟩
      rw [← hx.validTime]
      exact BitVec.not_lt.1 hvalid
    have hdst := hx.dst htwo
    have hperma := hx.perma htwo
    have hfirst : H.transient cpu x = false → ∃ d post,
        (x :: cmds).dropWhile (H.transient cpu) = d :: post ∧
          ∀ y ∈ (x :: cmds).takeWhile (H.transient cpu) ++ [d], H.ValidFlow y := by
      intro hnot
      refine ⟨x, cmds, List.dropWhile_cons_of_neg (by rw [hnot]; decide), ?_⟩
      rw [List.takeWhile_cons_of_neg (by rw [hnot]; decide)]
      intro y hy
      rw [List.mem_singleton.1 hy]
      exact hflow
    split at hret
    next hidle =>
      apply hfirst
      unfold transient
      rw [← hdst, hidle]
      rfl
    next hidle =>
    split at hret
    next hnot =>
      have htrans : H.transient cpu x = true := by
        unfold transient
        rw [← hdst, bne_iff_ne.2 hidle, Bool.true_and]
        rw [hperma] at hnot
        simpa using hnot
      obtain ⟨d, post, hdrop, hall⟩ := ih (fun r hr => hpend r (List.mem_cons_of_mem _ hr)) hret
      refine ⟨d, post, ?_, ?_⟩
      · rw [List.dropWhile_cons_of_pos htrans]
        exact hdrop
      · rw [List.takeWhile_cons_of_pos htrans]
        intro y hy
        rcases List.mem_cons.1 hy with rfl | hy
        · exact hflow
        · exact hall y hy
    next hnot =>
      apply hfirst
      unfold transient
      rw [hperma] at hnot
      simpa using fun _ => hnot

end Scan

section Report

variable {H} {P : Platform} {m : Mem} {x : AllocMeta} {node : Word}

theorem Copies.slots (h : H.Copies P m x node) (hinv : QueueInv P m node) {name : String}
    (hname : (H.hashOf name).bind H.table.lookupHash = some x) :
    ∃ qr, H.getQReport name [] = some qr ∧
      List.Forall₂ (fun r y => H.Reports x.cpu r.2.2.elem y)
        (qr.slots.filter fun r => r.2.2.pending) (pendingCmds P m node) := by
  obtain ⟨qr, hqr⟩ : ∃ qr, H.getQReport name [] = some qr := by
    unfold getQReport
    rw [hname]
    exact ⟨_, rfl⟩
  refine ⟨qr, hqr, ?_⟩
  unfold QueueReport.slots pendingCmds
  rw [List.filter_flatMap]
  have hprios : ∀ q ∈ scanPrios, q < 3 := fun q hq => mem_scanPrios.1 hq
  generalize scanPrios = prios at hprios ⊢
  induction prios with
  | nil => exact .nil
  | cons q prios ih =>
    rw [List.flatMap_cons, List.flatMap_cons]
    refine List.rel_append ?_ (ih fun p hp => hprios p (List.mem_cons_of_mem _ hp))
    have hq := hprios q List.mem_cons_self
    by_cases hex : P.hasQueue m node q = true
    · obtain ⟨bBL, hlist, haQ⟩ := (h.aQ hname hqr hq).2 hex
      have helems := h.pendingElems [] hq hex (hinv.occupancy_le q hq hex) hlist
      unfold QueueBuffer.pendingElems at helems
      rw [List.filter_map, List.map_map, List.forall₂_map_left_iff] at helems
      rw [if_pos hex, haQ]
      dsimp only
      rw [List.filter_map, List.forall₂_map_left_iff]
      exact helems
    · rw [if_neg hex, (h.aQ hname hqr hq).1 (Bool.eq_false_iff.2 hex)]
      exact .nil

/-- **A non-empty result** for a copied block: in memory, the pending commands are valid flows up
to one that goes to idle or is permanent. -/
theorem Copies.dominant_of_nonempty (h : H.Copies P m x node) (hinv : QueueInv P m node)
    {name : String} (hname : (H.hashOf name).bind H.table.lookupHash = some x)
    {ret : DominantFlows} (hret : H.getDominantFlowDst name = some ret) (hne : ret.dst.Nonempty) :
    ∃ d post, (pendingCmds P m node).dropWhile (H.transient x.cpu) = d :: post ∧
      ∀ y ∈ (pendingCmds P m node).takeWhile (H.transient x.cpu) ++ [d], H.ValidFlow y := by
  obtain ⟨qr, hqr, hslots⟩ := h.slots hinv hname
  unfold getDominantFlowDst at hret
  rw [hqr] at hret
  dsimp only at hret
  rw [scanSlots_pending] at hret
  exact scanSlots_nonempty (fun r hr => (List.mem_filter.1 hr).2) hslots hret hne

end Report

end HostView

/-! ### Visits behind the scan -/

/-- A visit: the command it executed, if any, and where it left the block for. -/
structure VisitEntry where
  cmds : List QueuedCmd
  ret : Word
  deriving DecidableEq

structure VisitState where
  mem : Mem
  log : List VisitEntry

/-- Who takes a step: thread `t` visits the block, the CPU being in state `s`, or something else
happens. -/
inductive VisitLabel
  | visit (s : Cpu) (t : Nat)
  | other

/-- A visit after the time of the scan, or a step that leaves the queues alone. -/
inductive VisitStep (P : Platform) (modTime : Time) (node : Word) (base : Nat) (lst : Nat → Nat)
    (buf : Nat → Nat → Nat) : VisitState → VisitLabel → VisitState → Prop
  | visit {st : VisitState} {s s' : Cpu} {t : Nat} {r : Word} :
      s.mem = st.mem → t < thrQty → (∀ n, modTime ≤ s.clk n) →
      block P s node (thrPtr t) = some (r, s') →
      VisitStep P modTime node base lst buf st (.visit s t)
        ⟨s'.mem, st.log ++ [⟨executed P s node, r⟩]⟩
  | other {st : VisitState} {m' : Mem} :
      KeepsQueues P st.mem m' node base lst buf →
      VisitStep P modTime node base lst buf st .other ⟨m', st.log⟩

/-- A visit of the log has executed the command `d`. -/
def HasRun (d : QueuedCmd) (log : List VisitEntry) : Prop :=
  ∃ v ∈ log, ∃ x ∈ v.cmds, x.body = d.body

/-- What the removal of a stale default destination `dst` relies on, when `cmds` were pending at
the scan and `d` dominates them. -/
structure DefaultUnused (P : Platform) (node dst : Word) (cmds : List QueuedCmd) (d : QueuedCmd)
    (st : VisitState) : Prop where
  never : ∀ v ∈ st.log, v.ret ≠ dst
  flow : ∀ before v after, st.log = before ++ v :: after → ¬ HasRun d before →
    ∃ x ∈ cmds, actType x.act = 2 ∧ v.ret = x.arg1
  replaced : HasRun d st.log → P.defDest st.mem node ≠ dst

/-- The flow `d` and the commands `before` it do what the scan takes for granted. -/
structure Dominates (P : Platform) (m : Mem) (node dst : Word) (before : List QueuedCmd)
    (d : QueuedCmd) : Prop where
  dnr : P.ld m (node + blockCmdqFlags) &&& blockCmdqDnrSmsk = 0
  permanent : IsPermanent d.act
  qty : ∀ x ∈ before ++ [d], actQty x.act ≠ 0
  elsewhere : ∀ x ∈ before ++ [d], x.arg1 ≠ dst

/-- The step puts nothing back. Until `d` has run the queues stay open for reading; behind it, no
visit slips or leads back to `dst`, and nobody else writes `dst`. -/
def KeepsAway (P : Platform) (node dst : Word) (d : QueuedCmd) (st : VisitState)
    (label : VisitLabel) (st' : VisitState) : Prop :=
  match label with
  | .visit s _ => HasRun d st.log → ¬ ScanSlip P s node ∧ ∀ q, Chosen P s node q →
      ¬ LeadsBack node dst (slotCmd P s.mem (readElem P s.mem node q))
  | .other =>
    (¬ HasRun d st.log → P.ld st'.mem (node + blockCmdqFlags) &&& blockCmdqDnrSmsk = 0) ∧
      (HasRun d st.log → P.defDest st'.mem node ≠ dst)

/-- Runs from memory `m₀` whose steps all satisfy `ok`. -/
def visitSystem (P : Platform) (modTime : Time) (node : Word) (base : Nat) (lst : Nat → Nat)
    (buf : Nat → Nat → Nat) (m₀ : Mem) (ok : VisitState → VisitLabel → VisitState → Prop) :
    TransitionSystem VisitState where
  init st := st = ⟨m₀, []⟩
  step st st' := ∃ label, VisitStep P modTime node base lst buf st label st' ∧ ok st label st'

/-! ### Runs behind the scan -/

section Runs

variable {P : Platform} {node dst : Word} {cmds : List QueuedCmd} {d : QueuedCmd}

theorem HasRun.append {log log' : List VisitEntry} (h : HasRun d log) : HasRun d (log ++ log') := by
  obtain ⟨v, hv, hx⟩ := h
  exact ⟨v, List.mem_append_left _ hv, hx⟩

theorem hasRun_snoc {log : List VisitEntry} {v : VisitEntry} (h : HasRun d (log ++ [v])) :
    HasRun d log ∨ ∃ x ∈ v.cmds, x.body = d.body := by
  obtain ⟨u, hu, hx⟩ := h
  rcases List.mem_append.1 hu with hu | hu
  · exact Or.inl ⟨u, hu, hx⟩
  · rw [List.mem_singleton.1 hu] at hx
    exact Or.inr hx

theorem DefaultUnused.snoc {st : VisitState} (h : DefaultUnused P node dst cmds d st) {m' : Mem}
    {v : VisitEntry} (hret : v.ret ≠ dst)
    (hflow : ¬ HasRun d st.log → ∃ x ∈ cmds, actType x.act = 2 ∧ v.ret = x.arg1)
    (hdest : HasRun d (st.log ++ [v]) → P.defDest m' node ≠ dst) :
    DefaultUnused P node dst cmds d ⟨m', st.log ++ [v]⟩ where
  never u hu := by
    rcases List.mem_append.1 hu with hu | hu
    · exact h.never u hu
    · rw [List.mem_singleton.1 hu]
      exact hret
  flow before u after hsplit hnot := by
    rcases List.eq_nil_or_concat' after with rfl | ⟨after', w, rfl⟩
    · obtain ⟨rfl, heq⟩ := List.append_inj' hsplit rfl
      rw [← (List.cons.inj heq).1]
      exact hflow hnot
    · have hsplit' : st.log ++ [v] = (before ++ u :: after') ++ [w] := by
        rw [List.append_assoc]
        exact hsplit
      exact h.flow before u after' (List.append_inj' hsplit' rfl).1 hnot
  replaced := hdest

/-- A pending flow that takes a visit elsewhere, as one of `cmds` does. -/
structure LeavesFor (modTime : Time) (dst : Word) (cmds : List QueuedCmd) (y : QueuedCmd) : Prop where
  type : actType y.act = 2
  valid : y.validTime ≤ modTime
  qty : actQty y.act ≠ 0
  elsewhere : y.arg1 ≠ dst
  planned : ∃ x ∈ cmds, actType x.act = 2 ∧ y.arg1 = x.arg1

variable {modTime : Time}

theorem LeavesFor.counted {y : QueuedCmd} (h : LeavesFor modTime dst cmds y)
    (hqty : y.counted.qty ≠ 0) : LeavesFor modTime dst cmds y.counted where
  type := by
    unfold actType QueuedCmd.counted
    rw [withQty_ushiftRight _ _ (show 20 ≤ actTypePos by decide)]
    exact h.type
  valid := h.valid
  qty h0 := hqty (by rw [QueuedCmd.qty, h0]; rfl)
  elsewhere := h.elsewhere
  planned := h.planned

/-- `d` is still to run, and the commands pending before it leave the block for elsewhere. -/
structure Waiting (P : Platform) (modTime : Time) (node dst : Word) (cmds : List QueuedCmd)
    (d : QueuedCmd) (m : Mem) : Prop where
  dnr : P.ld m (node + blockCmdqFlags) &&& blockCmdqDnrSmsk = 0
  pending : ∃ before post, pendingCmds P m node = before ++ d :: post ∧
    (∀ y ∈ before, LeavesFor modTime dst cmds y ∧ y.body ≠ d.body) ∧ LeavesFor modTime dst cmds d

structure StaleInv (P : Platform) (modTime : Time) (node dst : Word) (lst : Nat → Nat) (m₀ : Mem)
    (cmds : List QueuedCmd) (d : QueuedCmd) (st : VisitState) : Prop where
  shape : SameShape P m₀ st.mem node lst
  inv : QueueInv P st.mem node
  waiting : ¬ HasRun d st.log → Waiting P modTime node dst cmds d st.mem
  unused : DefaultUnused P node dst cmds d st

variable {base : Nat} {lst : Nat → Nat} {buf : Nat → Nat → Nat} {m₀ : Mem}

theorem Waiting.visit {s : Cpu} (hl : BlockLayout P s.mem node base lst buf)
    (hinv : QueueInv P s.mem node) (h : Waiting P modTime node dst cmds d s.mem)
    (hperm : IsPermanent d.act) {t : Nat} (ht : t < thrQty) (hnow : ∀ n, modTime ≤ s.clk n) :
    ∃ x s', block P s node (thrPtr t) = some (x.arg1, s') ∧ executed P s node = [x] ∧
      QueueStep P s.mem s'.mem node lst [] [x] ∧ LeavesFor modTime dst cmds x ∧
      (x.body ≠ d.body ∧ Waiting P modTime node dst cmds d s'.mem ∨
        x = d ∧ P.defDest s'.mem node ≠ dst) := by
  obtain ⟨before, post, hpend, hbefore, hd⟩ := h.pending
  cases before with
  | nil =>
    obtain ⟨s', hblock, hexec, hstep, -, hdest⟩ := hl.visit_pending hinv h.dnr hpend
      (fun n => BitVec.le_trans hd.valid (hnow n)) ht hd.qty hd.type
    refine ⟨d, s', hblock, hexec, hstep, hd, Or.inr ⟨rfl, ?_⟩⟩
    rw [hdest, if_pos hperm]
    exact hd.elsewhere
  | cons y before =>
    obtain ⟨hy, hne⟩ := hbefore y List.mem_cons_self
    obtain ⟨s', hblock, hexec, hstep, hcmds, -⟩ := hl.visit_pending hinv h.dnr hpend
      (fun n => BitVec.le_trans hy.valid (hnow n)) ht hy.qty hy.type
    refine ⟨y, s', hblock, hexec, hstep, hy, Or.inl ⟨hne, ?_, ?_⟩⟩
    · have hflags := (hl.visit_words ht hblock).2
      rw [Platform.ld, hl.adr_qFlags, hflags, ← hl.adr_qFlags]
      exact h.dnr
    · unfold afterOne at hcmds
      split at hcmds
      next => exact ⟨before, post, hcmds, fun z hz => hbefore z (List.mem_cons_of_mem _ hz), hd⟩
      next hqty =>
        refine ⟨y.counted :: before, post, hcmds, ?_, hd⟩
        intro z hz
        rcases List.mem_cons.1 hz with rfl | hz
        · exact ⟨hy.counted hqty, by rw [QueuedCmd.counted, body_withQty]; exact hne⟩
        · exact hbefore z (List.mem_cons_of_mem _ hz)

theorem KeepsQueues.pendingCmds_eq {m m' : Mem} (hl : BlockLayout P m node base lst buf)
    (h : KeepsQueues P m m' node base lst buf) : pendingCmds P m' node = pendingCmds P m node := by
  apply List.flatMap_congr
  intro q hq
  rw [h.shape.queues q (mem_scanPrios.1 hq)]
  split
  next hex => exact (hl.queueCmds_keeps h (mem_scanPrios.1 hq) hex).2.2
  next => rfl

theorem StaleInv.step {st st' : VisitState} {label : VisitLabel}
    (hl₀ : BlockLayout P m₀ node base lst buf) (hperm : IsPermanent d.act)
    (h : StaleInv P modTime node dst lst m₀ cmds d st)
    (hstep : VisitStep P modTime node base lst buf st label st')
    (hok : KeepsAway P node dst d st label st') : StaleInv P modTime node dst lst m₀ cmds d st' := by
  have hl := hl₀.of_sameShape h.shape
  cases hstep with
  | @visit s s' t r hmem ht hnow hblock =>
    by_cases hrun : HasRun d st.log
    · obtain ⟨hslip, hback⟩ := hok hrun
      have hdest := h.unused.replaced hrun
      rw [← hmem] at hl hdest
      have hinv := hmem ▸ h.inv
      obtain ⟨hret, hdest'⟩ := hl.visit_avoids ht hslip hdest hback hblock
      obtain ⟨r', s'', hblock', hqueue⟩ := hl.visit_step hinv ht hslip
      rw [hblock] at hblock'
      obtain ⟨-, rfl⟩ := Prod.mk.inj (Option.some.inj hblock')
      refine ⟨?_, hqueue.inv hinv, fun hnot => absurd hrun.append hnot, ?_⟩
      · exact h.shape.trans (hmem ▸ hqueue.shape)
      · exact h.unused.snoc hret (fun hnot => absurd hrun hnot) fun _ => hdest'
    · have hinv := hmem ▸ h.inv
      rw [← hmem] at hl
      obtain ⟨x, s'', hblock', hexec, hqueue, hx, hnext⟩ :=
        (hmem ▸ h.waiting hrun).visit hl hinv hperm ht hnow
      rw [hblock] at hblock'
      obtain ⟨rfl, rfl⟩ := Prod.mk.inj (Option.some.inj hblock')
      rw [hexec]
      refine ⟨h.shape.trans (hmem ▸ hqueue.shape), hqueue.inv hinv, ?_, ?_⟩
      · intro hnot
        rcases hnext with ⟨-, hwait⟩ | ⟨rfl, -⟩
        · exact hwait
        · exact absurd ⟨_, List.mem_append_right _ (List.mem_singleton_self _), x,
            List.mem_singleton_self _, rfl⟩ hnot
      · refine h.unused.snoc hx.elsewhere (fun _ => hx.planned) fun hran => ?_
        rcases hnext with ⟨hne, -⟩ | ⟨-, hdest⟩
        · rcases hasRun_snoc hran with hran | ⟨y, hy, hbody⟩
          · exact absurd hran hrun
          · rw [List.mem_singleton.1 hy] at hbody
            exact absurd hbody hne
        · exact hdest
  | @other m' hkeep =>
    obtain ⟨hopen, haway⟩ := hok
    refine ⟨h.shape.trans hkeep.shape, hl.queueInv_keeps hkeep h.inv, ?_, ?_⟩
    · intro hnot
      refine ⟨hopen hnot, ?_⟩
      rw [hkeep.pendingCmds_eq hl]
      exact (h.waiting hnot).pending
    · exact ⟨h.unused.never, h.unused.flow, haway⟩

end Runs

/-! ### When the removal is right -/

namespace HostView

variable {H : HostView} {cpu : CpuIdx}

theorem transient_congr {x y : QueuedCmd} (h : x.body = y.body) :
    H.transient cpu x = H.transient cpu y := by
  have harg : x.body.arg1 = y.body.arg1 := by rw [h]
  have hact : x.body.act = y.body.act := by rw [h]
  change x.arg1 = y.arg1 at harg
  change withQty x.act 0 = withQty y.act 0 at hact
  have hshift : x.act >>> 27 = y.act >>> 27 := by
    rw [← withQty_ushiftRight x.act 0 (show 20 ≤ 27 by decide), hact,
      withQty_ushiftRight y.act 0 (show 20 ≤ 27 by decide)]
  have hbit : (x.act &&& actChpSmsk == 0) = (y.act &&& actChpSmsk == 0) := by
    have hx := (shift_and_one_bne (w := x.act) (i := 27)).trans (and_bit_bne (by decide)).symm
    have hy := (shift_and_one_bne (w := y.act) (i := 27)).trans (and_bit_bne (by decide)).symm
    rw [hshift] at hx
    have hne := hx.symm.trans hy
    exact Bool.not_inj hne
  unfold transient flowDst
  rw [harg, hbit]

/-- **Stale default destinations**: if the scan of a copied block has a result, some flow `d`
dominates the pending commands; if `d` and the flows before it do what the scan takes for
granted, then in every run that puts nothing back the default destination `dst` is not used. -/
theorem stale_default_unused {P : Platform} {m₀ : Mem} {x : AllocMeta} {node : Word} {base : Nat}
    {lst : Nat → Nat} {buf : Nat → Nat → Nat} (hl : BlockLayout P m₀ node base lst buf)
    (hinv : QueueInv P m₀ node) (hcopy : H.Copies P m₀ x node) {name : String}
    (hname : (H.hashOf name).bind H.table.lookupHash = some x) {ret : DominantFlows}
    (hret : H.getDominantFlowDst name = some ret) (hne : ret.dst.Nonempty) :
    ∃ d, H.dominant x.cpu (pendingCmds P m₀ node) = some d ∧
      (Dominates P m₀ node (P.defDest m₀ node)
          ((pendingCmds P m₀ node).takeWhile (H.transient x.cpu)) d →
        ∀ st, (visitSystem P H.modTime node base lst buf m₀
            (KeepsAway P node (P.defDest m₀ node) d)).Reachable st →
          DefaultUnused P node (P.defDest m₀ node) (pendingCmds P m₀ node) d st) := by
  obtain ⟨d, post, hdrop, hflows⟩ := hcopy.dominant_of_nonempty hinv hname hret hne
  refine ⟨d, by rw [dominant, hdrop]; rfl, fun hdom st hst => ?_⟩
  have hsplit : pendingCmds P m₀ node =
      (pendingCmds P m₀ node).takeWhile (H.transient x.cpu) ++ d :: post := by
    rw [← hdrop, List.takeWhile_append_dropWhile]
  generalize hbefore : (pendingCmds P m₀ node).takeWhile (H.transient x.cpu) = before at *
  generalize hcmds : pendingCmds P m₀ node = cmds at *
  have hleaves : ∀ y ∈ before ++ [d], LeavesFor H.modTime (P.defDest m₀ node) cmds y := by
    intro y hy
    refine ⟨(hflows y hy).type, (hflows y hy).valid, hdom.qty y hy, hdom.elsewhere y hy, y, ?_,
      (hflows y hy).type, rfl⟩
    rw [hsplit]
    rcases List.mem_append.1 hy with hy | hy
    · exact List.mem_append_left _ hy
    · rw [List.mem_singleton.1 hy]
      exact List.mem_append_right _ List.mem_cons_self
  have hd : H.transient x.cpu d = false := by
    have hhead := List.head?_dropWhile_not (H.transient x.cpu) cmds
    rw [hdrop] at hhead
    simpa using hhead
  have hstart : StaleInv P H.modTime node (P.defDest m₀ node) lst m₀ cmds d ⟨m₀, []⟩ := by
    refine ⟨⟨fun _ _ => rfl, fun _ _ _ => rfl, fun _ _ _ _ _ => rfl⟩, hinv, fun _ => ⟨hdom.dnr,
      before, post, hcmds.trans hsplit, ?_, hleaves d (by simp)⟩, ?_⟩
    · intro y hy
      refine ⟨hleaves y (List.mem_append_left _ hy), fun hbody => ?_⟩
      rw [← hbefore] at hy
      have htrans := List.mem_takeWhile_imp hy
      rw [transient_congr hbody, hd] at htrans
      cases htrans
    · refine ⟨fun v hv => absurd hv (by simp), fun b v a heq => ?_, ?_⟩
      · exact absurd heq (by simp)
      · rintro ⟨v, hv, -⟩
        exact absurd hv (by simp)
  have hrun := TransitionSystem.Reachable.invariant _
    (I := StaleInv P H.modTime node (P.defDest m₀ node) lst m₀ cmds d)
    (fun st hinit => by rw [show st = ⟨m₀, []⟩ from hinit]; exact hstart)
    (fun st st' _ h hstep => by
      obtain ⟨label, hstep, hok⟩ := hstep
      exact h.step hl hdom.permanent hstep hok) st hst
  exact hrun.unused

/-! ### A block with one flow pending -/

def fiveChunks : Space where
  extBaseAdr := 0x4120000
  intBaseAdr := 0x10000000
  peerBaseAdr := 0x84120000
  sharedOffs := 0x500
  space := 312
  rawSize := 0x1ffff
  sharedInRam := by decide
  intLow := AllocTable.fourBlocks.intLow
  peerHigh := AllocTable.fourBlocks.peerHigh
  peerFits := AllocTable.fourBlocks.peerFits

def staleBlock : Word := 0x10000868

/-- The block has a queue for low priority, where a flow of action word `act` to `dest` is
pending; its default destination is a node behind its chunks. -/
def staleMem (act dest : Word) : Mem :=
  storeAll samplePlatform (fun _ => 0)
    [(staleBlock + nodeFlags, 0x100007), (staleBlock + blockCmdqPtrs, 0x1000089c),
      (staleBlock + blockCmdqWrIdxs, 1), (staleBlock + nodeDefDestPtr, 0x10000938),
      (0x1000089c, 0x100008d0), (0x100008a0, 0x10000904), (0x100008d0 + tCmdAct, act),
      (0x100008d0 + tCmdFlowDest, dest)]

def downloadedChunk (m : Mem) (adr : Word) (v : Nat) : AllocMeta where
  cpu := 0
  adr
  hash := BitVec.ofNat 32 v
  v
  b := Vector.ofFn fun i => (be32 (samplePlatform.ld m
    (adr + intBaseAdr + BitVec.ofNat 32 (4 * (i.1 / 4))))).getD (i.1 % 4) 0
  staged := false

def staleChunks (m : Mem) : List AllocMeta :=
  [downloadedChunk m 0x868 0, downloadedChunk m 0x89c 1, downloadedChunk m 0x8d0 2,
    downloadedChunk m 0x904 3]

def staleNames : List String := ["block", "list", "first", "second"]

theorem mem_staleChunks {m : Mem} {e : AllocMeta} :
    e ∈ staleChunks m ↔ e = downloadedChunk m 0x868 0 ∨ e = downloadedChunk m 0x89c 1 ∨
      e = downloadedChunk m 0x8d0 2 ∨ e = downloadedChunk m 0x904 3 := by
  simp [staleChunks]

theorem staleNames_inj {x y : String} {h : Word}
    (hx : (staleNames.idxOf? x).map (fun i => BitVec.ofNat 32 i) = some h)
    (hy : (staleNames.idxOf? y).map (fun i => BitVec.ofNat 32 i) = some h) : x = y := by
  obtain ⟨i, hi, rfl⟩ := Option.map_eq_some_iff.1 hx
  obtain ⟨j, hj, hij⟩ := Option.map_eq_some_iff.1 hy
  obtain ⟨hi4, hxi, -⟩ := List.findIdx?_eq_some_iff_getElem.1 hi
  obtain ⟨hj4, hyj, -⟩ := List.findIdx?_eq_some_iff_getElem.1 hj
  have hlen : staleNames.length = 4 := rfl
  have heq : j = i := by
    have hnat := congrArg BitVec.toNat hij
    rw [BitVec.toNat_ofNat, BitVec.toNat_ofNat] at hnat
    omega
  subst heq
  exact (beq_iff_eq.1 hxi).symm.trans (beq_iff_eq.1 hyj)

def staleView (m : Mem) : HostView where
  table :=
    { a := ⟨staleChunks m, by
        simp [staleChunks, downloadedChunk, AllocMeta.Collide, AllocMeta.place]⟩
      m := .empty
      vPool := [MemPool.new fiveChunks] }
  hashOf name := (staleNames.idxOf? name).map fun i => BitVec.ofNat 32 i
  nodeName v := staleNames.getD v ""
  modTime := 10
  testmode := true
  onChunk e he := by
    have hchunk : ∀ adr : Word, fiveChunks.IsChunk adr → (0, adr) ∈ rangeOf [MemPool.new fiveChunks] :=
      fun adr hadr => ⟨MemPool.new fiveChunks, rfl, hadr⟩
    rcases mem_staleChunks.1 he with rfl | rfl | rfl | rfl
    · exact hchunk 0x868 (by decide)
    · exact hchunk 0x89c (by decide)
    · exact hchunk 0x8d0 (by decide)
    · exact hchunk 0x904 (by decide)
  named e he := by
    have hname : ∀ v, v < 4 → (staleNames.idxOf? (staleNames.getD v "")).map
        (fun i => BitVec.ofNat 32 i) = some (BitVec.ofNat 32 v) := by decide
    rcases mem_staleChunks.1 he with rfl | rfl | rfl | rfl
    · exact hname 0 (by decide)
    · exact hname 1 (by decide)
    · exact hname 2 (by decide)
    · exact hname 3 (by decide)
  hashOf_inj _ _ _ := staleNames_inj

structure StaleShape (m : Mem) : Prop where
  queues : ∀ q, q < 3 → samplePlatform.hasQueue m staleBlock q = decide (q = 0)
  list : ∀ q, q < 3 →
    queueList samplePlatform m staleBlock q = if q = 0 then 0x1000089c else lm32NullPtr
  bufs : ∀ j, j < 2 → samplePlatform.ld m (0x1000089c + BitVec.ofNat 32 (j * 4)) =
    0x100008d0 + BitVec.ofNat 32 (j * 52)

theorem downloadedChunk_word (m : Mem) (adr : Word) (v : Nat) {k : Nat} (hk : k < 13) :
    read32 (downloadedChunk m adr v).b.toList (4 * k) =
      samplePlatform.ld m (adr + intBaseAdr + BitVec.ofNat 32 (4 * k)) := by
  rw [← read32_be32 (samplePlatform.ld m (adr + intBaseAdr + BitVec.ofNat 32 (4 * k)))]
  apply read32_congr
  intro j hj
  have hlen : (downloadedChunk m adr v).b.toList.length = 52 := Vector.length_toList
  have hdiv : (4 * k + j) / 4 = k := by omega
  have hmod : (4 * k + j) % 4 = j := by omega
  rw [List.getElem?_eq_getElem (by omega), Vector.getElem_toList]
  unfold downloadedChunk
  rw [Vector.getElem_ofFn]
  dsimp only
  rw [hdiv, hmod, Nat.zero_add, List.getD_eq_getElem?_getD,
    List.getElem?_eq_getElem (by rw [length_be32]; exact hj)]
  rfl

section Sample

variable {m : Mem} (h : StaleShape m)
include h

theorem StaleShape.layout : BlockLayout samplePlatform m staleBlock 0x2000021a
    (fun _ => 0x20000227) (fun _ j => 0x20000234 + 13 * j) := by
  have hzero : ∀ {q : Nat}, q < 3 → samplePlatform.hasQueue m staleBlock q = true → q = 0 := by
    intro q hq hex
    rw [h.queues q hq] at hex
    exact of_decide_eq_true hex
  have hlist := h.list 0 (by decide)
  have hctl : samplePlatform.ctl 0 = 0x20000140 := rfl
  have hlst : ∀ k, k < 2 →
      samplePlatform.adr (0x1000089c + BitVec.ofNat 32 (k * 4)) = 0x20000227 + k := by
    decide +kernel
  have hbuf : ∀ j, j < 2 → ∀ k, k < 10 → samplePlatform.adr
      (0x100008d0 + BitVec.ofNat 32 (j * 52) + BitVec.ofNat 32 (4 * k)) = 0x20000234 + 13 * j + k := by
    decide +kernel
  refine ⟨by decide +kernel, ?_, ?_, Or.inr (by rw [hctl]; decide), ?_, ?_, ?_, ?_, ?_, ?_⟩
  · intro q hq hex k hk
    rw [hzero hq hex, hlist]
    exact hlst k hk
  · intro q hq hex j hj k hk
    have hptr := h.bufs j hj
    rw [Platform.ld, hlst j hj] at hptr
    rw [hptr]
    exact hbuf j hj k hk
  on_goal 6 =>
    intro q hq hexq r hr hexr i hi j hj hne
    rw [hzero hq hexq, hzero hr hexr] at hne
    simp only [Apart]
    omega
  all_goals
    intros
    simp only [Apart, hctl]
    omega

theorem StaleShape.copies : (staleView m).Copies samplePlatform m (downloadedChunk m 0x868 0)
    staleBlock := by
  have hpoints : ∀ adr v, downloadedChunk m adr v ∈ staleChunks m → adr ≠ lm32NullPtr →
      (staleView m).PointsTo 0 (adr + intBaseAdr) (downloadedChunk m adr v) := by
    intro adr v he hne
    refine ⟨he, rfl, ?_⟩
    change fiveChunks.adrConv .MGMT .INT adr = some (adr + intBaseAdr)
    unfold Space.adrConv
    rw [if_neg hne]
    rfl
  have hlist : (staleView m).PointsTo 0 0x1000089c (downloadedChunk m 0x89c 1) :=
    hpoints 0x89c 1 (by simp [staleChunks]) (by decide)
  have hbuf : ∀ j, j < 2 → (staleView m).PointsTo 0 (0x100008d0 + BitVec.ofNat 32 (j * 52))
      (downloadedChunk m (if j = 0 then 0x8d0 else 0x904) (j + 2)) := by
    intro j hj
    obtain rfl | rfl : j = 0 ∨ j = 1 := by omega
    · exact hpoints 0x8d0 2 (by simp [staleChunks]) (by decide)
    · exact hpoints 0x904 3 (by simp [staleChunks]) (by decide)
  refine ⟨hpoints 0x868 0 (by simp [staleChunks]) (by decide), ?_, ?_, ?_, ?_⟩
  · intro e ptr he k hk
    have hword : ∀ adr v, e = downloadedChunk m adr v → adr ≠ lm32NullPtr →
        read32 e.b.toList (4 * k) = samplePlatform.ld m (ptr + BitVec.ofNat 32 (4 * k)) := by
      rintro adr v rfl hne
      obtain rfl := Option.some.inj ((hpoints adr v he.mem hne).adr.symm.trans he.adr)
      exact downloadedChunk_word m adr v hk
    rcases mem_staleChunks.1 he.mem with heq | heq | heq | heq <;> exact hword _ _ heq (by decide)
  · intro q hq hex
    rw [h.queues q hq, decide_eq_true_iff] at hex
    refine ⟨downloadedChunk m 0x89c 1, ?_⟩
    rw [h.list q hq, if_pos hex]
    exact hlist
  · intro q hq hex
    rw [h.queues q hq, decide_eq_false_iff_not] at hex
    rw [h.list q hq, if_neg hex]
  · intro q hq hex j hj
    rw [h.queues q hq, decide_eq_true_iff] at hex
    refine ⟨downloadedChunk m (if j = 0 then 0x8d0 else 0x904) (j + 2), ?_⟩
    rw [h.list q hq, if_pos hex, h.bufs j hj]
    exact hbuf j hj

end Sample

def staleCpu (act dest : Word) : Cpu := { sampleCpu 10 with mem := staleMem act dest }

/-- A permanent flow of the block to itself dominates: after one visit, which executes it, the
block has been left for itself, and will be. -/
theorem stale_default_unused_sample :
    ∃ d st, (staleView (staleMem 0x08200001 staleBlock)).dominant 0
        (pendingCmds samplePlatform (staleMem 0x08200001 staleBlock) staleBlock) = some d ∧
      (visitSystem samplePlatform 10 staleBlock 0x2000021a (fun _ => 0x20000227)
        (fun _ j => 0x20000234 + 13 * j) (staleMem 0x08200001 staleBlock)
        (KeepsAway samplePlatform staleBlock 0x10000938 d)).Reachable st ∧
      st.log = [⟨[d], staleBlock⟩] ∧
      DefaultUnused samplePlatform staleBlock 0x10000938
        (pendingCmds samplePlatform (staleMem 0x08200001 staleBlock) staleBlock) d st := by
  have hshape : StaleShape (staleMem 0x08200001 staleBlock) :=
    ⟨by decide +kernel, by decide +kernel, by decide +kernel⟩
  have hinv : QueueInv samplePlatform (staleMem 0x08200001 staleBlock) staleBlock :=
    ⟨by unfold ThreeBit; decide +kernel, by decide +kernel, by decide +kernel⟩
  have hret : (staleView (staleMem 0x08200001 staleBlock)).getDominantFlowDst "block" =
      some { dst := {some 0}, covTab := [(0, 0, ((staleView (staleMem 0x08200001 staleBlock)).getQelement 0
        (downloadedChunk (staleMem 0x08200001 staleBlock) 0x8d0 2) []).getD {})] } := by
    decide +kernel
  have hname : ((staleView (staleMem 0x08200001 staleBlock)).hashOf "block").bind
      (staleView (staleMem 0x08200001 staleBlock)).table.lookupHash = some _ := rfl
  obtain ⟨d, hd, hrun⟩ := stale_default_unused hshape.layout hinv hshape.copies hname hret
    ⟨some 0, by simp⟩
  have hcmd : (staleView (staleMem 0x08200001 staleBlock)).dominant 0
      (pendingCmds samplePlatform (staleMem 0x08200001 staleBlock) staleBlock) =
      some { validTime := 0, act := 0x08200001, arg1 := staleBlock, arg2 := 0 } := by
    decide +kernel
  obtain rfl := Option.some.inj (hd.symm.trans hcmd)
  have hdom : Dominates samplePlatform (staleMem 0x08200001 staleBlock) staleBlock
      (samplePlatform.defDest (staleMem 0x08200001 staleBlock) staleBlock)
      ((pendingCmds samplePlatform (staleMem 0x08200001 staleBlock) staleBlock).takeWhile
        ((staleView (staleMem 0x08200001 staleBlock)).transient 0))
      { validTime := 0, act := 0x08200001, arg1 := staleBlock, arg2 := 0 } :=
    ⟨by decide +kernel, by decide +kernel, by decide +kernel, by decide +kernel⟩
  have hdest : samplePlatform.defDest (staleMem 0x08200001 staleBlock) staleBlock = 0x10000938 := by
    decide +kernel
  have hgoes : (block samplePlatform (staleCpu 0x08200001 staleBlock) staleBlock (thrPtr 0)).map
      Prod.fst = some staleBlock := by
    decide +kernel
  have hexec : executed samplePlatform (staleCpu 0x08200001 staleBlock) staleBlock =
      [{ validTime := 0, act := 0x08200001, arg1 := staleBlock, arg2 := 0 }] := by
    decide +kernel
  obtain ⟨⟨r, s'⟩, hblock, rfl⟩ := Option.map_eq_some_iff.1 hgoes
  have hvisit : VisitStep samplePlatform 10 staleBlock 0x2000021a (fun _ => 0x20000227)
      (fun _ j => 0x20000234 + 13 * j) ⟨staleMem 0x08200001 staleBlock, []⟩
      (.visit (staleCpu 0x08200001 staleBlock) 0)
      ⟨s'.mem, [] ++ [⟨executed samplePlatform (staleCpu 0x08200001 staleBlock) staleBlock,
        staleBlock⟩]⟩ :=
    .visit rfl (by decide) (fun _ => BitVec.le_refl _) hblock
  rw [hexec, List.nil_append] at hvisit
  have hreach := TransitionSystem.Reachable.step (T := visitSystem samplePlatform 10 staleBlock
      0x2000021a (fun _ => 0x20000227) (fun _ j => 0x20000234 + 13 * j)
      (staleMem 0x08200001 staleBlock) (KeepsAway samplePlatform staleBlock 0x10000938
        { validTime := 0, act := 0x08200001, arg1 := staleBlock, arg2 := 0 }))
    (.init rfl) ⟨_, hvisit, fun hran => by
      obtain ⟨v, hv, -⟩ := hran
      exact absurd hv (by simp)⟩
  rw [hdest] at hdom hrun
  exact ⟨_, _, hd, hreach, rfl, hrun hdom _ hreach⟩

/-- **What the scan takes for granted**: a flow to idle that is not permanent sends one visit to
idle and the next to the default destination; a permanent flow of quantity 0 is skipped, and
the visit goes to the default destination. -/
theorem stale_default_used : ¬ ∀ (H : HostView) (P : Platform) (m₀ : Mem) (x : AllocMeta)
    (node : Word) (base : Nat) (lst : Nat → Nat) (buf : Nat → Nat → Nat) (name : String)
    (ret : DominantFlows), BlockLayout P m₀ node base lst buf → QueueInv P m₀ node →
    H.Copies P m₀ x node → (H.hashOf name).bind H.table.lookupHash = some x →
    H.getDominantFlowDst name = some ret → ret.dst.Nonempty →
    ∀ st, (visitSystem P H.modTime node base lst buf m₀ fun _ _ _ => True).Reachable st →
      ∀ v ∈ st.log, v.ret ≠ P.defDest m₀ node := by
  intro h
  have hshape : StaleShape (staleMem 0x00200001 lm32NullPtr) :=
    ⟨by decide +kernel, by decide +kernel, by decide +kernel⟩
  have hinv : QueueInv samplePlatform (staleMem 0x00200001 lm32NullPtr) staleBlock :=
    ⟨by unfold ThreeBit; decide +kernel, by decide +kernel, by decide +kernel⟩
  have hret : (staleView (staleMem 0x00200001 lm32NullPtr)).getDominantFlowDst "block" =
      some { dst := {none}, covTab := [] } := by
    decide +kernel
  have hgoes : ((block samplePlatform (staleCpu 0x00200001 lm32NullPtr) staleBlock (thrPtr 0)).bind
      fun o => block samplePlatform { staleCpu 0x00200001 lm32NullPtr with mem := o.2.mem }
        staleBlock (thrPtr 0)).map Prod.fst =
      some (samplePlatform.defDest (staleMem 0x00200001 lm32NullPtr) staleBlock) := by
    decide +kernel
  obtain ⟨⟨r', s'⟩, hboth, hr'⟩ := Option.map_eq_some_iff.1 hgoes
  obtain ⟨⟨r, s⟩, hfirst, hsecond⟩ := Option.bind_eq_some_iff.1 hboth
  have hvisit : ∀ (c c' : Cpu) (r : Word) (log : List VisitEntry),
      (∀ n, (10 : Time) ≤ c.clk n) → block samplePlatform c staleBlock (thrPtr 0) = some (r, c') →
      VisitStep samplePlatform 10 staleBlock 0x2000021a (fun _ => 0x20000227)
        (fun _ j => 0x20000234 + 13 * j) ⟨c.mem, log⟩ (.visit c 0)
        ⟨c'.mem, log ++ [⟨executed samplePlatform c staleBlock, r⟩]⟩ :=
    fun _ _ _ _ hclk hblock => .visit rfl (by decide) hclk hblock
  have hreach := TransitionSystem.Reachable.step (T := visitSystem samplePlatform 10 staleBlock
      0x2000021a (fun _ => 0x20000227) (fun _ j => 0x20000234 + 13 * j)
      (staleMem 0x00200001 lm32NullPtr) fun _ _ _ => True)
    (.init rfl) ⟨_, hvisit _ _ _ _ (fun _ => BitVec.le_refl _) hfirst, trivial⟩
  have hreach' := hreach.step
    ⟨_, hvisit { staleCpu 0x00200001 lm32NullPtr with mem := s.mem } s' r' _
      (fun _ => BitVec.le_refl _) hsecond, trivial⟩
  exact h _ _ _ _ _ _ _ _ "block" _ hshape.layout hinv hshape.copies rfl hret ⟨none, by simp⟩ _
    hreach' _ (List.mem_append_right _ (List.mem_singleton_self _)) hr'

end HostView

namespace CarpeDM

end CarpeDM
end DataMaster
