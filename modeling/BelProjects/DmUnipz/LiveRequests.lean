import BelProjects.DmUnipz.Gateway

/-!
# Writes to the Data Master

Only beam requests write to the Data Master.  What they write goes to the thread that the event
names, and to the block that the last request for the transfer channel has named, as long as the
transfer channel has not been released.
-/

namespace DmUnipz

open DataMaster

/-! ### Runs -/

/-- A run: the events, each with the status of the firmware at that time. -/
def Gateway.run (B : Build) (g : Gateway) : List (Word × Event) → Gateway
  | [] => g
  | (actStatus, ev) :: evs => (g.event B actStatus ev).gateway.run B evs

/-- The block named by the latest request for the transfer channel that was not late, unless the
channel has been released since. -/
def named (n : Option Word) : List (Word × Event) → Option Word
  | [] => n
  | (_, .reqTk e _ _) :: evs => named (if e.flagLate then n else some (e.ecaParam.setWidth 32)) evs
  | (_, .relTk _ _ _) :: evs => named none evs
  | _ :: evs => named n evs

def dmWrites : List Output → List EbmWrite
  | [] => []
  | .dm w :: out => w :: dmWrites out
  | .pzu _ _ :: out => dmWrites out
  | .mil _ :: out => dmWrites out

/-! ### What a live request writes -/

/-- The start registers of the thread that an event names: the external addresses of its start
time and of the word of start flags, and the bit of the thread. -/
def threadTimeAddr (B : Build) (e : EcaEvent) : Word :=
  dmExt2BaseAddr B ((e.ecaParam >>> 32).setWidth 32) + BitVec.ofNat 32 sharedOffs +
    (BitVec.ofNat 32 shctlThrSta + (e.ecaParam &&& 0xff).setWidth 32 * BitVec.ofNat 32 tTsSize +
      tTsStarttime)

def threadStartAddr (B : Build) (e : EcaEvent) : Word :=
  dmExt2BaseAddr B ((e.ecaParam >>> 32).setWidth 32) + BitVec.ofNat 32 sharedOffs +
    (BitVec.ofNat 32 shctlThrCtl + BitVec.ofNat 32 tTcStart)

def threadBit (e : EcaEvent) : Word := 1#32 <<< (e.ecaParam &&& 0xff).setWidth 32

def BeamMeets.Granted (x : BeamMeets) (e : EcaEvent) : Prop :=
  (requestBeam x.request (dryRun e) .zero).status = statusOk

/-- A time stamp of `EVT_READY_TO_SIS` has been received that is young enough. -/
def BeamMeets.Ready (x : BeamMeets) (e : EcaEvent) : Prop :=
  x.Granted e ∧ x.milEvent = true ∧ x.ecaInjAction = ecaDoReady2Sis ∧
    x.clock .window - x.ecaInjDeadline < matchWindow

/-- The wait for the time stamp has been ended by another event. -/
def BeamMeets.Unexpected (x : BeamMeets) (e : EcaEvent) : Prop :=
  x.Granted e ∧ x.milEvent = true ∧ x.ecaInjAction ≠ ecaDoReady2Sis ∧
    x.ecaInjAction ≠ ecaDoTimeout

structure ThreadStarted (B : Build) (e : EcaEvent) (x : BeamMeets) (thrdOffset : Word)
    (ws : List EbmWrite) : Prop where
  ready : x.Ready e
  ahead : x.clock .ahead + 2 * commonAheadT ≤ x.ecaInjDeadline + thrdOffset.setWidth 64
  writes : ws =
    [⟨threadTimeAddr B e,
        [((x.ecaInjDeadline + thrdOffset.setWidth 64) >>> 32).setWidth 32,
          ((x.ecaInjDeadline + thrdOffset.setWidth 64) &&& 0xffffffff).setWidth 32]⟩,
      ⟨threadStartAddr B e, [threadBit e]⟩]

/-- The address of the next element of the high priority queue of the block at `a`, as the Data
Master has answered. -/
def NextElement (B : Build) (x : EbmReads) (a cmdAddr wrIdxs : Word) : Prop :=
  ∃ blockData l, x.block a = .ok blockData ∧
    x.word (dmInt2ExtAddr (blockData ((blockCmdqPtrs >>> 2).toNat + prioHi)) (dmExt2BaseAddr B a) +
      bufOffs (idxByte (blockData (blockCmdqWrIdxs >>> 2).toNat) prioHi)) = .ok l ∧
    cmdAddr = dmInt2ExtAddr l (dmExt2BaseAddr B a) +
      elOffs (idxByte (blockData (blockCmdqWrIdxs >>> 2).toNat) prioHi) ∧
    wrIdxs = setIdxByte (blockData (blockCmdqWrIdxs >>> 2).toNat) prioHi
      ((idxByte (blockData (blockCmdqWrIdxs >>> 2).toNat) prioHi + 1) &&& qIdxMaxOvfMsk)

structure BlockFlushed (B : Build) (a : Word) (x : BeamMeets) (ws : List EbmWrite) : Prop where
  live : a ≠ 0
  writes : ∃ cmdAddr wrIdxs hi lo,
    (NextElement B x.reads a cmdAddr wrIdxs ∨ NextElement B x.reads2 a cmdAddr wrIdxs) ∧
      ws = [⟨cmdAddr, [hi, lo, flushAction, 0, 0]⟩, ⟨a + blockCmdqWrIdxs, [wrIdxs]⟩]

/-- Whatever an event writes is for a live request. -/
def Live (B : Build) (block : Option Word) (thrdOffset : Word) (ws : List EbmWrite) : Event → Prop
  | .reqBeam nowait e x =>
      ∃ thr blk, ws = thr ++ blk ∧
        (thr = [] ∨ ThreadStarted B e x thrdOffset thr) ∧
        (blk = [] ∨ nowait = false ∧ ∃ a, block = some a ∧ BlockFlushed B a x blk) ∧
        (ws ≠ [] → ¬ e.flagLate ∧ x.clock .timeout ≤ e.ecaDeadline + dmTimeout ∧ ¬ x.Unexpected e)
  | _ => ws = []

/-! ### The record of the block -/

section Block

variable {B : Build} {c : DmComm}

/-- A flush command for the block at `a` is prepared. -/
structure Prepared (B : Build) (x : BeamMeets) (c : DmComm) : Prop where
  live : c.dynpar ≠ 0
  element : NextElement B x.reads c.dynpar c.cmdAddr c.blockWrIdxs ∨
    NextElement B x.reads2 c.dynpar c.cmdAddr c.blockWrIdxs
  wrIdxsAddr : c.blockWrIdxsAddr = c.dynpar + blockCmdqWrIdxs
  action : c.cmdData 2 = flushAction
  actionPar : c.cmdData 3 = 0
  spare : c.cmdData 4 = 0

/-- The preparation of a command fails and leaves the record as it is, or it finds the next
element. -/
theorem dmPrepCmdCommon_cases (B : Build) (x : EbmReads) (c : DmComm) (checkEmptyQ : Bool)
    (t : Long) :
    (∃ status, status ≠ statusOk ∧ dmPrepCmdCommon B x c prioHi checkEmptyQ t = (status, c)) ∨
      ∃ cmdAddr wrIdxs, NextElement B x c.dynpar cmdAddr wrIdxs ∧
        dmPrepCmdCommon B x c prioHi checkEmptyQ t =
          (statusOk, DmComm.setTime ⟨c.dynpar, cmdAddr, fun _ => 0, c.dynpar + blockCmdqWrIdxs,
            wrIdxs⟩ t) := by
  rw [dmPrepCmdCommon, if_neg (by decide)]
  dsimp only
  split
  case h_1 e _ => exact Or.inl ⟨_, e.bad, rfl⟩
  case h_2 blockData hblock =>
    split
    · exact Or.inl ⟨statusDmQNotEmpty, by decide, rfl⟩
    · split
      · exact Or.inl ⟨statusOutOfRange, by decide, rfl⟩
      · split
        case h_1 e _ => exact Or.inl ⟨_, e.bad, rfl⟩
        case h_2 l hword => exact Or.inr ⟨_, _, ⟨blockData, l, hblock, hword, rfl, rfl⟩, rfl⟩

theorem dmPrepCmdCommon_dynpar {x : EbmReads} {checkEmptyQ : Bool} {t : Long} :
    (dmPrepCmdCommon B x c prioHi checkEmptyQ t).2.dynpar = c.dynpar := by
  rcases dmPrepCmdCommon_cases B x c checkEmptyQ t with ⟨_, _, h⟩ | ⟨_, _, _, h⟩
  · rw [h]
  · rw [h]
    rfl

/-- Of the two tries, the one whose result is used. -/
theorem prepFlush_try (B : Build) (x : BeamMeets) (c : DmComm) :
    ∃ reads, (reads = x.reads ∨ reads = x.reads2) ∧
      ∀ r, dmPrepCmdCommon B reads c prioHi true (x.clock .cmdValid) = r →
        ((prepFlush B x c).1, (prepFlush B x c).2.1) =
          if r.1 ≠ statusOk then r else (dmCheckCmd (dmPrepCmdFlush r.2), dmPrepCmdFlush r.2) := by
  by_cases hlost : (dmPrepCmdCommon B x.reads c prioHi true (x.clock .cmdValid)).1 =
      statusEbReadTimedOut
  · have hsame : (dmPrepCmdCommon B x.reads c prioHi true (x.clock .cmdValid)).2 = c := by
      rcases dmPrepCmdCommon_cases B x.reads c true (x.clock .cmdValid) with
        ⟨_, _, h⟩ | ⟨_, _, _, h⟩
      · rw [h]
      · rw [h] at hlost
        exact absurd (show statusOk = statusEbReadTimedOut from hlost) (by decide)
    refine ⟨x.reads2, Or.inr rfl, ?_⟩
    rintro r rfl
    rw [prepFlush]
    simp only [hlost, hsame, decide_true, if_true]
    split <;> rfl
  · refine ⟨x.reads, Or.inl rfl, ?_⟩
    rintro r rfl
    rw [prepFlush]
    simp only [hlost, decide_false, Bool.false_eq_true, if_false]
    split <;> rfl

theorem prepFlush_dynpar {x : BeamMeets} : (prepFlush B x c).2.1.dynpar = c.dynpar := by
  obtain ⟨reads, -, h⟩ := prepFlush_try B x c
  have hflush := congrArg (fun r => r.2.dynpar) (h _ rfl)
  dsimp only at hflush
  rw [hflush]
  split
  · exact dmPrepCmdCommon_dynpar
  · exact dmPrepCmdCommon_dynpar

theorem prepFlush_prepared {x : BeamMeets} (hok : (prepFlush B x c).1 = statusOk) :
    Prepared B x (prepFlush B x c).2.1 := by
  obtain ⟨reads, hreads, h⟩ := prepFlush_try B x c
  rcases dmPrepCmdCommon_cases B reads c true (x.clock .cmdValid) with
    ⟨status, hbad, hr⟩ | ⟨cmdAddr, wrIdxs, hnext, hr⟩
  · have hfail := h _ hr
    rw [if_pos hbad, Prod.mk.injEq] at hfail
    exact absurd (hfail.1.symm.trans hok) hbad
  · have hfound := h _ hr
    rw [if_neg (not_not.mpr rfl), Prod.mk.injEq] at hfound
    obtain ⟨hstatus, hrecord⟩ := hfound
    rw [hok, dmCheckCmd] at hstatus
    rw [hrecord]
    exact {
      live := by
        intro hzero
        rw [if_pos hzero] at hstatus
        exact absurd hstatus (by decide)
      element := by
        rcases hreads with rfl | rfl
        · exact Or.inl hnext
        · exact Or.inr hnext
      wrIdxsAddr := rfl
      action := rfl
      actionPar := rfl
      spare := rfl }

end Block

/-! ### What a beam request finds out -/

section Analysis

variable {x : BeamMeets} {e : EcaEvent}

theorem requestBeam_status (x : Request) (dry : Bool) (data : WriteToPzu) :
    (requestBeam x dry data).status = (requestBeam x dry .zero).status := rfl

/-- Only a time stamp that is young enough counts. -/
theorem awaitInjection_ok {data : WriteToPzu}
    (h : (awaitInjection x (requestBeam x.request (dryRun e) data).status).status = statusOk) :
    x.Ready e ∧
      awaitInjection x (requestBeam x.request (dryRun e) data).status =
        ⟨statusOk, true, false, x.ecaInjDeadline⟩ := by
  rw [awaitInjection] at h ⊢
  split_ifs at h ⊢ with hreq hmil haction hyoung
  · exact absurd h hreq
  · exact absurd h (show statusWait4UniEvent ≠ statusOk by decide)
  · refine ⟨⟨?_, by simpa using hmil, haction, hyoung⟩, rfl⟩
    rw [BeamMeets.Granted, ← requestBeam_status _ _ data]
    exact not_not.mp hreq
  · exact absurd h (show statusBadTimestamp ≠ statusOk by decide)
  · exact absurd h (show statusNoTimestamp ≠ statusOk by decide)
  · exact absurd h (show statusBadScheduleB ≠ statusOk by decide)

theorem awaitInjection_unexpected {data : WriteToPzu} (h : x.Unexpected e) :
    (awaitInjection x (requestBeam x.request (dryRun e) data).status).flagNoCmd = true := by
  obtain ⟨hreq, hmil, hready, htimeout⟩ := h
  rw [BeamMeets.Granted, ← requestBeam_status _ _ data] at hreq
  rw [awaitInjection, if_neg (not_not.mpr hreq), if_neg (by simp [hmil]), if_neg hready,
    if_neg htimeout]

/-- When the status is good after all checks, so it was before them, and the start time lies
ahead. -/
theorem analyse_ok {thrdOffset : Word} {tDmTimeout : Long} {i : Injection}
    (h : (analyse x thrdOffset tDmTimeout i).status = statusOk) :
    i.status = statusOk ∧ (i.flagMilEvtValid = true →
      x.clock .ahead + 2 * commonAheadT ≤ i.tReady2Sis + thrdOffset.setWidth 64 ∧
        (analyse x thrdOffset tDmTimeout i).tCmdThrd = i.tReady2Sis + thrdOffset.setWidth 64) := by
  simp only [analyse, decide_eq_true_eq] at h ⊢
  generalize hstart : (if i.flagMilEvtValid = true then i.tReady2Sis + thrdOffset.setWidth 64
    else x.clock .noMilEvent + thrdOffset.setWidth 64) = tCmdThrd at h ⊢
  by_cases hlate : tDmTimeout < x.clock .timeout
  · rw [if_pos hlate] at h
    exact absurd h (by decide)
  · rw [if_neg hlate] at h
    by_cases hnear : tCmdThrd < x.clock .ahead + 2 * commonAheadT
    · rw [if_pos hnear] at h
      exact absurd h (by decide)
    · rw [if_neg hnear] at h ⊢
      refine ⟨h, fun hvalid => ?_⟩
      rw [if_pos hvalid] at hstart
      rw [hstart]
      exact ⟨BitVec.not_lt.mp hnear, rfl⟩

/-- Nothing is sent too late or after an event that was not expected. -/
theorem analyse_flagNoCmd {thrdOffset : Word} {tDmTimeout : Long} {i : Injection}
    (h : (analyse x thrdOffset tDmTimeout i).flagNoCmd = false) :
    x.clock .timeout ≤ tDmTimeout ∧ i.flagNoCmd = false := by
  simp only [analyse, Bool.or_eq_false_iff, decide_eq_false_iff_not, BitVec.not_lt] at h
  exact h

end Analysis

/-! ### What a beam request writes -/

theorem dmWrites_append (out out' : List Output) :
    dmWrites (out ++ out') = dmWrites out ++ dmWrites out' := by
  induction out with
  | nil => rfl
  | cons o out ih => cases o <;> simp [dmWrites, ih]

theorem dmWrites_map_dm (ws : List EbmWrite) : dmWrites (ws.map .dm) = ws := by
  induction ws with
  | nil => rfl
  | cons w ws ih => rw [List.map_cons, dmWrites, ih]

@[simp] theorem dmWrites_writeToPzu (w : WriteToPzu) (b : BusWrite) :
    dmWrites (writeToPzu w b) = [] := by
  cases b <;> rfl

@[simp] theorem dmWrites_checkClearReqNotOk (x : ClearReq) (data : WriteToPzu) :
    dmWrites (checkClearReqNotOk x data).out = [] := by
  rw [checkClearReqNotOk]
  repeat' split
  all_goals simp [dmWrites, dmWrites_append]

section Armed

variable {B : Build} {g : Gateway} {nowait : Bool} {e : EcaEvent} {x : BeamMeets}

theorem Gateway.release_dmWrites {status : Word} {flagEbTimeout : Bool} :
    dmWrites (g.release x status flagEbTimeout).out = [] := by
  simp [release, releaseBeam, unprepareBeam, writeOnly, Request.run, dmWrites_append, dmWrites]

def Gateway.decision (g : Gateway) (e : EcaEvent) (x : BeamMeets) : Decision :=
  analyse x g.thrdOffset (e.ecaDeadline + dmTimeout)
    (awaitInjection x (requestBeam x.request (dryRun e) g.writePzuData).status)

theorem Gateway.armed_dmWrites (B : Build) (g : Gateway) (nowait : Bool) (e : EcaEvent)
    (x : BeamMeets) (flagEbTimeout : Bool) :
    dmWrites (g.armed B nowait e x flagEbTimeout).out = [] ∨
      dmWrites (g.armed B nowait e x flagEbTimeout).out =
        send nowait (g.decision e x) (dmPrepThrStart B g.dmThrs (g.decision e x).tCmdThrd)
          (timed nowait (g.decision e x) g.dmCmds) := by
  have hreq : dmWrites (.mil (enableFilterEvtMil g.milCtrl) ::
      (requestBeam x.request (dryRun e) g.writePzuData).out) = [] :=
    dmWrites_writeToPzu _ _
  rw [armed]
  dsimp only
  split
  · exact Or.inl hreq
  · apply Or.inr
    rw [dmWrites_append, dmWrites_append, hreq, dmWrites_map_dm, release_dmWrites, List.append_nil,
      List.nil_append]
    rfl

theorem dmChangeBlock_flushed {c : DmComm} {t : Long} (h : Prepared B x c) :
    BlockFlushed B c.dynpar x (dmChangeBlock (dmSetTValidCmdCommon c t)) where
  live := h.live
  writes := by
    refine ⟨c.cmdAddr, c.blockWrIdxs, (t >>> 32).setWidth 32, (t &&& 0xffffffff).setWidth 32,
      h.element, ?_⟩
    rw [← h.action, ← h.wrIdxsAddr, dmChangeBlock]
    have h0 : (dmSetTValidCmdCommon c t).cmdData 0 = (t >>> 32).setWidth 32 := rfl
    have h1 : (dmSetTValidCmdCommon c t).cmdData 1 = (t &&& 0xffffffff).setWidth 32 := rfl
    have h2 : (dmSetTValidCmdCommon c t).cmdData 2 = c.cmdData 2 := rfl
    have h3 : (dmSetTValidCmdCommon c t).cmdData 3 = 0 := h.actionPar
    have h4 : (dmSetTValidCmdCommon c t).cmdData 4 = 0 := h.spare
    rw [h0, h1, h2, h3, h4]
    rfl

theorem dmStartThread_started {thrdOffset : Word}
    (hready : x.Ready e)
    (hahead : x.clock .ahead + 2 * commonAheadT ≤ x.ecaInjDeadline + thrdOffset.setWidth 64)
    (t : DmThrd) :
    ThreadStarted B e x thrdOffset
      (dmStartThread (dmPrepThrStart B (t.load e) (x.ecaInjDeadline + thrdOffset.setWidth 64))) where
  ready := hready
  ahead := hahead
  writes := rfl

theorem Gateway.send_live (hlate : e.flagLate = false) {t : DmThrd} (hthr : g.dmThrs = t.load e)
    {n : Option Word} (hblock : nowait = false → g.dmCmds.dynpar = n.getD 0 ∧ Prepared B x g.dmCmds) :
    Live B n g.thrdOffset
      (send nowait (g.decision e x) (dmPrepThrStart B g.dmThrs (g.decision e x).tCmdThrd)
        (timed nowait (g.decision e x) g.dmCmds)) (.reqBeam nowait e x) := by
  cases hcmd : (g.decision e x).flagNoCmd with
  | true =>
    rw [send, if_pos hcmd]
    exact ⟨[], [], rfl, Or.inl rfl, Or.inl rfl, fun h => absurd rfl h⟩
  | false =>
    rw [send, if_neg (by simp [hcmd])]
    refine ⟨_, _, rfl, ?_, ?_, ?_⟩
    · by_cases hok : (g.decision e x).status = statusOk
      · rw [if_pos hok]
        obtain ⟨hinj, hstart⟩ := analyse_ok hok
        obtain ⟨hready, hawait⟩ := awaitInjection_ok hinj
        rw [hawait] at hstart
        obtain ⟨hahead, hthrd⟩ := hstart rfl
        have htime : (g.decision e x).tCmdThrd = x.ecaInjDeadline + g.thrdOffset.setWidth 64 := by
          rw [decision, hawait]
          exact hthrd
        rw [htime, hthr]
        exact Or.inr (dmStartThread_started hready hahead t)
      · rw [if_neg hok]
        exact Or.inl rfl
    · cases nowait with
      | true => exact Or.inl rfl
      | false =>
        obtain ⟨hdynpar, hprepared⟩ := hblock rfl
        have htimed : timed false (g.decision e x) g.dmCmds =
            dmSetTValidCmdCommon g.dmCmds ((g.decision e x).tCmdThrd - 1000000) := by
          rw [timed, if_neg (by simp [hcmd])]
        rw [htimed]
        refine Or.inr ⟨rfl, g.dmCmds.dynpar, ?_, dmChangeBlock_flushed hprepared⟩
        cases n with
        | none => exact absurd hdynpar hprepared.live
        | some a => rw [hdynpar, Option.getD_some]
    · rintro -
      obtain ⟨hintime, hexpected⟩ := analyse_flagNoCmd hcmd
      refine ⟨by simp [hlate], hintime, fun hun => ?_⟩
      rw [awaitInjection_unexpected hun] at hexpected
      cases hexpected

end Armed

/-! ### Every event -/

section Events

variable {B : Build} {g : Gateway}

theorem Gateway.transferIf_dmCmds {status bit : Word} :
    (g.transferIf status bit).dmCmds = g.dmCmds := by
  rw [transferIf]
  split
  · rfl
  · rfl

theorem Gateway.release_dmCmds {x : BeamMeets} {status : Word} {flagEbTimeout : Bool} :
    (g.release x status flagEbTimeout).gateway.dmCmds = g.dmCmds :=
  transferIf_dmCmds

theorem Gateway.armed_dynpar {nowait flagEbTimeout : Bool} {e : EcaEvent} {x : BeamMeets} :
    (g.armed B nowait e x flagEbTimeout).gateway.dmCmds.dynpar = g.dmCmds.dynpar := by
  rw [armed]
  dsimp only
  split
  · rfl
  · rw [release_dmCmds, timed]
    split
    · rfl
    · rfl

/-- A beam request leaves the block as it is named. -/
theorem Gateway.reqBeam_dynpar {nowait : Bool} {e : EcaEvent} {x : BeamMeets} :
    (g.reqBeam B nowait e x).gateway.dmCmds.dynpar = g.dmCmds.dynpar := by
  rw [reqBeam]
  split
  · rfl
  · split
    · rfl
    · cases nowait with
      | true =>
        rw [if_pos rfl, armed_dynpar]
        rfl
      | false =>
        dsimp only
        rw [if_neg Bool.false_ne_true]
        split
        · exact prepFlush_dynpar
        · rw [armed_dynpar]
          exact prepFlush_dynpar

theorem Gateway.run_dynpar {n : Option Word} (h : g.dmCmds.dynpar = n.getD 0)
    (evs : List (Word × Event)) :
    (g.run B evs).dmCmds.dynpar = (named n evs).getD 0 := by
  induction evs generalizing g n with
  | nil => exact h
  | cons ev evs ih =>
    obtain ⟨actStatus, ev⟩ := ev
    cases ev with
    | reqTk e x clear =>
      apply ih
      rw [event, reqTk]
      cases e.flagLate with
      | true => exact h
      | false => exact congrArg DmComm.dynpar transferIf_dmCmds
    | relTk e x clear => exact ih rfl
    | prepBeam e x =>
      apply ih
      rw [event, prepBeam]
      split
      · exact h
      · rw [transferIf_dmCmds]
        exact h
    | reqBeam nowait e x => exact ih (reqBeam_dynpar.trans h)
    | mbTrigger e => exact ih h
    | ready2Sis e => exact ih h
    | other syncState => exact ih h
    | cmdReleaseTk x => exact ih h
    | cmdReleaseBeam x unprepare => exact ih h
    | configure clear x thrdOffset regValue => exact ih h
    | exitOperation => exact ih h

theorem Gateway.reqBeam_live {n : Option Word} (h : g.dmCmds.dynpar = n.getD 0) {nowait : Bool}
    {e : EcaEvent} {x : BeamMeets} :
    Live B n g.thrdOffset (dmWrites (g.reqBeam B nowait e x).out) (.reqBeam nowait e x) := by
  have hnone : Live B n g.thrdOffset [] (.reqBeam nowait e x) :=
    ⟨[], [], rfl, Or.inl rfl, Or.inl rfl, fun h => absurd rfl h⟩
  rw [reqBeam]
  split
  · exact hnone
  · rename_i hlate
    split
    · exact hnone
    · cases nowait with
      | true =>
        rw [if_pos rfl]
        rcases armed_dmWrites B (g.openRequest true e) true e x false with hw | hw
        · rw [hw]
          exact hnone
        · rw [hw]
          exact send_live (g := g.openRequest true e) (by simpa using hlate) rfl (fun h => nomatch h)
      | false =>
        dsimp only
        rw [if_neg Bool.false_ne_true]
        split
        · exact hnone
        · rename_i hprep
          rcases armed_dmWrites B { g.openRequest false e with
              dmCmds := (prepFlush B x (g.openRequest false e).dmCmds).2.1 } false e x
              (prepFlush B x (g.openRequest false e).dmCmds).2.2 with hw | hw
          · rw [hw]
            exact hnone
          · rw [hw]
            exact send_live (g := { g.openRequest false e with
              dmCmds := (prepFlush B x (g.openRequest false e).dmCmds).2.1 }) (by simpa using hlate)
              rfl (fun _ => ⟨prepFlush_dynpar.trans h, prepFlush_prepared (not_not.mp hprep)⟩)

end Events

/-- In every run, whatever is written to the Data Master is for a live request. -/
theorem live_of_run (B : Build) (regValue : MilCtrl) (evs : List (Word × Event)) (actStatus : Word)
    (ev : Event) :
    Live B (named none evs) ((Gateway.boot regValue).run B evs).thrdOffset
      (dmWrites (((Gateway.boot regValue).run B evs).event B actStatus ev).out) ev := by
  have hblock : ((Gateway.boot regValue).run B evs).dmCmds.dynpar = (named none evs).getD 0 :=
    Gateway.run_dynpar rfl evs
  generalize (Gateway.boot regValue).run B evs = g at hblock ⊢
  cases ev with
  | reqBeam nowait e x => exact Gateway.reqBeam_live hblock
  | reqTk e x clear =>
    change dmWrites (g.reqTk e x clear).out = []
    rw [Gateway.reqTk]
    split
    · rfl
    · simp [dmWrites_append, requestTk, Request.run]
  | prepBeam e x =>
    change dmWrites (g.prepBeam e x).out = []
    rw [Gateway.prepBeam]
    split
    · rfl
    · exact dmWrites_writeToPzu _ _
  | relTk e x clear =>
    change dmWrites (g.relTk actStatus x clear).out = []
    simp [Gateway.relTk, releaseTk, writeOnly, dmWrites_append]
  | mbTrigger e => rfl
  | ready2Sis e => rfl
  | other syncState => rfl
  | cmdReleaseTk x => exact dmWrites_writeToPzu _ _
  | cmdReleaseBeam x unprepare =>
    change dmWrites (_ ++ _) = []
    simp [dmWrites_append, releaseBeam, unprepareBeam, writeOnly, Request.run]
  | configure clear x thrdOffset regValue =>
    change dmWrites (_ ++ _) = []
    simp [dmWrites_append]
  | exitOperation => rfl

end DmUnipz
