import BelProjects.WrUnipz.Tables

/-!
# The firmware in state 'op ready'

The Superpulszentrale announces what each Pulszentrale plays in the next cycle, and starts the
cycle with the 50 Hz event. The early events of a table are sent at the announcement, with the
predicted start of the cycle, and the others at its start.
-/

namespace WrUnipz

def noVacc : Word := 0xffffffff

def unilacPeriodMax : Long := 20200000
def unilacPeriodMin : Long := 19800000
def matchWindow : Long := 200000
def lateLimit : Long := 250000
def tDiffMil : Word := 45
def qqOffset : Word := 250
def a4Offset : Word := 250
def noBeamOffset : Word := 1320

def evtPz1 : Nat := 0x1
def evtPz7 : Nat := 0x7
def evtSynchData : Nat := 0x20
def evt50HzSynch : Nat := 0x21
def evtNoBeam : Nat := 0x89

def evtDataChannel : Word := 0x1
def evtDataNoChop : Word := 0x2
def evtDataService : Word := 0x8
def evtDataUnlockA4 : Word := 0xc
def evtDataPrepAccNow : Word := 0xd
def evtDataPrepAcc : Word := 0xe
def evtDataZeroAcc : Word := 0xf

def evtAuxPrpNxtAcc : Word := 0x11
def evtUnlockAlvarez : Word := 0x15
def evtMagnDown : Word := 0x19
def evtNoBeamSent : Word := 0x89

def cmdConfSubmit : Word := 12
def cmdConfClear : Word := 14

structure Firmware where
  bigData : BigData
  actVacc : Fin nPz → Word
  actChan : Fin nPz → Word
  nextVacc : Fin nPz → Word
  nextChan : Fin nPz → Word
  nextChopNo : Fin nPz → Word
  nextChopShort : Fin nPz → Word
  syncPrevT0 : Long
  syncPrevT1 : Long
  syncPrevT2 : Long
  syncPrevT3 : Long
  syncPrevT4 : Long
  flagClearAllPZ : Bool

/-- An event from the MIL bus, with what the firmware reads while it handles it. -/
structure MilEvent where
  evtCode : BitVec 8
  virtAcc : BitVec 4
  evtData : BitVec 4
  tMil : Long
  /-- The timestamp from the TLU, unless there is none in time. -/
  recDeadline : Option Long
  /-- The system time, for each service message. -/
  sysTime : Fin nPz → Long
  shared : Shared

/-- One round of the main loop, first its command and then an event. -/
inductive Input where
  | cmd (cmd : Word) (shared : Shared)
  | mil (e : MilEvent)

/-- A message from an event table, or a service message. -/
inductive Sent where
  | vacc (pz : Fin nPz) (m : Message)
  | service (pz : Fin nPz) (m : Message)

def Firmware.predictNxtCycle (s : Firmware) : Long :=
  let predictLen := (s.syncPrevT4 - s.syncPrevT0) >>> 2
  let predictT4 := s.syncPrevT4 + 1 * predictLen
  let predictT3 := s.syncPrevT3 + 2 * predictLen
  let predictT2 := s.syncPrevT2 + 3 * predictLen
  let predictT1 := s.syncPrevT1 + 4 * predictLen
  let predictT := (predictT4 >>> 2) + (predictT3 >>> 2) + (predictT2 >>> 2) + (predictT1 >>> 2)
  let predictT := if unilacPeriodMax < predictT - s.syncPrevT4 then s.syncPrevT4 + unilacPeriodMax else predictT
  if predictT - s.syncPrevT4 < unilacPeriodMin then s.syncPrevT4 + unilacPeriodMin else predictT

/-- Which table of a Pulszentrale: `chan * WRUNIPZ_NVACC + vacc`. -/
def tableIdx (chan vacc : Word) : Nat := (chan * 16 + vacc).toNat

/-- The measured start of a cycle, from the TLU if its timestamp is reasonable. -/
def MilEvent.deadline (e : MilEvent) : Long :=
  let deadline := e.recDeadline.getD e.tMil
  let deadline := if e.tMil < deadline then e.tMil else deadline
  if matchWindow < e.tMil - deadline then e.tMil else deadline

/-- The tables of the announced virtual accelerators, one Pulszentrale after the other. -/
def Firmware.playAnnounced (s : Firmware) (deadline : Long) : List Sent :=
  (List.finRange nPz).flatMap fun i =>
    if s.nextVacc i ≠ noVacc then
      (pzRunVacc (s.bigData i (tableIdx (s.nextChan i) (s.nextVacc i))) deadline i (s.nextVacc i)
        (s.nextChopNo i) (s.nextChopShort i) false).map (Sent.vacc i)
    else []

/-- `WRUNIPZ_EVT_50HZ_SYNCH` -/
def Firmware.sync (s : Firmware) (e : MilEvent) : Firmware × List Sent :=
  ({ s with
      actVacc := fun i => if s.nextVacc i ≠ noVacc then s.nextVacc i else s.actVacc i
      actChan := fun i => if s.nextVacc i ≠ noVacc then s.nextChan i else s.actChan i
      syncPrevT0 := s.syncPrevT1
      syncPrevT1 := s.syncPrevT2
      syncPrevT2 := s.syncPrevT3
      syncPrevT3 := s.syncPrevT4
      syncPrevT4 := e.deadline
      bigData := if s.flagClearAllPZ then clearBigData s.bigData else s.bigData
      flagClearAllPZ := false
      nextVacc := fun _ => noVacc },
    s.playAnnounced e.deadline)

def setAt (f : Fin nPz → Word) (i : Fin nPz) (w : Word) : Fin nPz → Word := fun j => if j = i then w else f j

/-- `WRUNIPZ_EVT_PZ1 ... WRUNIPZ_EVT_PZ7`, case A: an announcement -/
def Firmware.announce (s : Firmware) (e : MilEvent) (ipz : Fin nPz) : Firmware × List Sent :=
  let evtData := e.evtData.setWidth 32
  let chan : Word := if evtData &&& evtDataChannel ≠ 0 then 1 else 0
  let vacc := e.virtAcc.setWidth 32
  let chopNo : Word := if evtData &&& evtDataNoChop ≠ 0 then 1 else 0
  ({ s with
      nextChan := setAt s.nextChan ipz chan
      nextChopNo := setAt s.nextChopNo ipz chopNo
      nextVacc := setAt s.nextVacc ipz vacc
      nextChopShort := setAt s.nextChopShort ipz chan },
    (pzRunVacc (s.bigData ipz (tableIdx chan vacc)) s.predictNxtCycle ipz vacc chopNo chan true).map
      (Sent.vacc ipz))

def Firmware.service (s : Firmware) (e : MilEvent) (ipz : Fin nPz) : List Sent :=
  let evtData := e.evtData.setWidth 32
  let virtAcc := e.virtAcc.setWidth 32
  let now := e.sysTime ipz
  let servOffs := (getVaccLen (s.bigData ipz (tableIdx (s.actChan ipz) (s.actVacc ipz))) &&& 0xffff) + tDiffMil
  let tmpOffs := ((now - s.syncPrevT4 + lateLimit) / 1000).setWidth 32
  let servOffs := if servOffs < tmpOffs then tmpOffs else servOffs
  let servEvt (evt offs : Word) := evt ||| ((virtAcc &&& 0xf) <<< 8) ||| ((offs &&& 0xffff) <<< 16)
  let send (evt offs : Word) (tStart : Long) := Sent.service ipz (writeTM (servEvt evt offs) tStart ipz virtAcc 0 0)
  (if evtData = evtDataPrepAcc then [send evtAuxPrpNxtAcc servOffs s.syncPrevT4] else []) ++
  (if evtData = evtDataZeroAcc then [send evtMagnDown servOffs s.syncPrevT4] else []) ++
  (if evtData = evtDataPrepAccNow then [send evtAuxPrpNxtAcc qqOffset now] else []) ++
  (if evtData = evtDataUnlockA4 then [send evtUnlockAlvarez a4Offset now] else [])

def Firmware.noBeam (s : Firmware) (e : MilEvent) : List Sent :=
  let virtAcc := e.virtAcc.setWidth 32
  (List.finRange nPz).flatMap fun i =>
    if s.actVacc i = virtAcc then
      [Sent.service i (writeTM (evtNoBeamSent ||| ((virtAcc &&& 0xf) <<< 8) ||| (noBeamOffset <<< 16))
        (e.sysTime i) i virtAcc 0 0)]
    else []

/-- `doActionOperation`, from the MIL event on -/
def Firmware.doActionOperation (s : Firmware) (e : MilEvent) : Firmware × List Sent :=
  if e.evtCode.toNat = evt50HzSynch then s.sync e
  else if evtPz1 ≤ e.evtCode.toNat ∧ e.evtCode.toNat ≤ evtPz7 then
    let ipz : Fin nPz := Fin.ofNat nPz (e.evtCode.toNat - 1)
    if e.evtData.setWidth 32 &&& evtDataService = 0 then s.announce e ipz else (s, s.service e ipz)
  else if e.evtCode.toNat = evtNoBeam then (s, s.noBeam e)
  else if e.evtCode.toNat = evtSynchData then ({ s with bigData := configTransactSubmit e.shared s.bigData }, [])
  else (s, [])

def Firmware.cmdHandler (s : Firmware) (cmd : Word) (m : Shared) : Firmware :=
  if cmd = cmdConfSubmit then { s with bigData := configTransactSubmit m s.bigData }
  else if cmd = cmdConfClear then { s with flagClearAllPZ := true }
  else s

def Firmware.step (s : Firmware) : Input → Firmware × List Sent
  | .cmd cmd m => (s.cmdHandler cmd m, [])
  | .mil e => s.doActionOperation e

def Firmware.entryActionOperation (s : Firmware) : Firmware :=
  { s with
    bigData := clearBigData s.bigData
    flagClearAllPZ := false
    nextVacc := fun _ => noVacc
    actVacc := fun _ => noVacc }

end WrUnipz
