import BelProjects.B2b.MiniFsm
import Mathlib.Data.Fin.Basic

/-!
# The 50 Hz regulation

The regulation gets the start of each cycle of the Data Master and each cycle of the mains.  It
keeps the last time stamps of both, predicts the next cycle of the mains, and tells the Data
Master how long its next cycle has to be.
-/

namespace WrF50

open B2b (Word Long SysTime TimingMsg evtGid buildEvtidV1 ebmWriteTM)

/-! ### Constants -/

def statusOk : Word := 0
def statusWrBadSync : Word := 8
def statusLateMessage : Word := 16
def statusBadSetting : Word := 17

def pzuF50 : Word := 0x4c0
def ecaDoF50Dm : Word := 0xfc0
def ecaDoF50Tune : Word := 0xfc1

inductive LockState where
  | unkwn | unlocked | locking | locked
  deriving DecidableEq, Repr

def maskLockSim : Word := 0x2
def maskLockDm : Word := 0x4

def posttriggerTlu : Long := 500000
def cycleLenMin : Long := 19800000
def cycleLenMax : Long := 20400000
def tuneMsgDelay : Long := 1000000
def lockDiffDtDm : Word := 6000
def lockDiffDm : Word := 50000

abbrev nStamps : Nat := 21
scoped instance : NeZero nStamps := ⟨by decide⟩

/-! ### Time stamps -/

/-- Time stamps, the most recent one last. -/
abbrev Stamps := Fin nStamps → Long

def shiftStamps (newStamp : Long) (stamps : Stamps) : Stamps := fun i =>
  if h : i.1 + 1 < nStamps then stamps ⟨i.1 + 1, h⟩ else newStamp

def cyclen (stamps : Stamps) : Long :=
  (List.finRange (nStamps - 1)).foldl (fun c i => c + stamps i.succ - stamps i.castSucc) 0 /
    BitVec.ofNat 64 (nStamps - 1)

/-- The check of the limits in `updateStamps`. -/
def InLimits (stamps : Stamps) : Prop :=
  cyclen stamps ≤ cycleLenMax ∧ cycleLenMin ≤ cyclen stamps

instance (stamps : Stamps) : Decidable (InLimits stamps) := inferInstanceAs (Decidable (_ ∧ _))

def updateStamps (newStamp : Long) (stamps : Stamps) : Stamps × Bool :=
  let stamps := shiftStamps newStamp stamps
  let flagValid := decide (InLimits stamps)
  -- the flag is set once more, whatever the check has found
  let flagValid := flagValid || true
  (stamps, flagValid)

def total (f : Fin nStamps → Long) : Long :=
  (List.finRange nStamps).foldl (fun sum i => sum + f i) 0

def hardLimits (nxtStamp actStamp : Long) : Long :=
  let nxtStamp := if nxtStamp - actStamp < cycleLenMin then actStamp + cycleLenMin else nxtStamp
  if cycleLenMax < nxtStamp - actStamp then actStamp + cycleLenMax else nxtStamp

/-- `nextStamp`: the predicted stamps of the next two cycles, by linear regression. -/
def nextStamp (stamps : Stamps) : Long × Long :=
  let x0 := stamps 0 - 1000000
  let n := BitVec.ofNat 64 nStamps
  let x (i : Fin nStamps) := BitVec.ofNat 64 i.1
  let xMean := (total x).sdiv n
  let yMean := (total fun i => stamps i - x0).sdiv n
  let num := (total fun i => x i * (stamps i - x0)) - n * xMean * yMean
  let denom := (total fun i => x i * x i) - n * xMean * xMean
  let b := num.sdiv denom
  let a := yMean - b * xMean
  let t1 := hardLimits (x0 + a + b * n) (stamps (Fin.last _))
  (t1, hardLimits (x0 + a + b * (n + 1)) t1)

/-! ### State and actions -/

/-- What the regulation keeps, without diagnostics. -/
structure F50 where
  setF50Offset : Word
  setMode : Word
  stampsF50 : Stamps
  stampsDm : Stamps
  t0F50 : Long
  t1F50 : Long
  t2F50 : Long
  t0Dm : Long
  t1Dm : Long
  validF50 : Bool
  validDm : Bool
  getTDmAct : Word
  getTDmSet : Word
  /-- `int32_t`, as the next one. -/
  getOffsDmAct : Word
  getDtDmAct : Word
  getLockState : LockState
  getLockDate : Long
  getNLocked : Word
  getNCycles : Word
  getNSent : Word

/-- Timing messages, to the own ECA and to the network. -/
inductive Output where
  | eca (m : TimingMsg)
  | network (m : TimingMsg)

/-- What a call meets: the readings of the clock when a message is written, and whether White
Rabbit is in sync. -/
structure Meets where
  checked : SysTime
  rescheduled : SysTime
  checked2 : SysTime
  rescheduled2 : SysTime
  wrSync : Bool

inductive Event where
  | f50Dm (recDeadline recEvtId : Long) (flagIsLate : Bool) (x : Meets)
  | f50Tlu (recDeadline recEvtId : Long) (flagIsLate : Bool) (x : Meets)
  /-- A timeout, or an action that is not known. -/
  | other (x : Meets)
  /-- The command that clears all diagnostics. -/
  | clearDiag

/-- A call: its status, the state and the messages. -/
structure Result where
  status : Word
  f50 : F50
  out : List Output

def F50.clearDiag (s : F50) : F50 :=
  { s with
    getTDmAct := 0
    getTDmSet := 0
    getOffsDmAct := 0
    getDtDmAct := 0
    getLockState := .unkwn
    getLockDate := 0
    getNLocked := 0
    getNCycles :=
      if BitVec.ofNat 32 nStamps < s.getNCycles then BitVec.ofNat 32 nStamps else s.getNCycles
    getNSent := 0 }

/-- `extern_entryActionOperation`, with the values of two registers. The time stamps stay. -/
def F50.enter (s : F50) (setF50Offset setMode : Word) : F50 :=
  { s.clearDiag with
    getNCycles := 0
    setF50Offset :=
      if cycleLenMin.setWidth 32 < setF50Offset then cycleLenMin.setWidth 32 else setF50Offset
    setMode
    t0F50 := 0
    t1F50 := 0
    t2F50 := 0
    t0Dm := 0
    t1Dm := 0
    validF50 := false
    validDm := false }

def conclude (s : F50) (actStatus : Word) (flagIsLate : Bool) (x : Meets) (out : List Output) :
    Result :=
  let status := if actStatus = statusOk ∧ flagIsLate then statusLateMessage else actStatus
  ⟨if x.wrSync then status else statusWrBadSync, s, out⟩

/-- The start of a cycle of the Data Master. -/
def F50.dmStamp (s : F50) (recDeadline : Long) : F50 :=
  let (stampsDm, validDm) := updateStamps recDeadline s.stampsDm
  let s := { s with stampsDm, validDm }
  if validDm then
    let t0Dm := stampsDm 20
    let getTDmAct := (t0Dm - stampsDm 19).setWidth 32
    let getTDmSet := if s.getTDmSet = 0 then getTDmAct else s.getTDmSet
    { s with
      t0Dm
      getTDmAct
      getTDmSet
      t1Dm := t0Dm + getTDmSet.setWidth 64
      getDtDmAct := (getTDmAct.setWidth 64 - (stampsDm 19 - stampsDm 18)).setWidth 32 }
  else s

/-- A cycle of the mains, up to the count of cycles. -/
def F50.mainsStamp (s : F50) (tluStamp : Long) : F50 :=
  let (stampsF50, validF50) := updateStamps tluStamp s.stampsF50
  let s := { s with stampsF50, validF50, getNCycles := s.getNCycles + 1 }
  if validF50 then
    { s with
      t0F50 := stampsF50 20
      getOffsDmAct := (s.t0Dm - stampsF50 20).setWidth 32 }
  else s

/-- Messages of the Data Master are missing in simulation. -/
def F50.simulate (s : F50) : F50 :=
  if s.setMode &&& maskLockSim ≠ 0 ∧ s.validDm = false then
    { s with t1Dm := s.t1F50, validDm := true }
  else s

/-- `abs` of an `int32_t` -/
def absInt (w : Word) : Word := if w.slt 0 then -w else w

def F50.setLock (s : F50) (tluStamp : Long) : F50 :=
  if (absInt s.getOffsDmAct).slt lockDiffDm ∧ (absInt s.getDtDmAct).slt lockDiffDtDm then
    let s :=
      if s.getLockState ≠ .locked then
        { s with getLockDate := tluStamp, getNLocked := s.getNLocked + 1 }
      else s
    { s with getLockState := .locked }
  else { s with getLockState := .locking }

/-- The next cycle of the Data Master, and the messages about it. -/
def F50.tune (s : F50) (tluStamp : Long) (x : Meets) : F50 × List Output :=
  let (t1F50, t2F50) := nextStamp s.stampsF50
  let getTDmSet := (t1F50 - s.t0Dm).setWidth 32 - s.setF50Offset
  let getTDmSet :=
    if getTDmSet < cycleLenMin.setWidth 32 then cycleLenMin.setWidth 32 else getTDmSet
  let getTDmSet :=
    if cycleLenMax.setWidth 32 < getTDmSet then cycleLenMax.setWidth 32 else getTDmSet
  let tdmExcess := getTDmSet - cycleLenMin.setWidth 32
  let evtId := buildEvtidV1 pzuF50 ecaDoF50Tune 0 0 0 0
  let param : Long := tdmExcess.setWidth 64
  let deadline := tluStamp + tuneMsgDelay
  ({ s with t1F50, t2F50, getTDmSet, getNSent := s.getNSent + 1 },
    [.eca (ebmWriteTM x.checked x.rescheduled deadline evtId param 0),
      if s.setMode &&& maskLockDm ≠ 0 then
        .network (ebmWriteTM x.checked2 x.rescheduled2 deadline evtId param 0)
      else
        .eca (ebmWriteTM x.checked2 x.rescheduled2 t1F50
          (buildEvtidV1 pzuF50 ecaDoF50Dm 0 0 0 0) 0 0)])

def F50.mains (s : F50) (tluStamp : Long) (x : Meets) : F50 × List Output :=
  let s := s.mainsStamp tluStamp
  if s.getNCycles < BitVec.ofNat 32 nStamps then ({ s with getLockState := .unkwn }, [])
  else
    let s := s.simulate
    if s.validDm ∧ s.validF50 then (s.setLock tluStamp).tune tluStamp x
    else ({ s with getLockState := .unkwn }, [])

/-- `doActionOperation`, and the command that clears diagnostics. -/
def F50.event (s : F50) (actStatus : Word) : Event → Result
  | .f50Dm recDeadline recEvtId flagIsLate x =>
      if evtGid recEvtId ≠ pzuF50 then ⟨statusBadSetting, s, []⟩
      else conclude (s.dmStamp recDeadline) actStatus flagIsLate x []
  | .f50Tlu recDeadline recEvtId flagIsLate x =>
      if evtGid recEvtId ≠ pzuF50 then ⟨statusBadSetting, s, []⟩
      else
        let (s, out) := s.mains (recDeadline - posttriggerTlu) x
        conclude s actStatus flagIsLate x out
  | .other x => conclude s actStatus false x []
  | .clearDiag => ⟨actStatus, s.clearDiag, []⟩

end WrF50
