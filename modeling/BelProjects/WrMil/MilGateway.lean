import BelProjects.B2b.MiniFsm

/-!
# The MIL gateway

The gateway gets events of the Data Master from the ECA and hands MIL telegrams back to the ECA,
which sends them at their deadlines.  One event makes it send the time of day as five telegrams
more; when nothing happens for a long time it sends a fill event.
-/

namespace WrMil

open B2b (Word Long SysTime evtGid evtNo evtSid buildEvtidV1)

/-! ### Constants -/

def statusOk : Word := 0
def statusOutOfRange : Word := 3
def statusWrBadSync : Word := 8
def statusLateMessage : Word := 16
def statusBadSetting : Word := 17

def locMilSend : Word := 0xff0
def locMilRec : Word := 0xff1

def milSendLatency : Long := 23530
def milSendMinInterval : Long := 25000
def pretriggerDm : Long := 500000
def posttriggerTlu : Long := 20000
def resetInhibitCounter : Word := 10000

def evtUtc1 : Word := 0xe0
def evtUtc2 : Word := 0xe1
def evtUtc3 : Word := 0xe2
def evtUtc4 : Word := 0xe3
def evtUtc5 : Word := 0xe4
def evtFill : Word := 0xc7

/-! ### Settings, state and writes -/

/-- The set values, as they are taken over when the gateway gets ready for operation. -/
structure Settings where
  utcTrigger : Word
  /-- In microseconds; `int32_t`, as the next one. -/
  utcUtcDelay : Word
  trigUtcDelay : Word
  utcOffset : Long
  requestFillEvt : Word
  /-- In nanoseconds; `int32_t`. -/
  milLatency : Word
  milDomain : Word
  milMon : Word
  useBlackbox : Bool

structure Gateway where
  previousTime : Long
  inhibitFillEvents : Word

def Gateway.boot : Gateway := ⟨0, resetInhibitCounter⟩

/-- A write of `fwlib_ecaWriteTM` with `flagForceLate`, which leaves the deadline alone. -/
structure EcaWrite where
  deadline : Long
  evtId : Long
  param : Long
  deriving DecidableEq, Repr

def EcaWrite.IsTelegram (w : EcaWrite) : Prop := evtGid w.evtId = locMilSend

instance (w : EcaWrite) : Decidable w.IsTelegram := inferInstanceAs (Decidable (_ = _))

/-! ### Telegrams -/

def pzKennung (gid : Word) : Word :=
  if gid = 0x12c then 1
  else if gid = 0x154 then 2
  else if gid = 0x250 then 9
  else if gid = 0x251 then 10
  else if gid = 0x253 then 11
  else if gid = 0x270 then 12
  else if gid = 0x261 then 13
  else if gid = 0x280 then 14
  else if gid = 0x290 then 15
  else if gid = 0x1df then 15
  else 0

/-- `convert_WReventID_to_milTelegram` -/
def convertToMilTelegram (evtId : Long) : Word :=
  let evtCode := evtNo evtId &&& 0xff
  let statusBits := (evtId &&& 0xf).setWidth 32
  let virtAcc := ((evtId >>> 20) &&& 0xf).setWidth 32
  let tophalf : Word :=
    if 200 ≤ evtCode ∧ evtCode ≤ 208 then 0
    else if evtCode = 255 then pzKennung (evtGid evtId) <<< 4 ||| virtAcc
    else statusBits <<< 4 ||| virtAcc
  tophalf <<< 8 ||| evtCode

/-- `make_mil_timestamp`. The bytes are those of a machine with the high byte first. -/
def makeMilTimestamp (tai utcOffsetMs : Long) : List Word :=
  let milTimestampMs := tai / 1000000 - utcOffsetMs
  let milMs : Word := (milTimestampMs % 1000).setWidth 32
  let milSec : Word := (milTimestampMs / 1000).setWidth 32
  let timeS := milSec &&& 0x3fffffff
  let timeMs := (milMs &&& 0x3ff) <<< 6
  let byte (w : Word) (i : Nat) : Word := w >>> (24 - 8 * i) &&& 0xff
  [byte timeMs 2 * 256 + evtUtc1, (byte timeMs 3 ||| byte timeS 0) * 256 + evtUtc2,
    byte timeS 1 * 256 + evtUtc3, byte timeS 2 * 256 + evtUtc4, byte timeS 3 * 256 + evtUtc5]

variable (S : Settings)

/-- The event ID that `prepMilTelegramEca` makes. -/
def sendEvtId (evtId : Long) : Long :=
  (evtId &&& 0xf000ffffffffffff) ||| locMilSend.setWidth 64 <<< 48

/-- `prepMilTelegramEca`, and the write of the telegram. -/
def ecaTelegram (deadline : Long) (milTelegram : Word) (evtId : Long) : EcaWrite where
  deadline := deadline
  evtId := evtId
  param := S.milDomain.setWidth 64 <<< 32 |||
    if S.useBlackbox then milTelegram.setWidth 64 <<< 16 else milTelegram.setWidth 64

/-- A delay in microseconds, `int32_t`, in nanoseconds. -/
def delayNs (delay : Word) : Long := delay.signExtend 64 * 1000

/-- The telegrams with the time of day, from the `i`-th on. -/
def utcTelegrams (i : Nat) (deadline evtId : Long) : List Word → List EcaWrite
  | [] => []
  | evtUtc :: evtUtcs =>
      let deadline := deadline + delayNs S.utcUtcDelay
      let evtId := (sendEvtId evtId &&& 0xffff000fffffffff) ||| BitVec.ofNat 64 (0x0e0 + i) <<< 36
      ecaTelegram S deadline evtUtc evtId :: utcTelegrams (i + 1) deadline evtId evtUtcs

/-! ### Actions of the ECA -/

/-- What a call meets: the readings of the clock, and whether White Rabbit is in sync. -/
structure Meets where
  lateTime : SysTime
  written : SysTime
  fillTime : SysTime
  wrSync : Bool

structure MilEvent where
  data : Word
  code : Word
  virtAcc : Word

inductive Event where
  | milEvt (recDeadline recEvtId : Long) (flagIsLate : Bool) (x : Meets)
  | milTlu (recDeadline : Long) (flagIsLate : Bool) (milEvent : Option MilEvent) (x : Meets)
  /-- A timeout, or an action that is not known. -/
  | other (x : Meets)

/-- A call: its status, the gateway and what it has written. -/
structure Result where
  status : Word
  gateway : Gateway
  out : List EcaWrite

/-- The deadline of a converted event before the burst protection. -/
def due (recDeadline : Long) (flagIsLate : Bool) (x : Meets) : Long :=
  (if flagIsLate then x.lateTime.ns else recDeadline) + pretriggerDm + S.milLatency.signExtend 64 -
    milSendLatency

def Gateway.protect (g : Gateway) (sendDeadline : Long) : Long :=
  if sendDeadline < g.previousTime + milSendMinInterval then g.previousTime + milSendMinInterval
  else sendDeadline

def converted (recEvtId sendDeadline : Long) : List EcaWrite :=
  ecaTelegram S sendDeadline (convertToMilTelegram recEvtId) (sendEvtId recEvtId) ::
    if evtNo recEvtId = S.utcTrigger then
      utcTelegrams S 0 (sendDeadline + delayNs S.trigUtcDelay) (sendEvtId recEvtId)
        (makeMilTimestamp sendDeadline S.utcOffset)
    else []

def monitored (recDeadline : Long) : Option MilEvent → List EcaWrite
  | none => []
  | some m =>
      if S.milMon = 2 then
        [⟨recDeadline - posttriggerTlu + 1000000,
          buildEvtidV1 locMilRec m.code 0 m.virtAcc 0 m.data, S.milDomain.setWidth 64 <<< 32⟩]
      else []

/-- Fill events, when nothing has been sent for a long time. -/
def Gateway.fill (g : Gateway) (fillTime : SysTime) : Gateway × List EcaWrite :=
  if S.requestFillEvt = 0 then (g, [])
  else
    let inhibitFillEvents := g.inhibitFillEvents - 1
    if inhibitFillEvents = 0 then
      let evtId := buildEvtidV1 S.milDomain evtFill 0 0 0 0
      ({ g with inhibitFillEvents := resetInhibitCounter },
        [ecaTelegram S (fillTime.ns + milSendMinInterval) (convertToMilTelegram evtId)
          (sendEvtId evtId)])
    else ({ g with inhibitFillEvents }, [])

/-- The end of a call: fill events and the status. -/
def Gateway.conclude (g : Gateway) (actStatus : Word) (flagIsLate : Bool) (x : Meets)
    (out : List EcaWrite) : Result :=
  let (g, filled) := g.fill S x.fillTime
  let status := if actStatus = statusOk ∧ flagIsLate then statusLateMessage else actStatus
  ⟨if x.wrSync then status else statusWrBadSync, g, out ++ filled⟩

/-- `doActionOperation` -/
def Gateway.event (g : Gateway) (actStatus : Word) : Event → Result
  | .milEvt recDeadline recEvtId flagIsLate x =>
      if evtGid recEvtId ≠ S.milDomain then ⟨statusBadSetting, g, []⟩
      else if 15 < evtSid recEvtId then ⟨statusOutOfRange, g, []⟩
      else
        let sendDeadline := g.protect (due S recDeadline flagIsLate x)
        let g : Gateway := ⟨sendDeadline, resetInhibitCounter⟩
        g.conclude S actStatus (sendDeadline < x.written.ns + 20000) x
          (converted S recEvtId sendDeadline)
  | .milTlu recDeadline flagIsLate milEvent x =>
      g.conclude S actStatus flagIsLate x (monitored S recDeadline milEvent)
  | .other x => g.conclude S actStatus false x []

end WrMil
