import BelProjects.B2b.Network
import Mathlib.Data.List.Forall2

/-!
# The kicker diagnosis

The unit pairs trigger messages with the edges of the kicker monitor.  What it has received is
kept in static variables from one call to the next, so a trigger may wait for an edge, or an
edge for a trigger.  The diagnosis is complete if every trigger but the one that waits has its
answer: the delay of an edge within the window around the trigger, or the mark of a kicker that
was not seen.
-/

namespace B2b

open BitFields

/-! ### The unit -/

/-- The actions of the ECA that the unit knows; a timeout is one of the others. -/
inductive KdTag where
  | triggerExt | triggerInj | tluInput1 | tluInput2 | tluInput4 | other
  deriving DecidableEq, Repr

structure KdAction where
  tag : KdTag
  deadline : Long
  evtId : Long
  deriving DecidableEq, Repr

def preTriggerTr : Long := 20000

/-- `B2B_ACCEPTKMON * 1000` -/
def acceptKMon : Word := 10000000

/-- `abs` of a difference of times, which is cut to an `int`. -/
def absInt (d : Long) : Word :=
  let x : Word := d.setWidth 32
  if x.slt 0 then -x else x

structure KickUnit where
  recGid : Word
  recSid : Word
  recBpid : Word
  tKickTrig : Long
  tKickMon : Long
  tKickProbe : Long
  flagsError : Word
  flagRecTrig : Bool
  flagRecMon : Bool
  flagRecProbe : Bool
  flagIsExt : Bool
  deriving DecidableEq, Repr

def KickUnit.boot : KickUnit where
  recGid := 0
  recSid := 0
  recBpid := 0
  tKickTrig := 0
  tKickMon := 0
  tKickProbe := 0
  flagsError := 0
  flagRecTrig := false
  flagRecMon := false
  flagRecProbe := false
  flagIsExt := false

/-- What a call of `doActionOperation` gets: its action, the one that the wait for the probe
would get after it, and the readings of the clock. -/
structure KdCall where
  act : KdAction
  next : KdAction
  trigCheck : Long
  monCheck : Long
  sysTime : SysTime
  checked : SysTime
  rescheduled : SysTime

def KickUnit.collect (u : KickUnit) (c : KdCall) : KickUnit :=
  match c.act.tag with
  | .triggerExt | .triggerInj =>
      { u with
        flagIsExt := c.act.tag = .triggerExt
        recGid := evtGid c.act.evtId
        recSid := evtSid c.act.evtId
        recBpid := evtBpid c.act.evtId
        tKickTrig := c.act.deadline + preTriggerTr
        flagsError := evtReserved c.act.evtId
        flagRecTrig := true }
  | .tluInput2 =>
      let u := { u with tKickMon := c.act.deadline, flagRecMon := true }
      if c.next.tag = .tluInput1 ∨ c.next.tag = .tluInput4 then
        { u with tKickProbe := c.next.deadline - preTriggerTr, flagRecProbe := true }
      else { u with flagRecProbe := false }
  | _ => u

/-- Trigger and monitor have both been received. -/
def KickUnit.pair (u : KickUnit) : KickUnit × Option (Long × Long) :=
  if u.flagRecTrig ∧ u.flagRecMon then
    let dKickMon := u.tKickMon - u.tKickTrig
    let dKickProbe := if u.flagRecProbe then u.tKickProbe - u.tKickTrig else delayInvalid
    ({ u with flagRecTrig := false, flagRecMon := false },
      if (absInt dKickMon).slt acceptKMon then some (dKickMon, dKickProbe) else none)
  else (u, none)

def KickUnit.errFlag (u : KickUnit) : Word := if u.flagIsExt then errFlagKdExt else errFlagKdInj

/-- A trigger without a monitor signal. -/
def KickUnit.giveUp (u : KickUnit) (c : KdCall) : KickUnit × Option (Long × Long) :=
  if u.flagRecTrig ∧ acceptKMon.slt (absInt (c.trigCheck - u.tKickTrig)) then
    ({ u with flagsError := u.flagsError ||| u.errFlag, flagRecTrig := false },
      some (delayInvalid, delayInvalid))
  else (u, none)

/-- A monitor signal without a trigger. -/
def KickUnit.drop (u : KickUnit) (c : KdCall) : KickUnit :=
  if u.flagRecMon ∧ acceptKMon.slt (absInt (c.monCheck - u.tKickMon)) then
    { u with flagRecMon := false }
  else u

def KickUnit.sendEvtNo (u : KickUnit) : Word :=
  if u.flagIsExt then ecaDiagKickExt else ecaDiagKickInj

def KickUnit.message (u : KickUnit) (c : KdCall) (delays : Long × Long) : TimingMsg :=
  let x : Sender :=
    { recGid := u.recGid
      recSid := u.recSid
      recBpid := u.recBpid
      flags := u.flagsError
      sysTime := c.sysTime
      checked := c.checked
      rescheduled := c.rescheduled }
  x.kick u.sendEvtNo u.tKickTrig delays.1 delays.2

/-- `doActionOperation` -/
def KickUnit.operate (u : KickUnit) (c : KdCall) : KickUnit × Option TimingMsg :=
  let (u, paired) := (u.collect c).pair
  let (u, missing) := u.giveUp c
  let u := u.drop c
  (u, (missing <|> paired).map (u.message c))

/-! ### Runs -/

namespace KdAction

def IsTrigger (a : KdAction) : Prop := a.tag = .triggerExt ∨ a.tag = .triggerInj

instance : DecidablePred IsTrigger := fun _ => inferInstanceAs (Decidable (_ ∨ _))

def IsMonitor (a : KdAction) : Prop := a.tag = .tluInput2

instance : DecidablePred IsMonitor := fun a => inferInstanceAs (Decidable (a.tag = _))

/-- The time of the trigger, ahead of which the ECA delivers the message. -/
def time (a : KdAction) : Long := a.deadline + preTriggerTr

def answerNo (a : KdAction) : Word :=
  if a.tag = .triggerExt then ecaDiagKickExt else ecaDiagKickInj

def errFlag (a : KdAction) : Word := if a.tag = .triggerExt then errFlagKdExt else errFlagKdInj

end KdAction

def KdCall.received (c : KdCall) : List KdAction :=
  if c.act.IsMonitor then [c.act, c.next] else [c.act]

def KdCall.triggers (c : KdCall) : List KdAction := c.received.filter fun a => a.IsTrigger

def KdCall.edges (c : KdCall) : List Long :=
  (c.received.filter fun a => a.IsMonitor).map KdAction.deadline

/-- The unit with all triggers and monitor edges that were received, the messages that were
sent, and the last time at which it looked for a missing edge. -/
structure KdHistory where
  unit : KickUnit
  trigs : List KdAction
  edges : List Long
  answers : List TimingMsg
  clock : Long

namespace KdHistory

def boot : KdHistory := ⟨.boot, [], [], [], 0⟩

def call (h : KdHistory) (c : KdCall) : KdHistory where
  unit := (h.unit.operate c).1
  trigs := h.trigs ++ c.triggers
  edges := h.edges ++ c.edges
  answers := h.answers ++ (h.unit.operate c).2.toList
  clock := c.trigCheck

def run (h : KdHistory) (calls : List KdCall) : KdHistory := calls.foldl call h

end KdHistory

/-- The times are less than `B2B_ACCEPTKMON` apart. -/
def Near (mon trig : Long) : Prop :=
  ((mon.toNat : Int) - trig.toNat).natAbs < acceptKMon.toNat

instance (mon trig : Long) : Decidable (Near mon trig) := inferInstanceAs (Decidable (_ < _))

/-- Triggers more than twice `B2B_ACCEPTKMON` apart. -/
def KdAction.Apart (a b : KdAction) : Prop :=
  2 * acceptKMon.toNat < ((a.time.toNat : Int) - b.time.toNat).natAbs

instance (a b : KdAction) : Decidable (a.Apart b) := inferInstanceAs (Decidable (_ < _))

/-- An edge has been received within the window around a time. -/
def Seen (edges : List Long) (trig : Long) : Prop := ∃ mon ∈ edges, Near mon trig

instance (edges : List Long) (trig : Long) : Decidable (Seen edges trig) :=
  List.decidableBEx _ edges

def TimingMsg.dKickMon (m : TimingMsg) : Word := (m.param >>> 32).setWidth 32

structure KdAction.Answers (edges : List Long) (a : KdAction) (m : TimingMsg) : Prop where
  gid : evtGid m.evtId = evtGid a.evtId
  sid : evtSid m.evtId = evtSid a.evtId
  bpid : evtBpid m.evtId = evtBpid a.evtId
  evtNo : evtNo m.evtId = a.answerNo
  seen : Seen edges a.time → evtReserved m.evtId = evtReserved a.evtId ∧
    ∃ mon ∈ edges, Near mon a.time ∧ m.dKickMon = (mon - a.time).setWidth 32
  missed : ¬ Seen edges a.time → evtReserved m.evtId = evtReserved a.evtId ||| a.errFlag ∧
    m.dKickMon = delayInvalid.setWidth 32

def KdHistory.served (h : KdHistory) : List KdAction :=
  if h.unit.flagRecTrig then h.trigs.dropLast else h.trigs

/-- Every trigger that does not wait has exactly one answer, in the order in which they were
received, there is no other message, and no trigger waits beyond its window. -/
structure KdHistory.Complete (h : KdHistory) : Prop where
  answers : List.Forall₂ (KdAction.Answers h.edges) h.served h.answers
  timely : h.unit.flagRecTrig → ∀ a ∈ h.trigs.getLast?,
    h.clock.toNat ≤ a.time.toNat + acceptKMon.toNat

/-! ### Regular calls -/

/-- The time of a trigger that the call leaves without an edge. -/
def KdHistory.waiting (h : KdHistory) (c : KdCall) : Option Long :=
  if c.act.IsTrigger then if h.unit.flagRecMon then none else some c.act.time
  else if c.act.IsMonitor then none
  else if h.unit.flagRecTrig then some h.unit.tKickTrig
  else none

/-- Nothing gets in the way of a trigger. -/
structure KdHistory.Regular (h : KdHistory) (c : KdCall) : Prop where
  /-- A trigger overwrites none that waits. -/
  free : c.act.IsTrigger → h.unit.flagRecTrig = false
  /-- A trigger finds no edge but its own. -/
  edge : c.act.IsTrigger → h.unit.flagRecMon → Near h.unit.tKickMon c.act.time
  /-- A trigger that waits finds no edge but its own. -/
  own : c.act.IsMonitor → h.unit.flagRecTrig → Near c.act.deadline h.unit.tKickTrig
  /-- The wait for the probe swallows no trigger. -/
  probe : c.act.IsMonitor → ¬ c.next.IsTrigger
  /-- An edge comes before its trigger has been given up. -/
  prompt : ∀ mon ∈ c.edges, ∀ a ∈ h.trigs, Near mon a.time →
    (h.unit.flagRecTrig ∧ a.time = h.unit.tKickTrig) ∨ Seen h.edges a.time
  /-- No trigger is given up whose edge was lost. -/
  kept : ∀ t ∈ h.waiting c, acceptKMon.slt (absInt (c.trigCheck - t)) → ¬ Seen h.edges t
  /-- The end of the window is noticed. -/
  noticed : ∀ t ∈ h.waiting c, t.toNat + acceptKMon.toNat < c.trigCheck.toNat →
    acceptKMon.slt (absInt (c.trigCheck - t))

-- The quantifiers range over lists; over all words they would be decided as well.
instance (h : KdHistory) (c : KdCall) : Decidable (h.Regular c) :=
  letI : Decidable (∀ mon ∈ c.edges, ∀ a ∈ h.trigs, Near mon a.time →
      (h.unit.flagRecTrig ∧ a.time = h.unit.tKickTrig) ∨ Seen h.edges a.time) :=
    List.decidableBAll _ _
  letI : Decidable (∀ t ∈ h.waiting c,
      acceptKMon.slt (absInt (c.trigCheck - t)) → ¬ Seen h.edges t) :=
    Option.decidableForallMem _
  letI : Decidable (∀ t ∈ h.waiting c, t.toNat + acceptKMon.toNat < c.trigCheck.toNat →
      acceptKMon.slt (absInt (c.trigCheck - t))) :=
    Option.decidableForallMem _
  decidable_of_iff
    ((c.act.IsTrigger → h.unit.flagRecTrig = false) ∧
      (c.act.IsTrigger → h.unit.flagRecMon → Near h.unit.tKickMon c.act.time) ∧
      (c.act.IsMonitor → h.unit.flagRecTrig → Near c.act.deadline h.unit.tKickTrig) ∧
      (c.act.IsMonitor → ¬ c.next.IsTrigger) ∧
      (∀ mon ∈ c.edges, ∀ a ∈ h.trigs, Near mon a.time →
        (h.unit.flagRecTrig ∧ a.time = h.unit.tKickTrig) ∨ Seen h.edges a.time) ∧
      (∀ t ∈ h.waiting c, acceptKMon.slt (absInt (c.trigCheck - t)) → ¬ Seen h.edges t) ∧
      (∀ t ∈ h.waiting c, t.toNat + acceptKMon.toNat < c.trigCheck.toNat →
        acceptKMon.slt (absInt (c.trigCheck - t))))
    ⟨fun ⟨free, edge, own, probe, prompt, kept, noticed⟩ =>
      ⟨free, edge, own, probe, prompt, kept, noticed⟩,
      fun ⟨free, edge, own, probe, prompt, kept, noticed⟩ =>
        ⟨free, edge, own, probe, prompt, kept, noticed⟩⟩

def KdHistory.AllRegular (h : KdHistory) : List KdCall → Prop
  | [] => True
  | c :: calls => h.Regular c ∧ (h.call c).AllRegular calls

instance KdHistory.decidableAllRegular :
    (h : KdHistory) → (calls : List KdCall) → Decidable (h.AllRegular calls)
  | _, [] => .isTrue trivial
  | h, c :: calls =>
      letI := decidableAllRegular (h.call c) calls
      inferInstanceAs (Decidable (h.Regular c ∧ (h.call c).AllRegular calls))

/-! ### Fields of an event ID -/

theorem evtGid_masked (evtId : Long) :
    ((evtGid evtId).setWidth 12).setWidth 32 = evtGid evtId := by
  simp [evtGid]

theorem evtSid_masked (evtId : Long) :
    ((evtSid evtId).setWidth 12).setWidth 32 = evtSid evtId := by
  simp [evtSid]

theorem evtBpid_masked (evtId : Long) :
    ((evtBpid evtId).setWidth 14).setWidth 32 = evtBpid evtId := by
  simp [evtBpid]

theorem evtReserved_masked (evtId : Long) :
    ((evtReserved evtId).setWidth 6).setWidth 32 = evtReserved evtId := by
  simp [evtReserved]

theorem KdAction.answerNo_masked (a : KdAction) :
    (a.answerNo.setWidth 12).setWidth 32 = a.answerNo := by
  rw [answerNo]
  split <;> rfl

theorem KdAction.errFlag_masked (a : KdAction) :
    (a.errFlag.setWidth 6).setWidth 32 = a.errFlag := by
  rw [errFlag]
  split <;> rfl

/-! ### One call -/

theorem toInt_absInt_of_near {mon trig : Long} (h : Near mon trig) :
    (absInt (mon - trig)).toInt = ((mon.toNat : Int) - trig.toNat).natAbs := by
  have hwindow : acceptKMon.toNat = 10000000 := rfl
  have hmon := mon.isLt
  have htrig := trig.isLt
  rw [Near, hwindow] at h
  have hcut : ((mon - trig).setWidth 32 : Word).toInt = (mon.toNat : Int) - trig.toNat := by
    rw [BitVec.toInt_eq_toNat_cond, BitVec.toNat_setWidth, BitVec.toNat_sub]
    split <;> omega
  have hsign : ((mon - trig).setWidth 32 : Word).slt 0 ↔ (mon.toNat : Int) - trig.toNat < 0 := by
    rw [BitVec.slt_iff_toInt_lt, hcut]
    rfl
  rw [absInt]
  by_cases hneg : (mon.toNat : Int) - trig.toNat < 0
  · rw [if_pos (hsign.mpr hneg), BitVec.toInt_neg, hcut]
    rw [Int.bmod_eq_of_le (by omega) (by omega)]
    omega
  · rw [if_neg (fun h => hneg (hsign.mp h)), hcut]
    omega

/-- The coincidence test finds an edge within the window. -/
theorem Near.coincident {mon trig : Long} (h : Near mon trig) :
    (absInt (mon - trig)).slt acceptKMon := by
  have hwindow : acceptKMon.toInt = acceptKMon.toNat := by decide
  rw [BitVec.slt_iff_toInt_lt, toInt_absInt_of_near h, hwindow]
  exact Int.ofNat_lt.mpr h

namespace KickUnit

variable {u v : KickUnit} {c : KdCall}

/-- A trigger and its edge have been collected. -/
theorem operate_paired (hcol : u.collect c = v) (htrig : v.flagRecTrig) (hmon : v.flagRecMon)
    (hnear : Near v.tKickMon v.tKickTrig) :
    ∃ dKickProbe, u.operate c =
      ({ v with flagRecTrig := false, flagRecMon := false },
        some (v.message c (v.tKickMon - v.tKickTrig, dKickProbe))) := by
  refine ⟨if v.flagRecProbe then v.tKickProbe - v.tKickTrig else delayInvalid, ?_⟩
  rw [operate, hcol, pair, if_pos ⟨htrig, hmon⟩]
  dsimp only
  rw [if_pos hnear.coincident]
  rfl

/-- A trigger has been collected without an edge. -/
theorem operate_waiting (hcol : u.collect c = v) (htrig : v.flagRecTrig)
    (hmon : v.flagRecMon = false) :
    u.operate c =
      if acceptKMon.slt (absInt (c.trigCheck - v.tKickTrig)) then
        ({ v with flagsError := v.flagsError ||| v.errFlag, flagRecTrig := false },
          some ({ v with flagsError := v.flagsError ||| v.errFlag }.message c
            (delayInvalid, delayInvalid)))
      else (v, none) := by
  have hpair : ¬ (v.flagRecTrig ∧ v.flagRecMon) := by simp [hmon]
  rw [operate, hcol, pair, if_neg hpair]
  dsimp only
  rw [giveUp]
  by_cases hfar : acceptKMon.slt (absInt (c.trigCheck - v.tKickTrig))
  · rw [if_pos ⟨htrig, hfar⟩, if_pos hfar]
    simp [drop, hmon]
    rfl
  · rw [if_neg (fun h => hfar h.2), if_neg hfar]
    simp [drop, hmon]

theorem operate_alone (hcol : u.collect c = v) (htrig : v.flagRecTrig = false) :
    u.operate c = (v.drop c, none) := by
  rw [operate, hcol, pair, if_neg (by simp [htrig])]
  dsimp only
  rw [giveUp, if_neg (by simp [htrig])]
  rfl

theorem drop_flagRecTrig : (u.drop c).flagRecTrig = u.flagRecTrig := by
  rw [drop]
  split <;> rfl

theorem drop_tKickMon : (u.drop c).tKickMon = u.tKickMon := by
  rw [drop]
  split <;> rfl

theorem flagRecMon_of_drop (h : (u.drop c).flagRecMon) : u.flagRecMon := by
  rw [drop] at h
  split at h
  case isTrue hdrop => exact hdrop.1
  case isFalse => exact h

/-! ### What is collected -/

theorem collect_other (htrig : ¬ c.act.IsTrigger) (hmon : ¬ c.act.IsMonitor) :
    u.collect c = u := by
  rw [KdAction.IsTrigger] at htrig
  rw [KdAction.IsMonitor] at hmon
  rw [collect]
  cases htag : c.act.tag <;> simp_all

theorem collect_monitor (h : c.act.IsMonitor) :
    ∃ tKickProbe flagRecProbe, u.collect c =
      { u with
        tKickMon := c.act.deadline
        flagRecMon := true
        tKickProbe := tKickProbe
        flagRecProbe := flagRecProbe } := by
  rw [KdAction.IsMonitor] at h
  rw [collect, h]
  dsimp only
  split
  · exact ⟨_, _, rfl⟩
  · exact ⟨_, _, rfl⟩

/-- The unit has what a trigger message says. -/
structure Holds (u : KickUnit) (a : KdAction) : Prop where
  gid : u.recGid = evtGid a.evtId
  sid : u.recSid = evtSid a.evtId
  bpid : u.recBpid = evtBpid a.evtId
  time : u.tKickTrig = a.time
  errors : u.flagsError = evtReserved a.evtId
  direction : u.flagIsExt = decide (a.tag = .triggerExt)

theorem collect_trigger (h : c.act.IsTrigger) :
    (u.collect c).Holds c.act ∧ (u.collect c).flagRecTrig ∧
      (u.collect c).flagRecMon = u.flagRecMon ∧ (u.collect c).tKickMon = u.tKickMon := by
  rw [collect]
  rcases h with h | h
  · rw [h]
    exact ⟨⟨rfl, rfl, rfl, rfl, rfl, by simp [h]⟩, rfl, rfl, rfl⟩
  · rw [h]
    exact ⟨⟨rfl, rfl, rfl, rfl, rfl, by simp [h]⟩, rfl, rfl, rfl⟩

/-! ### The answer -/

theorem dKickMon_message (mon probe : Long) :
    (u.message c (mon, probe)).dKickMon = mon.setWidth 32 := by
  rw [TimingMsg.dKickMon, message, Sender.kick_param, kickParam_eq, append_ushiftRight]
  simp

theorem message_evtId (delays : Long × Long) :
    (u.message c delays).evtId =
      buildEvtidV1 u.recGid u.sendEvtNo 0 u.recSid u.recBpid u.flagsError := by
  rw [message, Sender.kick, ebmWriteTM_evtId]

theorem Holds.sendEvtNo {a : KdAction} (h : u.Holds a) : u.sendEvtNo = a.answerNo := by
  rw [KickUnit.sendEvtNo, h.direction, KdAction.answerNo]
  simp

theorem Holds.errFlag {a : KdAction} (h : u.Holds a) : u.errFlag = a.errFlag := by
  rw [KickUnit.errFlag, h.direction, KdAction.errFlag]
  simp

theorem Holds.answers_seen {a : KdAction} (h : u.Holds a) {edges : List Long}
    (hedge : u.tKickMon ∈ edges) (hnear : Near u.tKickMon u.tKickTrig) (dKickProbe : Long) :
    a.Answers edges (u.message c (u.tKickMon - u.tKickTrig, dKickProbe)) := by
  rw [h.time] at hnear ⊢
  constructor
  · rw [message_evtId, evtGid_build, h.gid, evtGid_masked]
  · rw [message_evtId, evtSid_build, h.sid, evtSid_masked]
  · rw [message_evtId, evtBpid_build, h.bpid, evtBpid_masked]
  · rw [message_evtId, evtNo_build, h.sendEvtNo, KdAction.answerNo_masked]
  · intro _
    refine ⟨?_, u.tKickMon, hedge, hnear, dKickMon_message _ _⟩
    rw [message_evtId, evtReserved_build, h.errors, evtReserved_masked]
  · intro hmissed
    exact absurd ⟨u.tKickMon, hedge, hnear⟩ hmissed

theorem Holds.answers_missed {a : KdAction} (h : u.Holds a) {edges : List Long}
    (hmissed : ¬ Seen edges a.time) :
    a.Answers edges ({ u with flagsError := u.flagsError ||| u.errFlag }.message c
      (delayInvalid, delayInvalid)) := by
  constructor
  · rw [message_evtId, evtGid_build, h.gid, evtGid_masked]
  · rw [message_evtId, evtSid_build, h.sid, evtSid_masked]
  · rw [message_evtId, evtBpid_build, h.bpid, evtBpid_masked]
  · have hno : KickUnit.sendEvtNo { u with flagsError := u.flagsError ||| u.errFlag } =
        a.answerNo := h.sendEvtNo
    rw [message_evtId, evtNo_build, hno, KdAction.answerNo_masked]
  · intro hseen
    exact absurd hseen hmissed
  · intro _
    refine ⟨?_, dKickMon_message _ _⟩
    rw [message_evtId, evtReserved_build]
    dsimp only
    rw [h.errors, h.errFlag, BitVec.setWidth_or, BitVec.setWidth_or, evtReserved_masked,
      KdAction.errFlag_masked]

end KickUnit

theorem KdAction.Answers.append {edges news : List Long} {a : KdAction} {m : TimingMsg}
    (h : a.Answers edges m) (hold : ∀ mon ∈ news, Near mon a.time → Seen edges a.time) :
    a.Answers (edges ++ news) m := by
  refine { h with seen := ?_, missed := ?_ }
  · rintro ⟨mon, hmem, hnear⟩
    have hseen : Seen edges a.time := by
      rcases List.mem_append.mp hmem with hmem | hmem
      · exact ⟨mon, hmem, hnear⟩
      · exact hold mon hmem hnear
    obtain ⟨herr, mon', hmem', hrest⟩ := h.seen hseen
    exact ⟨herr, mon', List.mem_append_left _ hmem', hrest⟩
  · intro hmissed
    apply h.missed
    rintro ⟨mon, hmem, hnear⟩
    exact hmissed ⟨mon, List.mem_append_left _ hmem, hnear⟩

theorem answers_append {edges news : List Long} {ts : List KdAction} {answers : List TimingMsg}
    (h : List.Forall₂ (KdAction.Answers edges) ts answers)
    (hold : ∀ a ∈ ts, ∀ mon ∈ news, Near mon a.time → Seen edges a.time) :
    List.Forall₂ (KdAction.Answers (edges ++ news)) ts answers := by
  have hboth := (List.forall₂_and_left ts answers).mpr ⟨hold, h⟩
  exact hboth.imp fun _ _ hm => hm.2.append hm.1

theorem KdAction.Apart.ne {a b : KdAction} (h : a.Apart b) : a.time ≠ b.time := by
  intro heq
  rw [Apart, heq] at h
  omega

/-! ### What a call receives -/

namespace KdCall

variable {c : KdCall}

theorem triggers_of_trigger (h : c.act.IsTrigger) : c.triggers = [c.act] := by
  have hmon : ¬ c.act.IsMonitor := by
    rw [KdAction.IsMonitor]
    rcases h with h | h <;> simp [h]
  simp [triggers, received, hmon, h]

theorem edges_of_trigger (h : c.act.IsTrigger) : c.edges = [] := by
  have hmon : ¬ c.act.IsMonitor := by
    rw [KdAction.IsMonitor]
    rcases h with h | h <;> simp [h]
  simp [edges, received, hmon]

theorem not_isTrigger_of_monitor (h : c.act.IsMonitor) : ¬ c.act.IsTrigger := by
  rw [KdAction.IsMonitor] at h
  simp [KdAction.IsTrigger, h]

theorem triggers_of_monitor (h : c.act.IsMonitor) (hnext : ¬ c.next.IsTrigger) :
    c.triggers = [] := by
  simp [triggers, received, h, hnext, not_isTrigger_of_monitor h]

theorem mem_edges_of_monitor (h : c.act.IsMonitor) : c.act.deadline ∈ c.edges := by
  simp only [edges, received, if_pos h]
  exact List.mem_map.mpr ⟨c.act, List.mem_filter.mpr ⟨List.mem_cons_self, by simp [h]⟩, rfl⟩

theorem received_other (htrig : ¬ c.act.IsTrigger) (hmon : ¬ c.act.IsMonitor) :
    c.triggers = [] ∧ c.edges = [] := by
  simp [triggers, edges, received, htrig, hmon]

end KdCall

/-! ### Runs of regular calls -/

namespace KdHistory

/-- What a run of regular calls keeps. -/
structure Inv (h : KdHistory) : Prop extends h.Complete where
  single : h.unit.flagRecTrig → h.unit.flagRecMon = false
  edge : h.unit.flagRecMon → h.unit.tKickMon ∈ h.edges
  holds : h.unit.flagRecTrig → ∃ ts a, h.trigs = ts ++ [a] ∧ h.unit.Holds a

variable {h : KdHistory} {c : KdCall} {v : KickUnit} {ts : List KdAction} {a : KdAction}

/-- A trigger meets its edge. -/
theorem Inv.of_paired (hcol : h.unit.collect c = v) (htrig : v.flagRecTrig) (hmon : v.flagRecMon)
    (hholds : v.Holds a) (hedge : v.tKickMon ∈ h.edges ++ c.edges)
    (hnear : Near v.tKickMon v.tKickTrig) (htrigs : h.trigs ++ c.triggers = ts ++ [a])
    (hanswers : List.Forall₂ (KdAction.Answers (h.edges ++ c.edges)) ts h.answers) :
    (h.call c).Inv := by
  obtain ⟨dKickProbe, hop⟩ := KickUnit.operate_paired hcol htrig hmon hnear
  have hunit : (h.call c).unit = { v with flagRecTrig := false, flagRecMon := false } := by
    rw [call, hop]
  have hfree : (h.call c).unit.flagRecTrig = false := by rw [hunit]
  have hserved : (h.call c).served = ts ++ [a] := by
    rw [served, hfree, ← htrigs]
    rfl
  refine ⟨⟨?_, ?_⟩, ?_, ?_, ?_⟩
  · rw [hserved]
    have hout : (h.call c).answers =
        h.answers ++ [v.message c (v.tKickMon - v.tKickTrig, dKickProbe)] := by
      rw [call, hop]
      rfl
    rw [hout]
    exact List.rel_append hanswers (.cons (hholds.answers_seen hedge hnear _) .nil)
  · simp [hfree]
  · simp [hfree]
  · simp [hunit]
  · simp [hfree]

theorem Inv.of_waiting (hcol : h.unit.collect c = v) (htrig : v.flagRecTrig)
    (hmon : v.flagRecMon = false) (hholds : v.Holds a)
    (htrigs : h.trigs ++ c.triggers = ts ++ [a])
    (hanswers : List.Forall₂ (KdAction.Answers (h.edges ++ c.edges)) ts h.answers)
    (hkept : acceptKMon.slt (absInt (c.trigCheck - a.time)) → ¬ Seen (h.edges ++ c.edges) a.time)
    (hnoticed : a.time.toNat + acceptKMon.toNat < c.trigCheck.toNat →
      acceptKMon.slt (absInt (c.trigCheck - a.time))) :
    (h.call c).Inv := by
  have hop := KickUnit.operate_waiting hcol htrig hmon
  rw [← hholds.time] at hnoticed
  by_cases hfar : acceptKMon.slt (absInt (c.trigCheck - v.tKickTrig))
  · rw [if_pos hfar] at hop
    rw [← hholds.time] at hkept
    have hmissed := hkept hfar
    rw [hholds.time] at hmissed
    have hunit : (h.call c).unit =
        { v with flagsError := v.flagsError ||| v.errFlag, flagRecTrig := false } := by
      rw [call, hop]
    have hfree : (h.call c).unit.flagRecTrig = false := by rw [hunit]
    have hserved : (h.call c).served = ts ++ [a] := by
      rw [served, hfree, ← htrigs]
      rfl
    refine ⟨⟨?_, ?_⟩, ?_, ?_, ?_⟩
    · have hout : (h.call c).answers = h.answers ++
          [{ v with flagsError := v.flagsError ||| v.errFlag }.message c
            (delayInvalid, delayInvalid)] := by
        rw [call, hop]
        rfl
      rw [hserved, hout]
      exact List.rel_append hanswers (.cons (hholds.answers_missed hmissed) .nil)
    · simp [hfree]
    · simp [hfree]
    · simp [hunit, hmon]
    · simp [hfree]
  · rw [if_neg hfar] at hop
    have hunit : (h.call c).unit = v := by rw [call, hop]
    have hlast : (h.call c).trigs = ts ++ [a] := htrigs
    refine ⟨⟨?_, ?_⟩, ?_, ?_, ?_⟩
    · have hserved : (h.call c).served = ts := by
        rw [served, hunit, if_pos htrig, hlast, List.dropLast_concat]
      have hout : (h.call c).answers = h.answers := by
        rw [call, hop]
        exact List.append_nil _
      rw [hserved, hout]
      exact hanswers
    · intro _ b hb
      rw [hlast, List.getLast?_concat] at hb
      obtain rfl := Option.mem_some_iff.mp hb
      rw [← hholds.time]
      exact Nat.le_of_not_lt fun hlate => hfar (hnoticed hlate)
    · intro _
      rw [hunit]
      exact hmon
    · simp [hunit, hmon]
    · intro _
      rw [hunit]
      exact ⟨ts, a, hlast, hholds⟩

theorem Inv.of_alone (hcol : h.unit.collect c = v) (htrig : v.flagRecTrig = false)
    (hedge : v.flagRecMon → v.tKickMon ∈ h.edges ++ c.edges)
    (hanswers : List.Forall₂ (KdAction.Answers (h.edges ++ c.edges)) (h.trigs ++ c.triggers)
      h.answers) :
    (h.call c).Inv := by
  have hop := KickUnit.operate_alone hcol htrig
  have hunit : (h.call c).unit = v.drop c := by rw [call, hop]
  have hfree : (h.call c).unit.flagRecTrig = false := by
    rw [hunit, KickUnit.drop_flagRecTrig, htrig]
  refine ⟨⟨?_, ?_⟩, ?_, ?_, ?_⟩
  · have hserved : (h.call c).served = h.trigs ++ c.triggers := by
      rw [served, hfree]
      rfl
    have hout : (h.call c).answers = h.answers := by
      rw [call, hop]
      exact List.append_nil _
    rw [hserved, hout]
    exact hanswers
  · simp [hfree]
  · simp [hfree]
  · intro hmon
    rw [hunit] at hmon ⊢
    rw [KickUnit.drop_tKickMon]
    exact hedge (KickUnit.flagRecMon_of_drop hmon)
  · simp [hfree]

theorem Inv.served_of_free (hfree : h.unit.flagRecTrig = false) : h.served = h.trigs := by
  rw [served, hfree]
  rfl

theorem waiting_trigger (htrig : c.act.IsTrigger) (hmon : h.unit.flagRecMon = false) :
    h.waiting c = some c.act.time := by
  rw [waiting, if_pos htrig, hmon]
  rfl

theorem waiting_other (htrig : ¬ c.act.IsTrigger) (hmon : ¬ c.act.IsMonitor)
    (hwaits : h.unit.flagRecTrig) : h.waiting c = some h.unit.tKickTrig := by
  rw [waiting, if_neg htrig, if_neg hmon, if_pos hwaits]

theorem Inv.trigger (hinv : h.Inv) (hreg : h.Regular c) (htrig : c.act.IsTrigger) :
    (h.call c).Inv := by
  obtain ⟨hholds, hwaits, hflag, htime⟩ := KickUnit.collect_trigger (u := h.unit) htrig
  have hanswers := hinv.answers
  rw [served_of_free (hreg.free htrig)] at hanswers
  have hedges : h.edges ++ c.edges = h.edges := by
    rw [KdCall.edges_of_trigger htrig, List.append_nil]
  have htrigs : h.trigs ++ c.triggers = h.trigs ++ [c.act] := by
    rw [KdCall.triggers_of_trigger htrig]
  by_cases hmon : h.unit.flagRecMon
  · have hnear := hreg.edge htrig hmon
    refine .of_paired rfl hwaits (hflag.trans hmon) hholds ?_ ?_ htrigs ?_
    · rw [htime, hedges]
      exact hinv.edge hmon
    · rw [htime, hholds.time]
      exact hnear
    · rw [hedges]
      exact hanswers
  · have hmon : h.unit.flagRecMon = false := Bool.eq_false_iff.mpr hmon
    have hat := waiting_trigger htrig hmon
    refine .of_waiting rfl hwaits (hflag.trans hmon) hholds htrigs ?_ ?_ (hreg.noticed _ hat)
    · rw [hedges]
      exact hanswers
    · rw [hedges]
      exact hreg.kept _ hat

theorem Inv.monitor (hinv : h.Inv) (hreg : h.Regular c) (hmon : c.act.IsMonitor)
    (hapart : h.trigs.Pairwise KdAction.Apart) : (h.call c).Inv := by
  obtain ⟨tKickProbe, flagRecProbe, hcol⟩ := KickUnit.collect_monitor (u := h.unit) hmon
  have hnone := KdCall.triggers_of_monitor hmon (hreg.probe hmon)
  have hmem : c.act.deadline ∈ h.edges ++ c.edges :=
    List.mem_append_right _ (KdCall.mem_edges_of_monitor hmon)
  by_cases hwaits : h.unit.flagRecTrig
  · obtain ⟨ts, a, htrigs, hholds⟩ := hinv.holds hwaits
    have hserved : h.served = ts := by
      rw [served, if_pos hwaits, htrigs, List.dropLast_concat]
    have hanswers := hinv.answers
    rw [hserved] at hanswers
    have hkept : h.trigs ++ c.triggers = ts ++ [a] := by
      rw [hnone, List.append_nil, htrigs]
    refine .of_paired hcol hwaits rfl ?_ hmem (hreg.own hmon hwaits) hkept ?_
    · exact ⟨hholds.gid, hholds.sid, hholds.bpid, hholds.time, hholds.errors, hholds.direction⟩
    · refine answers_append hanswers fun b hb mon hnew hnear => ?_
      rw [htrigs] at hapart
      have hne := ((List.pairwise_append.mp hapart).2.2 b hb a List.mem_cons_self).ne
      have hin : b ∈ h.trigs := by
        rw [htrigs]
        exact List.mem_append_left _ hb
      rcases hreg.prompt mon hnew b hin hnear with ⟨_, heq⟩ | hseen
      · exact absurd (heq.trans hholds.time) hne
      · exact hseen
  · have hfree : h.unit.flagRecTrig = false := Bool.eq_false_iff.mpr hwaits
    have hanswers := hinv.answers
    rw [served_of_free hfree] at hanswers
    refine .of_alone hcol hfree (fun _ => hmem) ?_
    rw [hnone, List.append_nil]
    refine answers_append hanswers fun b hb mon hnew hnear => ?_
    rcases hreg.prompt mon hnew b hb hnear with ⟨hwaits', _⟩ | hseen
    · exact absurd hwaits' hwaits
    · exact hseen

theorem Inv.other (hinv : h.Inv) (hreg : h.Regular c) (htrig : ¬ c.act.IsTrigger)
    (hmon : ¬ c.act.IsMonitor) : (h.call c).Inv := by
  have hcol := KickUnit.collect_other (u := h.unit) htrig hmon
  obtain ⟨hnone, hnews⟩ := KdCall.received_other htrig hmon
  have hedges : h.edges ++ c.edges = h.edges := by rw [hnews, List.append_nil]
  have hanswers := hinv.answers
  by_cases hwaits : h.unit.flagRecTrig
  · obtain ⟨ts, a, htrigs, hholds⟩ := hinv.holds hwaits
    have hserved : h.served = ts := by
      rw [served, if_pos hwaits, htrigs, List.dropLast_concat]
    have hat := waiting_other htrig hmon hwaits
    rw [hholds.time] at hat
    have hkept : h.trigs ++ c.triggers = ts ++ [a] := by
      rw [hnone, List.append_nil, htrigs]
    rw [hserved] at hanswers
    refine .of_waiting hcol hwaits (hinv.single hwaits) hholds hkept ?_ ?_ (hreg.noticed _ hat)
    · rw [hedges]
      exact hanswers
    · rw [hedges]
      exact hreg.kept _ hat
  · have hfree : h.unit.flagRecTrig = false := Bool.eq_false_iff.mpr hwaits
    rw [served_of_free hfree] at hanswers
    refine .of_alone hcol hfree ?_ ?_
    · rw [hedges]
      exact hinv.edge
    · rw [hedges, hnone, List.append_nil]
      exact hanswers

theorem Inv.call (hinv : h.Inv) (hreg : h.Regular c) (hapart : h.trigs.Pairwise KdAction.Apart) :
    (h.call c).Inv := by
  by_cases htrig : c.act.IsTrigger
  · exact hinv.trigger hreg htrig
  by_cases hmon : c.act.IsMonitor
  · exact hinv.monitor hreg hmon hapart
  · exact hinv.other hreg htrig hmon

theorem Inv.boot : boot.Inv where
  answers := .nil
  timely := nofun
  single := nofun
  edge := nofun
  holds := nofun

theorem run_trigs (calls : List KdCall) :
    (h.run calls).trigs = h.trigs ++ calls.flatMap KdCall.triggers := by
  induction calls generalizing h with
  | nil => exact (List.append_nil _).symm
  | cons c calls ih =>
      rw [List.flatMap_cons, ← List.append_assoc]
      exact ih

theorem Inv.run {calls : List KdCall} (hinv : h.Inv) (hreg : h.AllRegular calls)
    (hapart : (h.run calls).trigs.Pairwise KdAction.Apart) : (h.run calls).Inv := by
  induction calls generalizing h with
  | nil => exact hinv
  | cons c calls ih =>
      have hhead : h.trigs.Pairwise KdAction.Apart := by
        rw [run_trigs] at hapart
        exact (List.pairwise_append.mp hapart).1
      exact ih (hinv.call hreg.1 hhead) hreg.2 hapart

end KdHistory

/-- In every run of regular calls with triggers apart, the diagnosis is complete. -/
theorem kicks_diagnosed (calls : List KdCall)
    (hapart : (calls.flatMap KdCall.triggers).Pairwise KdAction.Apart)
    (hreg : KdHistory.boot.AllRegular calls) : (KdHistory.boot.run calls).Complete := by
  have hall : (KdHistory.boot.run calls).trigs.Pairwise KdAction.Apart := by
    rw [KdHistory.run_trigs]
    exact hapart
  exact (KdHistory.Inv.boot.run hreg hall).toComplete

section Sample

def kdCallAt (t : SysTime) (act next : KdAction) : KdCall := ⟨act, next, t.ns, t.ns, t, t, t⟩

/-- A trigger whose edge comes 1 ms later, with a probe signal, and one without an edge. -/
def kdSample : List KdCall :=
  let none : KdAction := ⟨.other, 0, 0⟩
  [kdCallAt ⟨100000000, by decide⟩ ⟨.triggerExt, 99980000, 0x112c804002c00041⟩ none,
    kdCallAt ⟨101000000, by decide⟩ ⟨.tluInput2, 101000000, 0⟩ ⟨.tluInput1, 101060000, 0⟩,
    kdCallAt ⟨200000000, by decide⟩ ⟨.triggerInj, 199980000, 0x112c805002c00080⟩ none,
    kdCallAt ⟨211000000, by decide⟩ none none]

theorem kdSample_diagnosed :
    (kdSample.flatMap KdCall.triggers).Pairwise KdAction.Apart ∧
      KdHistory.boot.AllRegular kdSample ∧ (KdHistory.boot.run kdSample).Complete := by
  have hchecks : (kdSample.flatMap KdCall.triggers).Pairwise KdAction.Apart ∧
      KdHistory.boot.AllRegular kdSample := by decide +kernel
  exact ⟨hchecks.1, hchecks.2, kicks_diagnosed kdSample hchecks.1 hchecks.2⟩

/-- The wait for the probe swallows the trigger that follows its edge. -/
def kdSwallowed : List KdCall :=
  [kdCallAt ⟨100000000, by decide⟩ ⟨.tluInput2, 100000000, 0⟩
    ⟨.triggerExt, 99990000, 0x112c804002c00041⟩]

theorem kick_swallowed :
    ¬ ∀ calls : List KdCall, (calls.flatMap KdCall.triggers).Pairwise KdAction.Apart →
      (KdHistory.boot.run calls).Complete := by
  intro h
  have hcomplete := h kdSwallowed (by decide)
  have hlost : (KdHistory.boot.run kdSwallowed).served.length ≠
      (KdHistory.boot.run kdSwallowed).answers.length := by decide +kernel
  exact hlost hcomplete.answers.length_eq

end Sample

end B2b
