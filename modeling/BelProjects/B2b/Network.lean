import BelProjects.B2b.Calls
import BelProjects.Library.BitFields
import BelProjects.Library.Significand

/-!
# Results on the network

The phase measurement sends a phase, the kicker diagnostics send the delays of a kicker.  The
central unit reads phases, the server reads both.  The server keeps single-precision numbers,
and only natural numbers are converted to them; `none` is NAN.  A phase is looked at before the
server divides its parts below a nanosecond by 1000.
-/

namespace B2b

open BitFields

/-! ### Senders -/

/-- What the senders put into the event ID, and the readings of the clock while sending. -/
structure Sender where
  recGid : Word
  recSid : Word
  recBpid : Word
  flags : Word
  sysTime : SysTime
  checked : SysTime
  rescheduled : SysTime

def b2bAheadT : Long := 300000
def ecaDiagKickExt : Word := 0x806
def ecaDiagKickInj : Word := 0x807

def phaseTef (tH1 : B2bt) : Word :=
  let ps : Word := (tH1.ps.setWidth 16).signExtend 32 &&& (0xffff : Word)
  let dps : Word := (tH1.dps.setWidth 16).setWidth 32 &&& (0xffff : Word)
  ps ||| dps <<< 16

/-- The message of the phase measurement, with one of `ecaPrExt` and `ecaPrInj`. -/
def Sender.phase (x : Sender) (sendEvtNo : Word) (tH1 : B2bt) : TimingMsg :=
  ebmWriteTM x.checked x.rescheduled (x.sysTime.ns + b2bAheadT)
    (buildEvtidV1 x.recGid sendEvtNo 0 x.recSid x.recBpid x.flags) tH1.ns (phaseTef tH1)

/-- The delays of monitor and probe, as `int64_t`. -/
def kickParam (dKickMon dKickProbe : Long) : Long :=
  dKickMon <<< 32 ||| (dKickProbe &&& 0xffffffff)

/-- The message of the kicker diagnostics, with one of `ecaDiagKickExt` and `ecaDiagKickInj`. A
message that is too late gets a new deadline before it is written. -/
def Sender.kick (x : Sender) (sendEvtNo : Word) (tKickTrig dKickMon dKickProbe : Long) :
    TimingMsg :=
  let deadline := tKickTrig + 2 * commonAheadT
  let deadline :=
    if deadline - commonAheadT < x.sysTime.ns then x.sysTime.ns + commonAheadT else deadline
  ebmWriteTM x.checked x.rescheduled deadline
    (buildEvtidV1 x.recGid sendEvtNo 0 x.recSid x.recBpid x.flags)
    (kickParam dKickMon dKickProbe) 0

/-! ### The server -/

inductive EvtTag where
  | pme | pmi | pre | pri | pse | psi | kte | kti | kde | kdi | pde | pdi | start | stop
  deriving DecidableEq, Repr

def EvtTag.bit : EvtTag → Nat
  | .pme => 0 | .pmi => 1 | .pre => 2 | .pri => 3 | .pse => 4 | .psi => 5 | .kte => 6
  | .kti => 7 | .kde => 8 | .kdi => 9 | .pde => 10 | .pdi => 11 | .start => 12 | .stop => 13

/-- A `float` that is NAN or a natural number. -/
abbrev Single := Option Nat

def Single.value : Single → Option Int
  | none => none
  | some n => some (n : Int)

/-- The conversion of an integer to `float`. -/
def toSingle (n : Nat) : Single := some (Significand.round 24 n)

/-- `phase`, `phaseFract` and `phaseErr` of one machine. -/
structure PhaseValues where
  phase : Long
  phaseFract : Single
  phaseErr : Single
  deriving DecidableEq, Repr

/-- `dKickMon` and `dKickProb` of one machine. -/
structure KickValues where
  dKickMon : Single
  dKickProb : Single
  deriving DecidableEq, Repr

structure Getval where
  extPhase : PhaseValues
  injPhase : PhaseValues
  extKick : KickValues
  injKick : KickValues
  flagEvtRec : Word
  flagEvtErr : Word
  flagEvtLate : Word
  tCbs : Long
  deriving DecidableEq, Repr

def initGetval : Getval where
  extPhase := ⟨-1, none, none⟩
  injPhase := ⟨-1, none, none⟩
  extKick := ⟨none, none⟩
  injKick := ⟨none, none⟩
  flagEvtRec := 0
  flagEvtErr := 0
  flagEvtLate := 0
  tCbs := -1

structure Server where
  flagActive : Bool
  sid : Word
  getval : Getval
  deriving DecidableEq, Repr

def PhaseValues.read (param : Long) (tef : Word) : PhaseValues where
  phase := param
  phaseFract := toSingle (tef &&& 0x0000ffff).toNat
  phaseErr := toSingle ((tef &&& 0xffff0000) >>> 16).toNat

def kickInvalid : Word := 0x7fffffff

def readDelay (tmpu : Word) : Single := if tmpu = kickInvalid then none else toSingle tmpu.toNat

def KickValues.read (param : Long) : KickValues where
  dKickProb := readDelay ((param &&& 0x00000000ffffffff).setWidth 32)
  dKickMon := readDelay (((param &&& 0xffffffff00000000) >>> 32).setWidth 32)

def Getval.noteErr (g : Getval) (tag : EvtTag) (evtId : Long) (errFlag : Word) : Getval :=
  { g with
    flagEvtErr := g.flagEvtErr |||
      if evtId &&& errFlag.setWidth 64 ≠ 0 then 1#32 <<< tag.bit else 0 }

def errFlagKdExt : Word := 0x2
def errFlagKdInj : Word := 0x8

/-- What a message changes in the values of a transfer. -/
def Getval.read (g : Getval) (evtId param : Long) (tef : Word) : EvtTag → Getval
  | .pre => { g with extPhase := .read param tef }.noteErr .pre evtId errFlagPmExt
  | .pri => { g with injPhase := .read param tef }.noteErr .pri evtId errFlagPmInj
  | .kte => g.noteErr .kte evtId errFlagCbu
  | .kti => g.noteErr .kti evtId errFlagCbu
  | .kde => { g with extKick := .read param }.noteErr .kde evtId errFlagKdExt
  | .kdi => { g with injKick := .read param }.noteErr .kdi evtId errFlagKdInj
  | _ => g

def Server.timingMessage (s : Server) (tag : EvtTag) (deadline evtId param : Long) (tef : Word)
    (isLate : Bool) : Server × Option Getval :=
  let recSid := evtSid evtId
  if BitVec.ofNat 32 nSid < recSid then (s, none)
  else if !s.flagActive ∧ tag ≠ .start then (s, none)
  else
    let late := if isLate then 1#32 <<< tag.bit else 0
    let g :=
      { s.getval with
        flagEvtRec := s.getval.flagEvtRec ||| 1#32 <<< tag.bit
        flagEvtLate := s.getval.flagEvtLate ||| late }
    match tag with
    | .start =>
        ({ flagActive := true
           sid := recSid
           getval := { initGetval with
             flagEvtRec := 1#32 <<< tag.bit
             flagEvtLate := late
             tCbs := deadline } }, none)
    | .stop => ({ s with flagActive := false, getval := g }, some g)
    | tag => ({ s with getval := g.read evtId param tef tag }, none)

/-! ### The words that are sent -/

theorem phaseTef_eq (t : B2bt) : phaseTef t = t.dps.setWidth 16 ++ t.ps.setWidth 16 := by
  have hmask : (0xffff : Word) = BitVec.ofNat 32 (2 ^ 16 - 1) := rfl
  dsimp only [phaseTef]
  rw [hmask, and_lowMask, and_lowMask]
  apply BitVec.eq_of_getLsbD_eq
  intro i hi
  simp only [BitVec.getLsbD_or, BitVec.getLsbD_shiftLeft, BitVec.getLsbD_setWidth,
    BitVec.getLsbD_signExtend, BitVec.getLsbD_append]
  grind

theorem kickParam_eq (mon probe : Long) :
    kickParam mon probe = mon.setWidth 32 ++ probe.setWidth 32 := by
  have hmask : (0xffffffff : Long) = BitVec.ofNat 64 (2 ^ 32 - 1) := rfl
  rw [kickParam, hmask, and_lowMask]
  apply BitVec.eq_of_getLsbD_eq
  intro i hi
  simp only [BitVec.getLsbD_or, BitVec.getLsbD_shiftLeft, BitVec.getLsbD_setWidth,
    BitVec.getLsbD_append]
  grind

/-! ### The words that are read -/

theorem low_half (hi lo : BitVec 16) : (hi ++ lo : Word) &&& 0x0000ffff = lo.setWidth 32 :=
  append_and_lowMask hi lo

theorem high_half (hi lo : BitVec 16) :
    ((hi ++ lo : Word) &&& 0xffff0000) >>> 16 = hi.setWidth 32 := by
  have hmask : (0xffff0000 : Word) >>> 16 = BitVec.ofNat 32 (2 ^ 16 - 1) := by decide
  rw [BitVec.ushiftRight_and_distrib, hmask, and_lowMask, append_ushiftRight]
  simp

theorem low_word (hi lo : Word) :
    ((hi ++ lo : Long) &&& 0x00000000ffffffff).setWidth 32 = lo := by
  have hand : (hi ++ lo : Long) &&& 0x00000000ffffffff = lo.setWidth 64 := append_and_lowMask hi lo
  rw [hand]
  simp

theorem high_word (hi lo : Word) :
    (((hi ++ lo : Long) &&& 0xffffffff00000000) >>> 32).setWidth 32 = hi := by
  have hmask : (0xffffffff00000000 : Long) >>> 32 = BitVec.ofNat 64 (2 ^ 32 - 1) := by decide
  rw [BitVec.ushiftRight_and_distrib, hmask, and_lowMask, append_ushiftRight]
  simp

/-! ### What the receivers have -/

structure B2bt.Measured (t : B2bt) : Prop where
  ns : t.ns.toNat < 2 ^ 63
  ps : -500 ≤ t.ps.toInt ∧ t.ps.toInt < 500
  dps : t.dps.toNat < 65536

/-- A delay is a signed 32-bit value in an `int64_t`. -/
def IsDelay (d : Long) : Prop := -2 ^ 31 ≤ d.toInt ∧ d.toInt < 2 ^ 31

instance (d : Long) : Decidable (IsDelay d) := inferInstanceAs (Decidable (_ ∧ _))

def delayInvalid : Long := 0x7fffffff

structure Action.Carries (e : Action) (m : TimingMsg) : Prop where
  id : e.recId = m.evtId
  param : e.recParam = m.param
  tef : e.recTef = m.tef

/-- A phase of the extraction machine as the central unit keeps it: it is kept as it is sent. -/
def B2bt.KeptExt (p : B2bt) : Prop :=
  ∀ (N : Numerics) (x : Sender) (e : Action) (c : Call), e.Carries (x.phase ecaPrExt p) →
    ¬ c.cbu.transfer.mode < modeB2e → e.For c.cbu.transfer →
    (c.cbu.mState = .extPMeasR ∨ c.cbu.mState = .allPMeasR) → (c.prExt N e).cbu.tH1ExtT = p

/-- A phase of the injection machine: the central unit subtracts its phase correction. -/
def B2bt.KeptInj (p : B2bt) : Prop :=
  ∀ (N : Numerics) (x : Sender) (e : Action) (c : Call), e.Carries (x.phase ecaPrInj p) →
    ¬ c.cbu.transfer.mode < modeB2bFBeat → e.For c.cbu.transfer → c.cbu.mState = .allPMeasR →
    let t := (c.prInj N e).cbu
    (⟨t.tH1InjT.ns + t.transfer.cPhase.ns, t.tH1InjT.ps + t.transfer.cPhase.ps, t.tH1InjT.dps⟩ :
      B2bt) = p

/-- The server has a phase, before the division by 1000. -/
structure PhaseValues.Are (v : PhaseValues) (p : B2bt) : Prop where
  phase : v.phase = p.ns
  fract : v.phaseFract.value = some p.ps.toInt
  err : v.phaseErr = some p.dps.toNat

def Single.IsDelay (v : Single) (d : Long) : Prop :=
  v.value = if d = delayInvalid then none else some d.toInt

structure KickValues.Are (v : KickValues) (mon probe : Long) : Prop where
  mon : v.dKickMon.IsDelay mon
  probe : v.dKickProb.IsDelay probe

def Server.Listens (s : Server) (evtId : Long) : Prop :=
  s.flagActive = true ∧ ¬ BitVec.ofNat 32 nSid < evtSid evtId

def Server.after (s : Server) (tag : EvtTag) (m : TimingMsg) (isLate : Bool) : Getval :=
  (s.timingMessage tag m.deadline m.evtId m.param m.tef isLate).1.getval

def B2bt.Served (p : B2bt) : Prop :=
  ∀ (s : Server) (x : Sender) (isLate : Bool),
    (s.Listens (x.phase ecaPrExt p).evtId →
      (s.after .pre (x.phase ecaPrExt p) isLate).extPhase.Are p) ∧
    (s.Listens (x.phase ecaPrInj p).evtId →
      (s.after .pri (x.phase ecaPrInj p) isLate).injPhase.Are p)

def DelaysServed (mon probe : Long) : Prop :=
  ∀ (s : Server) (x : Sender) (tKickTrig : Long) (isLate : Bool),
    (s.Listens (x.kick ecaDiagKickExt tKickTrig mon probe).evtId →
      (s.after .kde (x.kick ecaDiagKickExt tKickTrig mon probe) isLate).extKick.Are mon probe) ∧
    (s.Listens (x.kick ecaDiagKickInj tKickTrig mon probe).evtId →
      (s.after .kdi (x.kick ecaDiagKickInj tKickTrig mon probe) isLate).injKick.Are mon probe)

/-- Phases and delays survive the network. -/
structure Survive (p : B2bt) (mon probe : Long) : Prop where
  ext : p.KeptExt
  inj : p.KeptInj
  phase : p.Served
  delays : DelaysServed mon probe

/-! ### The central unit -/

theorem Sender.phase_param (x : Sender) (n : Word) (p : B2bt) : (x.phase n p).param = p.ns := by
  rw [phase, ebmWriteTM_param]

theorem Sender.phase_tef (x : Sender) (n : Word) (p : B2bt) : (x.phase n p).tef = phaseTef p := by
  rw [phase, ebmWriteTM]
  split <;> rfl

theorem Sender.kick_param (x : Sender) (n : Word) (t mon probe : Long) :
    (x.kick n t mon probe).param = kickParam mon probe := by
  rw [kick, ebmWriteTM_param]

theorem signExtend_setWidth {x : Word} (hlo : -2 ^ 15 ≤ x.toInt) (hhi : x.toInt < 2 ^ 15) :
    (x.setWidth 16).signExtend 32 = x := by
  apply BitVec.eq_of_toInt_eq
  rw [BitVec.toInt_signExtend_of_le (by decide),
    ← BitVec.signExtend_eq_setWidth_of_le x (by decide),
    BitVec.toInt_signExtend_eq_toInt_bmod_of_le x (by decide)]
  apply Int.bmod_eq_of_le <;> omega

theorem setWidth_setWidth_of_lt {x : Word} (h : x.toNat < 2 ^ 16) :
    (x.setWidth 16).setWidth 32 = x := by
  apply BitVec.eq_of_toNat_eq
  simp only [BitVec.toNat_setWidth]
  omega

theorem Action.phase_of_carries {e : Action} {x : Sender} {n : Word} {p : B2bt}
    (h : e.Carries (x.phase n p)) (hp : p.Measured) : e.phase = p := by
  have hps := hp.ps
  have hlow : ((phaseTef p).setWidth 16) = p.ps.setWidth 16 := by
    rw [phaseTef_eq, BitVec.setWidth_append, dif_pos (by decide)]
    simp
  have hhigh : (phaseTef p).extractLsb' 16 16 = p.dps.setWidth 16 := by
    rw [phaseTef_eq, BitVec.extractLsb'_append_eq_of_le (by decide)]
    simp
  rw [phase, h.param, h.tef, x.phase_param, x.phase_tef, hlow, hhigh,
    signExtend_setWidth (by omega) (by omega), setWidth_setWidth_of_lt hp.dps]

theorem B2bt.Measured.keptExt {p : B2bt} (hp : p.Measured) : p.KeptExt := by
  intro N x e c he hmode hfor hstate
  rw [Call.prExt, if_neg hmode]
  dsimp only
  rw [if_pos ⟨hfor, hstate⟩]
  exact Action.phase_of_carries he hp

theorem B2bt.Measured.keptInj {p : B2bt} (hp : p.Measured) : p.KeptInj := by
  intro N x e c he hmode hfor hstate
  have hphase := Action.phase_of_carries he hp
  rw [Call.prInj, if_neg hmode]
  dsimp only
  rw [if_pos ⟨hfor, hstate⟩]
  simp only [Call.advance, Call.noteOffset, hphase, BitVec.sub_add_cancel]

/-! ### The server -/

theorem toSingle_of_lt {n : Nat} (h : n < 2 ^ 24) : toSingle n = some n := by
  rw [toSingle, Significand.round_of_lt h]

theorem toSingle_eq_iff (n : Nat) (i : Int) :
    (toSingle n).value = some i ↔ (Significand.round 24 n : Int) = i := by
  rw [toSingle, Single.value, Option.some.injEq]

theorem PhaseValues.read_are_iff {p : B2bt} (hp : p.Measured) :
    (PhaseValues.read p.ns (phaseTef p)).Are p ↔ 0 ≤ p.ps.toInt := by
  have hps := hp.ps
  have hdps := hp.dps
  have hfract : (PhaseValues.read p.ns (phaseTef p)).phaseFract = some (p.ps.toNat % 2 ^ 16) := by
    rw [read, phaseTef_eq, low_half, BitVec.toNat_setWidth, BitVec.toNat_setWidth,
      Nat.mod_eq_of_lt (by omega)]
    exact toSingle_of_lt (by omega)
  have herr : (PhaseValues.read p.ns (phaseTef p)).phaseErr = some p.dps.toNat := by
    rw [read, phaseTef_eq, high_half, setWidth_setWidth_of_lt hdps]
    exact toSingle_of_lt (by omega)
  have hint := BitVec.toInt_eq_toNat_cond p.ps
  constructor
  · intro h
    have h' := h.fract
    rw [hfract, Single.value, Option.some.injEq] at h'
    rw [← h']
    exact Int.natCast_nonneg _
  · intro h
    refine ⟨rfl, ?_, herr⟩
    rw [hfract, Single.value, Option.some.injEq]
    split at hint <;> omega

/-- Delays that the server has as they are sent: the marker, and the natural numbers with at
most 24 significant bits. -/
def SurvivingDelay (d : Long) : Prop :=
  d = delayInvalid ∨ (0 ≤ d.toInt ∧ Significand.Fits 24 d.toNat)

theorem setWidth_eq_invalid_iff {d : Long} (hd : IsDelay d) :
    d.setWidth 32 = kickInvalid ↔ d = delayInvalid := by
  have hint := BitVec.toInt_eq_toNat_cond d
  have hlt := d.isLt
  have hdelay := hd
  rw [IsDelay] at hdelay
  constructor
  · intro h
    have hnat : d.toNat % 2 ^ 32 = 0x7fffffff := by
      rw [← BitVec.toNat_setWidth, h]
      rfl
    apply BitVec.eq_of_toNat_eq
    change d.toNat = 0x7fffffff
    split at hint <;> omega
  · rintro rfl
    decide

theorem readDelay_isDelay_iff {d : Long} (hd : IsDelay d) :
    (readDelay (d.setWidth 32)).IsDelay d ↔ SurvivingDelay d := by
  have hint := BitVec.toInt_eq_toNat_cond d
  have hlt := d.isLt
  have hinvalid := setWidth_eq_invalid_iff hd
  rw [IsDelay] at hd
  rw [Single.IsDelay, SurvivingDelay, readDelay]
  by_cases h : d = delayInvalid
  · rw [if_pos (hinvalid.mpr h), if_pos h]
    exact iff_of_true rfl (Or.inl h)
  · rw [if_neg (fun hw => h (hinvalid.mp hw)), if_neg h, toSingle_eq_iff, BitVec.toNat_setWidth,
      or_iff_right h, ← Significand.round_eq_self_iff]
    constructor
    · intro heq
      have hnonneg : 0 ≤ d.toInt := heq ▸ Int.natCast_nonneg _
      have hmod : d.toNat % 2 ^ 32 = d.toNat := by split at hint <;> omega
      rw [hmod] at heq
      refine ⟨hnonneg, ?_⟩
      split at hint <;> omega
    · rintro ⟨hnonneg, hround⟩
      have hmod : d.toNat % 2 ^ 32 = d.toNat := by split at hint <;> omega
      rw [hmod, hround]
      split at hint <;> omega

/-- What a message changes in an active server, apart from its flags. -/
theorem Server.Listens.after_eq {s : Server} {m : TimingMsg} (h : s.Listens m.evtId)
    (isLate : Bool) (tag : EvtTag) (hstart : tag ≠ .start) (hstop : tag ≠ .stop) :
    ∃ g : Getval, s.after tag m isLate = g.read m.evtId m.param m.tef tag := by
  obtain ⟨hactive, hsid⟩ := h
  rw [Server.after, Server.timingMessage]
  dsimp only
  rw [if_neg hsid, if_neg (by simp [hactive])]
  cases tag with
  | start => exact absurd rfl hstart
  | stop => exact absurd rfl hstop
  | _ => exact ⟨_, rfl⟩

def someServer : Server := ⟨true, 0, initGetval⟩

def someSender : Sender :=
  { recGid := 0, recSid := 0, recBpid := 0, flags := 0, sysTime := ⟨0, by decide⟩,
    checked := ⟨0, by decide⟩, rescheduled := ⟨0, by decide⟩ }

theorem someServer_listens_phase (n : Word) (p : B2bt) :
    someServer.Listens (someSender.phase n p).evtId := by
  refine ⟨rfl, ?_⟩
  rw [Sender.phase, ebmWriteTM_evtId, evtSid_build]
  decide

theorem someServer_listens_kick (n : Word) (t mon probe : Long) :
    someServer.Listens (someSender.kick n t mon probe).evtId := by
  refine ⟨rfl, ?_⟩
  rw [Sender.kick, ebmWriteTM_evtId, evtSid_build]
  decide

theorem B2bt.Measured.served_iff {p : B2bt} (hp : p.Measured) : p.Served ↔ 0 ≤ p.ps.toInt := by
  rw [← PhaseValues.read_are_iff hp]
  constructor
  · intro h
    have hlisten := someServer_listens_phase ecaPrExt p
    obtain ⟨g, hg⟩ := hlisten.after_eq false .pre (by decide) (by decide)
    have hare := (h someServer someSender false).1 hlisten
    rw [hg, Sender.phase_param, Sender.phase_tef] at hare
    exact hare
  · intro h s x isLate
    constructor
    · intro hlisten
      obtain ⟨g, hg⟩ := hlisten.after_eq isLate .pre (by decide) (by decide)
      rw [hg, x.phase_param, x.phase_tef]
      exact h
    · intro hlisten
      obtain ⟨g, hg⟩ := hlisten.after_eq isLate .pri (by decide) (by decide)
      rw [hg, x.phase_param, x.phase_tef]
      exact h

theorem KickValues.read_are_iff {mon probe : Long} (hmon : IsDelay mon) (hprobe : IsDelay probe) :
    (KickValues.read (kickParam mon probe)).Are mon probe ↔
      SurvivingDelay mon ∧ SurvivingDelay probe := by
  have hm : (KickValues.read (kickParam mon probe)).dKickMon = readDelay (mon.setWidth 32) := by
    rw [read, kickParam_eq, high_word]
  have hp : (KickValues.read (kickParam mon probe)).dKickProb = readDelay (probe.setWidth 32) := by
    rw [read, kickParam_eq, low_word]
  rw [← readDelay_isDelay_iff hmon, ← readDelay_isDelay_iff hprobe, ← hm, ← hp]
  exact ⟨fun h => ⟨h.mon, h.probe⟩, fun h => ⟨h.1, h.2⟩⟩

theorem delaysServed_iff {mon probe : Long} (hmon : IsDelay mon) (hprobe : IsDelay probe) :
    DelaysServed mon probe ↔ SurvivingDelay mon ∧ SurvivingDelay probe := by
  rw [← KickValues.read_are_iff hmon hprobe]
  constructor
  · intro h
    have hlisten := someServer_listens_kick ecaDiagKickExt 0 mon probe
    obtain ⟨g, hg⟩ := hlisten.after_eq false .kde (by decide) (by decide)
    have hare := (h someServer someSender 0 false).1 hlisten
    rw [hg, Sender.kick_param] at hare
    exact hare
  · intro h s x tKickTrig isLate
    constructor
    · intro hlisten
      obtain ⟨g, hg⟩ := hlisten.after_eq isLate .kde (by decide) (by decide)
      rw [hg, x.kick_param]
      exact h
    · intro hlisten
      obtain ⟨g, hg⟩ := hlisten.after_eq isLate .kdi (by decide) (by decide)
      rw [hg, x.kick_param]
      exact h

/-- Phases and delays survive exactly when they are not negative and the delays, apart from the
marker, have few significant bits. -/
theorem survive_iff {p : B2bt} {mon probe : Long} (hp : p.Measured) (hmon : IsDelay mon)
    (hprobe : IsDelay probe) :
    Survive p mon probe ↔
      0 ≤ p.ps.toInt ∧ SurvivingDelay mon ∧ SurvivingDelay probe := by
  rw [← hp.served_iff, ← delaysServed_iff hmon hprobe]
  exact ⟨fun h => ⟨h.phase, h.delays⟩, fun h => ⟨hp.keptExt, hp.keptInj, h.1, h.2⟩⟩

theorem survive_iff_early_monitor :
    IsDelay (-20) ∧ (Survive ⟨5, 120, 3⟩ (-20) delayInvalid ↔
      0 ≤ (120 : Word).toInt ∧ SurvivingDelay (-20) ∧ SurvivingDelay delayInvalid) :=
  ⟨by decide, survive_iff ⟨by decide, by decide, by decide⟩ (by decide) (by decide)⟩

/-- One picosecond below a full nanosecond is served as 65535 picoseconds. -/
theorem negative_fraction_lost :
    ¬ ∀ (p : B2bt) (mon probe : Long), p.Measured → IsDelay mon → IsDelay probe →
      Survive p mon probe := by
  intro h
  have hmeasured : B2bt.Measured ⟨1000, -1, 0⟩ := ⟨by decide, by decide, by decide⟩
  have hserved := (h ⟨1000, -1, 0⟩ 0 0 hmeasured (by decide) (by decide)).phase
  exact absurd (hmeasured.served_iff.mp hserved) (by decide)

end B2b
