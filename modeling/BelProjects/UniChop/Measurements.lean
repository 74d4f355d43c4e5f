import BelProjects.UniChop.Operation
import BelProjects.Library.BitFields

/-!
# The measurements of the chopper unit

At the end of a pulse the firmware reads what the modules have measured, and sends it with the flags
of the chopper control.  A value that cannot be read is taken from the stack as if it were the
content of the register; one edge without the other gives a length that is a marker minus a time.
-/

namespace UniChop

open B2b (Word Long TimingMsg evtNo evtGid evtSid evtBpid evtReserved buildEvtidV1)
open BitFields

/-! ### What a report should say -/

/-- An edge: its time, or one of the two markers. -/
inductive Edge where
  | time (t : Half)
  | noData
  | invalid
  deriving DecidableEq, Repr

/-- The register of an edge has been latched, and none of its status bits is set. -/
def Latched (width : Nat) (reg : Half) : Prop :=
  ∀ i : Fin 16, width ≤ i.1 → reg.getLsbD i.1 = decide (i.1 = 15)

instance (width : Nat) (reg : Half) : Decidable (Latched width reg) :=
  inferInstanceAs (Decidable (∀ i : Fin 16, width ≤ i.1 → reg.getLsbD i.1 = decide (i.1 = 15)))

def Edge.ofReg (width : Nat) : Option Half → Edge
  | none => .invalid
  | some reg =>
    if reg = 0 then .noData
    else if Latched width reg then .time ((reg.setWidth width).setWidth 16)
    else .invalid

def Edge.word : Edge → Half
  | .time t => t
  | .noData => UniChop.noData
  | .invalid => UniChop.invalid

/-- A length is the difference of two times, or a marker. -/
def LenReported (rise fall : Edge) (len : Half) : Prop :=
  match rise, fall with
  | .time r, .time f => (len.toNat : Int) = f.toNat - r.toNat
  | _, _ => len = noData ∨ len = invalid

@[ext] structure ControlFlags where
  block : Bool
  interlock : Bool
  received : Bool
  late : Bool
  deriving DecidableEq, Repr

def ControlFlags.ofBpid (bpid : Word) : ControlFlags :=
  ⟨bpid.getLsbD 2, bpid.getLsbD 3, bpid.getLsbD 4, bpid.getLsbD 5⟩

def Linac.blockBit : Linac → Nat
  | .hli => 7
  | .hsi => 6

def Linac.interlockBit : Linac → Nat
  | .hli => 5
  | .hsi => 4

def ControlFlags.ofControl (l : Linac) : Option Message → ControlFlags
  | none => ⟨false, false, false, false⟩
  | some m =>
    let reg := (Settings.ofParam m.param).strahlwegReg
    ⟨reg.getLsbD l.blockBit, reg.getLsbD l.interlockBit, true, m.isLate⟩

/-- The latest control message since the last command of a new cycle. -/
def latestControl (h : List Call) : Option Message :=
  h.foldl (fun latest c =>
    if c.msg.action = .cmd then none
    else if c.msg.action = .strahlwegWrite ∧ c.msg.check = statusOk then some c.msg
    else latest) none

def latestTimely (h : List Call) : Option Message :=
  h.foldl (fun latest c =>
    if c.msg.action = .cmd then none
    else if c.msg.Taken .strahlwegWrite then some c.msg
    else latest) none

structure ChopReported (l : Linac) (rise fall ctrl : Edge) (control : Option Message)
    (msg : TimingMsg) : Prop where
  tFallCtrl : msg.param.extractLsb' 48 16 = ctrl.word
  tRiseAct : msg.param.extractLsb' 32 16 = rise.word
  tFallAct : msg.param.extractLsb' 16 16 = fall.word
  len : LenReported rise fall (msg.param.extractLsb' 0 16)
  flags : ControlFlags.ofBpid (evtBpid msg.evtId) = ControlFlags.ofControl l control

inductive Source where
  | qr | ql
  deriving DecidableEq, Repr

def Source.gid : Source → Word
  | qr => gidPzuQr
  | ql => gidPzuQl

def Source.evtStop : Source → Word
  | qr => ecaDoQrStop
  | ql => ecaDoQlStop

def Source.rpgAddr : Source → Half
  | qr => modRpgIqrAddr
  | ql => modRpgIqlAddr

/-- The report of a pulse at a source is the counter of 25 bits, or a marker. -/
def GateReported (hi lo : Half) (msg : TimingMsg) : Prop :=
  msg.param.toNat = hi.toNat % 2 ^ 9 * 2 ^ 16 + lo.toNat ∨
    msg.param = gateNoData.setWidth 64 ∨ msg.param = gateInvalid.setWidth 64

inductive Stop where
  | linac (l : Linac)
  | source (q : Source)
  deriving DecidableEq, Repr

/-- A message is such an event of a known group, passes the check and is not late. -/
def Stop.Of (k : Stop) (m : Message) : Prop :=
  match k with
  | .linac l => m.Taken (.chopStop l) ∧ (evtGid m.evtId = gidPzuUn ∨ evtGid m.evtId = gidPzuUh)
  | .source q => m.Taken .iqStop ∧ evtGid m.evtId = q.gid

instance (k : Stop) (m : Message) : Decidable (k.Of m) :=
  match k with
  | .linac _ => inferInstanceAs (Decidable (_ ∧ _))
  | .source _ => inferInstanceAs (Decidable (_ ∧ _))

def Stop.evtStop : Stop → Word
  | .linac l => l.evtStop
  | .source q => q.evtStop

def Exec.reg (x : Exec) (modAddr modReg : Half) : Half :=
  x.crate.modules ifbAddrCu (modAddrBus modAddr modReg)

/-- The register, if so many transfers succeed. -/
def Exec.regAfter (x : Exec) (n : Nat) (modAddr modReg : Half) : Option Half :=
  if x.OkUpTo n then some (x.reg modAddr modReg) else none

def Exec.rise (x : Exec) (l : Linac) : Edge :=
  .ofReg 7 (x.regAfter 2 modLogic1Addr l.regChopRiseAct)

def Exec.fall (x : Exec) (l : Linac) : Edge :=
  .ofReg 14 (x.regAfter 4 modLogic1Addr l.regChopFallAct)

def Exec.ctrl (x : Exec) (l : Linac) : Edge :=
  .ofReg 14 (x.regAfter 6 modLogic1Addr l.regChopFallCtrl)

/-- The one message that is sent for an event reports what the modules have measured. -/
def Firmware.Reported (s : Firmware) (h : List Call) (c : Call) (k : Stop) : Prop :=
  let x := (s.run h).exec c
  ∃ msg, reports k.evtStop ((s.run h).sent c) = [msg] ∧
    match k with
    | .linac l => ChopReported l (x.rise l) (x.fall l) (x.ctrl l) (latestControl h) msg
    | .source q =>
      GateReported (x.reg q.rpgAddr modRpgGatelenHiReg) (x.reg q.rpgAddr modRpgGatelenLoReg) msg

/-! ### What it takes -/

/-- A time is read, or the stack happens to hold what is taken for an invalid one. -/
def EdgeFit (width : Nat) (read : Option Half) (stale : Half) : Prop :=
  read ≠ none ∨ Edge.ofReg width (some stale) = .invalid

/-- Two edges that can be subtracted, or that are seen not to be. -/
def LenFit : Edge → Edge → Prop
  | .time r, .time f => r.toNat ≤ f.toNat
  | .time r, .noData => r = 0#16
  | .noData, .time _ => False
  | _, _ => True

def FlagsFit (l : Linac) (latest timely : Option Message) : Prop :=
  (ControlFlags.ofControl l latest).block = (ControlFlags.ofControl l timely).block ∧
    (ControlFlags.ofControl l latest).interlock = (ControlFlags.ofControl l timely).interlock

structure ChopFit (x : Exec) (stale : Locals) (l : Linac) (h : List Call) : Prop where
  rise : EdgeFit 7 (x.regAfter 2 modLogic1Addr l.regChopRiseAct) stale.tChopRiseAct
  fall : EdgeFit 14 (x.regAfter 4 modLogic1Addr l.regChopFallAct) stale.tChopFallAct
  ctrl : EdgeFit 14 (x.regAfter 6 modLogic1Addr l.regChopFallCtrl) stale.tChopFallCtrl
  len : LenFit (x.rise l) (x.fall l)
  flags : FlagsFit l (latestControl h) (latestTimely h)

/-- What the firmware takes for the two registers of a source: a marker, or their content. -/
def GateFit (x : Exec) (stale : Locals) (q : Source) : Prop :=
  let hi := (x.regAfter 2 q.rpgAddr modRpgGatelenHiReg).getD stale.rpgGatelenHi
  let lo := (x.regAfter 4 q.rpgAddr modRpgGatelenLoReg).getD stale.rpgGatelenLo
  hi = 0#16 ∨ hi >>> 8 ≠ 0#16 ∨
    gateCounter hi lo =
      gateCounter (x.reg q.rpgAddr modRpgGatelenHiReg) (x.reg q.rpgAddr modRpgGatelenLoReg)

def Firmware.Fit (s : Firmware) (h : List Call) (c : Call) (k : Stop) : Prop :=
  let x := (s.run h).exec c
  match k with
  | .linac l => ChopFit x c.stale l h
  | .source q => GateFit x c.stale q

def Firmware.start (crate : Crate) (slotSio : Half) : Firmware := ⟨Flags.clear, crate, slotSio⟩

/-! ### Edges -/

section Edges

variable {width : Nat} {reg : Half}

theorem and_validMask_iff {validMask : Half} (hwidth : width ≤ 15)
    (hmask : ∀ i : Fin 16, validMask.getLsbD i.1 = decide (width ≤ i.1)) :
    reg &&& validMask = 0x8000 ↔ Latched width reg := by
  have hlatch : ∀ i : Fin 16, (0x8000 : Half).getLsbD i.1 = decide (i.1 = 15) := by decide
  constructor
  · intro h i hi
    rw [← hlatch i, ← h, BitVec.getLsbD_and, hmask, decide_eq_true hi, Bool.and_true]
  · intro h
    apply BitVec.eq_of_getLsbD_eq
    intro i hi
    have hm := hmask ⟨i, hi⟩
    have hl := hlatch ⟨i, hi⟩
    dsimp only at hm hl
    rw [BitVec.getLsbD_and, hm, hl]
    by_cases hle : width ≤ i
    · rw [h ⟨i, hi⟩ hle, decide_eq_true hle, Bool.and_true]
    · rw [decide_eq_false hle, Bool.and_false]
      exact (decide_eq_false (by omega)).symm

theorem edgeTime_eq {validMask : Half} (hwidth : width ≤ 15)
    (hmask : ∀ i : Fin 16, validMask.getLsbD i.1 = decide (width ≤ i.1)) :
    edgeTime validMask (BitVec.ofNat 16 (2 ^ width - 1)) reg =
      (Edge.ofReg width (some reg)).word := by
  rw [edgeTime, Edge.ofReg]
  by_cases hzero : reg = 0
  · rw [if_pos hzero, if_pos hzero]
    rfl
  · rw [if_neg hzero, if_neg hzero]
    by_cases hvalid : Latched width reg
    · rw [if_pos hvalid, if_neg (not_not.mpr ((and_validMask_iff hwidth hmask).mpr hvalid)),
        and_lowMask]
      rfl
    · rw [if_neg hvalid, if_pos fun h => hvalid ((and_validMask_iff hwidth hmask).mp h)]
      rfl

theorem riseTime_eq : riseTime reg = (Edge.ofReg 7 (some reg)).word :=
  @edgeTime_eq 7 reg 0xff80 (by decide) (by decide)

theorem fallTime_eq : fallTime reg = (Edge.ofReg 14 (some reg)).word :=
  @edgeTime_eq 14 reg 0xc000 (by decide) (by decide)

/-- A time is smaller than both markers. -/
def Edge.Small : Edge → Prop
  | .time t => t.toNat < 2 ^ 14
  | _ => True

theorem Edge.ofReg_small (hwidth : width ≤ 14) (read : Option Half) : (ofReg width read).Small := by
  cases read with
  | none => trivial
  | some reg =>
    rw [ofReg]
    split
    · trivial
    split
    · have hpow : 2 ^ width ≤ 2 ^ 14 := Nat.pow_le_pow_right (by decide) hwidth
      rw [Small, BitVec.toNat_setWidth, BitVec.toNat_setWidth]
      exact Nat.lt_of_le_of_lt (Nat.mod_le _ _)
        (Nat.lt_of_lt_of_le (Nat.mod_lt _ (Nat.two_pow_pos _)) hpow)
    · trivial

theorem Edge.Small.ne {t m : Half} (h : (Edge.time t).Small) (hm : 2 ^ 14 ≤ m.toNat) : t ≠ m := by
  rintro rfl
  exact absurd h (Nat.not_lt.mpr hm)

theorem Edge.Small.word_eq_invalid {e : Edge} (h : e.Small) :
    e.word = UniChop.invalid ↔ e = .invalid := by
  cases e with
  | time t => exact iff_of_false (h.ne (by decide)) nofun
  | noData => exact iff_of_false (by decide) nofun
  | invalid => exact iff_of_true rfl rfl

/-- The time that is sent is the right one if it has been read, or if what the stack held looks
like an invalid one. -/
theorem edge_word_iff (hwidth : width ≤ 14) (read : Option Half) (stale : Half) :
    (Edge.ofReg width (some (read.getD stale))).word = (Edge.ofReg width read).word ↔
      EdgeFit width read stale := by
  cases read with
  | some reg => exact iff_of_true rfl (.inl nofun)
  | none =>
    refine (Edge.ofReg_small hwidth _).word_eq_invalid.trans ?_
    exact ⟨.inr, fun h => h.resolve_left fun hne => hne rfl⟩

/-- A time minus another one, or one of a time and a marker minus the other one. -/
theorem toNat_sub_eq_iff {r f : Half} :
    ((f - r).toNat : Int) = f.toNat - r.toNat ↔ r.toNat ≤ f.toNat := by
  have hf := f.isLt
  have hr := r.isLt
  rw [BitVec.toNat_sub]
  omega

theorem sub_marker {f m : Half} (hf : f.toNat < 2 ^ 14) (hm : m = noData ∨ m = invalid) :
    f - noData ≠ m := by
  intro h
  have hnat := congrArg BitVec.toNat h
  rw [BitVec.toNat_sub, show noData.toNat = 2 ^ 15 - 1 from rfl] at hnat
  rcases hm with rfl | rfl
  · rw [show noData.toNat = 2 ^ 15 - 1 from rfl] at hnat
    omega
  · rw [show invalid.toNat = 2 ^ 16 - 1 from rfl] at hnat
    omega

theorem marker_sub_iff {r : Half} (hr : r.toNat < 2 ^ 14) :
    noData - r = noData ∨ noData - r = invalid ↔ r = 0#16 := by
  constructor
  · intro h
    apply BitVec.eq_of_toNat_eq
    rcases h with h | h
    · have hnat := congrArg BitVec.toNat h
      rw [BitVec.toNat_sub, show noData.toNat = 2 ^ 15 - 1 from rfl] at hnat
      rw [BitVec.toNat_zero]
      omega
    · have hnat := congrArg BitVec.toNat h
      rw [BitVec.toNat_sub, show noData.toNat = 2 ^ 15 - 1 from rfl,
        show invalid.toNat = 2 ^ 16 - 1 from rfl] at hnat
      omega
  · rintro rfl
    exact .inl (BitVec.sub_zero _)

theorem lenChopAct_sub {r f : Half} (hf : f ≠ invalid) (hr : r ≠ invalid)
    (hnone : ¬ (f = noData ∧ r = noData)) : lenChopAct r f = f - r := by
  rw [lenChopAct, if_neg (not_or.mpr ⟨hf, hr⟩), if_neg hnone]

theorem lenChopAct_invalid {r f : Half} (h : f = invalid ∨ r = invalid) :
    lenChopAct r f = invalid :=
  if_pos h

/-- The length of two edges. -/
theorem lenChopAct_iff {rise fall : Edge} (hrise : rise.Small) (hfall : fall.Small) :
    LenReported rise fall (lenChopAct rise.word fall.word) ↔ LenFit rise fall := by
  cases rise with
  | invalid =>
    have hlen (f : Half) : lenChopAct invalid f = invalid := lenChopAct_invalid (.inr rfl)
    cases fall <;> exact iff_of_true (.inr (hlen _)) trivial
  | noData =>
    cases fall with
    | invalid => exact iff_of_true (.inr (lenChopAct_invalid (.inl rfl))) trivial
    | noData => exact iff_of_true (.inl rfl) trivial
    | time f =>
      have hlen : lenChopAct noData f = f - noData :=
        lenChopAct_sub (hfall.ne (by decide)) (by decide) fun h => hfall.ne (by decide) h.1
      refine iff_of_false ?_ id
      rintro (h | h)
      · exact sub_marker hfall (.inl rfl) (hlen.symm.trans h)
      · exact sub_marker hfall (.inr rfl) (hlen.symm.trans h)
  | time r =>
    have hr : r ≠ invalid := hrise.ne (by decide)
    have hnone : r ≠ noData := hrise.ne (by decide)
    cases fall with
    | invalid => exact iff_of_true (.inr (lenChopAct_invalid (.inl rfl))) trivial
    | noData =>
      have hlen : lenChopAct r noData = noData - r :=
        lenChopAct_sub (by decide) hr fun h => hnone h.2
      change (lenChopAct r noData = noData ∨ lenChopAct r noData = invalid) ↔ r = 0#16
      rw [hlen]
      exact marker_sub_iff hrise
    | time f =>
      have hlen : lenChopAct r f = f - r :=
        lenChopAct_sub (hfall.ne (by decide)) hr fun h => hnone h.2
      change ((lenChopAct r f).toNat : Int) = f.toNat - r.toNat ↔ r.toNat ≤ f.toNat
      rw [hlen]
      exact toNat_sub_eq_iff

end Edges

/-! ### Flags -/

section Flags

/-- The static variables after some calls. -/
def heldFlags (latest timely : Option Message) : Flags where
  interlockHli := ofBool 32 (ControlFlags.ofControl .hli timely).interlock
  interlockHsi := ofBool 32 (ControlFlags.ofControl .hsi timely).interlock
  blockHli := ofBool 32 (ControlFlags.ofControl .hli timely).block
  blockHsi := ofBool 32 (ControlFlags.ofControl .hsi timely).block
  cciRec := ofBool 32 latest.isSome
  cciLate := ofBool 32 (latest.any Message.isLate)

/-- A bit of the Strahlweg register, as it is put into a static variable. -/
theorem bit_of_reg (reg : Half) (k : Nat) :
    ((reg >>> k) &&& 1#16).setWidth 32 = ofBool 32 (reg.getLsbD k) := by
  apply BitVec.eq_of_getLsbD_eq
  intro i hi
  rw [BitVec.getLsbD_setWidth, BitVec.getLsbD_and, BitVec.getLsbD_ushiftRight, getLsbD_ofBool,
    BitVec.getLsbD_one]
  by_cases hzero : i = 0
  · subst hzero
    simp
  · simp [hzero]

theorem strahlwegFlags_late {m : Message} (h : m.isLate = true) (latest timely : Option Message) :
    strahlwegFlags (heldFlags latest timely) m = heldFlags (some m) timely := by
  rw [strahlwegFlags, if_pos h]
  simp only [heldFlags, Option.isSome_some, Option.any_some, h]
  rfl

theorem strahlwegFlags_timely {m : Message} (h : m.isLate = false) (f : Flags) :
    strahlwegFlags f m = heldFlags (some m) (some m) := by
  rw [strahlwegFlags, h, if_neg (by decide)]
  simp only [heldFlags, ControlFlags.ofControl, Linac.blockBit, Linac.interlockBit, Option.any_some,
    h, ← bit_of_reg]
  rfl

namespace Firmware

theorem next_flags (s : Firmware) (c : Call) :
    (s.next c).flags =
      if c.msg.check ≠ statusOk then s.flags
      else if c.msg.action = .cmd then Flags.clear
      else if c.msg.action = .strahlwegWrite then strahlwegFlags s.flags c.msg
      else s.flags := by
  rw [next, doActionOperation]
  split
  · rfl
  · rw [dispatch]
    cases c.msg.action <;> rfl

theorem latestControl_concat (h : List Call) (c : Call) :
    latestControl (h ++ [c]) =
      if c.msg.action = .cmd then none
      else if c.msg.action = .strahlwegWrite ∧ c.msg.check = statusOk then some c.msg
      else latestControl h := by
  rw [latestControl, List.foldl_append]
  rfl

theorem latestTimely_concat (h : List Call) (c : Call) :
    latestTimely (h ++ [c]) =
      if c.msg.action = .cmd then none
      else if c.msg.Taken .strahlwegWrite then some c.msg
      else latestTimely h := by
  rw [latestTimely, List.foldl_append]
  rfl

theorem check_of_cmd {m : Message} (h : m.action = .cmd) : m.check = statusOk := by
  rw [Message.check, h]

theorem run_flags (crate : Crate) (slotSio : Half) (h : List Call) :
    ((start crate slotSio).run h).flags = heldFlags (latestControl h) (latestTimely h) := by
  induction h using List.reverseRecOn with
  | nil => rfl
  | append_singleton h c ih =>
    rw [run_concat, next_flags, ih, latestControl_concat, latestTimely_concat]
    by_cases hcmd : c.msg.action = .cmd
    · rw [if_neg (not_not.mpr (check_of_cmd hcmd)), if_pos hcmd, if_pos hcmd, if_pos hcmd]
      rfl
    rw [if_neg hcmd, if_neg hcmd, if_neg hcmd]
    by_cases hcheck : c.msg.check = statusOk
    · rw [if_neg (not_not.mpr hcheck)]
      by_cases hwrite : c.msg.action = .strahlwegWrite
      · rw [if_pos hwrite, if_pos ⟨hwrite, hcheck⟩]
        cases hlate : c.msg.isLate with
        | true =>
          rw [if_neg fun ht => absurd ht.timely (by rw [hlate]; decide)]
          exact strahlwegFlags_late hlate _ _
        | false =>
          rw [if_pos ⟨hwrite, hcheck, hlate⟩]
          exact strahlwegFlags_timely hlate _
      · rw [if_neg hwrite, if_neg fun h => hwrite h.1, if_neg fun h => hwrite h.action]
    · rw [if_pos hcheck, if_neg fun h => hcheck h.2, if_neg fun h => hcheck h.check]

end Firmware

/-- The bits of the static variables, as a message carries them. -/
theorem ofBpid_held (l : Linac) (latest timely : Option Message) :
    ControlFlags.ofBpid ((((heldFlags latest timely).sendBpid l).setWidth 14).setWidth 32) =
      { ControlFlags.ofControl l latest with
        block := (ControlFlags.ofControl l timely).block
        interlock := (ControlFlags.ofControl l timely).interlock } := by
  have hbits : ∀ block interlock received late : Bool,
      ControlFlags.ofBpid (((ofBool 32 block <<< 2 ||| ofBool 32 interlock <<< 3 |||
          (ofBool 32 received <<< 4 ||| ofBool 32 late <<< 5)).setWidth 14).setWidth 32) =
        ⟨block, interlock, received, late⟩ := by
    decide
  have hrec : latest.isSome = (ControlFlags.ofControl l latest).received := by
    cases latest <;> rfl
  have hlate : latest.any Message.isLate = (ControlFlags.ofControl l latest).late := by
    cases latest <;> rfl
  dsimp only
  rw [← hrec, ← hlate]
  cases l <;> exact hbits _ _ _ _

end Flags

/-! ### Reports -/

section Reports

variable {slotSio : Half} {f : Flags} {m : Message} {stale : Locals} {actStatus : Word} {x : Exec}

theorem read_getD {c : Chain} {k : Nat} {modAddr modReg data : Half} (h : c.After x k)
    (hmod : modAddr ≠ 0) (hmodules : c.x.crate.modules = x.crate.modules) :
    (c.read modAddr modReg data).2 = (x.regAfter (2 * (k + 1)) modAddr modReg).getD data := by
  rw [h.read_data hmod, hmodules, Exec.regAfter]
  split <;> rfl

/-- The times, as the firmware takes them from the registers or from the stack. -/
def seenRise (x : Exec) (stale : Locals) (l : Linac) : Half :=
  riseTime ((x.regAfter 2 modLogic1Addr l.regChopRiseAct).getD stale.tChopRiseAct)

def seenFall (x : Exec) (stale : Locals) (l : Linac) : Half :=
  fallTime ((x.regAfter 4 modLogic1Addr l.regChopFallAct).getD stale.tChopFallAct)

def seenCtrl (x : Exec) (stale : Locals) (l : Linac) : Half :=
  fallTime ((x.regAfter 6 modLogic1Addr l.regChopFallCtrl).getD stale.tChopFallCtrl)

def chopParam (x : Exec) (stale : Locals) (l : Linac) : Long :=
  (seenCtrl x stale l).setWidth 64 <<< 48 ||| (seenRise x stale l).setWidth 64 <<< 32 |||
    (seenFall x stale l).setWidth 64 <<< 16 |||
    (lenChopAct (seenRise x stale l) (seenFall x stale l)).setWidth 64

theorem reports_chopReport (l : Linac) (hlate : m.isLate = false)
    (hgid : evtGid m.evtId = gidPzuUn ∨ evtGid m.evtId = gidPzuUh) (hx : x.sent = []) :
    ∃ msg, reports l.evtStop (chopReport slotSio f m stale actStatus x l).1.sent = [msg] ∧
      msg.evtId = buildEvtidV1 gidLocalEcpuFrom l.evtStop 0 (evtSid m.evtId) (f.sendBpid l)
        (evtReserved m.evtId) ∧ msg.param = chopParam x stale l := by
  have h0 : (Chain.mk x statusOk slotSio).After x 0 := .start
  have h1 := @Chain.After.read _ modLogic1Addr l.regChopRiseAct stale.tChopRiseAct _ _ h0
    (by decide)
  have h2 := @Chain.After.read _ modLogic1Addr l.regChopFallAct stale.tChopFallAct _ _ h1
    (by decide)
  have hnot : ¬ DiagNo l.evtStop := by cases l <;> decide
  have hno : evtNo (buildEvtidV1 gidLocalEcpuFrom l.evtStop 0 (evtSid m.evtId) (f.sendBpid l)
      (evtReserved m.evtId)) = l.evtStop := by
    rw [B2b.evtNo_build]
    cases l <;> rfl
  obtain ⟨msg, hsent, hid, hparam⟩ := Exec.reports_ecaWriteTM hno
    ((((Chain.mk x statusOk slotSio).read modLogic1Addr l.regChopRiseAct
      stale.tChopRiseAct).1.read modLogic1Addr l.regChopFallAct
        stale.tChopFallAct).1.read modLogic1Addr l.regChopFallCtrl
          stale.tChopFallCtrl).1.x (chopParam x stale l)
  rw [Chain.reports_read hnot, Chain.reports_read hnot, Chain.reports_read hnot, hx] at hsent
  refine ⟨msg, ?_, hid, hparam⟩
  rw [chopReport, hlate, if_neg (by decide)]
  dsimp only
  rw [if_pos hgid, read_getD h0 (by decide) rfl, read_getD h1 (by decide) Chain.read_modules,
    read_getD h2 (by decide) (Chain.read_modules.trans Chain.read_modules)]
  exact hsent

/-- Four values in a parameter. -/
theorem extract_fields (a b c d : Half) :
    let p : Long := a.setWidth 64 <<< 48 ||| b.setWidth 64 <<< 32 ||| c.setWidth 64 <<< 16 |||
      d.setWidth 64
    p.extractLsb' 48 16 = a ∧ p.extractLsb' 32 16 = b ∧ p.extractLsb' 16 16 = c ∧
      p.extractLsb' 0 16 = d := by
  refine ⟨?_, ?_, ?_, ?_⟩
  all_goals
    apply BitVec.eq_of_getLsbD_eq
    intro i hi
    simp only [BitVec.getLsbD_setWidth, BitVec.getLsbD_extractLsb', BitVec.getLsbD_or,
      BitVec.getLsbD_shiftLeft]
    grind

section Linac

variable (x : Exec) (stale : Locals) (l : Linac)

theorem seenRise_iff : seenRise x stale l = (x.rise l).word ↔
    EdgeFit 7 (x.regAfter 2 modLogic1Addr l.regChopRiseAct) stale.tChopRiseAct := by
  rw [seenRise, riseTime_eq]
  exact edge_word_iff (by decide) _ _

theorem seenFall_iff : seenFall x stale l = (x.fall l).word ↔
    EdgeFit 14 (x.regAfter 4 modLogic1Addr l.regChopFallAct) stale.tChopFallAct := by
  rw [seenFall, fallTime_eq]
  exact edge_word_iff (by decide) _ _

theorem seenCtrl_iff : seenCtrl x stale l = (x.ctrl l).word ↔
    EdgeFit 14 (x.regAfter 6 modLogic1Addr l.regChopFallCtrl) stale.tChopFallCtrl := by
  rw [seenCtrl, fallTime_eq]
  exact edge_word_iff (by decide) _ _

theorem len_iff : LenReported (x.rise l) (x.fall l) (lenChopAct (x.rise l).word (x.fall l).word) ↔
    LenFit (x.rise l) (x.fall l) :=
  lenChopAct_iff (Edge.ofReg_small (by decide) _) (Edge.ofReg_small (by decide) _)

theorem flags_iff (latest timely : Option Message) :
    ControlFlags.ofBpid ((((heldFlags latest timely).sendBpid l).setWidth 14).setWidth 32) =
      ControlFlags.ofControl l latest ↔ FlagsFit l latest timely := by
  rw [ofBpid_held, FlagsFit, ControlFlags.ext_iff]
  constructor
  · rintro ⟨hblock, hinterlock, -, -⟩
    exact ⟨hblock.symm, hinterlock.symm⟩
  · rintro ⟨hblock, hinterlock⟩
    exact ⟨hblock.symm, hinterlock.symm, rfl, rfl⟩

end Linac

theorem chopReported_iff (l : Linac) {msg : TimingMsg} {h : List Call}
    (hflags : f = heldFlags (latestControl h) (latestTimely h))
    (hid : msg.evtId = buildEvtidV1 gidLocalEcpuFrom l.evtStop 0 (evtSid m.evtId) (f.sendBpid l)
      (evtReserved m.evtId)) (hparam : msg.param = chopParam x stale l) :
    ChopReported l (x.rise l) (x.fall l) (x.ctrl l) (latestControl h) msg ↔
      ChopFit x stale l h := by
  obtain ⟨hc, hr, hf, hl⟩ := extract_fields (seenCtrl x stale l) (seenRise x stale l)
    (seenFall x stale l) (lenChopAct (seenRise x stale l) (seenFall x stale l))
  rw [← chopParam, ← hparam] at hc hr hf hl
  have hbpid : evtBpid msg.evtId = ((f.sendBpid l).setWidth 14).setWidth 32 := by
    rw [hid, B2b.evtBpid_build]
  constructor
  · rintro ⟨hctrl, hrise, hfall, hlen, hcarried⟩
    rw [hc] at hctrl
    rw [hr] at hrise
    rw [hf] at hfall
    rw [hl, hrise, hfall] at hlen
    rw [hbpid, hflags] at hcarried
    exact ⟨(seenRise_iff x stale l).mp hrise, (seenFall_iff x stale l).mp hfall,
      (seenCtrl_iff x stale l).mp hctrl, (len_iff x l).mp hlen, (flags_iff l _ _).mp hcarried⟩
  · rintro ⟨hrise, hfall, hctrl, hlen, hcarried⟩
    have hrise' := (seenRise_iff x stale l).mpr hrise
    have hfall' := (seenFall_iff x stale l).mpr hfall
    refine ⟨hc.trans ((seenCtrl_iff x stale l).mpr hctrl), hr.trans hrise', hf.trans hfall', ?_, ?_⟩
    · rw [hl, hrise', hfall']
      exact (len_iff x l).mpr hlen
    · rw [hbpid, hflags]
      exact (flags_iff l _ _).mpr hcarried

theorem reports_iqStop (q : Source) (hlate : m.isLate = false) (hgid : evtGid m.evtId = q.gid)
    (hx : x.sent = []) :
    ∃ msg, reports q.evtStop (iqStop slotSio m stale actStatus x).1.sent = [msg] ∧
      msg.param = (rpgGatelen ((x.regAfter 2 q.rpgAddr modRpgGatelenHiReg).getD stale.rpgGatelenHi)
        ((x.regAfter 4 q.rpgAddr modRpgGatelenLoReg).getD stale.rpgGatelenLo)).setWidth 64 := by
  have hmod : q.rpgAddr ≠ 0 := by cases q <;> decide
  have h0 : (Chain.mk x statusOk slotSio).After x 0 := .start
  have h1 := @Chain.After.read _ q.rpgAddr modRpgGatelenHiReg stale.rpgGatelenHi _ _ h0 hmod
  have hnot : ¬ DiagNo q.evtStop := by cases q <;> decide
  have haddr : (if evtGid m.evtId = gidPzuQl then modRpgIqlAddr
      else if evtGid m.evtId = gidPzuQr then modRpgIqrAddr else stale.milModAddr) = q.rpgAddr := by
    rw [hgid]
    cases q <;> rfl
  have hevt : (if evtGid m.evtId = gidPzuQl then ecaDoQlStop
      else if evtGid m.evtId = gidPzuQr then ecaDoQrStop else 0) = q.evtStop := by
    rw [hgid]
    cases q <;> rfl
  have hno : evtNo (buildEvtidV1 gidLocalEcpuFrom q.evtStop 0 (evtSid m.evtId) 0 0) =
      q.evtStop := by
    rw [B2b.evtNo_build]
    cases q <;> rfl
  obtain ⟨msg, hsent, -, hparam⟩ := Exec.reports_ecaWriteTM hno
    (((Chain.mk x statusOk slotSio).read q.rpgAddr modRpgGatelenHiReg
      stale.rpgGatelenHi).1.read q.rpgAddr modRpgGatelenLoReg stale.rpgGatelenLo).1.x _
  rw [Chain.reports_read hnot, Chain.reports_read hnot, hx] at hsent
  refine ⟨msg, ?_, hparam⟩
  rw [iqStop, hlate, if_neg (by decide)]
  dsimp only
  rw [haddr, hevt, read_getD h0 hmod rfl, read_getD h1 hmod Chain.read_modules]
  exact hsent

/-! The counter of a gate. -/

theorem toNat_gateCounter (hi lo : Half) :
    (gateCounter hi lo).toNat = hi.toNat % 2 ^ 9 * 2 ^ 16 + lo.toNat := by
  have hlow : (hi &&& 0x1ff).toNat = hi.toNat % 2 ^ 9 := toNat_and_lowMask hi 9 (by decide)
  have hlt : hi.toNat % 2 ^ 9 < 2 ^ 9 := Nat.mod_lt _ (by decide)
  rw [gateCounter, BitVec.toNat_or, BitVec.toNat_shiftLeft, BitVec.toNat_setWidth,
    BitVec.toNat_setWidth, hlow, Nat.mod_eq_of_lt (Nat.lt_trans hlt (by decide)),
    Nat.mod_eq_of_lt (Nat.lt_trans lo.isLt (by decide)), Nat.shiftLeft_eq,
    Nat.mod_eq_of_lt (by omega), ← Nat.shiftLeft_eq, ← Nat.shiftLeft_add_eq_or_of_lt lo.isLt]

theorem gateReported_iff {hi lo hi' lo' : Half} {msg : TimingMsg}
    (hparam : msg.param = (rpgGatelen hi' lo').setWidth 64) :
    GateReported hi lo msg ↔
      hi' = 0#16 ∨ hi' >>> 8 ≠ 0#16 ∨ gateCounter hi' lo' = gateCounter hi lo := by
  rw [GateReported, hparam, rpgGatelen]
  by_cases hzero : hi' = 0
  · rw [if_pos hzero]
    exact iff_of_true (.inr (.inl rfl)) (.inl hzero)
  rw [if_neg hzero]
  by_cases hhigh : hi' >>> 8 ≠ 0
  · rw [if_pos hhigh]
    exact iff_of_true (.inr (.inr rfl)) (.inr (.inl hhigh))
  rw [if_neg hhigh]
  have hcounter := toNat_gateCounter hi' lo'
  -- the counter is less than both markers
  have hsmall : (gateCounter hi' lo').toNat < 2 ^ 25 := by
    have hlt : hi'.toNat % 2 ^ 9 < 2 ^ 9 := Nat.mod_lt _ (by decide)
    have hlo := lo'.isLt
    omega
  have hwide : ((gateCounter hi' lo').setWidth 64).toNat = (gateCounter hi' lo').toNat := by
    rw [BitVec.toNat_setWidth, Nat.mod_eq_of_lt (Nat.lt_trans hsmall (by decide))]
  constructor
  · rintro (h | h | h)
    · refine .inr (.inr (BitVec.eq_of_toNat_eq ?_))
      rw [← hwide, h, toNat_gateCounter]
    · rw [h] at hwide
      exact absurd (hwide ▸ hsmall) (by decide)
    · rw [h] at hwide
      exact absurd (hwide ▸ hsmall) (by decide)
  · rintro (h | h | h)
    · exact absurd h hzero
    · exact absurd h hhigh
    · refine .inl ?_
      rw [hwide, h, toNat_gateCounter]

end Reports

namespace Firmware

section Stops

variable (crate : Crate) (slotSio : Half) (h : List Call) {c : Call}

theorem linac_reported_iff {l : Linac} (hk : (Stop.linac l).Of c.msg) :
    (start crate slotSio).Reported h c (.linac l) ↔
      ChopFit (((start crate slotSio).run h).exec c) c.stale l h := by
  obtain ⟨htaken, hgid⟩ := hk
  obtain ⟨msg, hsent, hid, hparam⟩ := @reports_chopReport
    ((start crate slotSio).run h).slotSio ((start crate slotSio).run h).flags c.msg c.stale
    c.actStatus (((start crate slotSio).run h).exec c) l htaken.timely hgid rfl
  have hnot : ¬ DiagNo l.evtStop := by cases l <;> decide
  have hreports : reports l.evtStop (((start crate slotSio).run h).sent c) = [msg] := by
    rw [sent_taken htaken.check, dispatch, htaken.action]
    exact (Exec.reports_writeToModuleMil hnot).trans hsent
  have hiff := chopReported_iff l (run_flags crate slotSio h) hid hparam
  constructor
  · rintro ⟨msg', hmsg', hreported⟩
    obtain rfl : msg = msg' := List.singleton_inj.mp (hreports.symm.trans hmsg')
    exact hiff.mp hreported
  · intro hfit
    exact ⟨msg, hreports, hiff.mpr hfit⟩

theorem source_reported_iff {q : Source} (hk : (Stop.source q).Of c.msg) :
    (start crate slotSio).Reported h c (.source q) ↔
      GateFit (((start crate slotSio).run h).exec c) c.stale q := by
  obtain ⟨htaken, hgid⟩ := hk
  obtain ⟨msg, hsent, hparam⟩ := @reports_iqStop
    ((start crate slotSio).run h).slotSio c.msg c.stale c.actStatus
    (((start crate slotSio).run h).exec c) q htaken.timely hgid rfl
  have hreports : reports q.evtStop (((start crate slotSio).run h).sent c) = [msg] := by
    rw [sent_taken htaken.check, dispatch, htaken.action]
    exact hsent
  constructor
  · rintro ⟨msg', hmsg', hreported⟩
    obtain rfl : msg = msg' := List.singleton_inj.mp (hreports.symm.trans hmsg')
    exact (gateReported_iff hparam).mp hreported
  · intro hfit
    exact ⟨msg, hreports, (gateReported_iff hparam).mpr hfit⟩

/-- The report of a pulse is right if and only if it has what it takes. -/
theorem pulse_reported_iff {k : Stop} (hk : k.Of c.msg) :
    (start crate slotSio).Reported h c k ↔ (start crate slotSio).Fit h c k := by
  cases k with
  | linac l => exact linac_reported_iff crate slotSio h hk
  | source q => exact source_reported_iff crate slotSio h hk

end Stops

section Sample

/-- The end of a pulse at the HLI; the register of the rising edge has this content, and the others
are zero. -/
def hliStop (rise : Half) : Call :=
  { quietCall ecaDoHliStop 0x11c3fc2000000000 0 with
    measured := ⟨fun _ => 0, fun _ a =>
      if a = modAddrBus modLogic1Addr Linac.hli.regChopRiseAct then rise else 0, fun _ _ => 0⟩ }

theorem hliStop_of (rise : Half) : (Stop.linac .hli).Of (hliStop rise).msg := by
  have hzero : (Stop.linac .hli).Of (hliStop 0).msg := by decide
  exact hzero

theorem hliStop_reported : (start boot.crate 0).Reported [] (hliStop 0) (.linac .hli) := by
  refine (pulse_reported_iff boot.crate 0 [] (hliStop_of 0)).mpr ?_
  refine ⟨.inl ?_, .inl ?_, .inl ?_, ?_, rfl, rfl⟩
  · decide
  · decide
  · decide
  · exact trivial

/-- Without a falling edge the length is the marker minus the time of the rising edge. -/
theorem hliStop_not_reported :
    ¬ ∀ (crate : Crate) (slotSio : Half) (h : List Call) (c : Call) (k : Stop), k.Of c.msg →
      (start crate slotSio).Reported h c k := by
  intro hall
  have hreported := hall boot.crate 0 [] (hliStop 0x8005) _ (hliStop_of 0x8005)
  have hfit := (linac_reported_iff boot.crate 0 [] (hliStop_of 0x8005)).mp hreported
  have hrise : (((start boot.crate 0).run []).exec (hliStop 0x8005)).rise .hli = .time 5 := by
    decide
  have hfall : (((start boot.crate 0).run []).exec (hliStop 0x8005)).fall .hli = .noData := by
    decide
  have hlen := hfit.len
  rw [hrise, hfall] at hlen
  exact absurd (show (5 : Half) = 0#16 from hlen) (by decide)

end Sample

end Firmware

end UniChop
