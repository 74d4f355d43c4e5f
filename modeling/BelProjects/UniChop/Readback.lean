import BelProjects.UniChop.Operation

/-!
# Reading back the settings of the chopper unit

A message writes three settings to the modules, another one asks for them.  The answer has the
Anforder mask at another position than the message that wrote it, where it covers a part of the
Strahlweg mask; and the answer is sent also if a transfer has failed.
-/

namespace UniChop

open B2b (Word Long TimingMsg evtNo buildEvtidV1)

/-- The six transfers that write or read the three settings succeed. -/
def Call.Succeeds (c : Call) : Prop := ∀ n, n < 6 → (c.transfers n).busStatus = milStatOk

instance (c : Call) : Decidable c.Succeeds :=
  Nat.decidableBallLT 6 fun n _ => (c.transfers n).busStatus = milStatOk

/-- A write to a module may reach a setting. -/
def Hits (ifbAddr modAddr modReg : Half) : Prop :=
  ifbAddr = ifbAddrCu ∧
    (modAddr = 0 ∧ modReg = ifbFcDataBusW ∨
      modAddr ≠ 0 ∧ SettingAt ifbAddr (modAddrBus modAddr modReg))

instance (ifbAddr modAddr modReg : Half) : Decidable (Hits ifbAddr modAddr modReg) :=
  inferInstanceAs (Decidable (_ ∧ _))

/-- A standard write that may reach a setting. -/
def Message.Overwrites (m : Message) : Prop :=
  m.Taken .milSWrite ∧
    Hits ((m.param.extractLsb' 32 8).setWidth 16) ((m.param.extractLsb' 24 8).setWidth 16)
      ((m.param.extractLsb' 16 8).setWidth 16)

instance (m : Message) : Decidable m.Overwrites := inferInstanceAs (Decidable (_ ∧ _))

/-- What has been written, if all of it has been written and nothing else since. -/
def afterCall (written : Option Settings) (c : Call) : Option Settings :=
  if c.msg.Taken .strahlwegWrite then
    if c.Succeeds then some (Settings.ofParam c.msg.param) else none
  else if c.msg.Overwrites then none
  else written

def written (h : List Call) : Option Settings := h.foldl afterCall none

namespace Firmware

variable (s : Firmware)

def answers (h : List Call) (r : Call) : List TimingMsg :=
  reports ecaDoStrahlwegRead ((s.run h).sent r)

/-- The answer to a request has the values that have been written, at the same bits; and there is
no answer if a value could not be read. -/
structure ReadsBack (h : List Call) (r : Call) : Prop where
  equal : r.Succeeds → ∀ v ∈ written h, ∃ m,
    s.answers h r = [m] ∧ Settings.ofParam m.param = v
  unread : ¬ r.Succeeds → s.answers h r = []

end Firmware

/-! ### The settings in the modules -/

section Settings

variable {c c' : Crate} {x : Exec} {slotSio ifbAddr modAddr modReg data : Half}

theorem Crate.settings_congr (h : ∀ b a, SettingAt b a → c'.modules b a = c.modules b a) :
    c'.settings = c.settings := by
  unfold Crate.settings
  rw [h _ _ (by decide), h _ _ (by decide), h _ _ (by decide)]

theorem Crate.settings_of_modules (h : c'.modules = c.modules) : c'.settings = c.settings :=
  settings_congr fun _ _ _ => by rw [h]

theorem Crate.measure_settings (measured : Crate) : (c.measure measured).settings = c.settings :=
  settings_congr fun _ _ h => if_pos h

theorem writeToModuleMil_settings (h : ¬ Hits ifbAddr modAddr modReg) :
    (x.writeToModuleMil slotSio ifbAddr modAddr modReg data).1.crate.settings =
      x.crate.settings := by
  by_cases hmod : modAddr = 0
  · subst hmod
    by_cases hreg : modReg = ifbFcDataBusW
    · -- the data bus of another slave
      have hifb : ifbAddr ≠ ifbAddrCu := fun hifb => h ⟨hifb, .inl ⟨rfl, hreg⟩⟩
      subst hreg
      refine Crate.settings_congr fun b a hset => ?_
      have hne : b ≠ ifbAddr := fun hb => hifb (hb ▸ hset.1)
      change (x.writeDevMil ifbAddr ifbFcDataBusW data).1.crate.modules b a = _
      rw [Exec.writeDevMil_crate]
      split
      · rw [Crate.write_data_modules]
        exact if_neg fun hb => hne hb.1
      · rfl
    · exact Crate.settings_of_modules (Exec.writeToModuleMil_slave hreg)
  · refine Crate.settings_congr fun b a hset => ?_
    rw [Exec.writeToModuleMil_modules hmod]
    split
    · refine if_neg ?_
      rintro ⟨rfl, rfl⟩
      exact h ⟨hset.1, .inr ⟨hmod, hset⟩⟩
    · rfl

theorem Chain.read_settings {c : Chain} :
    (c.read modAddr modReg data).1.x.crate.settings = c.x.crate.settings :=
  Crate.settings_of_modules Chain.read_modules

end Settings

section Cases

variable {slotSio : Half} {f : Flags} {m : Message} {stale : Locals} {actStatus : Word} {x : Exec}

/-- A message that writes the settings has written them, if the transfers have succeeded. -/
theorem strahlwegWrite_settings (ht : m.isLate = false) (hok : x.OkUpTo 6) :
    (strahlwegWrite slotSio m actStatus x).1.crate.settings = Settings.ofParam m.param := by
  have h0 : (Chain.mk x statusOk slotSio).After x 0 := .start
  have hok1 : x.OkUpTo (2 * (0 + 1)) := hok.mono (by decide)
  have hok2 : x.OkUpTo (2 * (1 + 1)) := hok.mono (by decide)
  have h1 := @Chain.After.write _ modLogic1Addr modLogic1RegStrahlwegReg
    (Settings.ofParam m.param).strahlwegReg _ _ h0 (by decide)
  have h2 := @Chain.After.write _ modLogic1Addr modLogic1RegStrahlwegMask
    (Settings.ofParam m.param).strahlwegMask _ _ h1 (by decide)
  have h3 := @Chain.After.write _ modLogic2Addr modLogic2RegAnforderMask
    (Settings.ofParam m.param).anforderMask _ _ h2 (by decide)
  rw [strahlwegWrite, ht, if_neg (by decide)]
  dsimp only
  rw [if_pos (h3.status.mpr hok), writeToModuleMil_settings (by decide),
    writeToModuleMil_settings (by decide)]
  unfold Crate.settings
  rw [h2.write_modules (by decide) hok, h1.write_modules (by decide) hok2,
    h0.write_modules (by decide) hok1]
  rfl

theorem strahlwegRead_settings :
    (strahlwegRead slotSio m stale actStatus x).1.crate.settings = x.crate.settings := by
  rw [strahlwegRead]
  split
  · rfl
  · exact Chain.read_settings.trans (Chain.read_settings.trans Chain.read_settings)

theorem iqStop_settings :
    (iqStop slotSio m stale actStatus x).1.crate.settings = x.crate.settings := by
  rw [iqStop]
  split
  · rfl
  · exact Chain.read_settings.trans Chain.read_settings

theorem chopStop_settings (l : Linac) :
    (chopStop slotSio f m stale actStatus x l).1.crate.settings = x.crate.settings := by
  refine (writeToModuleMil_settings (by cases l <;> decide)).trans ?_
  rw [chopReport]
  split
  · rfl
  · dsimp only
    rw [Exec.ecaWriteTM_crate, Chain.read_settings, Chain.read_settings, Chain.read_settings]

theorem milSRead_settings :
    (milSRead slotSio m stale actStatus x).1.crate.settings = x.crate.settings := by
  rw [milSRead]
  split
  · rfl
  · exact Crate.settings_of_modules
      (@Exec.readFromModuleMil_modules x slotSio _ _ _ stale.milData)

end Cases

/-! ### A call and a run -/

namespace Firmware

variable {s : Firmware} {c : Call}

theorem next_refused (h : c.msg.check ≠ statusOk) :
    (s.next c).crate.settings = s.crate.settings := by
  rw [next, doActionOperation, if_pos h]
  exact Crate.measure_settings c.measured

theorem exec_okUpTo : (s.exec c).OkUpTo 6 ↔ c.Succeeds := .rfl

theorem next_written (h : c.msg.Taken .strahlwegWrite) (hok : c.Succeeds) :
    (s.next c).crate.settings = Settings.ofParam c.msg.param := by
  rw [next_crate h.check, dispatch, h.action]
  exact strahlwegWrite_settings h.timely hok

theorem next_kept (hw : ¬ c.msg.Taken .strahlwegWrite) (ho : ¬ c.msg.Overwrites) :
    (s.next c).crate.settings = s.crate.settings := by
  by_cases hcheck : c.msg.check = statusOk
  case neg => exact next_refused hcheck
  have hexec : (s.exec c).crate.settings = s.crate.settings := Crate.measure_settings c.measured
  rw [next_crate hcheck, dispatch, ← hexec]
  cases haction : c.msg.action with
  | strahlwegWrite =>
    have hlate : c.msg.isLate = true := by
      by_contra hlate
      exact hw ⟨haction, hcheck, Bool.eq_false_iff.mpr hlate⟩
    dsimp only
    rw [strahlwegWrite, if_pos hlate]
  | strahlwegRead => exact strahlwegRead_settings
  | milSWrite =>
    dsimp only
    rw [milSWrite]
    split
    case isTrue => rfl
    case isFalse hlate =>
      exact writeToModuleMil_settings fun hits =>
        ho ⟨⟨haction, hcheck, Bool.eq_false_iff.mpr hlate⟩, hits⟩
  | milSRead => exact milSRead_settings
  | iqStop => exact iqStop_settings
  | chopStop l => exact chopStop_settings l
  | cmd => rfl
  | other => rfl

theorem run_settings (h : List Call) :
    ∀ v ∈ written h, (s.run h).crate.settings = v := by
  induction h using List.reverseRecOn with
  | nil =>
    intro v hv
    cases hv
  | append_singleton h c ih =>
    intro v hv
    rw [written, List.foldl_append, List.foldl_cons, List.foldl_nil, afterCall] at hv
    rw [run_concat]
    by_cases hw : c.msg.Taken .strahlwegWrite
    · rw [if_pos hw] at hv
      by_cases hok : c.Succeeds
      · rw [if_pos hok] at hv
        cases hv
        exact next_written hw hok
      · rw [if_neg hok] at hv
        cases hv
    · rw [if_neg hw] at hv
      by_cases ho : c.msg.Overwrites
      · rw [if_pos ho] at hv
        cases hv
      · rw [if_neg ho] at hv
        rw [next_kept hw ho]
        exact ih v hv

end Firmware

/-! ### The answer -/

def Settings.answer (v : Settings) : Long :=
  v.strahlwegReg.setWidth 64 ||| v.strahlwegMask.setWidth 64 <<< 16 |||
    v.anforderMask.setWidth 64 <<< 24

theorem Settings.getLsbD_answer (v : Settings) {i : Nat} (hi : i < 64) :
    v.answer.getLsbD i = (v.strahlwegReg.getLsbD i ||
      decide (16 ≤ i) && v.strahlwegMask.getLsbD (i - 16) ||
        decide (24 ≤ i) && v.anforderMask.getLsbD (i - 24)) := by
  simp only [answer, BitVec.getLsbD_or, BitVec.getLsbD_shiftLeft, BitVec.getLsbD_setWidth, hi,
    decide_true, Bool.true_and]
  grind

theorem Settings.getLsbD_anforder (v : Settings) {i : Nat} (hi : i < 16) :
    (ofParam v.answer).anforderMask.getLsbD i = v.anforderMask.getLsbD (i + 8) := by
  have hreg : v.strahlwegReg.getLsbD (32 + i) = false := BitVec.getLsbD_of_ge _ _ (by omega)
  have hmask : v.strahlwegMask.getLsbD (32 + i - 16) = false := BitVec.getLsbD_of_ge _ _ (by omega)
  have hshift : 32 + i - 24 = i + 8 := by omega
  rw [ofParam, BitVec.getLsbD_extractLsb', getLsbD_answer v (by omega), hreg, hmask, hshift]
  simp only [decide_eq_true hi, Bool.and_false, Bool.or_false, Bool.true_and, Bool.false_or,
    decide_eq_true (show 24 ≤ 32 + i by omega)]

theorem Settings.ofParam_answer {v : Settings} (h : v.anforderMask = 0#16) :
    ofParam v.answer = v := by
  have hbit (i : Nat) : v.anforderMask.getLsbD i = false := by rw [h, BitVec.getLsbD_zero]
  obtain ⟨reg, mask, anforder⟩ := v
  rw [Settings.mk.injEq]
  refine ⟨?_, ?_, ?_⟩
  · apply BitVec.eq_of_getLsbD_eq
    intro i hi
    rw [ofParam, BitVec.getLsbD_extractLsb', getLsbD_answer _ (by omega), hbit]
    simp [hi, show ¬ 16 ≤ i by omega]
  · apply BitVec.eq_of_getLsbD_eq
    intro i hi
    rw [ofParam, BitVec.getLsbD_extractLsb', getLsbD_answer _ (by omega), hbit]
    simp [hi]
  · apply BitVec.eq_of_getLsbD_eq
    intro i hi
    exact (getLsbD_anforder _ hi).trans ((hbit _).trans (hbit i).symm)

theorem Settings.ofParam_answer_iff (v : Settings) :
    ofParam v.answer = v ↔ v.anforderMask = 0#16 := by
  refine ⟨fun h => ?_, ofParam_answer⟩
  have hbits (i : Nat) (hi : i < 16) :
      v.anforderMask.getLsbD i = v.anforderMask.getLsbD (i + 8) := by
    rw [← getLsbD_anforder v hi, h]
  apply BitVec.eq_of_getLsbD_eq
  intro i hi
  rw [BitVec.getLsbD_zero, hbits i hi]
  -- the mask moved by eight bits, twice
  rcases Nat.lt_or_ge (i + 8) 16 with hlt | hge
  · rw [hbits (i + 8) hlt]
    exact BitVec.getLsbD_of_ge _ _ (by omega)
  · exact BitVec.getLsbD_of_ge _ _ hge

section Answer

variable {slotSio : Half} {m : Message} {stale : Locals} {actStatus : Word} {x : Exec}

def readSettings (x : Exec) (stale : Locals) : Settings where
  strahlwegReg := if x.OkUpTo 2 then x.crate.settings.strahlwegReg else stale.strahlwegReg
  strahlwegMask := if x.OkUpTo 4 then x.crate.settings.strahlwegMask else stale.strahlwegMask
  anforderMask := if x.OkUpTo 6 then x.crate.settings.anforderMask else stale.anforderMask

theorem readSettings_of_ok (h : x.OkUpTo 6) : readSettings x stale = x.crate.settings := by
  rw [readSettings, if_pos h, if_pos (h.mono (by decide)), if_pos (h.mono (by decide))]

/-- A request is answered in any case. -/
theorem reports_strahlwegRead (ht : m.isLate = false) (hx : x.sent = []) :
    ∃ msg, reports ecaDoStrahlwegRead (strahlwegRead slotSio m stale actStatus x).1.sent = [msg] ∧
      msg.param = (readSettings x stale).answer := by
  have h0 : (Chain.mk x statusOk slotSio).After x 0 := .start
  have h1 := @Chain.After.read _ modLogic1Addr modLogic1RegStrahlwegReg stale.strahlwegReg _ _ h0
    (by decide)
  have h2 := @Chain.After.read _ modLogic1Addr modLogic1RegStrahlwegMask stale.strahlwegMask _ _ h1
    (by decide)
  have hnot : ¬ DiagNo ecaDoStrahlwegRead := by decide
  rw [strahlwegRead, ht, if_neg (by decide)]
  dsimp only
  rw [h0.read_data (by decide), h1.read_data (by decide), h2.read_data (by decide)]
  simp only [Chain.read_modules]
  have hno : evtNo (buildEvtidV1 gidLocalEcpuFrom ecaDoStrahlwegRead 0 0 0 0) =
      ecaDoStrahlwegRead := B2b.evtNo_build ..
  obtain ⟨msg, hsent, -, hparam⟩ := Exec.reports_ecaWriteTM hno
    ((((Chain.mk x statusOk slotSio).read modLogic1Addr modLogic1RegStrahlwegReg
      stale.strahlwegReg).1.read modLogic1Addr modLogic1RegStrahlwegMask
        stale.strahlwegMask).1.read modLogic2Addr modLogic2RegAnforderMask
          stale.anforderMask).1.x (readSettings x stale).answer
  refine ⟨msg, hsent.trans ?_, hparam⟩
  rw [Chain.reports_read hnot, Chain.reports_read hnot, Chain.reports_read hnot, hx]
  rfl

end Answer

namespace Firmware

variable {s : Firmware}

theorem answers_eq (h : List Call) {r : Call} (hr : r.msg.Taken .strahlwegRead) :
    ∃ msg, s.answers h r = [msg] ∧
      msg.param = (readSettings ((s.run h).exec r) r.stale).answer := by
  rw [answers, sent_taken hr.check, dispatch, hr.action]
  exact reports_strahlwegRead hr.timely rfl

theorem readSettings_written {h : List Call} {r : Call} (hok : r.Succeeds) {v : Settings}
    (hv : v ∈ written h) : readSettings ((s.run h).exec r) r.stale = v := by
  rw [readSettings_of_ok (exec_okUpTo.mpr hok), ← run_settings h v hv]
  exact Crate.measure_settings r.measured

/-- The settings are read back as they were written if all transfers succeed and the Anforder mask
is zero, and only then. -/
theorem readsBack_iff (s : Firmware) (h : List Call) {r : Call} (hr : r.msg.Taken .strahlwegRead) :
    s.ReadsBack h r ↔ r.Succeeds ∧ ∀ v ∈ written h, v.anforderMask = 0#16 := by
  obtain ⟨msg, hanswer, hparam⟩ := s.answers_eq h hr
  constructor
  · rintro ⟨hequal, hunread⟩
    have hok : r.Succeeds := by
      by_contra hfail
      rw [hunread hfail] at hanswer
      cases hanswer
    refine ⟨hok, fun v hv => ?_⟩
    obtain ⟨msg', hanswer', hmsg⟩ := hequal hok v hv
    rw [hanswer] at hanswer'
    cases hanswer'
    rw [hparam, readSettings_written hok hv] at hmsg
    exact v.ofParam_answer_iff.mp hmsg
  · rintro ⟨hok, hzero⟩
    refine ⟨fun _ v hv => ⟨msg, hanswer, ?_⟩, fun hfail => absurd hok hfail⟩
    rw [hparam, readSettings_written hok hv]
    exact Settings.ofParam_answer (hzero v hv)

section Sample

def writeCall (param : Long) : Call :=
  quietCall ecaDoStrahlwegWrite 0x1ff0fa0000000000 param

def readCall : Call := quietCall ecaDoStrahlwegRead 0x1ff0fa1000000000 0

theorem written_writeCall (param : Long) :
    written [writeCall param] = some (Settings.ofParam param) := by
  have hzero : (writeCall 0).msg.action = .strahlwegWrite ∧ (writeCall 0).msg.check = statusOk := by
    decide
  have hw : (writeCall param).msg.Taken .strahlwegWrite := ⟨hzero.1, hzero.2, rfl⟩
  have hok : (writeCall param).Succeeds := fun _ _ => rfl
  rw [written, List.foldl_cons, List.foldl_nil, afterCall, if_pos hw, if_pos hok]
  rfl

theorem readCall_taken : readCall.msg.Taken .strahlwegRead := ⟨by decide, by decide, rfl⟩

theorem writeCall_readsBack : boot.ReadsBack [writeCall 0xff0001] readCall := by
  refine (readsBack_iff boot [writeCall 0xff0001] readCall_taken).mpr ⟨fun _ _ => rfl, ?_⟩
  intro v hv
  rw [written_writeCall] at hv
  cases hv
  rfl

/-- The Anforder mask is read as another one, and changes the Strahlweg mask. -/
theorem writeCall_not_readsBack :
    ¬ ∀ (s : Firmware) (h : List Call) (r : Call), r.msg.Taken .strahlwegRead →
      s.ReadsBack h r := by
  intro hall
  have hok : readCall.Succeeds := fun _ _ => rfl
  have hv : Settings.ofParam 0xa00ff0001 ∈ written [writeCall 0xa00ff0001] := written_writeCall _
  obtain ⟨msg, hanswer, hmsg⟩ := (hall boot [writeCall 0xa00ff0001] readCall readCall_taken).equal
    hok _ hv
  obtain ⟨msg', hanswer', hparam⟩ := boot.answers_eq [writeCall 0xa00ff0001] readCall_taken
  rw [hanswer] at hanswer'
  cases hanswer'
  rw [hparam, readSettings_written hok hv] at hmsg
  exact absurd ((Settings.ofParam_answer_iff _).mp hmsg) (by decide)

end Sample

end Firmware

end UniChop
