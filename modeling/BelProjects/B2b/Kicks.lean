import BelProjects.B2b.Calls
import Mathlib.Data.List.Induction

/-!
# Kicker triggers

Between two starts at most one trigger is sent for each kicker, the one for injection after
the one for extraction and only in the modes that inject.  The state of the mini machine
says which triggers have been sent, so that no event can enter a trigger state again.
-/

namespace B2b

def TimingMsg.kick (m : TimingMsg) : Option Ring :=
  if evtNo m.evtId = ecaTriggerExt then some .ext
  else if evtNo m.evtId = ecaTriggerInj then some .inj
  else none

/-- A call goes on within its state and triggers no kicker. -/
def Quiet (c c' : Call) : Prop :=
  c'.ret = c.ret ∧ ∃ msgs, Acts c c' msgs ∧ ∀ m ∈ msgs, m.kick = none

theorem evtNo_shiftStart (evtId : Long) : evtNo (evtId ||| shiftStart) = evtNo evtId := by
  have hbits : ∀ i : Fin 12, shiftStart.getLsbD (36 + i.1) = false := by decide
  apply BitVec.eq_of_getLsbD_eq
  intro i hi
  simp only [evtNo, BitVec.getLsbD_setWidth, BitVec.getLsbD_extractLsb', BitVec.getLsbD_or]
  by_cases hlt : i < 12
  · rw [hbits ⟨i, hlt⟩, Bool.or_false]
  · simp [hlt]

namespace Quiet

variable {c c' c'' : Call}

theorem of_eq (transfer : c'.cbu.transfer = c.cbu.transfer) (mState : c'.cbu.mState = c.cbu.mState)
    (nPhaseResult : c'.cbu.nPhaseResult = c.cbu.nPhaseResult) (sets : c'.cbu.sets = c.cbu.sets)
    (out : c'.out = c.out) (ret : c'.ret = c.ret) : Quiet c c' :=
  ⟨ret, [], .same transfer mState nPhaseResult sets out,
    fun _ h => absurd h List.not_mem_nil⟩

theorem refl (c : Call) : Quiet c c := of_eq rfl rfl rfl rfl rfl rfl

theorem trans (h : Quiet c c') (h' : Quiet c' c'') : Quiet c c'' := by
  obtain ⟨hret, msgs, hacts, hkick⟩ := h
  obtain ⟨hret', msgs', hacts', hkick'⟩ := h'
  refine ⟨hret'.trans hret, msgs ++ msgs', hacts.trans hacts', fun m hm => ?_⟩
  rcases List.mem_append.mp hm with hm | hm
  · exact hkick m hm
  · exact hkick' m hm

/-- A message of another kind is sent. -/
theorem send (h : Quiet c c') (e : Action) (s : Sending) (deadline evtId param : Long) (tef : Word)
    (hext : evtNo evtId ≠ ecaTriggerExt) (hinj : evtNo evtId ≠ ecaTriggerInj) :
    Quiet c (c'.send e s deadline evtId param tef) := by
  refine h.trans ⟨rfl, _, .send c' e s deadline evtId param tef, fun m hm => ?_⟩
  rw [List.mem_singleton.mp hm, TimingMsg.kick, ebmWriteTM_evtId, if_neg hext, if_neg hinj]

end Quiet

/-! ### The states that trigger no kicker -/

section States

variable (N : Numerics) (e : Action) (c : Call)

theorem Call.extTKickC_quiet : Quiet c c.extTKickC := .of_eq rfl rfl rfl rfl rfl rfl

theorem Call.extPMeasS_quiet : Quiet c (c.extPMeasS e) := by
  unfold Call.extPMeasS
  apply Quiet.send
  · exact .of_eq rfl rfl rfl rfl rfl rfl
  · rw [evtNo_build]
    decide
  · rw [evtNo_build]
    decide

theorem Call.injPMeasS_quiet : Quiet c (c.injPMeasS e) := by
  unfold Call.injPMeasS
  apply Quiet.send
  · exact .of_eq rfl rfl rfl rfl rfl rfl
  · rw [evtNo_build]
    decide
  · rw [evtNo_build]
    decide

theorem Call.extTNextRfC_quiet : Quiet c (c.extTNextRfC N) := by
  unfold Call.extTNextRfC
  split
  · exact .of_eq rfl rfl rfl rfl rfl rfl
  · dsimp only
    split
    · exact .of_eq rfl rfl rfl rfl rfl rfl
    · exact .of_eq rfl rfl rfl rfl rfl rfl

theorem Call.extTFBeatC_quiet : Quiet c (c.extTFBeatC N e) := by
  unfold Call.extTFBeatC
  split
  · exact .of_eq rfl rfl rfl rfl rfl rfl
  · dsimp only
    split
    · exact .of_eq rfl rfl rfl rfl rfl rfl
    · exact .of_eq rfl rfl rfl rfl rfl rfl

theorem Call.extPShiftC_quiet : Quiet c (c.extPShiftC N) := .of_eq rfl rfl rfl rfl rfl rfl

theorem Call.injPShiftC_quiet : Quiet c (c.injPShiftC N) := .of_eq rfl rfl rfl rfl rfl rfl

theorem Call.extPShiftS_quiet : Quiet c (c.extPShiftS N e) := by
  have hno (gid flags sid bpid : Word) :
      evtNo (buildEvtidV1 gid ecaPShiftExt flags sid bpid 0 ||| shiftStart) = ecaPShiftExt := by
    rw [evtNo_shiftStart, evtNo_build]
    decide
  refine Quiet.trans (((Quiet.refl c).send e .pShiftExt _ _ _ _ ?_ ?_).send e .pShiftExtBack _ _ _ _
    ?_ ?_) (.of_eq rfl rfl rfl rfl rfl rfl)
  all_goals
    rw [hno]
    decide

theorem Call.injPShiftS_quiet : Quiet c (c.injPShiftS N e) := by
  have hno (gid flags sid bpid : Word) :
      evtNo (buildEvtidV1 gid ecaPShiftInj flags sid bpid 0 ||| shiftStart) = ecaPShiftInj := by
    rw [evtNo_shiftStart, evtNo_build]
    decide
  refine ((Quiet.refl c).send e .pShiftInj _ _ _ _ ?_ ?_).send e .pShiftInjBack _ _ _ _ ?_ ?_
  all_goals
    rw [hno]
    decide

/-- All states but the two triggers. -/
theorem miniFsm_quiet {b : MState × (Call → Call)} (hb : b ∈ miniFsm N e) (hext : b.1 ≠ .extTrig)
    (hinj : b.1 ≠ .injTrig) : Quiet c (b.2 c) := by
  simp only [miniFsm, List.mem_cons, List.not_mem_nil, or_false] at hb
  rcases hb with rfl | rfl | rfl | rfl | rfl | rfl | rfl | rfl | rfl | rfl | rfl
  · exact c.extTKickC_quiet
  · exact c.extPMeasS_quiet e
  · exact c.injPMeasS_quiet e
  · exact c.extTNextRfC_quiet N
  · exact c.extTFBeatC_quiet N e
  · exact c.extPShiftC_quiet N
  · exact c.injPShiftC_quiet N
  · exact c.extPShiftS_quiet N e
  · exact c.injPShiftS_quiet N e
  · exact absurd rfl hext
  · exact absurd rfl hinj

theorem miniFsm_extTrig {N : Numerics} {e : Action} {b : MState × (Call → Call)}
    (hb : b ∈ miniFsm N e) (hext : b.1 = .extTrig) : b.2 = Call.extTrig N e := by
  simp only [miniFsm, List.mem_cons, List.not_mem_nil, or_false] at hb
  rcases hb with rfl | rfl | rfl | rfl | rfl | rfl | rfl | rfl | rfl | rfl | rfl <;>
    first
      | rfl
      | cases hext

theorem miniFsm_injTrig {N : Numerics} {e : Action} {b : MState × (Call → Call)}
    (hb : b ∈ miniFsm N e) (hinj : b.1 = .injTrig) : b.2 = Call.injTrig e := by
  simp only [miniFsm, List.mem_cons, List.not_mem_nil, or_false] at hb
  rcases hb with rfl | rfl | rfl | rfl | rfl | rfl | rfl | rfl | rfl | rfl | rfl <;>
    first
      | rfl
      | cases hinj

theorem miniFsm_active {N : Numerics} {e : Action} {b : MState × (Call → Call)}
    (hb : b ∈ miniFsm N e) : b.1 ≠ .nothing ∧ b.1 ≠ .unset := by
  simp only [miniFsm, List.mem_cons, List.not_mem_nil, or_false] at hb
  rcases hb with rfl | rfl | rfl | rfl | rfl | rfl | rfl | rfl | rfl | rfl | rfl <;> simp

end States

/-! ### The triggers -/

/-- The LSA data for the trigger messages of a ring: SID, BPID and parameter. -/
def Transfer.lsa (t : Transfer) : Ring → Word × Word × Long
  | .ext => (t.sidExt, t.bpidExt, t.paramExt)
  | .inj => (t.sidInj, t.bpidInj, t.paramInj)

/-- A message triggers the kicker of a ring, with the LSA data of the transfer, and is not sent
closer to its deadline than the limit. -/
structure TimingMsg.Triggers (m : TimingMsg) (r : Ring) (lsa : Word × Word × Long) : Prop where
  kick : m.kick = some r
  sid : evtSid m.evtId = (lsa.1.setWidth 12).setWidth 32
  bpid : evtBpid m.evtId = (lsa.2.1.setWidth 14).setWidth 32
  param : m.param = lsa.2.2
  early : m.sent.ns.toNat + commonLateLimit.toNat ≤ m.deadline.toNat

section Triggers

variable (N : Numerics) (e : Action) (c : Call)

def Ring.trigger : Ring → Word
  | .ext => ecaTriggerExt
  | .inj => ecaTriggerInj

theorem Acts.send_triggers {c c' : Call} (h : Acts c c' []) (r : Ring) (s : Sending)
    (deadline : Long) (gid flags sid bpid reserved : Word) (param : Long) (tef : Word) :
    ∃ m, Acts c (c'.send e s deadline (buildEvtidV1 gid r.trigger flags sid bpid reserved) param tef)
        [m] ∧ m.Triggers r (sid, bpid, param) := by
  refine ⟨_, h.trans (.send c' e s deadline _ param tef), ?_, ?_, ?_, ?_, ?_⟩
  · rw [TimingMsg.kick, ebmWriteTM_evtId, evtNo_build]
    cases r <;> decide
  · rw [ebmWriteTM_evtId, evtSid_build]
  · rw [ebmWriteTM_evtId, evtBpid_build]
  · rw [ebmWriteTM_param]
  · exact ebmWriteTM_early _ _ _ _ _ _

/-- A trigger is refused, or one message is sent. -/
theorem Call.extTrig_cases :
    c.extTrig N e = { c with ret := some statusOutOfRange } ∨
      ((c.extTrig N e).ret = c.ret ∧
        ∃ m, Acts c (c.extTrig N e) [m] ∧ m.Triggers .ext (c.cbu.transfer.lsa .ext)) := by
  unfold Call.extTrig
  dsimp only
  split
  · exact Or.inl rfl
  · right
    split
    · have hsame : Acts c c.cbuError [] := .same rfl rfl rfl rfl rfl
      exact ⟨rfl, hsame.send_triggers e .ext _ _ _ _ _ _ _ _ _⟩
    · have hsame : Acts c c [] := .same rfl rfl rfl rfl rfl
      exact ⟨rfl, hsame.send_triggers e .ext _ _ _ _ _ _ _ _ _⟩

/-- A trigger is refused, late, or one message is sent. -/
theorem Call.injTrig_cases :
    c.injTrig e = { c with ret := some statusOutOfRange } ∨ Quiet c (c.injTrig e) ∨
      ((c.injTrig e).ret = c.ret ∧
        ∃ m, Acts c (c.injTrig e) [m] ∧ m.Triggers .inj (c.cbu.transfer.lsa .inj)) := by
  unfold Call.injTrig
  dsimp only
  split
  · exact Or.inl rfl
  · right
    split
    · exact Or.inl (.of_eq rfl rfl rfl rfl rfl rfl)
    · have hsame : Acts c c [] := .same rfl rfl rfl rfl rfl
      exact Or.inr ⟨rfl, hsame.send_triggers e .inj _ _ _ _ _ _ _ _ _⟩

end Triggers

section Machine

variable {N : Numerics} {e : Action} {c : Call}

/-- In each state messages are sent and the transfer stays, or the call returns. -/
theorem miniFsm_acts {b : MState × (Call → Call)} (hb : b ∈ miniFsm N e) :
    ∃ msgs, Acts c (b.2 c) msgs := by
  by_cases hext : b.1 = .extTrig
  · rw [miniFsm_extTrig hb hext]
    rcases c.extTrig_cases N e with heq | ⟨-, m, hacts, -⟩
    · rw [heq]
      exact ⟨[], .same rfl rfl rfl rfl rfl⟩
    · exact ⟨[m], hacts⟩
  by_cases hinj : b.1 = .injTrig
  · rw [miniFsm_injTrig hb hinj]
    rcases c.injTrig_cases e with heq | ⟨-, msgs, hacts, -⟩ | ⟨-, m, hacts, -⟩
    · rw [heq]
      exact ⟨[], .same rfl rfl rfl rfl rfl⟩
    · exact ⟨msgs, hacts⟩
    · exact ⟨[m], hacts⟩
  · obtain ⟨-, msgs, hacts, -⟩ := miniFsm_quiet N e c hb hext hinj
    exact ⟨msgs, hacts⟩

theorem Call.inState_transfer {b : MState × (Call → Call)} (hb : b ∈ miniFsm N e) :
    (c.inState b).cbu.transfer = c.cbu.transfer := by
  obtain ⟨msgs, hacts⟩ := miniFsm_acts (c := c) hb
  rcases c.inState_cases b with heq | ⟨-, -, ⟨-, heq⟩ | ⟨-, heq⟩⟩
  · rw [heq]
  · rw [heq]
    exact hacts.transfer
  · rw [heq]
    exact hacts.transfer

theorem foldl_inState_transfer {bs : List (MState × (Call → Call))}
    (hbs : ∀ b ∈ bs, b ∈ miniFsm N e) :
    (bs.foldl Call.inState c).cbu.transfer = c.cbu.transfer :=
  List.foldlRecOn (motive := fun c' => c'.cbu.transfer = c.cbu.transfer) bs Call.inState rfl
    fun _ h _ hb => (Call.inState_transfer (hbs _ hb)).trans h

theorem Call.handle_transfer (N : Numerics) (c : Call) (hstart : e.ecaAction ≠ ecaStart) :
    (c.handle N e).cbu.transfer = c.cbu.transfer := by
  rw [Call.handle, foldl_inState_transfer (fun _ hb => hb)]
  rcases c.receive_cases N e hstart with ⟨⟨-, hacts⟩, -⟩ | ⟨r, -, -, c', hacts, -, heq⟩
  · exact hacts.transfer
  · rw [heq]
    exact hacts.transfer

end Machine

/-! ### Which triggers have been sent -/

def Output.kick : Output → Option Ring
  | .sent m => m.kick
  | .step _ => none

def kicks (log : List Output) : List Ring := log.filterMap Output.kick

theorem kicks_append (log log' : List Output) : kicks (log ++ log') = kicks log ++ kicks log' :=
  List.filterMap_append

theorem kicks_of_none {msgs : List TimingMsg} (h : ∀ m ∈ msgs, m.kick = none) :
    kicks (msgs.map .sent) = [] := by
  rw [kicks, List.filterMap_eq_nil_iff]
  intro out hout
  obtain ⟨m, hm, rfl⟩ := List.mem_map.mp hout
  exact h m hm

/-- The triggers that have been sent when the machine is in a state. -/
def Stage (mode : Word) (m : MState) (ks : List Ring) : Prop :=
  if m = .injTrig then ks = [.ext] ∧ flagInject mode = true
  else if m = .nothing ∨ m = .unset then
    ks <+: [.ext, .inj] ∧ (.inj ∈ ks → flagInject mode = true)
  else ks = []

section Stage

variable {mode n : Word} {m : MState}

theorem stage_nil (hm : m ≠ .injTrig) : Stage mode m [] := by
  rw [Stage, if_neg hm]
  split
  · exact ⟨List.nil_prefix, fun h => absurd h List.not_mem_nil⟩
  · rfl

theorem stage_nothing {ks : List Ring} :
    Stage mode .nothing ks ↔ ks <+: [.ext, .inj] ∧ (.inj ∈ ks → flagInject mode = true) :=
  Iff.rfl

/-- No trigger has been sent before the machine enters a trigger state. -/
theorem Stage.eq_nil {ks : List Ring} (h : Stage mode m ks) (hinj : m ≠ .injTrig)
    (hnothing : m ≠ .nothing) (hunset : m ≠ .unset) : ks = [] := by
  rw [Stage, if_neg hinj, if_neg (not_or.mpr ⟨hnothing, hunset⟩)] at h
  exact h

theorem Stage.isPrefix {ks : List Ring} (h : Stage mode m ks) : ks <+: [.ext, .inj] := by
  rw [Stage] at h
  split at h
  · rw [h.1]
    exact ⟨[.inj], rfl⟩
  · split at h
    · exact h.1
    · rw [h]
      exact List.nil_prefix

theorem Stage.inject {ks : List Ring} (h : Stage mode m ks) (hinj : .inj ∈ ks) :
    flagInject mode = true := by
  rw [Stage] at h
  split at h
  · exact h.2
  · split at h
    · exact h.2 hinj
    · rw [h] at hinj
      exact absurd hinj List.not_mem_nil

theorem stage_next (hm : m ≠ .extTrig) : Stage mode (getNextMState mode m n).1 [] :=
  stage_nil fun h => hm (getNextMState_injTrig h).1

theorem stage_after_extTrig : Stage mode (getNextMState mode .extTrig n).1 [.ext] := by
  obtain h | h : (getNextMState mode .extTrig n).1 = .injTrig ∨
      (getNextMState mode .extTrig n).1 = .nothing := getNextMState_of_extTrig
  · rw [h]
    exact ⟨rfl, (getNextMState_injTrig h).2⟩
  · rw [h]
    refine stage_nothing.mpr ⟨⟨[.inj], rfl⟩, fun hinj => ?_⟩
    cases List.mem_singleton.mp hinj

theorem stage_after_injTrig (hmode : flagInject mode = true) {ks : List Ring}
    (hks : ks <+: [.ext, .inj]) : Stage mode (getNextMState mode .injTrig n).1 ks := by
  rw [getNextMState_of_injTrig]
  exact stage_nothing.mpr ⟨hks, fun _ => hmode⟩

end Stage

/-- The transfer has the SID and the beam process of its start, and for injection those of the
setting for that SID. -/
def FromStart (t : Transfer) (origin : Origin) : Prop :=
  ∃ e sets sid, origin = some (e, sets) ∧ sidIndex (evtSid e.recId) = some sid ∧
    t.lsa .ext = (evtSid e.recId, evtBpid e.recId, e.recParam) ∧
    t.lsa .inj = ((sets sid).lSidInj, (sets sid).lBpidInj, (sets sid).lParamInj) ∧
    t.mode = (sets sid).mode

/-- The invariant of a transfer, with the log since its start. -/
structure KickInv (origin : Origin) (t : Transfer) (m : MState) (log : List Output) : Prop where
  stage : Stage t.mode m (kicks log)
  active : m ≠ .nothing → m ≠ .unset → FromStart t origin
  triggers : ∀ msg, .sent msg ∈ log → ∀ r, msg.kick = some r →
    FromStart t origin ∧ msg.Triggers r (t.lsa r)

namespace KickInv

variable {origin : Origin} {t : Transfer} {m m' : MState} {log : List Output}

/-- Messages are sent while a transfer is active. -/
theorem extend (h : KickInv origin t m log) (hfrom : FromStart t origin) {msgs : List TimingMsg}
    (hmsgs : ∀ msg ∈ msgs, ∀ r, msg.kick = some r → msg.Triggers r (t.lsa r))
    (hstage : Stage t.mode m' (kicks log ++ kicks (msgs.map .sent))) :
    KickInv origin t m' (log ++ msgs.map .sent) where
  stage := by rwa [kicks_append]
  active _ _ := hfrom
  triggers := by
    intro msg hmem r hr
    rcases List.mem_append.mp hmem with hmem | hmem
    · exact h.triggers msg hmem r hr
    · obtain ⟨msg', hmem', heq⟩ := List.mem_map.mp hmem
      cases heq
      exact ⟨hfrom, hmsgs msg hmem' r hr⟩

/-- An executed state is no message. -/
theorem step (h : KickInv origin t m log) (x : MState) :
    KickInv origin t m (log ++ [.step x]) where
  stage := by
    rw [kicks_append]
    exact (List.append_nil (kicks log)).symm ▸ h.stage
  active := h.active
  triggers := by
    intro msg hmem r hr
    rcases List.mem_append.mp hmem with hmem | hmem
    · exact h.triggers msg hmem r hr
    · cases List.mem_singleton.mp hmem

variable {N : Numerics} {e : Action} {c c' : Call} {L : List Output}

theorem advance (h : KickInv origin c.cbu.transfer c.cbu.mState (L ++ c.out))
    (hfrom : FromStart c.cbu.transfer origin) {msgs : List TimingMsg} (hacts : Acts c c' msgs)
    (hmsgs : ∀ msg ∈ msgs, ∀ r, msg.kick = some r → msg.Triggers r (c.cbu.transfer.lsa r))
    (hstage : Stage c.cbu.transfer.mode
      (getNextMState c.cbu.transfer.mode c.cbu.mState c.cbu.nPhaseResult).1
      (kicks (L ++ c.out) ++ kicks (msgs.map .sent))) :
    KickInv origin c'.advance.cbu.transfer c'.advance.cbu.mState (L ++ c'.advance.out) := by
  have hnext : c'.advance.cbu.mState =
      (getNextMState c.cbu.transfer.mode c.cbu.mState c.cbu.nPhaseResult).1 := by
    rw [← hacts.transfer, ← hacts.mState, ← hacts.nPhaseResult]
    rfl
  have hout : L ++ c'.advance.out = L ++ c.out ++ msgs.map .sent ++ [.step c'.cbu.mState] := by
    simp only [Call.advance, hacts.out, List.append_assoc]
  have htransfer : c'.advance.cbu.transfer = c.cbu.transfer := hacts.transfer
  rw [hnext, hout, htransfer]
  exact (h.extend hfrom hmsgs hstage).step _

/-- What is left without a trigger. -/
theorem advance_quiet (h : KickInv origin c.cbu.transfer c.cbu.mState (L ++ c.out))
    (hquiet : Quiet c c') (hext : c.cbu.mState ≠ .extTrig) (hinj : c.cbu.mState ≠ .injTrig)
    (hnothing : c.cbu.mState ≠ .nothing) (hunset : c.cbu.mState ≠ .unset) :
    KickInv origin c'.advance.cbu.transfer c'.advance.cbu.mState (L ++ c'.advance.out) := by
  obtain ⟨-, msgs, hacts, hkick⟩ := hquiet
  refine h.advance (h.active hnothing hunset) hacts ?_ ?_
  · intro msg hmem r hr
    rw [hkick msg hmem] at hr
    cases hr
  · rw [kicks_of_none hkick, h.stage.eq_nil hinj hnothing hunset]
    exact stage_next hext

theorem extTrig (h : KickInv origin c.cbu.transfer c.cbu.mState (L ++ c.out))
    (hstate : c.cbu.mState = .extTrig) (hacts : ∃ m, Acts c c' [m] ∧
      m.Triggers .ext (c.cbu.transfer.lsa .ext)) :
    KickInv origin c'.advance.cbu.transfer c'.advance.cbu.mState (L ++ c'.advance.out) := by
  obtain ⟨m, hacts, htrig⟩ := hacts
  have hnil : kicks (L ++ c.out) = [] := h.stage.eq_nil (by simp [hstate]) (by simp [hstate])
    (by simp [hstate])
  refine h.advance (h.active (by simp [hstate]) (by simp [hstate])) hacts ?_ ?_
  · intro msg hmem r hr
    rw [List.mem_singleton.mp hmem] at hr ⊢
    cases htrig.kick.symm.trans hr
    exact htrig
  · have hkicks : kicks ([m].map .sent) = [.ext] := by simp [kicks, Output.kick, htrig.kick]
    rw [hnil, hkicks, hstate]
    exact stage_after_extTrig

theorem injTrig (h : KickInv origin c.cbu.transfer c.cbu.mState (L ++ c.out))
    (hstate : c.cbu.mState = .injTrig) (hacts : Quiet c c' ∨ ∃ m, Acts c c' [m] ∧
      m.Triggers .inj (c.cbu.transfer.lsa .inj)) :
    KickInv origin c'.advance.cbu.transfer c'.advance.cbu.mState (L ++ c'.advance.out) := by
  have hfrom : FromStart c.cbu.transfer origin := h.active (by simp [hstate]) (by simp [hstate])
  have hstage := h.stage
  rw [hstate, Stage, if_pos rfl] at hstage
  obtain ⟨hkicks, hmode⟩ := hstage
  rcases hacts with ⟨-, msgs, hacts, hkick⟩ | ⟨m, hacts, htrig⟩
  · refine h.advance hfrom hacts ?_ ?_
    · intro msg hmem r hr
      rw [hkick msg hmem] at hr
      cases hr
    · rw [hkicks, kicks_of_none hkick, hstate]
      exact stage_after_injTrig hmode ⟨[.inj], rfl⟩
  · refine h.advance hfrom hacts ?_ ?_
    · intro msg hmem r hr
      rw [List.mem_singleton.mp hmem] at hr ⊢
      cases htrig.kick.symm.trans hr
      exact htrig
    · have hinj : kicks ([m].map .sent) = [.inj] := by simp [kicks, Output.kick, htrig.kick]
      rw [hkicks, hinj, hstate]
      exact stage_after_injTrig hmode ⟨[], rfl⟩

theorem inState {b : MState × (Call → Call)} (hb : b ∈ miniFsm N e)
    (h : KickInv origin c.cbu.transfer c.cbu.mState (L ++ c.out)) :
    KickInv origin (c.inState b).cbu.transfer (c.inState b).cbu.mState
      (L ++ (c.inState b).out) := by
  rcases c.inState_cases b with heq | ⟨hret, hstate, hcases⟩
  · rwa [heq]
  by_cases hext : b.1 = .extTrig
  · have hact : b.2 = Call.extTrig N e := miniFsm_extTrig hb hext
    rw [hext] at hstate
    rw [hact] at hcases
    rcases c.extTrig_cases N e with hrefused | ⟨hret', hacts⟩
    · rcases hcases with ⟨hnone, -⟩ | ⟨-, heq⟩
      · rw [hrefused] at hnone
        cases hnone
      · rw [heq, hrefused]
        exact h
    · rcases hcases with ⟨-, heq⟩ | ⟨hsome, -⟩
      · rw [heq]
        exact h.extTrig hstate hacts
      · exact absurd (hret'.trans hret) hsome
  by_cases hinj : b.1 = .injTrig
  · have hact : b.2 = Call.injTrig e := miniFsm_injTrig hb hinj
    rw [hinj] at hstate
    rw [hact] at hcases
    have hgo (hret' : (c.injTrig e).ret = c.ret) (hacts : Quiet c (c.injTrig e) ∨
        ∃ m, Acts c (c.injTrig e) [m] ∧ m.Triggers .inj (c.cbu.transfer.lsa .inj)) :
        KickInv origin (c.inState b).cbu.transfer (c.inState b).cbu.mState
          (L ++ (c.inState b).out) := by
      rcases hcases with ⟨-, heq⟩ | ⟨hsome, -⟩
      · rw [heq]
        exact h.injTrig hstate hacts
      · exact absurd (hret'.trans hret) hsome
    rcases c.injTrig_cases e with hrefused | hquiet | ⟨hret', hacts⟩
    · rcases hcases with ⟨hnone, -⟩ | ⟨-, heq⟩
      · rw [hrefused] at hnone
        cases hnone
      · rw [heq, hrefused]
        exact h
    · exact hgo hquiet.1 (Or.inl hquiet)
    · exact hgo hret' (Or.inr hacts)
  · have hquiet := miniFsm_quiet N e c hb hext hinj
    obtain ⟨hnothing, hunset⟩ := miniFsm_active hb
    rcases hcases with ⟨-, heq⟩ | ⟨hsome, -⟩
    · rw [heq]
      rw [← hstate] at hext hinj hnothing hunset
      exact h.advance_quiet hquiet hext hinj hnothing hunset
    · exact absurd (hquiet.1.trans hret) hsome

/-- All states of the machine, and the end of the call. -/
theorem machine (h : KickInv origin (c.receive N e).cbu.transfer (c.receive N e).cbu.mState
      (L ++ (c.receive N e).out)) :
    KickInv origin ((c.handle N e).finish e).cbu.transfer ((c.handle N e).finish e).cbu.mState
      (L ++ ((c.handle N e).finish e).out) := by
  rw [Call.finish_transfer, Call.finish_mState, Call.finish_out]
  exact List.foldlRecOn
    (motive := fun c => KickInv origin c.cbu.transfer c.cbu.mState (L ++ c.out))
    (miniFsm N e) Call.inState h fun _ h' _ hb => inState hb h'

theorem call {s : Cbu} (h : KickInv origin s.transfer s.mState L) (hstart : e.ecaAction ≠ ecaStart) :
    KickInv origin (doActionOperation N s e).cbu.transfer (doActionOperation N s e).cbu.mState
      (L ++ (doActionOperation N s e).out) := by
  refine machine ?_
  have h₀ : KickInv origin (Call.enter s e).cbu.transfer (Call.enter s e).cbu.mState
      (L ++ (Call.enter s e).out) := (List.append_nil L).symm ▸ h
  rcases (Call.enter s e).receive_cases N e hstart with ⟨⟨-, hacts⟩, -⟩ | ⟨r, -, hstate, c', hacts, hret, heq⟩
  · rw [hacts.transfer, hacts.mState, hacts.out]
    exact (List.append_nil (Call.enter s e).out).symm ▸ h₀
  · rw [heq]
    refine h₀.advance_quiet ⟨hret, [], hacts, fun _ hm => absurd hm List.not_mem_nil⟩ ?_ ?_ ?_ ?_ <;>
      rcases hstate with hstate | hstate <;> simp [hstate]

theorem start {s : Cbu} (hstart : e.ecaAction = ecaStart) :
    KickInv (some (e, s.setsAt)) (doActionOperation N s e).cbu.transfer
      (doActionOperation N s e).cbu.mState (doActionOperation N s e).out := by
  refine machine (L := []) ?_
  rw [Call.receive, if_pos hstart, Call.start_out]
  rcases (Call.enter s e).start_cases N e with ⟨-, hstate, -⟩ | ⟨sid, hsid, -, -, heq⟩
  · rw [hstate]
    exact ⟨stage_nil (by decide), fun h => absurd rfl h, fun _ h => absurd h List.not_mem_nil⟩
  · rw [heq]
    refine ⟨stage_next (by decide), fun _ _ => ?_, fun _ h => absurd h List.not_mem_nil⟩
    exact ⟨e, s.setsAt, sid, rfl, Cbu.sidIndex_of_started hsid, rfl, rfl, rfl⟩

end KickInv

theorem kickInv_run (N : Numerics) (evs : List Event) :
    KickInv (run N evs).origin (run N evs).cbu.transfer (run N evs).cbu.mState
      (run N evs).since := by
  induction evs using List.reverseRecOn with
  | nil =>
      exact ⟨stage_nil (m := .unset) (by decide), fun _ h => absurd rfl h,
        fun _ h => absurd h List.not_mem_nil⟩
  | append_singleton evs ev ih =>
      rw [run_snoc]
      cases ev with
      | action e =>
          by_cases hstart : e.ecaAction = ecaStart
          · simp only [History.event, if_pos hstart]
            exact KickInv.start hstart
          · simp only [History.event, if_neg hstart]
            exact ih.call hstart
      | write r value => exact ih
      | confSubmit => exact ih
      | confClear => exact ih
      | configure => exact ih
      | enterOperation => exact ih

/-- Between two starts at most one trigger is sent for each kicker, the one for injection after
the one for extraction and only in the modes that inject.  Each has the SID, the beam process
and the parameter of the transfer, and none is sent closer to its deadline than the limit. -/
theorem kicks_once (N : Numerics) (evs : List Event) :
    kicks (run N evs).since <+: [.ext, .inj] ∧
      (.inj ∈ kicks (run N evs).since → flagInject (run N evs).cbu.transfer.mode = true) ∧
      ∀ msg, .sent msg ∈ (run N evs).since → ∀ r, msg.kick = some r →
        FromStart (run N evs).cbu.transfer (run N evs).origin ∧
          msg.Triggers r ((run N evs).cbu.transfer.lsa r) := by
  have h := kickInv_run N evs
  exact ⟨h.stage.isPrefix, h.stage.inject, h.triggers⟩

end B2b
