import BelProjects.BurstGen.Production

/-!
# Disabled bursts

The host dis- and enables bursts one by one or all at once, and a disabled burst is to inject no
messages.  The firmware keeps the selection in the flag of the task.  A history adds to the
firmware what the host has asked for; what is required and what the firmware does meet in every
run in which no disabled burst has a message due and no selection for all bursts changes one.
-/

namespace BurstGen

/-! ### The effect of a command on the task it names -/

def Task.Valid (t : Task) : Prop := t.flag &&& ctlValid ≠ ctlDis

instance (t : Task) : Decidable t.Valid := inferInstanceAs (Decidable (_ ≠ _))

def Task.Enabled (t : Task) : Prop := t.flag &&& ctlEn ≠ ctlDis

instance (t : Task) : Decidable t.Enabled := inferInstanceAs (Decidable (_ ≠ _))

def HostCmd.effect (c : HostCmd) (t : Task) : Task :=
  if c.cmd = cmdGetParam then if t.Valid then getParam c.args t else t
  else if c.cmd = cmdGetCycle then
    if t.Valid then { t with cycle := toU64 (c.args 1) (c.args 2), deadline := 0 } else t
  else if c.cmd = cmdMkBurst then newBurst c.args t
  else if c.cmd = cmdRmBurst then clearedBurst { t with flag := ctlDis }
  else if c.cmd = cmdDeBurst then if t.Valid then enableTask (c.args 1) t else t
  else t

theorem updateTask_ite (fw : Fw) (id : Nat) (p : Prop) [Decidable p] (f : Task → Task) :
    (if p then fw.updateTask id f else fw).tasks =
      Function.update fw.tasks id (if p then f (fw.tasks id) else fw.tasks id) := by
  split
  · rfl
  · exact (Function.update_eq_self id fw.tasks).symm

theorem exec_tasks {fw : Fw} (h0 : ¬(fw.tasks 0).Valid) (c : HostCmd) :
    (fw.exec c).tasks =
      if c.Valid then Function.update fw.tasks c.id (c.effect (fw.tasks c.id)) else fw.tasks := by
  have hkeep : (if c.Valid then Function.update fw.tasks c.id (fw.tasks c.id) else fw.tasks) =
      fw.tasks := by
    rw [Function.update_eq_self, ite_self]
  have hif : ∀ (r r' : Word × Fw) (f : Nat → Task), r.2.tasks = f → r'.2 = fw →
      (if c.Valid then r else r').2.tasks = if c.Valid then f else fw.tasks := by
    intro r r' f hr hr'
    split
    · exact hr
    · rw [hr']
  by_cases hparam : c.cmd = cmdGetParam
  · rw [Fw.exec, execHostCmd, HostCmd.effect, hparam]
    exact hif _ _ _ (updateTask_ite fw c.id _ _) rfl
  by_cases hcycle : c.cmd = cmdGetCycle
  · rw [Fw.exec, execHostCmd, HostCmd.effect, hcycle]
    exact hif _ _ _ (updateTask_ite fw c.id _ _) rfl
  by_cases hmk : c.cmd = cmdMkBurst
  · rw [Fw.exec, exec_mk hmk, HostCmd.effect, if_neg hparam, if_neg hcycle, if_pos hmk]
    refine hif _ _ _ ?_ rfl
    rw [Fw.mkBurst, updateTogg_eq, updateTrig_eq]
    rfl
  by_cases hrm : c.cmd = cmdRmBurst
  · rw [Fw.exec, execHostCmd, HostCmd.effect, hrm]
    refine hif _ _ _ ?_ rfl
    change (fw.rmBurst c.id).tasks = _
    rw [Fw.rmBurst, updateTogg_eq, updateTrig_eq]
    simp only [Fw.updateTask, Function.update_self, Function.update_idem]
    rfl
  have heffect : c.effect (fw.tasks c.id) =
      if c.cmd = cmdDeBurst then
        if (fw.tasks c.id).Valid then enableTask (c.args 1) (fw.tasks c.id) else fw.tasks c.id
      else fw.tasks c.id := by
    rw [HostCmd.effect, if_neg hparam, if_neg hcycle, if_neg hmk, if_neg hrm]
  rw [heffect]
  by_cases hde : c.cmd = cmdDeBurst
  · have hrun : fw.exec c =
        (if nBursts ≤ c.id then (statusErr, fw)
        else if (fw.tasks c.id).flag &&& ctlValid = ctlDis then (statusErr, fw)
        else if c.id = 0 then (statusOk, fw.enable c.id 1 (nBursts - 1) (c.args 1))
        else (statusOk, fw.enable c.id c.id c.id (c.args 1))).2 := by
      rw [Fw.exec, execHostCmd, hde]
      rfl
    rw [hrun, if_pos hde]
    by_cases hbig : nBursts ≤ c.id
    · rw [if_pos hbig, if_neg fun h : c.Valid => absurd h.2 (by omega)]
    · rw [if_neg hbig]
      by_cases hvalid : (fw.tasks c.id).Valid
      · have hid : c.id ≠ 0 := fun h => h0 (h ▸ hvalid)
        rw [if_neg hvalid, if_neg hid, if_pos hvalid,
          if_pos (show c.Valid from ⟨Nat.pos_of_ne_zero hid, by omega⟩), enable_eq fw _ (Nat.le_refl _)]
        rfl
      · rw [if_pos (not_not.mp hvalid), if_neg hvalid, hkeep]
  · rw [if_neg hde, hkeep, Fw.exec, execHostCmd]
    simp only [if_neg hparam, if_neg hcycle, if_neg hmk, if_neg hrm, if_neg hde]
    split_ifs <;> rfl

/-! ### Flags and intervals -/

/-- What neither the tasks nor the actions change. -/
def Task.config (t : Task) : Word × Long := (t.flag, t.interval)

theorem config_fire (t : Task) (now : Long) : (t.fire now).task.config = t.config := by
  rcases t.fire_cases now with ⟨-, failed, htask⟩ | ⟨-, -, htask⟩
  · rw [htask]
    rfl
  · rw [htask, Task.advance]
    dsimp only
    split_ifs <;> rfl

theorem config_updateTask (fw : Fw) (id : Nat) (f : Task → Task)
    (hf : (f (fw.tasks id)).config = (fw.tasks id).config) (b : Nat) :
    ((fw.updateTask id f).tasks b).config = (fw.tasks b).config := by
  by_cases hb : b = id
  · rw [hb, updateTask_self]
    exact hf
  · rw [Fw.updateTask]
    exact congrArg Task.config (Function.update_of_ne hb ..)

theorem config_toggled (t : Task) (deadline : Long) : (t.toggled deadline).config = t.config := by
  unfold Task.toggled
  split_ifs <;> rfl

theorem config_applyCtrl (fw : Fw) (id b : Nat) :
    ((fw.applyCtrl id).tasks b).config = (fw.tasks b).config := by
  rw [Fw.applyCtrl]
  split
  · exact config_updateTask fw id
      (fun t => { t with lasttick := 0, failed := 0, deadline := fw.gTrigCtrl.deadline + t.setup })
      rfl b
  · split
    · exact config_updateTask fw id (fun t => t.toggled fw.gToggCtrl.deadline)
        (config_toggled _ _) b
    · rfl

theorem tasks_ecaAction (fw : Fw) (a : EcaAction) : (fw.ecaAction a).tasks = fw.tasks := by
  rw [Fw.ecaAction]
  dsimp only
  split_ifs <;> rfl

theorem config_triggerIoActions (fw : Fw) (id : Nat) (now : Long) (b : Nat) :
    ((fw.triggerIoActions id now).2.2.tasks b).config = (fw.tasks b).config := by
  rw [Fw.triggerIoActions]
  split
  · rfl
  · have hfire := config_updateTask (fw.applyCtrl id) id
      (fun _ => (((fw.applyCtrl id).tasks id).fire now).task) (config_fire _ now) b
    exact hfire.trans (config_applyCtrl fw id b)

theorem config_step (fw : Fw) (lab : Label) (b : Nat) :
    ((fw.step lab).tasks b).config = (fw.tasks b).config := by
  cases lab with
  | action a =>
    change ((fw.ecaAction a).tasks b).config = _
    rw [tasks_ecaAction]
  | task id tick now =>
    rw [Fw.step, Fw.runTask]
    split_ifs
    · exact config_triggerIoActions fw id now b
    · have hlast := config_updateTask (fw.triggerIoActions id now).2.2 id
        (fun t => { t with lasttick := tick }) rfl b
      exact hlast.trans (config_triggerIoActions fw id now b)
    · rfl

/-! ### Histories -/

/-- What happens to the burst generator: a command of the host, or a step of its loop. -/
inductive Event where
  | command (c : HostCmd)
  | step (lab : Label)

/-- The selection of a command that dis- or enables. -/
def HostCmd.selects (c : HostCmd) : Bool := decide (c.args 1 ≠ 0)

def HostCmd.Names (c : HostCmd) (cmd : Word) (b : Nat) : Prop := c.Valid ∧ c.id = b ∧ c.cmd = cmd

instance (c : HostCmd) (cmd : Word) (b : Nat) : Decidable (c.Names cmd b) :=
  inferInstanceAs (Decidable (_ ∧ _))

/-- The firmware, and what the host has asked for: which bursts are declared, which have ever
been, which have been enabled while they were declared, and the last selection for each. -/
structure Story where
  fw : Fw
  declared : Nat → Bool
  declaredOnce : Nat → Bool
  enabledOnce : Nat → Bool
  selected : Nat → Option Bool

namespace Story

def start : Story where
  fw := setupTasks
  declared := fun _ => false
  declaredOnce := fun _ => false
  enabledOnce := fun _ => false
  selected := fun _ => none

/-- `CMD_DE_BURST` for burst `b`, by its id, or by id 0 when it is declared. -/
def Addressed (s : Story) (c : HostCmd) (b : Nat) : Prop :=
  c.cmd = cmdDeBurst ∧ (c.id = b ∨ c.id = 0 ∧ s.declared b = true)

instance (s : Story) (c : HostCmd) (b : Nat) : Decidable (s.Addressed c b) :=
  inferInstanceAs (Decidable (_ ∧ _))

def command (s : Story) (c : HostCmd) : Story where
  fw := s.fw.exec c
  declared := fun b => (s.declared b || c.Names cmdMkBurst b) && !decide (c.Names cmdRmBurst b)
  declaredOnce := fun b => s.declaredOnce b || c.Names cmdMkBurst b
  enabledOnce := fun b => s.enabledOnce b || (s.declared b && s.Addressed c b && c.selects)
  selected := fun b => if s.Addressed c b then some c.selects else s.selected b

def next (s : Story) : Event → Story
  | .command c => s.command c
  | .step lab => { s with fw := s.fw.step lab }

def Disabled (s : Story) (b : Nat) : Prop :=
  s.selected b = some false ∨ (s.declaredOnce b = true ∧ s.enabledOnce b = false)

def ToInject (t : Task) (now : Long) : Prop :=
  0 < (t.deadline - now).toInt ∧ ¬t.Inactive ∧ t.Due now

/-- The condition on the next event: a disabled burst has no message to inject once its mark is
taken, and all declared bursts have the selection that is made for all bursts. -/
def Harmless (s : Story) : Event → Prop
  | .step (.task id _ now) =>
      0 < id → id < nBursts → s.Disabled id → ¬ToInject ((s.fw.applyCtrl id).tasks id) now
  | .step (.action _) => True
  | .command c => c.cmd = cmdDeBurst → c.id = 0 → ∀ b, 0 < b → b < nBursts →
      s.declared b = true → ((s.fw.tasks b).Enabled ↔ c.args 1 ≠ 0)

def Along (P : Story → Event → Prop) : Story → List Event → Prop
  | _, [] => True
  | s, e :: es => P s e ∧ Along P (s.next e) es

def run (s : Story) (es : List Event) : Story := es.foldl next s

/-- The flags show which bursts are declared. -/
structure Inv (s : Story) : Prop where
  always : s.fw.Always
  dummy : s.declared 0 = false
  valid : ∀ b, (s.fw.tasks b).Valid ↔ s.declared b = true

end Story

/-! ### The bits of a flag -/

section Flags

variable {t : Task}

theorem valid_enableTask (disen : Word) : (enableTask disen t).Valid ↔ t.Valid := by
  have hor : ctlEn &&& ctlValid = 0#32 := by decide
  have hand : ~~~ctlEn &&& ctlValid = ctlValid := by decide
  rw [Task.Valid, Task.Valid, enableTask]
  dsimp only
  split
  · rw [BitVec.and_or_distrib_right, hor, BitVec.or_zero]
  · rw [BitVec.and_assoc, hand]

end Flags

/-! ### One event -/

namespace Story

variable {s : Story}

theorem Inv.dummyTask (h : s.Inv) : ¬(s.fw.tasks 0).Valid := by
  rw [h.valid, h.dummy]
  decide

/-- The flag after a command is that of a new burst, no flag, or the old one, which only a
selection changes. -/
theorem effect_flag (c : HostCmd) (t : Task) :
    (c.effect t).flag =
      if c.cmd = cmdMkBurst then ctlValid
      else if c.cmd = cmdRmBurst then ctlDis
      else if c.cmd = cmdDeBurst ∧ t.Valid then (enableTask (c.args 1) t).flag
      else t.flag := by
  by_cases hmk : c.cmd = cmdMkBurst
  · rw [HostCmd.effect, hmk]
    rfl
  by_cases hrm : c.cmd = cmdRmBurst
  · rw [HostCmd.effect, hrm]
    rfl
  rw [if_neg hmk, if_neg hrm]
  by_cases hde : c.cmd = cmdDeBurst
  · have heffect : c.effect t = if t.Valid then enableTask (c.args 1) t else t := by
      rw [HostCmd.effect, hde]
      rfl
    rw [heffect]
    by_cases hvalid : t.Valid
    · rw [if_pos hvalid, if_pos (And.intro hde hvalid)]
    · rw [if_neg hvalid, if_neg fun h : _ ∧ _ => hvalid h.2]
  · rw [if_neg fun h : _ ∧ _ => hde h.1, HostCmd.effect, if_neg hmk, if_neg hrm, if_neg hde]
    split_ifs <;> rfl

theorem valid_of_flag {t t' : Task} (h : t'.flag = t.flag) : t'.Valid ↔ t.Valid := by
  rw [Task.Valid, Task.Valid, h]

theorem valid_effect (c : HostCmd) (t : Task) :
    (c.effect t).Valid ↔ (t.Valid ∨ c.cmd = cmdMkBurst) ∧ c.cmd ≠ cmdRmBurst := by
  have hflag := effect_flag c t
  by_cases hmk : c.cmd = cmdMkBurst
  · rw [if_pos hmk] at hflag
    rw [Task.Valid, hflag]
    exact iff_of_true (by decide) ⟨Or.inr hmk, by rw [hmk]; decide⟩
  by_cases hrm : c.cmd = cmdRmBurst
  · rw [if_neg hmk, if_pos hrm] at hflag
    rw [Task.Valid, hflag]
    exact iff_of_false (by decide) fun h => h.2 hrm
  rw [if_neg hmk, if_neg hrm] at hflag
  have hrest : (t.Valid ∨ c.cmd = cmdMkBurst) ∧ c.cmd ≠ cmdRmBurst ↔ t.Valid :=
    ⟨fun h => h.1.resolve_right hmk, fun h => ⟨Or.inl h, hrm⟩⟩
  rw [hrest]
  split at hflag
  · exact (valid_of_flag hflag).trans (valid_enableTask _)
  · exact valid_of_flag hflag

theorem Inv.next (h : s.Inv) (e : Event) : (s.next e).Inv := by
  cases e with
  | step lab =>
    refine ⟨fun b hb => ?_, h.dummy, fun b => ?_⟩
    · have hconfig := config_step s.fw lab b
      exact (congrArg Prod.snd hconfig).trans (h.always b hb)
    · have hconfig := config_step s.fw lab b
      exact (valid_of_flag (congrArg Prod.fst hconfig)).trans (h.valid b)
  | command c =>
    have htasks := exec_tasks h.dummyTask c
    refine ⟨fun b hb => ?_, ?_, fun b => ?_⟩
    · exact (execHostCmd_interval s.fw c.cmd c.args b).trans (h.always b hb)
    · have hzero : ∀ cmd, ¬c.Names cmd 0 := fun cmd hn => by
        have hpos := hn.1.1
        have hid := hn.2.1
        omega
      simp [Story.next, Story.command, h.dummy, hzero]
    · change ((s.fw.exec c).tasks b).Valid ↔
        ((s.declared b || decide (c.Names cmdMkBurst b)) && !decide (c.Names cmdRmBurst b)) = true
      rw [htasks]
      by_cases hnamed : c.Valid ∧ c.id = b
      · obtain ⟨hvalid, rfl⟩ := hnamed
        rw [if_pos hvalid, Function.update_self, valid_effect, h.valid]
        simp [HostCmd.Names, hvalid]
      · have hno : ∀ cmd, ¬c.Names cmd b := fun cmd hn => hnamed ⟨hn.1, hn.2.1⟩
        have hsame : (if c.Valid then Function.update s.fw.tasks c.id (c.effect (s.fw.tasks c.id))
            else s.fw.tasks) b = s.fw.tasks b := by
          split
          · exact Function.update_of_ne (fun hb => hnamed ⟨‹_›, hb.symm⟩) _ _
          · rfl
        rw [hsame, h.valid]
        simp [hno]

end Story

end BurstGen
