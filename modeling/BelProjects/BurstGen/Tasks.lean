import BelProjects.BurstGen.EventTables

/-!
# The tasks of the burst generator

In operation the main loop runs the task of each burst in turn and handles pending actions
of the ECA between two tasks.  An action marks the bursts of its event id as triggered or
toggled, with one deadline for all of them; the task of a burst takes the mark and injects
the messages of the burst one by one.
-/

namespace BurstGen

def statusIdle : Word := 20
def statusNotReady : Word := 21
def statusDisabled : Word := 22

def myActTag : Word := 0xb2b2b2b2

/-! ### Actions -/

structure EcaAction where
  valid : Bool
  tag : Word
  evtId : Long
  deadline : Long
  param : Long
  deriving DecidableEq, Repr

def EcaAction.effective (a : EcaAction) : Long :=
  if a.param ≠ 0 then a.deadline + a.param else a.deadline

def EcaAction.Handled (a : EcaAction) : Prop := a.valid = true ∧ a.tag = myActTag

instance (a : EcaAction) : Decidable a.Handled := inferInstanceAs (Decidable (_ ∧ _))

/-- The body of the loop of `ecaHandler`. -/
def Fw.ecaAction (fw : Fw) (a : EcaAction) : Fw :=
  if a.Handled then
    let triggerIdx := position fw.gTrigConfigs a.evtId nConfigs
    let toggleIdx := position fw.gToggConfigs a.evtId nConfigs
    if triggerIdx ≠ nConfigs then
      { fw with
        gTrigCtrl := ⟨a.effective, fw.gTrigCtrl.bursts ||| (fw.gTrigConfigs triggerIdx).bursts⟩ }
    else if toggleIdx ≠ nConfigs then
      { fw with
        gToggCtrl := ⟨a.effective, fw.gToggCtrl.bursts ||| (fw.gToggConfigs toggleIdx).bursts⟩ }
    else fw
  else fw

/-! ### Tasks -/

/-- A toggled burst: it is stopped, or the remaining cycles are those up to the deadline. -/
def Task.toggled (t : Task) (deadline : Long) : Task :=
  if t.deadline = 0 then { t with cycle := 0 }
  else if deadline ≤ t.deadline then { t with deadline := 0, cycle := 0 }
  else if t.cycle ≠ 0 then
    let remaining := deadline - t.deadline
    { t with cycle := if remaining < t.period then 1 else remaining / t.period + 1 }
  else t

/-- The first part of `triggerIoActions`: take a trigger or toggle mark of burst `id`. -/
def Fw.applyCtrl (fw : Fw) (id : Nat) : Fw :=
  if fw.gTrigCtrl.bursts &&& burstBit id ≠ 0 then
    { fw.updateTask id fun t =>
        { t with lasttick := 0, failed := 0, deadline := fw.gTrigCtrl.deadline + t.setup } with
      gTrigCtrl := { fw.gTrigCtrl with bursts := fw.gTrigCtrl.bursts &&& ~~~burstBit id } }
  else if fw.gToggCtrl.bursts &&& burstBit id ≠ 0 then
    let t := fw.tasks id
    { fw.updateTask id fun t => t.toggled fw.gToggCtrl.deadline with
      gToggCtrl := { fw.gToggCtrl with bursts := fw.gToggCtrl.bursts &&& ~~~burstBit id }
      gBurstsCycled :=
        if t.deadline ≠ 0 ∧ fw.gToggCtrl.deadline ≤ t.deadline then
          fw.gBurstsCycled ||| burstBit id
        else fw.gBurstsCycled }
  else fw

/-- What the rest of `triggerIoActions` does: the deadline of the injected message, the
result, the task, and whether its production is complete. -/
structure Fired where
  message : Option Long
  result : Word
  task : Task
  cycled : Bool
  deriving DecidableEq, Repr

def Task.advance (t : Task) (now : Long) : Task × Bool :=
  let t := { t with action := now, lasttick := t.deadline, deadline := t.deadline + t.period }
  if 0 < t.cycle.toInt then
    let t := { t with cycle := t.cycle - 1 }
    if t.cycle = 0 then ({ t with deadline := 0 }, true) else (t, false)
  else (t, false)

/-- The second part of `triggerIoActions`; `now` is the reading of the clock. -/
def Task.fire (t : Task) (now : Long) : Fired :=
  let result := if t.cycle = 0 then statusNotReady else statusOk
  -- the comparison binds tighter than the mask, so no burst counts as disabled
  let result := if t.flag &&& (if ctlEn = ctlDis then 1 else 0) ≠ 0 then statusDisabled else result
  let result := if t.deadline = 0 then statusNotReady else result
  let elapsed := t.deadline - now
  let late := elapsed.toInt ≤ 0
  let t := if late ∧ t.failed = 0 then { t with failed := now } else t
  let result := if late then statusErr else result
  if result ≠ statusOk then ⟨none, result, t, false⟩
  -- a signed and an unsigned number are compared as unsigned ones
  else if t.lasttick = 0 ∨ (elapsed < t.period ∧ t.lasttick < now) then
    ⟨some t.deadline, result, (t.advance now).1, (t.advance now).2⟩
  else ⟨none, statusIdle, t, false⟩

def Fw.triggerIoActions (fw : Fw) (id : Nat) (now : Long) : Option Long × Word × Fw :=
  if id = 0 then (none, statusOk, fw)
  else
    let fw := fw.applyCtrl id
    let fired := (fw.tasks id).fire now
    (fired.message, fired.result,
      { fw.updateTask id fun _ => fired.task with
        gBurstsCycled :=
          if fired.cycled then fw.gBurstsCycled ||| burstBit id else fw.gBurstsCycled })

/-- One task of the loop of `doActionOperation`; `tick` is the time the loop was entered. -/
def Fw.runTask (fw : Fw) (id : Nat) (tick now : Long) : Option Long × Fw :=
  if (fw.tasks id).interval = 0 then ((fw.triggerIoActions id now).1, (fw.triggerIoActions id now).2.2)
  else if (fw.tasks id).interval ≤ tick - (fw.tasks id).lasttick then
    ((fw.triggerIoActions id now).1,
      (fw.triggerIoActions id now).2.2.updateTask id fun t => { t with lasttick := tick })
  else (none, fw)

/-! ### Steps -/

/-- The steps of the loop: a task is run, or an action is handled. -/
inductive Label where
  | task (id : Nat) (tick now : Long)
  | action (a : EcaAction)
  deriving DecidableEq, Repr

namespace Fw

def step (fw : Fw) : Label → Fw
  | .task id tick now => (fw.runTask id tick now).2
  | .action a => fw.ecaAction a

/-- The message of burst `b` that a step injects. -/
def injected (fw : Fw) (b : Nat) : Label → Option Long
  | .task id tick now => if id = b then (fw.runTask id tick now).1 else none
  | .action _ => none

def run (fw : Fw) (tr : List Label) : Fw := tr.foldl step fw

/-- The messages of burst `b` in a run, in order. -/
def injections (fw : Fw) (b : Nat) : List Label → List Long
  | [] => []
  | lab :: tr => (fw.injected b lab).toList ++ (fw.step lab).injections b tr

theorem run_cons (fw : Fw) (lab : Label) (tr : List Label) :
    fw.run (lab :: tr) = (fw.step lab).run tr := rfl

theorem run_append (fw : Fw) (tr tr' : List Label) : fw.run (tr ++ tr') = (fw.run tr).run tr' :=
  List.foldl_append

theorem run_snoc (fw : Fw) (tr : List Label) (lab : Label) :
    fw.run (tr ++ [lab]) = (fw.run tr).step lab := by
  rw [run_append]
  rfl

theorem injections_append (b : Nat) (tr tr' : List Label) : ∀ fw : Fw,
    fw.injections b (tr ++ tr') = fw.injections b tr ++ (fw.run tr).injections b tr' := by
  induction tr with
  | nil => intro fw; rfl
  | cons lab tr ih =>
      intro fw
      rw [List.cons_append, injections, injections, ih, List.append_assoc]
      rfl

theorem injections_snoc (fw : Fw) (b : Nat) (tr : List Label) (lab : Label) :
    fw.injections b (tr ++ [lab]) = fw.injections b tr ++ ((fw.run tr).injected b lab).toList := by
  rw [injections_append, injections, injections, List.append_nil]

end Fw

end BurstGen
