import Mathlib.Data.List.Induction
import Mathlib.Data.BitVec

/-!
# The state machine of the firmwares

All firmwares but that of the data master run the same main loop: host commands and the
firmware request a state, `fwlib_changeState` makes the transition, and the do action of the
state reached may request the next one.  The last request before the transition counts.

Each turn of the loop takes its inputs from outside: the host command, the requests of the
firmware, and the status that its actions return.
-/

namespace CommonFw

/-- `COMMON_STATE_*`. -/
inductive State where
  | unknown | s0 | idle | configured | opReady | stopping | error | fatal
  deriving DecidableEq, Repr

/-- `COMMON_STATUS_*`. -/
abbrev Status := BitVec 32

def statusOk : Status := 0
def statusError : Status := 1
def statusWrBadSync : Status := 8

/-- `COMMON_CMD_*`. -/
def cmdConfigure : BitVec 32 := 1
def cmdStartOp : BitVec 32 := 2
def cmdStopOp : BitVec 32 := 3
def cmdIdle : BitVec 32 := 4
def cmdRecover : BitVec 32 := 5

inductive Action where
  | entryConfigured | entryOperation | exitOperation | exitError
  deriving DecidableEq, Repr

/-- What the actions of the firmware return when they are called. -/
structure Outcomes where
  entryActionConfigured : Status
  entryActionOperation : Status
  exitActionOperation : Status
  deriving DecidableEq, Repr

def exitActionError : Status := statusOk

/-! ### Transitions -/

/-- A transition as `fwlib_changeState` has chosen it so far, with the action it called. -/
structure Transition where
  statusTransition : Status
  nextState : State
  calls : List (Action × Status)
  deriving DecidableEq, Repr

/-- Call an action and go on to `nextState`. -/
def call (action : Action) (status : Status) (nextState : State) : Transition :=
  ⟨status, nextState, [(action, status)]⟩

/-- The case `COMMON_STATE_ERROR` of the switch, which the case before it falls into. -/
def caseError (reqState : State) (t : Transition) : Transition :=
  if reqState = .idle then call .exitError exitActionError reqState else t

def explicitTransition (actState reqState : State) (out : Outcomes) : Transition :=
  let stay : Transition := ⟨statusOk, actState, []⟩
  match actState with
  | .s0 => if reqState = .idle then ⟨statusOk, reqState, []⟩ else stay
  | .idle =>
      if reqState = .configured then call .entryConfigured out.entryActionConfigured reqState
      else stay
  | .configured =>
      if reqState = .idle then ⟨statusOk, reqState, []⟩
      else if reqState = .configured then
        call .entryConfigured out.entryActionConfigured reqState
      else if reqState = .opReady then call .entryOperation out.entryActionOperation reqState
      else stay
  | .opReady =>
      if reqState = .stopping then call .exitOperation out.exitActionOperation reqState else stay
  | .stopping => caseError reqState ⟨statusOk, .configured, []⟩
  | .error => caseError reqState stay
  | .unknown | .fatal => ⟨statusOk, .s0, []⟩

/-- What `fwlib_changeState` leaves: the actual state, the status, and the calls it made. -/
structure Change where
  actState : State
  status : Status
  calls : List (Action × Status)
  deriving DecidableEq, Repr

/-- `fwlib_changeState`, which also resets the requested state. -/
def changeState (actState reqState : State) (actStatus : Status) (out : Outcomes) : Change :=
  let t :=
    if reqState = .error ∨ reqState = .fatal then ⟨actStatus, reqState, []⟩
    else explicitTransition actState reqState out
  -- a failed transition leads to the error state
  let nextState :=
    if t.statusTransition ≠ statusOk ∧ t.nextState ≠ .fatal then .error else t.nextState
  { actState := nextState
    status := if actState ≠ nextState then t.statusTransition else actStatus
    calls := t.calls }

/-- The transitions listed in `common-defs.h`, by the states they connect. -/
inductive Documented : State → State → Prop
  | init : Documented .unknown .s0
  | automatic : Documented .s0 .idle
  | configure : Documented .idle .configured
  | idle : Documented .configured .idle
  | reconfigure : Documented .configured .configured
  | startop : Documented .configured .opReady
  | stopop : Documented .opReady .stopping
  | stopped : Documented .stopping .configured
  | recover : Documented .error .idle
  | failed (s : State) : Documented s .error
  | severe (s : State) : Documented s .fatal

/-! ### The main loop -/

/-- `fwlib_cmdHandler`: the state that a host command requests. -/
def cmdHandler (cmd : BitVec 32) (reqState : State) : State :=
  if cmd = cmdConfigure then .configured
  else if cmd = cmdStartOp then .opReady
  else if cmd = cmdStopOp then .stopping
  else if cmd = cmdIdle then .idle
  else if cmd = cmdRecover then .idle
  else reqState

/-- One turn of the main loop, as seen from outside. -/
structure Turn where
  cmd : BitVec 32
  /-- A request by the firmware's own command handler. -/
  cmdRequest : Option State
  outcomes : Outcomes
  /-- Results of `fwlib_doActionS0` and of the firmware's `doActionOperation`. -/
  doActionS0 : Status
  doActionOperation : Status
  /-- A further request of the firmware in state 'op ready'. -/
  doRequest : Option State
  deriving DecidableEq, Repr

/-- The local variables of the main loop and `flagRecover`; `halted` says that the firmware
is in the endless loop of a fatal error. -/
structure Fw where
  actState : State
  reqState : State
  status : Status
  flagRecover : Bool
  halted : Bool
  deriving DecidableEq, Repr

namespace Fw

/-- The firmware when it enters the loop. The initialisation may have requested another
state than S0. -/
def boot (reqState : State) : Fw :=
  { actState := .unknown, reqState, status := statusOk, flagRecover := false, halted := false }

def doAutoRecovery (fw : Fw) : Fw :=
  match fw.actState with
  | .error => { fw with reqState := .idle }
  | .idle => { fw with reqState := .configured }
  | .configured => { fw with reqState := .opReady, flagRecover := false }
  | _ => fw

def doActionState (fw : Fw) (doActionS0 : Status) : Fw :=
  if fw.actState = .fatal then { fw with halted := true }
  else
    let fw :=
      match fw.actState with
      | .s0 =>
          { fw with
            status := doActionS0
            reqState := if doActionS0 ≠ statusOk then .fatal else .idle }
      | .error => { fw with flagRecover := true }
      | _ => fw
    if fw.flagRecover then fw.doAutoRecovery else fw

def doAction (fw : Fw) (t : Turn) : Fw :=
  match fw.actState with
  | .opReady =>
      { fw with
        status := t.doActionOperation
        reqState :=
          if t.doActionOperation = statusWrBadSync ∨ t.doActionOperation = statusError then .error
          else t.doRequest.getD fw.reqState }
  | _ => fw.doActionState t.doActionS0

/-- The state that is requested when `fwlib_changeState` is called. -/
def requested (fw : Fw) (t : Turn) : State := t.cmdRequest.getD (cmdHandler t.cmd fw.reqState)

/-- The call of `fwlib_changeState`. -/
def change (fw : Fw) (t : Turn) : Change :=
  changeState fw.actState (fw.requested t) statusOk t.outcomes

def step (fw : Fw) (t : Turn) : Fw :=
  if fw.halted then fw
  else
    let c := fw.change t
    { fw with actState := c.actState, status := c.status, reqState := .unknown }.doAction t

def run (fw : Fw) (ts : List Turn) : Fw := ts.foldl step fw

theorem run_snoc (fw : Fw) (ts : List Turn) (t : Turn) : fw.run (ts ++ [t]) = (fw.run ts).step t := by
  rw [run, List.foldl_append]
  rfl

/-! ### What one turn does -/

theorem doAutoRecovery_eq (fw : Fw) :
    ∃ req flag, (if fw.flagRecover then fw.doAutoRecovery else fw) =
      { fw with reqState := req, flagRecover := flag } := by
  split
  · rw [doAutoRecovery]
    split <;> exact ⟨_, _, rfl⟩
  · exact ⟨_, _, rfl⟩

theorem doActionState_fatal {fw : Fw} (h : fw.actState = .fatal) (s0 : Status) :
    fw.doActionState s0 = { fw with halted := true } := if_pos h

theorem doActionState_other {fw : Fw} (h : fw.actState ≠ .fatal) (s0 : Status) :
    ∃ req status flag, fw.doActionState s0 =
      { fw with reqState := req, status := status, flagRecover := flag } := by
  rw [doActionState, if_neg h]
  obtain ⟨actState, reqState, status, flag, halted⟩ := fw
  cases actState with
  | s0 =>
      obtain ⟨req, flag', heq⟩ := doAutoRecovery_eq
        ⟨.s0, if s0 ≠ statusOk then .fatal else .idle, s0, flag, halted⟩
      exact ⟨req, s0, flag', heq⟩
  | error =>
      obtain ⟨req, flag', heq⟩ := doAutoRecovery_eq ⟨.error, reqState, status, true, halted⟩
      exact ⟨req, status, flag', heq⟩
  | fatal => exact absurd rfl h
  | unknown | idle | configured | opReady | stopping =>
      obtain ⟨req, flag', heq⟩ := doAutoRecovery_eq ⟨_, reqState, status, flag, halted⟩
      exact ⟨req, status, flag', heq⟩

theorem doAction_spec (fw : Fw) (t : Turn) :
    (fw.doAction t).actState = fw.actState ∧
      (fw.doAction t).halted = if fw.actState = .fatal then true else fw.halted := by
  rw [doAction]
  split
  · rename_i hop
    exact ⟨rfl, by rw [hop]; rfl⟩
  · by_cases hfatal : fw.actState = .fatal
    · rw [doActionState_fatal hfatal, if_pos hfatal]
      exact ⟨rfl, rfl⟩
    · obtain ⟨req, status, flag, heq⟩ := doActionState_other hfatal t.doActionS0
      rw [heq, if_neg hfatal]
      exact ⟨rfl, rfl⟩

theorem step_actState {fw : Fw} (h : fw.halted = false) (t : Turn) :
    (fw.step t).actState = (fw.change t).actState := by
  rw [step, h, if_neg Bool.false_ne_true]
  exact (doAction_spec _ t).1

theorem step_halted {fw : Fw} (h : fw.halted = false) (t : Turn) :
    (fw.step t).halted = true ↔ (fw.change t).actState = .fatal := by
  rw [step, h, if_neg Bool.false_ne_true]
  dsimp only
  rw [(doAction_spec _ t).2]
  dsimp only
  split
  · rename_i hfatal
    exact ⟨fun _ => hfatal, fun _ => rfl⟩
  · rename_i hfatal
    exact ⟨fun hh => absurd hh Bool.false_ne_true, fun hh => absurd hh hfatal⟩

theorem run_halted (req : State) (ts : List Turn) :
    ((boot req).run ts).halted = true ↔ ((boot req).run ts).actState = .fatal := by
  induction ts using List.reverseRecOn with
  | nil => exact ⟨fun h => absurd h Bool.false_ne_true, fun h => State.noConfusion h⟩
  | append_singleton ts t ih =>
      rw [run_snoc]
      cases hhalt : ((boot req).run ts).halted with
      | true =>
          have hstay : ((boot req).run ts).step t = (boot req).run ts := by
            rw [step, if_pos hhalt]
          rw [hstay]
          exact ih
      | false => rw [step_halted hhalt, step_actState hhalt]

end Fw

/-! ### The transitions of a run -/

/-- An explicit transition stays, or is one of the list, or is taken from 'stopping' by the
case of the error state. -/
inductive Explicit (actState reqState : State) (t : Transition) : Prop
  | stay : t.nextState = actState → Explicit actState reqState t
  | listed : Documented actState t.nextState →
      (t.nextState = .opReady → t.calls = [(.entryOperation, t.statusTransition)]) →
      Explicit actState reqState t
  | fallsThrough : actState = .stopping → reqState = .idle →
      t = call .exitError exitActionError .idle → Explicit actState reqState t

theorem explicitTransition_explicit {actState : State} (hact : actState ≠ .fatal)
    (reqState : State) (out : Outcomes) :
    Explicit actState reqState (explicitTransition actState reqState out) := by
  cases actState with
  | unknown => exact .listed .init (fun h => State.noConfusion h)
  | s0 =>
      dsimp only [explicitTransition]
      split
      · rename_i hreq
        subst hreq
        exact .listed .automatic (fun h => State.noConfusion h)
      · exact .stay rfl
  | idle =>
      dsimp only [explicitTransition]
      split
      · rename_i hreq
        subst hreq
        exact .listed .configure (fun h => State.noConfusion h)
      · exact .stay rfl
  | configured =>
      dsimp only [explicitTransition]
      split
      · rename_i hreq
        subst hreq
        exact .listed .idle (fun h => State.noConfusion h)
      · split
        · rename_i hreq
          subst hreq
          exact .listed .reconfigure (fun h => State.noConfusion h)
        · split
          · rename_i hreq
            subst hreq
            exact .listed .startop (fun _ => rfl)
          · exact .stay rfl
  | opReady =>
      dsimp only [explicitTransition]
      split
      · rename_i hreq
        subst hreq
        exact .listed .stopop (fun h => State.noConfusion h)
      · exact .stay rfl
  | stopping =>
      dsimp only [explicitTransition, caseError]
      split
      · rename_i hreq
        subst hreq
        exact .fallsThrough rfl rfl rfl
      · exact .listed .stopped (fun h => State.noConfusion h)
  | error =>
      dsimp only [explicitTransition, caseError]
      split
      · rename_i hreq
        subst hreq
        exact .listed .recover (fun h => State.noConfusion h)
      · exact .stay rfl
  | fatal => exact absurd rfl hact

/-- What `fwlib_changeState` does is in the list, and operation starts with a successful
entry action. -/
structure Proper (actState : State) (c : Change) : Prop where
  documented : c.actState ≠ actState → Documented actState c.actState
  operation : c.actState ≠ actState → c.actState = .opReady → c.calls = [(.entryOperation, statusOk)]

/-- **One call of `fwlib_changeState`** makes a transition that is not in the list exactly
when the idle state is requested in 'stopping'. -/
theorem changeState_proper_iff {actState : State} (hact : actState ≠ .fatal) (reqState : State)
    (out : Outcomes) :
    Proper actState (changeState actState reqState statusOk out) ↔
      ¬ (actState = .stopping ∧ reqState = .idle) := by
  constructor
  · rintro ⟨hdoc, -⟩ ⟨rfl, rfl⟩
    have hidle : Documented .stopping .idle := hdoc fun h => State.noConfusion h
    cases hidle
  · intro hno
    simp only [changeState]
    by_cases hsevere : reqState = .error ∨ reqState = .fatal
    · rw [if_pos hsevere]
      dsimp only
      rw [if_neg fun h => h.1 rfl]
      rcases hsevere with rfl | rfl
      · exact ⟨fun _ => .failed _, fun _ h => State.noConfusion h⟩
      · exact ⟨fun _ => .severe _, fun _ h => State.noConfusion h⟩
    · rw [if_neg hsevere]
      split
      · exact ⟨fun _ => .failed _, fun _ h => State.noConfusion h⟩
      · rename_i hgood
        rcases explicitTransition_explicit hact reqState out with hstay | ⟨hdoc, hop⟩ | ⟨hst, hreq, -⟩
        · exact ⟨fun h => absurd hstay h, fun h => absurd hstay h⟩
        · refine ⟨fun _ => hdoc, fun _ hnext => ?_⟩
          have hop' : (explicitTransition actState reqState out).nextState = .opReady := hnext
          have hok : (explicitTransition actState reqState out).statusTransition = statusOk :=
            not_not.mp fun h => hgood ⟨h, fun hfatal => State.noConfusion (hop'.symm.trans hfatal)⟩
          exact hok ▸ hop hop'
        · exact absurd ⟨hst, hreq⟩ hno

namespace Fw

/-- **The state machine keeps to its list**: in a run of any length every transition is one
of those listed in `common-defs.h`, operation starts with a successful entry action, and
the fatal state is never left, if and only if the idle state is never requested in 'stopping'. -/
theorem run_documented_iff (req : State) (ts : List Turn) :
    (∀ pre t, pre ++ [t] <+: ts →
        (((boot req).run pre).halted = false →
          Proper ((boot req).run pre).actState (((boot req).run pre).change t)) ∧
        (((boot req).run pre).actState = .fatal → ((boot req).run (pre ++ [t])).actState = .fatal)) ↔
      ∀ pre t, pre ++ [t] <+: ts →
        ¬ (((boot req).run pre).actState = .stopping ∧ ((boot req).run pre).requested t = .idle) := by
  have hrunning : ∀ pre, ((boot req).run pre).halted = false ↔ ((boot req).run pre).actState ≠ .fatal := by
    intro pre
    rw [← Bool.not_eq_true, not_iff_not]
    exact run_halted req pre
  constructor
  · intro hall pre t hpre hidle
    have hact : ((boot req).run pre).actState ≠ .fatal := by
      rw [hidle.1]
      decide
    exact (changeState_proper_iff hact _ _).mp ((hall pre t hpre).1 ((hrunning pre).mpr hact)) hidle
  · intro hno pre t hpre
    constructor
    · intro hhalt
      exact (changeState_proper_iff ((hrunning pre).mp hhalt) _ _).mpr (hno pre t hpre)
    · intro hfatal
      rw [run_snoc, step, if_pos ((run_halted req pre).mpr hfatal)]
      exact hfatal

/-! ### A command in the wrong turn -/

def turn (cmd : BitVec 32) : Turn :=
  { cmd, cmdRequest := none, outcomes := ⟨statusOk, statusOk, statusOk⟩, doActionS0 := statusOk
    doActionOperation := statusOk, doRequest := none }

/-- Start up, operation, and the command "idle" in the turn after "stopop". -/
def sampleTurns : List Turn :=
  [turn 0, turn 0, turn cmdConfigure, turn cmdStartOp, turn cmdStopOp, turn cmdIdle]

/-- **From 'stopping' to 'idle'**: the command "idle" takes the case of the error state. -/
theorem stopping_left_to_idle : ∃ (pre : List Turn) (t : Turn),
    ((boot .s0).run pre).actState = .stopping ∧ ((boot .s0).run pre).halted = false ∧
      (((boot .s0).run pre).change t).actState = .idle ∧
      (((boot .s0).run pre).change t).calls = [(.exitError, statusOk)] ∧
      ¬ Documented ((boot .s0).run pre).actState (((boot .s0).run pre).change t).actState :=
  ⟨sampleTurns.dropLast, turn cmdIdle, by decide, by decide, by decide, by decide,
    fun h => by cases h⟩

end Fw

end CommonFw
