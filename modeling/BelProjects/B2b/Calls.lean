import BelProjects.B2b.Operation

/-!
# Calls of the handler

What a start does, which phase results are accepted, and what a state of the mini machine
leaves as it is.
-/

namespace B2b

/-! ### What a state of the machine does -/

/-- A call goes on within its state: messages are sent, the transfer and the state stay. -/
structure Acts (c c' : Call) (msgs : List TimingMsg) : Prop where
  transfer : c'.cbu.transfer = c.cbu.transfer
  mState : c'.cbu.mState = c.cbu.mState
  nPhaseResult : c'.cbu.nPhaseResult = c.cbu.nPhaseResult
  sets : c'.cbu.sets = c.cbu.sets
  out : c'.out = c.out ++ msgs.map .sent

/-- Other variables may change. -/
theorem Acts.same {c c' : Call} (transfer : c'.cbu.transfer = c.cbu.transfer)
    (mState : c'.cbu.mState = c.cbu.mState) (nPhaseResult : c'.cbu.nPhaseResult = c.cbu.nPhaseResult)
    (sets : c'.cbu.sets = c.cbu.sets) (out : c'.out = c.out) : Acts c c' [] :=
  ⟨transfer, mState, nPhaseResult, sets, by rw [out, List.map_nil, List.append_nil]⟩

theorem Acts.send (c : Call) (e : Action) (s : Sending) (deadline evtId param : Long) (tef : Word) :
    Acts c (c.send e s deadline evtId param tef)
      [ebmWriteTM (e.clock (.checked s)) (e.clock (.rescheduled s)) deadline evtId param tef] :=
  ⟨rfl, rfl, rfl, rfl, rfl⟩

theorem Acts.trans {c c' c'' : Call} {msgs msgs' : List TimingMsg} (h : Acts c c' msgs)
    (h' : Acts c' c'' msgs') : Acts c c'' (msgs ++ msgs') where
  transfer := h'.transfer.trans h.transfer
  mState := h'.mState.trans h.mState
  nPhaseResult := h'.nPhaseResult.trans h.nPhaseResult
  sets := h'.sets.trans h.sets
  out := by rw [h'.out, h.out, List.map_append, List.append_assoc]

/-! ### Starts -/

inductive Ring where
  | ext | inj
  deriving DecidableEq, Repr

section Start

variable (N : Numerics) (e : Action) (c : Call)

def Cbu.setsAt (s : Cbu) : Settings := (setSubmit s.shared s.sets).2

def Cbu.started (s : Cbu) (e : Action) : Option (Fin nSid) :=
  if (setSubmit s.shared s.sets).1 = statusOk then
    (sidIndex (evtSid e.recId)).filter fun sid => (s.setsAt sid).flagValid
  else none

theorem Cbu.sidIndex_of_started {s : Cbu} {e : Action} {sid : Fin nSid}
    (h : s.started e = some sid) : sidIndex (evtSid e.recId) = some sid := by
  rw [started] at h
  split at h
  · exact (Option.filter_eq_some_iff.mp h).1
  · cases h

theorem Call.start_cases :
    ((c.start N e).ret ≠ none ∧ (c.start N e).cbu.mState = .nothing ∧
        (c.start N e).cbu.transfer.mode = modeOff ∧ c.cbu.started e = none) ∨
      ∃ sid, c.cbu.started e = some sid ∧ (c.cbu.setsAt sid).flagValid = true ∧
        (c.start N e).ret = c.ret ∧
        (c.start N e).cbu = (c.cbu.clearTransfer e).loadTransfer N (c.cbu.setsAt sid) e := by
  unfold Call.start
  dsimp only
  split
  case isTrue hbad => exact Or.inl ⟨by simp [Call.refuse], rfl, rfl, if_neg hbad⟩
  case isFalse hok =>
    have hsid : (c.cbu.clearTransfer e).transfer.sid = evtSid e.recId := rfl
    have hsets : (c.cbu.clearTransfer e).sets = c.cbu.setsAt := rfl
    have hstarted : c.cbu.started e =
        (sidIndex (evtSid e.recId)).filter fun sid => (c.cbu.setsAt sid).flagValid :=
      if_pos (not_not.mp hok)
    rw [hsid, hsets, hstarted]
    cases hindex : sidIndex (evtSid e.recId) with
    | none => exact Or.inl ⟨by simp [Call.refuse], rfl, rfl, rfl⟩
    | some sid =>
        dsimp only
        split
        case isTrue hvalid =>
          exact Or.inr ⟨sid, Option.filter_some_pos hvalid, hvalid, rfl, rfl⟩
        case isFalse hvalid =>
          exact Or.inl ⟨by simp [Call.refuse], rfl, rfl,
            Option.filter_some_neg (Bool.eq_false_iff.mpr hvalid)⟩

theorem Call.start_out : (c.start N e).out = c.out := by
  unfold Call.start
  dsimp only
  split
  · rfl
  · split
    · rfl
    · split <;> rfl

theorem Call.start_sets : (c.start N e).cbu.sets = c.cbu.setsAt := by
  unfold Call.start
  dsimp only
  split
  · rfl
  · split
    · rfl
    · split <;> rfl

end Start

/-! ### Phase results -/

def Ring.result : Ring → Word
  | .ext => ecaPrExt
  | .inj => ecaPrInj

def Action.Result (e : Action) (t : Transfer) (r : Ring) : Prop :=
  e.ecaAction = r.result ∧ e.For t

instance (e : Action) (t : Transfer) (r : Ring) : Decidable (e.Result t r) :=
  inferInstanceAs (Decidable (_ ∧ _))

section Receive

variable (N : Numerics) (e : Action) (c : Call)

/-- The call has returned with nothing done but to note a time. -/
def Call.Ignored (c c' : Call) : Prop := c'.ret ≠ none ∧ Acts c c' []

/-- A result is accepted in a state that waits for results. -/
def Call.Accepted (c c' : Call) : Prop :=
  (c.cbu.mState = .extPMeasR ∨ c.cbu.mState = .allPMeasR) ∧
    ∃ c₀, Acts c c₀ [] ∧ c₀.ret = c.ret ∧ c' = c₀.advance

theorem Call.prExt_cases :
    (c.Ignored (c.prExt N e) ∧
        ¬ (Bucket c.cbu.transfer.mode ∧ c.cbu.mState = .allPMeasR ∧ e.For c.cbu.transfer)) ∨
      (e.For c.cbu.transfer ∧ c.Accepted (c.prExt N e)) := by
  unfold Call.prExt
  dsimp only
  split
  case isTrue hmode =>
    refine Or.inl ⟨⟨by simp, .same rfl rfl rfl rfl rfl⟩, fun ⟨hbucket, _, _⟩ => ?_⟩
    rcases hbucket with h | h | h <;> rw [h] at hmode <;> exact absurd hmode (by decide)
  case isFalse =>
    split
    case isTrue hres =>
      refine Or.inr ⟨hres.1, hres.2, _, ?_, ?_, rfl⟩
      · exact .same rfl rfl rfl rfl rfl
      · rfl
    case isFalse hres =>
      exact Or.inl ⟨⟨by simp, .same rfl rfl rfl rfl rfl⟩,
        fun ⟨_, hstate, hfor⟩ => hres ⟨hfor, Or.inr hstate⟩⟩

theorem Call.prInj_cases :
    (c.Ignored (c.prInj N e) ∧
        ¬ (Bucket c.cbu.transfer.mode ∧ c.cbu.mState = .allPMeasR ∧ e.For c.cbu.transfer)) ∨
      (e.For c.cbu.transfer ∧ c.Accepted (c.prInj N e)) := by
  unfold Call.prInj
  dsimp only
  split
  case isTrue hmode =>
    refine Or.inl ⟨⟨by simp, .same rfl rfl rfl rfl rfl⟩, fun ⟨hbucket, _, _⟩ => ?_⟩
    rcases hbucket with h | h | h <;> rw [h] at hmode <;> exact absurd hmode (by decide)
  case isFalse =>
    split
    case isTrue hres =>
      refine Or.inr ⟨hres.1, Or.inr hres.2, _, ?_, ?_, rfl⟩
      · exact .same rfl rfl rfl rfl rfl
      · rfl
    case isFalse hres =>
      exact Or.inl ⟨⟨by simp, .same rfl rfl rfl rfl rfl⟩,
        fun ⟨_, hstate, hfor⟩ => hres ⟨hfor, hstate⟩⟩

theorem Call.receive_cases (hstart : e.ecaAction ≠ ecaStart) :
    (c.Ignored (c.receive N e) ∧ ¬ (Bucket c.cbu.transfer.mode ∧ c.cbu.mState = .allPMeasR ∧
        ∃ r, e.Result c.cbu.transfer r)) ∨
      ∃ r, e.Result c.cbu.transfer r ∧ c.Accepted (c.receive N e) := by
  unfold Call.receive
  rw [if_neg hstart]
  split
  case isTrue hext =>
    rcases c.prExt_cases N e with ⟨hignored, hnot⟩ | ⟨hfor, haccepted⟩
    · exact Or.inl ⟨hignored, fun ⟨hb, hm, _, hres⟩ => hnot ⟨hb, hm, hres.2⟩⟩
    · exact Or.inr ⟨.ext, ⟨hext, hfor⟩, haccepted⟩
  case isFalse hext =>
    split
    case isTrue hinj =>
      rcases c.prInj_cases N e with ⟨hignored, hnot⟩ | ⟨hfor, haccepted⟩
      · exact Or.inl ⟨hignored, fun ⟨hb, hm, _, hres⟩ => hnot ⟨hb, hm, hres.2⟩⟩
      · exact Or.inr ⟨.inj, ⟨hinj, hfor⟩, haccepted⟩
    case isFalse hinj =>
      refine Or.inl ⟨⟨by simp, .same rfl rfl rfl rfl rfl⟩, fun ⟨_, _, r, hres⟩ => ?_⟩
      cases r with
      | ext => exact hext hres.1
      | inj => exact hinj hres.1

end Receive

/-! ### The machine and the end of a call -/

/-- A state of the machine is passed over, left for the next state, or the call returns in it. -/
theorem Call.inState_cases (c : Call) (b : MState × (Call → Call)) :
    c.inState b = c ∨
      (c.ret = none ∧ c.cbu.mState = b.1 ∧
        (((b.2 c).ret = none ∧ c.inState b = (b.2 c).advance) ∨
          ((b.2 c).ret ≠ none ∧ c.inState b = b.2 c))) := by
  unfold Call.inState
  split
  case isTrue h =>
    refine Or.inr ⟨h.1, h.2, ?_⟩
    dsimp only
    split
    case isTrue hret => exact Or.inl ⟨hret, rfl⟩
    case isFalse hret => exact Or.inr ⟨hret, rfl⟩
  case isFalse => exact Or.inl rfl

theorem foldl_inState_ret {c : Call} (hret : c.ret ≠ none) (bs : List (MState × (Call → Call))) :
    bs.foldl Call.inState c = c := by
  induction bs with
  | nil => rfl
  | cons b bs ih =>
      have hskip : c.inState b = c := if_neg (fun h => hret h.1)
      rw [List.foldl_cons, hskip]
      exact ih

section Finish

variable (e : Action) (c : Call)

@[simp] theorem Call.finish_transfer : (c.finish e).cbu.transfer = c.cbu.transfer := by
  unfold Call.finish
  split
  · dsimp only
    split <;> rfl
  · rfl

@[simp] theorem Call.finish_mState : (c.finish e).cbu.mState = c.cbu.mState := by
  unfold Call.finish
  split
  · dsimp only
    split <;> rfl
  · rfl

@[simp] theorem Call.finish_nPhaseResult : (c.finish e).cbu.nPhaseResult = c.cbu.nPhaseResult := by
  unfold Call.finish
  split
  · dsimp only
    split <;> rfl
  · rfl

@[simp] theorem Call.finish_out : (c.finish e).out = c.out := by
  unfold Call.finish
  split <;> rfl

end Finish

/-! ### What is seen of a run -/

def Action.ring (e : Action) (t : Transfer) : Option Ring :=
  if e.Result t .ext then some .ext else if e.Result t .inj then some .inj else none

theorem Action.ring_eq_some {e : Action} {t : Transfer} {r : Ring} :
    e.ring t = some r ↔ e.Result t r := by
  have hdisj : ¬ (e.Result t .ext ∧ e.Result t .inj) := by
    rintro ⟨⟨hext, -⟩, hinj, -⟩
    rw [hext] at hinj
    exact absurd hinj (by decide)
  rw [ring]
  cases r with
  | ext => by_cases h : e.Result t .ext <;> by_cases h' : e.Result t .inj <;> simp [h, h']
  | inj =>
      by_cases h : e.Result t .ext
      · rw [if_pos h]
        exact ⟨nofun, fun h' => absurd ⟨h, h'⟩ hdisj⟩
      · by_cases h' : e.Result t .inj <;> simp [h, h']

/-- What a transfer got from its start: the event, and the settings after its submission. -/
abbrev Origin := Option (Action × Settings)

/-- The unit, with what has happened since the last start: what it has done, the phase results
with its GID and SID that it has received, and what it did on the last event. -/
structure History where
  cbu : Cbu
  origin : Origin
  since : List Output
  results : List Ring
  out : List Output

def History.boot : History := ⟨.boot, none, [], [], []⟩

def History.event (N : Numerics) (h : History) (ev : Event) : History :=
  let cbu := (h.cbu.event N ev).1
  let out := (h.cbu.event N ev).2
  match ev with
  | .action e =>
      if e.ecaAction = ecaStart then
        { cbu, origin := some (e, h.cbu.setsAt), since := out, results := [], out }
      else
        { cbu, origin := h.origin, since := h.since ++ out
          results := h.results ++ (e.ring h.cbu.transfer).toList, out }
  | _ => { h with cbu, out }

def run (N : Numerics) (evs : List Event) : History := evs.foldl (History.event N) .boot

theorem run_snoc (N : Numerics) (evs : List Event) (ev : Event) :
    run N (evs ++ [ev]) = (run N evs).event N ev := by
  rw [run, List.foldl_append]
  rfl

end B2b
