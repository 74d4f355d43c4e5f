import BelProjects.B2b.PhaseFit

/-!
# The measurement of a phase

A request carries a period.  The unit acquires timestamps from the ECA, sorts and fits them,
and sends the phase.  The array holds the timestamps of earlier measurements as well: a
measurement is safe if it divides by something, touches only the timestamps that it has
acquired, and returns a phase that depends on these and on the period alone.
-/

namespace B2b

open CheckedArray

/-! ### Acquisition -/

structure EcaAction where
  tag : Word
  deadline : Long
  deriving DecidableEq, Repr

def ecaTimeout : Word := 0

def ecaTluInput3 : Word := 0xa03

/-- `acquireTimestamps`, with the actions that the ECA hands over and timeouts after the last of
them. The numbers are those requested and received. -/
def acquireTimestamps (size nReq : Nat) (tag : Word) :
    List EcaAction → Stamps → Nat → Except Fault (Stamps × Nat)
  | [], ts, nRec => .ok (ts, nRec)
  | act :: acts, ts, nRec =>
      if nRec < nReq then do
        let ts ← if act.tag = tag then store size ts nRec act.deadline else pure ts
        let nRec := if act.tag = tag then nRec + 1 else nRec
        if act.tag = ecaTimeout then .ok (ts, nRec)
        else acquireTimestamps size nReq tag acts ts nRec
      else .ok (ts, nRec)

def acquired (nReq : Nat) (tag : Word) (acts : List EcaAction) : List Long :=
  (((acts.takeWhile fun act => act.tag ≠ ecaTimeout).filter fun act => act.tag = tag).map
    EcaAction.deadline).take nReq

/-! ### The branch -/

/-- `B2B_STATUS_NORF` -/
def statusNoRf : Word := 19

structure PhaseUnit where
  tStamp : Stamps
  tH1As : Long
  tH1 : B2bt
  flagPmError : Word
  nSamples : Nat
  tMeas : Long
  tMeasUs : Word

structure PmRequest where
  ecaAction : Word
  recEvtId : Long
  recParam : Long
  sysTime : SysTime
  checked : SysTime
  rescheduled : SysTime

/-- `TH1_as` -/
def PmRequest.period (q : PmRequest) : Long := q.recParam &&& (0x000fffffffffffff : Long)

def samplesFor (period : Long) : Nat :=
  if 20000000000000 < period then 3
  else if 10000000000000 < period then maxSamples >>> 3
  else if 5000000000000 < period then maxSamples >>> 2
  else if 2500000000000 < period then maxSamples >>> 1
  else maxSamples

def PmRequest.sendEvtNo (q : PmRequest) : Word := if q.ecaAction = ecaPmExt then ecaPrExt else ecaPrInj

/-- `flagPMError` after a failed fit. -/
def PmRequest.errFlag (q : PmRequest) : Word :=
  if q.sendEvtNo = ecaPrExt then errFlagPmExt else errFlagPmInj

/-- What a measurement leaves: the variables, the status, and the message to the network. -/
structure Measured where
  unit : PhaseUnit
  status : Word
  msg : TimingMsg

def PmRequest.report (q : PmRequest) (actStatus : Word) (ts : Stamps) (nInput : Nat) (fit : Word)
    (tH1 : B2bt) : Measured :=
  let nSamples := samplesFor q.period
  let tMeas := BitVec.ofNat 64 nSamples * (q.period >>> 30)
  let tMeasUs : Word := (tMeas >>> 10).setWidth 32 + 16
  let flagPmError := if fit ≠ statusOk then q.errFlag else 0
  let status :=
    if fit ≠ statusOk then if nInput < 3 then statusNoRf else statusPhaseFailed else actStatus
  let sender : Sender :=
    { recGid := ((q.recEvtId >>> 48) &&& (0xfff : Long)).setWidth 32
      recSid := ((q.recEvtId >>> 20) &&& (0xfff : Long)).setWidth 32
      recBpid := ((q.recEvtId >>> 6) &&& (0x3fff : Long)).setWidth 32
      flags := flagPmError
      sysTime := q.sysTime
      checked := q.checked
      rescheduled := q.rescheduled }
  { unit := ⟨ts, q.period, tH1, flagPmError, nSamples, tMeas, tMeasUs⟩
    status := status
    msg := sender.phase q.sendEvtNo tH1 }

/-- The cases `B2B_ECADO_B2B_PMEXT` and `B2B_ECADO_B2B_PMINJ` of `doActionOperation`. -/
def PhaseUnit.measure (size : Nat) (u : PhaseUnit) (q : PmRequest) (acts : List EcaAction)
    (actStatus : Word) : Except Fault Measured := do
  let (ts, nInput) ← acquireTimestamps size (samplesFor q.period) ecaTluInput3 acts u.tStamp 0
  let ts ← if 2 < nInput then insertionSort size ts nInput else pure ts
  let (fit, tH1) ← phaseFit size ts q.period nInput { u.tH1 with ns := 0x6fffffffffffffff }
  return q.report actStatus ts nInput fit tH1

/-! ### Acquired timestamps -/

section Acquisition

variable {tag : Word}

@[simp] theorem acquired_zero (acts : List EcaAction) : acquired 0 tag acts = [] := List.take_zero

theorem acquired_timeout (nReq : Nat) {act : EcaAction} (h : act.tag = ecaTimeout)
    (acts : List EcaAction) : acquired nReq tag (act :: acts) = [] := by
  simp [acquired, h]

theorem acquired_stamp (nReq : Nat) {act : EcaAction} (hout : act.tag ≠ ecaTimeout)
    (h : act.tag = tag) (acts : List EcaAction) :
    acquired (nReq + 1) tag (act :: acts) = act.deadline :: acquired nReq tag acts := by
  subst h
  simp [acquired, hout]

theorem acquired_other (nReq : Nat) {act : EcaAction} (hout : act.tag ≠ ecaTimeout)
    (h : act.tag ≠ tag) (acts : List EcaAction) :
    acquired nReq tag (act :: acts) = acquired nReq tag acts := by
  simp [acquired, hout, h]

theorem length_acquired_le (nReq : Nat) (acts : List EcaAction) :
    (acquired nReq tag acts).length ≤ nReq := List.length_take_le _ _

theorem acquireTimestamps_ok (htag : tag ≠ ecaTimeout) (nReq : Nat) (acts : List EcaAction)
    (ts : Stamps) (nRec : Nat) :
    ∃ ts', (∀ size, nRec + (acquired (nReq - nRec) tag acts).length ≤ size →
        acquireTimestamps size nReq tag acts ts nRec =
          .ok (ts', nRec + (acquired (nReq - nRec) tag acts).length)) ∧
      contents ts' (nRec + (acquired (nReq - nRec) tag acts).length) =
        contents ts nRec ++ acquired (nReq - nRec) tag acts := by
  induction acts generalizing ts nRec with
  | nil => exact ⟨ts, fun _ _ => by simp [acquireTimestamps, acquired], by simp [acquired]⟩
  | cons act acts ih =>
    rcases Nat.lt_or_ge nRec nReq with hlt | hge
    · by_cases hout : act.tag = ecaTimeout
      · refine ⟨ts, ?_, by simp [acquired_timeout _ hout]⟩
        intro size _
        have hother : act.tag ≠ tag := fun h => htag (h.symm.trans hout)
        simp only [acquireTimestamps, if_pos hlt, if_neg hother, if_pos hout,
          acquired_timeout _ hout, pure_eq_ok, ok_bind]
        rfl
      · by_cases hstamp : act.tag = tag
        · have hleft : nReq - nRec = nReq - (nRec + 1) + 1 := by omega
          obtain ⟨ts', hrun, hts⟩ := ih (Function.update ts nRec act.deadline) (nRec + 1)
          have hlen : nRec + (acquired (nReq - nRec) tag (act :: acts)).length =
              nRec + 1 + (acquired (nReq - (nRec + 1)) tag acts).length := by
            rw [hleft, acquired_stamp _ hout hstamp, List.length_cons]
            omega
          rw [hlen]
          refine ⟨ts', ?_, ?_⟩
          · intro size hsize
            simp only [acquireTimestamps, if_pos hlt, if_pos hstamp, if_neg hout,
              store_ok (show nRec < size by omega), ok_bind]
            exact hrun size hsize
          · have hold : contents (Function.update ts nRec act.deadline) nRec = contents ts nRec :=
              contents_congr fun i hi => Function.update_of_ne (by omega) _ _
            rw [hts, contents_succ, hold, Function.update_self, hleft,
              acquired_stamp _ hout hstamp, List.append_assoc]
            rfl
        · obtain ⟨ts', hrun, hts⟩ := ih ts nRec
          rw [acquired_other _ hout hstamp]
          refine ⟨ts', ?_, hts⟩
          intro size hsize
          simp only [acquireTimestamps, if_pos hlt, if_neg hstamp, if_neg hout, pure_eq_ok, ok_bind]
          exact hrun size hsize
    · rw [show nReq - nRec = 0 by omega]
      refine ⟨ts, fun _ _ => ?_, by simp⟩
      simp [acquireTimestamps, if_neg (show ¬nRec < nReq by omega)]

end Acquisition

/-! ### Safe measurements -/

def PmRequest.stamps (q : PmRequest) (acts : List EcaAction) : List Long :=
  acquired (samplesFor q.period) ecaTluInput3 acts

def Measured.Succeeded (r : Measured) : Prop := r.unit.flagPmError = 0

structure Safe (u : PhaseUnit) (q : PmRequest) (acts : List EcaAction) (actStatus : Word) : Prop where
  /-- It divides by something, and it has the same result when every timestamp but those that it
  has acquired is out of bounds. -/
  runs : ∃ r, u.measure (q.stamps acts).length q acts actStatus = .ok r ∧
    u.measure maxSamples q acts actStatus = .ok r
  /-- A phase depends on the acquired timestamps and the period alone. -/
  alone : ∀ r, u.measure maxSamples q acts actStatus = .ok r → r.Succeeded →
    ∀ (u' : PhaseUnit) (q' : PmRequest) (acts' : List EcaAction) (actStatus' : Word),
      q'.period = q.period → (q'.stamps acts').Perm (q.stamps acts) →
        ∃ r', u'.measure maxSamples q' acts' actStatus' = .ok r' ∧ r'.Succeeded ∧
          r'.unit.tH1 = r.unit.tH1

theorem samplesFor_le (period : Long) : samplesFor period ≤ maxSamples := by
  unfold samplesFor maxSamples
  split_ifs <;> decide

theorem length_stamps_le (q : PmRequest) (acts : List EcaAction) :
    (q.stamps acts).length ≤ maxSamples :=
  (length_acquired_le _ acts).trans (samplesFor_le q.period)

theorem PmRequest.toNat_period_lt (q : PmRequest) : q.period.toNat < 2 ^ 52 := by
  rw [period, BitVec.toNat_and]
  exact Nat.lt_of_le_of_lt Nat.and_le_right (by decide)

/-- The array that the fit looks at is the same whatever its size is, and holds the acquired
timestamps in order. -/
theorem PhaseUnit.measure_eq (u : PhaseUnit) (q : PmRequest) (acts : List EcaAction) :
    ∃ ts, (∀ size actStatus, (q.stamps acts).length ≤ size →
        u.measure size q acts actStatus =
          (phaseFit size ts q.period (q.stamps acts).length
            { u.tH1 with ns := 0x6fffffffffffffff }).map
            fun fit => q.report actStatus ts (q.stamps acts).length fit.1 fit.2) ∧
      (3 ≤ (q.stamps acts).length →
        contents ts (q.stamps acts).length = (q.stamps acts).insertionSort (· ≤ ·)) := by
  obtain ⟨ts, hacquire, hstamps⟩ := acquireTimestamps_ok
    (show ecaTluInput3 ≠ ecaTimeout by decide) (samplesFor q.period) acts u.tStamp 0
  rw [Nat.sub_zero, Nat.zero_add, ← PmRequest.stamps] at hacquire hstamps
  obtain ⟨ts', hsort, hsorted, -⟩ := insertionSort_ok ts (q.stamps acts).length
  have hreport : ∀ actStatus (ts : Stamps) (fit : Except Fault (Word × B2bt)),
      (do let (fit, tH1) ← fit; return q.report actStatus ts (q.stamps acts).length fit tH1) =
        fit.map fun fit => q.report actStatus ts (q.stamps acts).length fit.1 fit.2 := by
    intro actStatus ts fit
    cases fit <;> rfl
  by_cases hmany : 2 < (q.stamps acts).length
  · refine ⟨ts', ?_, fun _ => ?_⟩
    · intro size actStatus hsize
      simp only [measure, hacquire size hsize, ok_bind]
      rw [if_pos hmany]
      simp only [hsort size hsize, ok_bind]
      exact hreport actStatus ts' _
    · rw [hsorted]
      exact congrArg _ hstamps
  · refine ⟨ts, ?_, fun h => absurd h (by omega)⟩
    intro size actStatus hsize
    simp only [measure, hacquire size hsize, ok_bind]
    rw [if_neg hmany]
    exact hreport actStatus ts _

theorem PmRequest.report_succeeded (q : PmRequest) (actStatus : Word) (ts : Stamps) (n : Nat)
    (fit : Word) (tH1 : B2bt) : (q.report actStatus ts n fit tH1).Succeeded ↔ fit = statusOk := by
  have hflag : q.errFlag ≠ 0#32 := by
    rw [errFlag]
    split <;> decide
  by_cases hfit : fit = statusOk
  · simp [Measured.Succeeded, report, hfit]
  · simp [Measured.Succeeded, report, hfit, hflag]

theorem PhaseUnit.measure_alone {u : PhaseUnit} {q : PmRequest} {acts : List EcaAction}
    {actStatus : Word} {r : Measured} (h : u.measure maxSamples q acts actStatus = .ok r)
    (hok : r.Succeeded) (u' : PhaseUnit) (q' : PmRequest) (acts' : List EcaAction)
    (actStatus' : Word) (hperiod : q'.period = q.period)
    (hperm : (q'.stamps acts').Perm (q.stamps acts)) :
    ∃ r', u'.measure maxSamples q' acts' actStatus' = .ok r' ∧ r'.Succeeded ∧
      r'.unit.tH1 = r.unit.tH1 := by
  obtain ⟨ts, hmeasure, hsorted⟩ := u.measure_eq q acts
  obtain ⟨ts', hmeasure', hsorted'⟩ := u'.measure_eq q' acts'
  have hmax := length_stamps_le q acts
  rw [hmeasure maxSamples actStatus hmax] at h
  rw [hmeasure' maxSamples actStatus' (length_stamps_le q' acts')]
  rw [hperm.length_eq, hperiod]
  rw [hperm.length_eq] at hsorted'
  generalize hfit : phaseFit maxSamples ts q.period (q.stamps acts).length _ = fit at h
  rcases fit with _ | ⟨status, t⟩
  · cases h
  · obtain rfl := Except.ok.inj h
    obtain rfl := (q.report_succeeded actStatus ts _ status t).mp hok
    have hmany : 3 ≤ (q.stamps acts).length := by
      by_contra hfew
      rw [phaseFit_refused (Or.inr (by omega))] at hfit
      have hstatus : statusPhaseFailed = statusOk := congrArg Prod.fst (Except.ok.inj hfit)
      exact absurd hstatus (by decide)
    have hcontents : contents ts (q.stamps acts).length = contents ts' (q.stamps acts).length := by
      rw [hsorted hmany, hsorted' hmany]
      exact List.Perm.eq_of_pairwise' (List.pairwise_insertionSort _ _)
        (List.pairwise_insertionSort _ _)
        ((List.perm_insertionSort _ _).trans
          (hperm.symm.trans (List.perm_insertionSort _ _).symm))
    rw [phaseFit_alone hmax hmax hmax hcontents hfit]
    exact ⟨_, rfl, (q'.report_succeeded actStatus' ts' _ statusOk t).mpr rfl, rfl⟩

/-- A measurement is safe unless the period is shorter than a nanosecond, but not zero, and there
are enough timestamps for a fit. -/
theorem measurement_safe_iff (u : PhaseUnit) (q : PmRequest) (acts : List EcaAction)
    (actStatus : Word) :
    Safe u q acts actStatus ↔
      q.period = 0 ∨ 1000000000 ≤ q.period.toNat ∨ (q.stamps acts).length < 3 := by
  obtain ⟨ts, hmeasure, -⟩ := u.measure_eq q acts
  have hmax := length_stamps_le q acts
  have hzero := nsOfPeriod_eq_zero_iff q.toNat_period_lt
  constructor
  · intro hsafe
    obtain ⟨r, hrun, -⟩ := hsafe.runs
    by_contra hbad
    push Not at hbad
    obtain ⟨hperiod, hshort, hmany⟩ := hbad
    rw [hmeasure _ actStatus (Nat.le_refl _), phaseFit_eq hperiod hmany (Nat.le_refl _) hmax,
      if_pos (hzero.mpr hshort)] at hrun
    cases hrun
  · intro hcond
    refine ⟨?_, fun r h hok u' q' acts' actStatus' => u.measure_alone h hok u' q' acts' actStatus'⟩
    rw [hmeasure _ actStatus (Nat.le_refl _), hmeasure _ actStatus hmax]
    by_cases hrefused : q.period = 0 ∨ (q.stamps acts).length < 3
    · rw [phaseFit_refused hrefused, phaseFit_refused hrefused]
      exact ⟨_, rfl, rfl⟩
    · obtain ⟨hperiod, hmany⟩ := not_or.mp hrefused
      have hmany : 3 ≤ (q.stamps acts).length := by omega
      have hns : nsOfPeriod q.period ≠ 0 := by
        rcases hcond with hcond | hlong | hfew
        · exact absurd hcond hperiod
        · rw [Ne, hzero]
          omega
        · omega
      rw [phaseFit_eq hperiod hmany (Nat.le_refl _) hmax, phaseFit_eq hperiod hmany hmax hmax,
        if_neg hns]
      exact ⟨_, rfl, rfl⟩

/-- A measurement with the period `1` and three timestamps divides by zero. -/
theorem measurement_divByZero :
    ¬∀ (u : PhaseUnit) (q : PmRequest) (acts : List EcaAction) (actStatus : Word),
      Safe u q acts actStatus := by
  intro hall
  have hruns := (hall ⟨fun _ => 0, 0, ⟨0, 0, 0⟩, 0, 0, 0, 0⟩
    ⟨ecaPmExt, 0, 1, ⟨0, by decide⟩, ⟨0, by decide⟩, ⟨0, by decide⟩⟩
    [⟨ecaTluInput3, 100⟩, ⟨ecaTluInput3, 200⟩, ⟨ecaTluInput3, 300⟩] statusOk).runs
  obtain ⟨r, hrun, -⟩ := hruns
  have hok := congrArg Except.isOk hrun
  revert hok
  change ¬(_ = true)
  decide +kernel

end B2b
