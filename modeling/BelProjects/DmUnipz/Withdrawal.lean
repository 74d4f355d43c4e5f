import BelProjects.DmUnipz.Gateway

/-!
# Withdrawing a beam request

A beam request sets `SIS_Request` at UNIPZ and enables the event filter of the MIL piggy.  Both
are undone at the end of the call, unless the call is left before.
-/

namespace DmUnipz

open DataMaster

/-! ### What has to be undone -/

/-- `SIS_Request` is set at UNIPZ. -/
def Output.Requests : Output → Prop
  | .pzu w _ => w.sisRequest = true
  | .mil _ | .dm _ => False

def Output.Enables : Output → Prop
  | .mil v => v &&& milEvFilterOn ≠ 0
  | .pzu _ _ | .dm _ => False

/-- Both bits are written back to zero, and the bus has acknowledged it. -/
def Released (out : List Output) : Prop :=
  (∃ w, .pzu w true ∈ out ∧ w.sisRequest = false) ∧ ∃ w, .pzu w true ∈ out ∧ w.sisPrepReq = false

def Disabled (out : List Output) : Prop := ∃ v, .mil v ∈ out ∧ v &&& milEvFilterOn = 0

/-- Whenever beam is requested or the filter enabled, it is all undone afterwards. -/
def Withdrawn (out : List Output) : Prop :=
  ∀ pre o post, out = pre ++ o :: post → o.Requests ∨ o.Enables → Released post ∧ Disabled post

/-- The beam request reaches the arming of the MIL piggy: the event is neither late nor a delayed
one without wait, and the block of a request with wait can be prepared. -/
def Gateway.Arms (B : Build) (g : Gateway) (flagBooster : Bool) (e : EcaEvent) (x : BeamMeets) :
    Prop :=
  e.flagLate = false ∧ ¬(e.flagDelayed = true ∧ flagBooster = true) ∧
    (flagBooster = true ∨ (prepFlush B x g.dmCmds).1 = statusOk)

instance (B : Build) (g : Gateway) (flagBooster : Bool) (e : EcaEvent) (x : BeamMeets) :
    Decidable (g.Arms B flagBooster e x) := inferInstanceAs (Decidable (_ ∧ _))

/-! ### The two shapes of a beam request -/

section Shapes

variable {B : Build} {g : Gateway} {flagBooster : Bool} {e : EcaEvent} {x : BeamMeets}

/-- The gateway and the warning flag with which a request is armed. -/
def Gateway.prepared (B : Build) (g : Gateway) (flagBooster : Bool) (e : EcaEvent) (x : BeamMeets) :
    Gateway × Bool :=
  let g := g.openRequest flagBooster e
  if flagBooster then (g, false)
  else
    let (_, c, flagEbTimeout) := prepFlush B x g.dmCmds
    ({ g with dmCmds := c }, flagEbTimeout)

theorem Gateway.reqBeam_of_arms (h : g.Arms B flagBooster e x) :
    g.reqBeam B flagBooster e x =
      (g.prepared B flagBooster e x).1.armed B flagBooster e x
        (g.prepared B flagBooster e x).2 := by
  obtain ⟨hlate, hdelayed, hprep⟩ := h
  rw [reqBeam, if_neg (by simp [hlate]), if_neg hdelayed, prepared]
  cases flagBooster with
  | true => simp only [if_true]
  | false =>
    have hok : (prepFlush B x (g.openRequest false e).dmCmds).1 = statusOk :=
      hprep.resolve_left (by decide)
    simp only [Bool.false_eq_true, if_false, hok, ne_eq, not_true_eq_false]

theorem Gateway.reqBeam_out_of_not_arms (h : ¬ g.Arms B flagBooster e x) :
    (g.reqBeam B flagBooster e x).out = [] := by
  rw [reqBeam]
  by_cases hlate : e.flagLate = true
  · rw [if_pos hlate]
  · rw [if_neg hlate]
    by_cases hdelayed : e.flagDelayed = true ∧ flagBooster = true
    · rw [if_pos hdelayed]
    · rw [if_neg hdelayed]
      cases flagBooster with
      | true => exact absurd ⟨by simpa using hlate, hdelayed, Or.inl rfl⟩ h
      | false =>
        have hbad : (prepFlush B x (g.openRequest false e).dmCmds).1 ≠ statusOk := fun hok =>
          h ⟨by simpa using hlate, hdelayed, Or.inr hok⟩
        simp only [Bool.false_eq_true, if_false, ne_eq, hbad, not_false_eq_true, if_true]

end Shapes

/-! ### The filter -/

theorem writeToPzu_no_mil {w : WriteToPzu} {b : BusWrite} {v : MilCtrl} :
    .mil v ∉ writeToPzu w b := by
  cases b <;> simp [writeToPzu]

theorem checkClearReqNotOk_no_mil {x : ClearReq} {data : WriteToPzu} {v : MilCtrl} :
    .mil v ∉ (checkClearReqNotOk x data).out := by
  rw [checkClearReqNotOk]
  repeat' split
  all_goals simp [writeToPzu_no_mil]

theorem enabled_stays (regValue : MilCtrl) :
    disableFilterEvtMil (enableFilterEvtMil regValue) = milEvFilterOn := by
  rw [disableFilterEvtMil, enableFilterEvtMil]
  apply BitVec.eq_of_getLsbD_eq
  intro i hi
  rw [BitVec.getLsbD_and, BitVec.getLsbD_or]
  cases regValue.getLsbD i <;> cases milEvFilterOn.getLsbD i <;> rfl

theorem milEvFilterOn_ne : milEvFilterOn &&& milEvFilterOn ≠ 0 := by decide

theorem enable_ne (regValue : MilCtrl) : enableFilterEvtMil regValue &&& milEvFilterOn ≠ 0 := by
  have h := enabled_stays regValue
  rw [disableFilterEvtMil] at h
  rw [h]
  decide

section Armed

variable {B : Build} {g : Gateway} {flagBooster flagEbTimeout : Bool} {e : EcaEvent}
  {x : BeamMeets}

theorem Gateway.release_out (status : Word) :
    (g.release x status flagEbTimeout).out =
      (releaseBeam x.release g.writePzuData).out ++
        (unprepareBeam x.unprepare (releaseBeam x.release g.writePzuData).data).out ++
        (checkClearReqNotOk x.clear
          (unprepareBeam x.unprepare (releaseBeam x.release g.writePzuData).data).data).out ++
        [.mil (disableFilterEvtMil g.milCtrl)] := rfl

/-- Every value that a beam request writes to the control register enables the filter. -/
theorem Gateway.armed_mil {v : MilCtrl}
    (h : .mil v ∈ (g.armed B flagBooster e x flagEbTimeout).out) : v &&& milEvFilterOn ≠ 0 := by
  have hreq : .mil v ∉ (requestBeam x.request (dryRun e) g.writePzuData).out := writeToPzu_no_mil
  rw [armed] at h
  dsimp only at h
  split at h
  · rcases List.mem_cons.mp h with heq | hin
    · cases heq
      exact enable_ne _
    · exact absurd hin hreq
  · rw [release_out] at h
    simp only [List.mem_append, List.mem_cons, List.mem_map, List.not_mem_nil, or_false, reduceCtorEq,
      and_false, exists_false] at h
    rcases h with (heq | hin) | ((hrel | hunprep) | hclr) | heq
    · cases heq
      exact enable_ne _
    · exact absurd hin hreq
    · exact absurd hrel writeToPzu_no_mil
    · exact absurd hunprep writeToPzu_no_mil
    · exact absurd hclr checkClearReqNotOk_no_mil
    · cases heq
      change disableFilterEvtMil (enableFilterEvtMil g.milCtrl) &&& milEvFilterOn ≠ 0
      rw [enabled_stays]
      exact milEvFilterOn_ne

theorem Gateway.armed_out_head (B : Build) (g : Gateway) (flagBooster : Bool) (e : EcaEvent)
    (x : BeamMeets) (flagEbTimeout : Bool) :
    ∃ post, (g.armed B flagBooster e x flagEbTimeout).out =
      .mil (enableFilterEvtMil g.milCtrl) :: post := by
  rw [armed]
  dsimp only
  split
  · exact ⟨_, rfl⟩
  · exact ⟨_, rfl⟩

end Armed

theorem Gateway.not_withdrawn_of_arms {B : Build} {g : Gateway} {flagBooster : Bool} {e : EcaEvent}
    {x : BeamMeets} (harms : g.Arms B flagBooster e x) :
    ¬ Withdrawn (g.reqBeam B flagBooster e x).out := by
  intro h
  rw [reqBeam_of_arms harms] at h
  obtain ⟨post, hout⟩ := armed_out_head B (g.prepared B flagBooster e x).1 flagBooster e x
    (g.prepared B flagBooster e x).2
  obtain ⟨v, hin, hoff⟩ := (h [] _ post hout (Or.inr (enable_ne _))).2
  have hmem : .mil v ∈ ((g.prepared B flagBooster e x).1.armed B flagBooster e x
      (g.prepared B flagBooster e x).2).out := by
    rw [hout]
    exact List.mem_cons_of_mem _ hin
  exact armed_mil hmem hoff

/-- What a beam request has opened is undone exactly when it has opened nothing. -/
theorem withdrawn_iff (B : Build) (g : Gateway) (actStatus : Word) (nowait : Bool) (e : EcaEvent)
    (x : BeamMeets) :
    Withdrawn (g.event B actStatus (.reqBeam nowait e x)).out ↔ ¬ g.Arms B nowait e x := by
  constructor
  · intro h harms
    exact Gateway.not_withdrawn_of_arms harms h
  · intro h pre o post hout
    rw [Gateway.event, Gateway.reqBeam_out_of_not_arms h] at hout
    exact absurd hout.symm (by simp)

/-- A beam request without wait, at a gateway just booted, to which UNIPZ replies as it should. -/
def promptMeets : BeamMeets where
  clock := fun _ => 1000000
  reads := ⟨fun _ => .ok fun _ => 0, fun _ => .ok 0⟩
  reads2 := ⟨fun _ => .ok fun _ => 0, fun _ => .ok 0⟩
  request := ⟨.ok, [some ⟨false, true, false⟩]⟩
  milEvent := true
  ecaInjAction := ecaDoReady2Sis
  ecaInjDeadline := 1000000
  release := ⟨.ok, [some ⟨false, false, false⟩]⟩
  unprepare := .ok
  clear := ⟨some ⟨false, false, false⟩, .ok, [], .ok⟩

theorem beam_request_not_withdrawn :
    ¬ ∀ (B : Build) (g : Gateway) (actStatus : Word) (nowait : Bool) (e : EcaEvent) (x : BeamMeets),
      Withdrawn (g.event B actStatus (.reqBeam nowait e x)).out := by
  intro h
  let B : Build := ⟨147456, by decide⟩
  let e : EcaEvent := ⟨1000000, 0, 0x0404000000000000, false, false⟩
  have harms : (Gateway.boot 0).Arms B true e promptMeets := ⟨rfl, by decide, Or.inl rfl⟩
  exact Gateway.not_withdrawn_of_arms harms (h B (.boot 0) statusOk true e promptMeets)

end DmUnipz
