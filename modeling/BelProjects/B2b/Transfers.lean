import BelProjects.B2b.PhaseResults

/-!
# The settings of a transfer

The registers are submitted by a command and at each start.  A transfer uses the values that
the registers held together at the last accepted submission for its SID.
-/

namespace B2b

/-! ### The set in the registers -/

/-- The set that the registers hold, by the names of the registers. -/
def Shared.heldSet (shared : Shared) : Setting :=
  let inject := flagInject (shared .mode)
  { flagValid := true
    gid := if inject then shared .gidExt + shared .gidInj else shared .gidExt
    mode := shared .mode
    tH1Ext := joinHiLo (shared .tH1ExtHi) (shared .tH1ExtLo)
    nHExt := shared .nHExt
    tH1Inj := if inject then joinHiLo (shared .tH1InjHi) (shared .tH1InjLo) else 0
    nHInj := if inject then shared .nHInj else 0
    lSidInj := if inject then shared .lSidInj else 0
    lBpidInj := if inject then shared .lBpidInj else 0
    lParamInj := if inject then joinHiLo (shared .lParamInjHi) (shared .lParamInjLo) else 0
    cPhase := shared .cPhase
    cTrigExt := shared .cTrigExt
    cTrigInj := if inject then shared .cTrigInj else 0
    nBuckExt := shared .nBuckExt
    nBuckInj := if inject then shared .nBuckInj else 0
    fFinTune := shared .fFinTune
    fMBTune := if inject then shared .fMBTune else 0 }

/-- The setting of a SID is a given set. The bucket of injection may be another; so may the LSA
SID of injection in the modes that do not inject. -/
def Setting.Matches (x y : Setting) : Prop :=
  { x with
    nBuckInj := y.nBuckInj
    lSidInj := if flagInject y.mode then x.lSidInj else y.lSidInj } = y

/-- A transfer uses a set, apart from the bucket of injection. -/
structure Transfer.Uses (N : Numerics) (t : Transfer) (y : Setting) : Prop where
  gid : t.gid = y.gid
  mode : t.mode = y.mode
  tH1Ext : t.tH1Ext = y.tH1Ext
  nHExt : t.nHExt = y.nHExt
  tH1Inj : t.tH1Inj = y.tH1Inj
  nHInj : t.nHInj = y.nHInj
  cPhase : t.cPhase = N.tfns2tps y.cPhase
  cTrigExt : t.cTrigExt = N.tfns2tps y.cTrigExt
  cTrigInj : t.cTrigInj = N.tfns2tps y.cTrigInj
  nBucketExt : t.nBucketExt = y.nBuckExt
  fFineTune : t.fFineTune = y.fFinTune
  fMBTune : t.fMBTune = y.fMBTune
  sidInj : flagInject y.mode = true → t.sidInj = y.lSidInj
  bpidInj : t.bpidInj = y.lBpidInj
  paramInj : t.paramInj = y.lParamInj

theorem submitted_matches (x : Setting) (shared : Shared) :
    (x.submitted shared).Matches shared.heldSet := by
  have hmode : shared.heldSet.mode = shared .mode := rfl
  have hread : shared.read .mode = shared .mode := rfl
  rw [Setting.Matches, hmode]
  simp only [Setting.submitted, Shared.heldSet, hread]
  cases flagInject (shared .mode) <;> rfl

theorem load_uses {N : Numerics} {x y : Setting} (h : x.Matches y) (t : Transfer) (e : Action) :
    (t.load N x e).Uses N y := by
  rw [Setting.Matches] at h
  rw [← h]
  refine ⟨rfl, rfl, rfl, rfl, rfl, rfl, rfl, rfl, rfl, rfl, rfl, rfl, fun hinject => ?_, rfl, rfl⟩
  have hmode := congrArg Setting.mode h
  have hinject' : flagInject y.mode = true := hmode ▸ hinject
  exact (if_pos hinject').symm

/-! ### Submissions in a run -/

def Event.Submits : Event → Prop
  | .confSubmit => True
  | .action e => e.ecaAction = ecaStart
  | _ => False

def Event.Commands : Event → Prop
  | .confSubmit => True
  | _ => False

instance : DecidablePred Event.Submits
  | .confSubmit => isTrue trivial
  | .action e => inferInstanceAs (Decidable (e.ecaAction = ecaStart))
  | .write .. | .confClear | .configure | .enterOperation => isFalse id

instance : DecidablePred Event.Commands
  | .confSubmit => isTrue trivial
  | .action _ | .write .. | .confClear | .configure | .enterOperation => isFalse id

/-- The unit, with what the registers held at the last accepted submission for each SID, and
the transfer that has begun: its SID and the registers at the last submission for it. -/
structure Submissions where
  cbu : Cbu
  last : Fin nSid → Option Shared
  current : Option (Fin nSid × Option Shared)

def Submissions.event (N : Numerics) (p : Event → Prop) [DecidablePred p] (o : Submissions)
    (ev : Event) : Submissions :=
  let last := fun sid => if p ev ∧ Accepted o.cbu.shared sid then some o.cbu.shared else o.last sid
  { cbu := (o.cbu.event N ev).1
    last
    current :=
      match ev with
      | .action e =>
          if e.ecaAction = ecaStart then (o.cbu.started e).map fun sid => (sid, last sid)
          else o.current
      | _ => o.current }

/-- A run after power-up, in which the events `p` count as submissions. -/
def submissions (N : Numerics) (p : Event → Prop) [DecidablePred p] (evs : List Event) :
    Submissions :=
  evs.foldl (Submissions.event N p) ⟨.boot, fun _ => none, none⟩

theorem submissions_snoc (N : Numerics) (p : Event → Prop) [DecidablePred p] (evs : List Event)
    (ev : Event) : submissions N p (evs ++ [ev]) = (submissions N p evs).event N p ev := by
  rw [submissions, List.foldl_append]
  rfl

def Submitted (sets : Settings) (last : Fin nSid → Option Shared) : Prop :=
  ∀ sid, (sets sid).flagValid = true → ∃ shared, last sid = some shared ∧
    Accepted shared sid ∧ (sets sid).Matches shared.heldSet

theorem Submitted.submit {sets : Settings} {last : Fin nSid → Option Shared}
    (h : Submitted sets last) (shared : Shared) :
    Submitted (setSubmit shared sets).2
      fun sid => if Accepted shared sid then some shared else last sid := by
  intro sid hvalid
  by_cases hacc : Accepted shared sid
  · refine ⟨shared, if_pos hacc, hacc, ?_⟩
    rw [setSubmit_accepted hacc]
    simp only [Function.update_self]
    exact submitted_matches _ _
  · simp only [if_neg hacc]
    have hkept : (setSubmit shared sets).2 sid = sets sid := by
      by_cases hown : sidIndex (shared .sidEExt) = some sid
      · have hnone : ∀ other, ¬ Accepted shared other := by
          intro other hother
          have heq : other = sid := Option.some.inj (hother.index.symm.trans hown)
          exact hacc (heq ▸ hother)
        rw [(setSubmit_rejected hnone sets).2 sid, if_pos hown] at hvalid
        cases hvalid
      · exact setSubmit_other hown sets
    rw [hkept] at hvalid ⊢
    exact h sid hvalid

theorem Submitted.clear (last : Fin nSid → Option Shared) : Submitted clearAllSid last :=
  fun _ hvalid => absurd hvalid Bool.false_ne_true

/-! ### The settings in a call -/

section Calls

variable {N : Numerics} {e : Action} {c : Call}

theorem Call.inState_sets {b : MState × (Call → Call)} (hb : b ∈ miniFsm N e) :
    (c.inState b).cbu.sets = c.cbu.sets := by
  obtain ⟨msgs, hacts⟩ := miniFsm_acts (c := c) hb
  rcases c.inState_cases b with heq | ⟨-, -, ⟨-, heq⟩ | ⟨-, heq⟩⟩
  · rw [heq]
  · rw [heq]
    exact hacts.sets
  · rw [heq]
    exact hacts.sets

theorem Call.handle_sets (N : Numerics) (e : Action) (c : Call) :
    (c.handle N e).cbu.sets = (c.receive N e).cbu.sets :=
  List.foldlRecOn (motive := fun c' => c'.cbu.sets = (c.receive N e).cbu.sets) (miniFsm N e)
    Call.inState rfl fun _ h _ hb => (Call.inState_sets hb).trans h

theorem Call.receive_sets (N : Numerics) (c : Call) (hstart : e.ecaAction ≠ ecaStart) :
    (c.receive N e).cbu.sets = c.cbu.sets := by
  rcases c.receive_cases N e hstart with ⟨⟨-, hacts⟩, -⟩ | ⟨r, -, -, c', hacts, -, heq⟩
  · exact hacts.sets
  · rw [heq]
    exact hacts.sets

theorem Call.finish_sets (e : Action) (c : Call) :
    (c.finish e).cbu.sets = c.cbu.sets ∨ (c.finish e).cbu.sets = clearAllSid := by
  unfold Call.finish
  split
  · dsimp only
    split
    · exact Or.inr rfl
    · exact Or.inl rfl
  · exact Or.inl rfl

end Calls

namespace Submissions

variable {N : Numerics} {p : Event → Prop} [DecidablePred p] {o : Submissions}

/-- The invariant of a run in which commands and starts are submissions. -/
structure Inv (N : Numerics) (o : Submissions) : Prop where
  settings : Submitted o.cbu.sets o.last
  current : ∀ sid source, o.current = some (sid, source) → ∃ shared, source = some shared ∧
    Accepted shared sid ∧ o.cbu.transfer.Uses N shared.heldSet

theorem Inv.start (h : o.Inv N) {e : Action} (hstart : e.ecaAction = ecaStart) :
    (o.event N Event.Submits (.action e)).Inv N := by
  have hsubmits : Event.Submits (.action e) := hstart
  have hlast : (o.event N Event.Submits (.action e)).last =
      fun sid => if Accepted o.cbu.shared sid then some o.cbu.shared else o.last sid := by
    funext sid
    simp only [event, hsubmits, true_and]
  have hsub := h.settings.submit o.cbu.shared
  rw [← hlast] at hsub
  have hreceive : (Call.enter o.cbu e).receive N e = (Call.enter o.cbu e).start N e :=
    if_pos hstart
  have hsets := (Call.handle_sets N e (Call.enter o.cbu e)).trans
    ((congrArg (fun c => c.cbu.sets) hreceive).trans ((Call.enter o.cbu e).start_sets N e))
  constructor
  · rcases Call.finish_sets e ((Call.enter o.cbu e).handle N e) with hkept | hcleared
    · have hnow : (o.event N Event.Submits (.action e)).cbu.sets = o.cbu.setsAt :=
        hkept.trans hsets
      rw [hnow]
      exact hsub
    · have hnow : (o.event N Event.Submits (.action e)).cbu.sets = clearAllSid := hcleared
      rw [hnow]
      exact .clear _
  · intro sid source hcurrent
    have hmap : (o.cbu.started e).map
        (fun sid => (sid, (o.event N Event.Submits (.action e)).last sid)) = some (sid, source) := by
      rw [← hcurrent]
      simp only [event, if_pos hstart]
    obtain ⟨sid', hstarted, hpair⟩ := Option.map_eq_some_iff.mp hmap
    obtain ⟨rfl, rfl⟩ := Prod.mk.inj hpair
    rcases (Call.enter o.cbu e).start_cases N e with ⟨-, -, -, hnone⟩ | ⟨own, hown, hvalid, -, heq⟩
    · exact absurd (hstarted.symm.trans hnone) (Option.some_ne_none _)
    · cases Option.some.inj (hown.symm.trans hstarted)
      obtain ⟨shared, hsource, hacc, hmatch⟩ := hsub sid' hvalid
      refine ⟨shared, hsource, hacc, ?_⟩
      have htransfer : (o.event N Event.Submits (.action e)).cbu.transfer =
          ((o.cbu.clearTransfer e).loadTransfer N (o.cbu.setsAt sid') e).transfer := by
        calc (o.event N Event.Submits (.action e)).cbu.transfer
            = ((Call.enter o.cbu e).handle N e).cbu.transfer := Call.finish_transfer e _
          _ = ((Call.enter o.cbu e).receive N e).cbu.transfer :=
              foldl_inState_transfer (fun _ hb => hb)
          _ = ((Call.enter o.cbu e).start N e).cbu.transfer := by rw [hreceive]
          _ = _ := congrArg Cbu.transfer heq
      rw [htransfer]
      exact load_uses hmatch _ e

theorem Inv.other (h : o.Inv N) {ev : Event} (hsubmits : ¬ ev.Submits) :
    (o.event N Event.Submits ev).Inv N := by
  have hlast : (o.event N Event.Submits ev).last = o.last := by
    funext sid
    simp only [event, hsubmits, false_and, if_false]
  have hcurrent : (o.event N Event.Submits ev).current = o.current := by
    cases ev with
    | action e => exact if_neg hsubmits
    | _ => rfl
  cases ev with
  | action e =>
      have htransfer : (o.event N Event.Submits (.action e)).cbu.transfer = o.cbu.transfer :=
        (Call.finish_transfer e _).trans (Call.handle_transfer N _ hsubmits)
      have hsets : ((Call.enter o.cbu e).handle N e).cbu.sets = o.cbu.sets :=
        (Call.handle_sets N e _).trans (Call.receive_sets N _ hsubmits)
      constructor
      · rw [hlast]
        rcases Call.finish_sets e ((Call.enter o.cbu e).handle N e) with hkept | hcleared
        · have hnow : (o.event N Event.Submits (.action e)).cbu.sets = o.cbu.sets :=
            hkept.trans hsets
          rw [hnow]
          exact h.settings
        · have hnow : (o.event N Event.Submits (.action e)).cbu.sets = clearAllSid := hcleared
          rw [hnow]
          exact .clear _
      · rw [hcurrent, htransfer]
        exact h.current
  | confSubmit => exact absurd trivial hsubmits
  | write r value =>
      refine ⟨?_, ?_⟩
      · rw [hlast]
        exact h.settings
      · rw [hcurrent]
        exact h.current
  | confClear =>
      refine ⟨?_, ?_⟩
      · rw [hlast]
        exact h.settings
      · rw [hcurrent]
        exact h.current
  | configure =>
      refine ⟨?_, ?_⟩
      · rw [hlast]
        exact .clear _
      · rw [hcurrent]
        exact h.current
  | enterOperation =>
      refine ⟨?_, ?_⟩
      · rw [hlast]
        exact h.settings
      · rw [hcurrent]
        exact h.current

theorem Inv.confSubmit (h : o.Inv N) : (o.event N Event.Submits .confSubmit).Inv N := by
  have hlast : (o.event N Event.Submits .confSubmit).last =
      fun sid => if Accepted o.cbu.shared sid then some o.cbu.shared else o.last sid := by
    funext sid
    simp only [event, Event.Submits, true_and]
  constructor
  · rw [hlast]
    exact h.settings.submit o.cbu.shared
  · exact h.current

theorem inv_run (N : Numerics) (evs : List Event) :
    (submissions N Event.Submits evs).Inv N := by
  induction evs using List.reverseRecOn with
  | nil => exact ⟨.clear _, fun _ _ h => by cases h⟩
  | append_singleton evs ev ih =>
      rw [submissions_snoc]
      by_cases hsubmits : ev.Submits
      · cases ev with
        | action e => exact ih.start hsubmits
        | confSubmit => exact ih.confSubmit
        | write r value => exact absurd hsubmits id
        | confClear => exact absurd hsubmits id
        | configure => exact absurd hsubmits id
        | enterOperation => exact absurd hsubmits id
      · exact ih.other hsubmits

end Submissions

/-- The values of a transfer are those that the registers held together at the last accepted
submission for its SID, by a command or by a start; the bucket of injection is left open.  A
rejected submission leaves the settings of all other SIDs as they are. -/
theorem transfer_uses_submitted (N : Numerics) (evs : List Event) (sid : Fin nSid)
    (source : Option Shared)
    (h : (submissions N Event.Submits evs).current = some (sid, source)) :
    (∃ shared, source = some shared ∧ Accepted shared sid ∧
        (submissions N Event.Submits evs).cbu.transfer.Uses N shared.heldSet) ∧
      ∀ (shared : Shared) (sets : Settings), (setSubmit shared sets).1 ≠ statusOk →
        ∀ other, sidIndex (shared .sidEExt) ≠ some other → (setSubmit shared sets).2 other = sets other :=
  ⟨(Submissions.inv_run N evs).current sid source h, fun _ sets _ _ hother => setSubmit_other hother sets⟩

section Sample

/-- The set is started with, and no longer the set that was submitted. -/
def mixedRun : List Event :=
  [.write .sidEExt 2, .write .gidExt sis18B2bExtract, .write .mode modeB2e,
    .write .tH1ExtLo 1000, .confSubmit, .write .tH1ExtLo 7, .action (someAction ecaStart)]

theorem transfer_uses_submitted_sample :
    ∃ shared, (submissions someNumerics Event.Submits mixedRun).cbu.transfer.Uses someNumerics
      (Shared.heldSet shared) := by
  have hcurrent : ((submissions someNumerics Event.Submits mixedRun).current.map Prod.fst) =
      some ⟨2, by decide⟩ := by decide +kernel
  obtain ⟨⟨sid, source⟩, hsome, hsid⟩ := Option.map_eq_some_iff.mp hcurrent
  obtain ⟨⟨shared, -, -, huses⟩, -⟩ :=
    transfer_uses_submitted someNumerics mixedRun sid source hsome
  exact ⟨shared, huses⟩

/-- The host has submitted a set for SID 2 and has begun to write the next one; the start
takes the new period. -/
theorem unsubmitted_values :
    ¬ ∀ (N : Numerics) (evs : List Event) (sid : Fin nSid) (source : Option Shared),
      (submissions N Event.Commands evs).current = some (sid, source) →
        ∃ shared, source = some shared ∧
          (submissions N Event.Commands evs).cbu.transfer.Uses N shared.heldSet ∧
          (submissions N Event.Commands evs).cbu.transfer.nBucketInj = shared.heldSet.nBuckInj := by
  intro hall
  have hperiod : ((submissions someNumerics Event.Commands mixedRun).current.bind fun o =>
      o.2.map fun shared => shared.heldSet.tH1Ext) = some 1000 := by decide +kernel
  have hused : (submissions someNumerics Event.Commands mixedRun).cbu.transfer.tH1Ext = 7 := by
    decide +kernel
  obtain ⟨⟨sid, source⟩, hsome, hsource⟩ := Option.bind_eq_some_iff.mp hperiod
  obtain ⟨shared, heq, huses, -⟩ := hall someNumerics mixedRun sid source hsome
  rw [heq, Option.map_some, Option.some.injEq] at hsource
  have hfinal := (hused.symm.trans huses.tH1Ext).trans hsource
  exact absurd hfinal (by decide)

end Sample

end B2b
