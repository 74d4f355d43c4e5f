import BelProjects.B2b.Kicks

/-!
# Phase results of both rings

In the bunch-to-bucket modes two results are waited for, and they are counted without regard
to the ring that they come from.  Both phases are there exactly if the first two results of
each transfer come from different rings.
-/

namespace B2b

def Output.state : Output → Option MState
  | .step m => some m
  | .sent _ => none

def steps (log : List Output) : List MState := log.filterMap Output.state

def MState.NeedsPhases (m : MState) : Prop :=
  m = .extTFBeatC ∨ m = .extPShiftC ∨ m = .injPShiftC ∨ m = .extPShiftS ∨ m = .injPShiftS ∨
    m = .extTrig ∨ m = .injTrig

instance (m : MState) : Decidable m.NeedsPhases := inferInstanceAs (Decidable (_ ∨ _))

namespace History

/-- The steps of a bunch-to-bucket transfer that need both phases are executed only after a
result of each ring has been received. -/
def BothPhases (h : History) : Prop :=
  Bucket h.cbu.transfer.mode → ∀ m ∈ steps h.out, m.NeedsPhases →
    .ext ∈ h.results ∧ .inj ∈ h.results

/-- The first two results for a bunch-to-bucket transfer come from different rings. -/
def DistinctRings (h : History) : Prop :=
  Bucket h.cbu.transfer.mode → (h.results.take 2).Nodup

instance (h : History) : Decidable h.BothPhases := inferInstanceAs (Decidable (_ → _))
instance (h : History) : Decidable h.DistinctRings := inferInstanceAs (Decidable (_ → _))

end History

/-! ### The machine in the bunch-to-bucket modes -/

theorem steps_append (log log' : List Output) : steps (log ++ log') = steps log ++ steps log' :=
  List.filterMap_append

theorem steps_sent (msgs : List TimingMsg) : steps (msgs.map .sent) = [] := by
  rw [steps, List.filterMap_map]
  exact List.filterMap_eq_nil_iff.mpr fun _ _ => rfl

theorem Acts.steps {c c' : Call} {msgs : List TimingMsg} (h : Acts c c' msgs) :
    steps c'.out = steps c.out := by
  rw [h.out, steps_append, steps_sent, List.append_nil]

/-- How far a call has come: it goes on, in a state and with a count, and has executed states. -/
structure At (c : Call) (mode : Word) (next : MState × Word) (done : List MState) : Prop where
  ret : c.ret = none
  mode : c.cbu.transfer.mode = mode
  mState : c.cbu.mState = next.1
  nPhaseResult : c.cbu.nPhaseResult = next.2
  done : steps c.out = done

section Machine

variable {N : Numerics} {e : Action} {c c' : Call} {mode n : Word} {m : MState} {done : List MState}

/-- A state is left. -/
theorem At.advance (h : At c mode (m, n) done) {msgs : List TimingMsg} (hacts : Acts c c' msgs)
    (hret : c'.ret = c.ret) : At c'.advance mode (getNextMState mode m n) (done ++ [m]) where
  ret := hret.trans h.ret
  mode := (congrArg Transfer.mode hacts.transfer).trans h.mode
  mState := by
    simp only [Call.advance, hacts.transfer, hacts.mState, hacts.nPhaseResult, h.mode, h.mState,
      h.nPhaseResult]
  nPhaseResult := by
    simp only [Call.advance, hacts.transfer, hacts.mState, hacts.nPhaseResult, h.mode, h.mState,
      h.nPhaseResult]
  done := by
    simp only [Call.advance, steps_append, hacts.steps, h.done, hacts.mState, h.mState]
    rfl

theorem At.execute (h : At c mode (m, n) done) (act : Call → Call) (hact : Quiet c (act c)) :
    At (c.inState (m, act)) mode (getNextMState mode m n) (done ++ [m]) := by
  obtain ⟨hret, msgs, hacts, -⟩ := hact
  have hgo : c.inState (m, act) = (act c).advance := by
    rw [Call.inState, if_pos ⟨h.ret, h.mState⟩]
    exact if_pos (hret.trans h.ret)
  rw [hgo]
  exact h.advance hacts hret

theorem At.skip (h : At c mode (m, n) done) {x : MState} (hx : m ≠ x) (act : Call → Call) :
    At (c.inState (x, act)) mode (m, n) done := by
  have hskip : c.inState (x, act) = c := if_neg fun hx' => hx (h.mState.symm.trans hx'.2)
  rwa [hskip]

theorem At.wait (h : At c mode (.allPMeasR, n) done) :
    At ((miniFsm N e).foldl Call.inState c) mode (.allPMeasR, n) done :=
  (((((((((((h.skip (by decide) _).skip (by decide) _).skip (by decide) _).skip (by decide) _).skip
    (by decide) _).skip (by decide) _).skip (by decide) _).skip (by decide) _).skip
    (by decide) _).skip (by decide) _).skip (by decide) _)

/-- A start requests both measurements and waits. -/
theorem At.start (h : At c mode (getNextMState mode .s0 n) []) (hmode : Bucket mode) :
    At ((miniFsm N e).foldl Call.inState c) mode (.allPMeasR, 0) [.extPMeasS, .injPMeasS] := by
  rw [hmode.next_s0] at h
  have h₁ := (h.skip (x := .extTKickC) (by decide) Call.extTKickC).execute
    (Call.extPMeasS e) (Call.extPMeasS_quiet e _)
  rw [hmode.next_extPMeasS] at h₁
  have h₂ := h₁.execute (Call.injPMeasS e) (Call.injPMeasS_quiet e _)
  rw [hmode.next_injPMeasS] at h₂
  exact ((((((((h₂.skip (by decide) _).skip (by decide) _).skip (by decide) _).skip
    (by decide) _).skip (by decide) _).skip (by decide) _).skip (by decide) _).skip (by decide) _)

/-- Once both results are there, a call never waits for results again. -/
structure Going (c : Call) (mode : Word) (done : List MState) : Prop where
  mode : c.cbu.transfer.mode = mode
  acting : c.cbu.mState.Acting
  done : ∀ m ∈ done, m ∈ steps c.out

theorem Going.inState {b : MState × (Call → Call)} (h : Going c mode done) (hmode : Bucket mode)
    (hb : b ∈ miniFsm N e) : Going (c.inState b) mode done := by
  obtain ⟨msgs, hacts⟩ := miniFsm_acts (c := c) hb
  have hmode' : (b.2 c).cbu.transfer.mode = mode :=
    (congrArg Transfer.mode hacts.transfer).trans h.mode
  rcases c.inState_cases b with heq | ⟨-, -, ⟨-, heq⟩ | ⟨-, heq⟩⟩
  · rwa [heq]
  · rw [heq]
    refine ⟨hmode', ?_, fun m hm => ?_⟩
    · have hbucket : Bucket (b.2 c).cbu.transfer.mode := hmode'.symm ▸ hmode
      have hacting : (b.2 c).cbu.mState.Acting := hacts.mState.symm ▸ h.acting
      exact hbucket.next_acting _ hacting
    · have hold : m ∈ steps (b.2 c).out := by
        rw [hacts.steps]
        exact h.done m hm
      simp only [Call.advance, steps_append, List.mem_append]
      exact Or.inl hold
  · rw [heq]
    refine ⟨hmode', hacts.mState.symm ▸ h.acting, fun m hm => ?_⟩
    rw [hacts.steps]
    exact h.done m hm

theorem Going.foldl {bs : List (MState × (Call → Call))} (h : Going c mode done)
    (hmode : Bucket mode) (hbs : ∀ b ∈ bs, b ∈ miniFsm N e) :
    Going (bs.foldl Call.inState c) mode done :=
  List.foldlRecOn (motive := fun c => Going c mode done) bs Call.inState h
    fun _ h' _ hb => h'.inState hmode (hbs _ hb)

theorem At.going {next : MState × Word} (h : At c mode next done) (hacting : next.1.Acting)
    (hm : m ∈ done) : Going c mode [m] where
  mode := h.mode
  acting := h.mState.symm ▸ hacting
  done := by
    intro x hx
    rw [List.mem_singleton.mp hx, h.done]
    exact hm

theorem At.second (h : At c mode (getNextMState mode .allPMeasR 1) done) (hmode : Bucket mode) :
    ∃ m, m.NeedsPhases ∧ Going ((miniFsm N e).foldl Call.inState c) mode [m] := by
  have hrest (k : Nat) : ∀ b ∈ (miniFsm N e).drop k, b ∈ miniFsm N e :=
    fun b hb => List.mem_of_mem_drop hb
  rw [hmode.next_second] at h
  rcases hmode with rfl | rfl | rfl
  · have h₁ := (((h.skip (x := .extTKickC) (by decide) Call.extTKickC).skip (x := .extPMeasS)
      (by decide) (Call.extPMeasS e)).skip (x := .injPMeasS) (by decide) (Call.injPMeasS e)).skip
      (x := .extTNextRfC) (by decide) (Call.extTNextRfC N)
    have h₂ := h₁.execute (Call.extTFBeatC N e) (Call.extTFBeatC_quiet N e _)
    have hgoing := h₂.going (by decide) (List.mem_append_right _ List.mem_cons_self)
    exact ⟨.extTFBeatC, by decide, hgoing.foldl (by decide) (hrest 5)⟩
  · have h₁ := ((h.skip (x := .extTKickC) (by decide) Call.extTKickC).skip (x := .extPMeasS)
      (by decide) (Call.extPMeasS e)).skip (x := .injPMeasS) (by decide) (Call.injPMeasS e)
    have h₂ := (h₁.execute (Call.extTNextRfC N) (Call.extTNextRfC_quiet N _)).skip
      (x := .extTFBeatC) (by decide) (Call.extTFBeatC N e)
    have h₃ := h₂.execute (Call.extPShiftC N) (Call.extPShiftC_quiet N _)
    have hgoing := h₃.going (by decide) (List.mem_append_right _ List.mem_cons_self)
    exact ⟨.extPShiftC, by decide, hgoing.foldl (by decide) (hrest 6)⟩
  · have h₁ := ((h.skip (x := .extTKickC) (by decide) Call.extTKickC).skip (x := .extPMeasS)
      (by decide) (Call.extPMeasS e)).skip (x := .injPMeasS) (by decide) (Call.injPMeasS e)
    have h₂ := ((h₁.execute (Call.extTNextRfC N) (Call.extTNextRfC_quiet N _)).skip
      (x := .extTFBeatC) (by decide) (Call.extTFBeatC N e)).skip (x := .extPShiftC) (by decide)
      (Call.extPShiftC N)
    have h₃ := h₂.execute (Call.injPShiftC N) (Call.injPShiftC_quiet N _)
    have hgoing := h₃.going (by decide) (List.mem_append_right _ List.mem_cons_self)
    exact ⟨.injPShiftC, by decide, hgoing.foldl (by decide) (hrest 7)⟩

end Machine

/-! ### Results in a run -/

/-- How a bunch-to-bucket transfer waits for its results. -/
inductive Waiting : MState → Word → List Ring → Prop where
  | both : Waiting .allPMeasR 0 []
  | second (r : Ring) : Waiting .allPMeasR 1 [r]
  | done {m : MState} (hm : m.Acting) (n : Word) (r r' : Ring) (rs : List Ring) :
      Waiting m n (r :: r' :: rs)

def History.Counts (h : History) : Prop :=
  Bucket h.cbu.transfer.mode → Waiting h.cbu.mState h.cbu.nPhaseResult h.results

/-- What an event does to the invariant, and to the two sides of the equivalence. -/
def History.Keeps (h h' : History) : Prop :=
  h'.Counts ∧ (h.DistinctRings → (h'.BothPhases ↔ h'.DistinctRings))

theorem nodup_two_iff (r r' : Ring) :
    ([r, r'] : List Ring).Nodup ↔ .ext ∈ [r, r'] ∧ .inj ∈ [r, r'] := by
  cases r <;> cases r' <;> decide

theorem Waiting.of_wait {n : Word} {rs : List Ring} (h : Waiting .allPMeasR n rs) :
    (n = 0 ∧ rs = []) ∨ (n = 1 ∧ ∃ r, rs = [r]) := by
  cases h with
  | both => exact Or.inl ⟨rfl, rfl⟩
  | second r => exact Or.inr ⟨rfl, r, rfl⟩
  | done hm => exact absurd hm (by decide)

theorem Waiting.of_ne {m : MState} {n : Word} {rs : List Ring} (h : Waiting m n rs)
    (hm : m ≠ .allPMeasR) : m.Acting ∧ ∃ r r' rs', rs = r :: r' :: rs' := by
  cases h with
  | both => exact absurd rfl hm
  | second r => exact absurd rfl hm
  | done hacting n r r' rs => exact ⟨hacting, r, r', rs, rfl⟩

namespace History

variable {N : Numerics} {e : Action} {h h' : History}

theorem keeps_of_not_bucket (hmode : ¬ Bucket h'.cbu.transfer.mode) : h.Keeps h' :=
  ⟨fun hb => absurd hb hmode, fun _ => ⟨fun _ hb => absurd hb hmode, fun _ hb => absurd hb hmode⟩⟩

/-- An event on which nothing is executed; a result may be too many. -/
theorem Counts.idle (hc : h.Counts) (hout : h'.out = [])
    (hmode : h'.cbu.transfer.mode = h.cbu.transfer.mode) (hm : h'.cbu.mState = h.cbu.mState)
    (hn : h'.cbu.nPhaseResult = h.cbu.nPhaseResult)
    (hres : h'.results = h.results ∨
      h.cbu.mState ≠ .allPMeasR ∧ ∃ rs, h'.results = h.results ++ rs) : h.Keeps h' := by
  by_cases hb : Bucket h.cbu.transfer.mode
  swap
  · exact keeps_of_not_bucket (hmode ▸ hb)
  have hboth : h'.BothPhases := fun _ m hmem => by
    rw [hout] at hmem
    exact absurd hmem List.not_mem_nil
  have hw := hc hb
  rcases hres with hres | ⟨hne, rs, hres⟩
  · refine ⟨fun _ => ?_, fun hd => ⟨fun _ _ => ?_, fun _ => hboth⟩⟩
    · rw [hm, hn, hres]
      exact hw
    · rw [hres]
      exact hd hb
  · obtain ⟨hacting, r, r', rs', htwo⟩ := hw.of_ne hne
    rw [htwo, List.cons_append, List.cons_append] at hres
    refine ⟨fun _ => ?_, fun hd => ⟨fun _ _ => ?_, fun _ => hboth⟩⟩
    · rw [hm, hn, hres]
      exact .done hacting _ r r' _
    · have hold := hd hb
      rw [htwo] at hold
      rw [hres]
      exact hold

/-- A run is where a call has left the unit. -/
structure Shows (h : History) (c : Call) : Prop where
  mode : h.cbu.transfer.mode = c.cbu.transfer.mode
  mState : h.cbu.mState = c.cbu.mState
  nPhaseResult : h.cbu.nPhaseResult = c.cbu.nPhaseResult
  out : h.out = c.out

theorem event_shows (N : Numerics) (h : History) (e : Action) :
    (h.event N (.action e)).Shows ((Call.enter h.cbu e).handle N e) := by
  have hcbu : (h.event N (.action e)).cbu = (((Call.enter h.cbu e).handle N e).finish e).cbu := by
    simp only [event]
    split <;> rfl
  have hout : (h.event N (.action e)).out = (((Call.enter h.cbu e).handle N e).finish e).out := by
    simp only [event]
    split <;> rfl
  constructor
  · rw [hcbu, Call.finish_transfer]
  · rw [hcbu, Call.finish_mState]
  · rw [hcbu, Call.finish_nPhaseResult]
  · rw [hout, Call.finish_out]

theorem keeps_first {mode : Word} {c : Call} {r : Ring} (hs : h'.Shows c)
    (hat : At c mode (.allPMeasR, 1) [.allPMeasR]) (hres : h'.results = [r]) : h.Keeps h' := by
  refine ⟨fun _ => ?_, fun _ => ⟨fun _ _ => ?_, fun _ _ m hm hneeds => ?_⟩⟩
  · rw [hs.mState, hs.nPhaseResult, hres, hat.mState, hat.nPhaseResult]
    exact .second r
  · rw [hres]
    exact List.nodup_singleton r
  · rw [hs.out, hat.done, List.mem_singleton] at hm
    rw [hm] at hneeds
    exact absurd hneeds (by decide)

theorem keeps_second {mode : Word} {c : Call} {m : MState} {r r' : Ring} (hs : h'.Shows c)
    (hneeds : m.NeedsPhases) (hgoing : Going c mode [m]) (hbucket : Bucket mode)
    (hres : h'.results = [r, r']) : h.Keeps h' := by
  have hb : Bucket h'.cbu.transfer.mode := by
    rw [hs.mode, hgoing.mode]
    exact hbucket
  refine ⟨fun _ => ?_, fun _ => ⟨fun hboth _ => ?_, fun hd _ x _ _ => ?_⟩⟩
  · rw [hs.mState, hres]
    exact .done hgoing.acting _ r r' []
  · have hmem : m ∈ steps h'.out := hs.out ▸ hgoing.done m List.mem_cons_self
    have hrings := hboth hb m hmem hneeds
    rw [hres] at hrings ⊢
    exact (nodup_two_iff r r').mpr hrings
  · have hnodup := hd hb
    rw [hres] at hnodup ⊢
    exact (nodup_two_iff r r').mp hnodup

theorem Counts.call (hc : h.Counts) (hstart : e.ecaAction ≠ ecaStart) :
    h.Keeps (h.event N (.action e)) := by
  have hs := h.event_shows N e
  have hres : (h.event N (.action e)).results =
      h.results ++ (e.ring h.cbu.transfer).toList := by
    simp only [event, if_neg hstart]
  rcases (Call.enter h.cbu e).receive_cases N e hstart with
    ⟨⟨hret, hacts⟩, hnot⟩ | ⟨r, hr, hstate, c', hacts, hret, heq⟩
  · -- the call returns before it enters the machine
    have hhandle : (Call.enter h.cbu e).handle N e = (Call.enter h.cbu e).receive N e :=
      foldl_inState_ret hret _
    rw [hhandle] at hs
    have hmode := hs.mode.trans (congrArg Transfer.mode hacts.transfer)
    by_cases hb : Bucket h.cbu.transfer.mode
    swap
    · exact keeps_of_not_bucket (hmode ▸ hb)
    refine hc.idle (hs.out.trans hacts.out) hmode (hs.mState.trans hacts.mState)
      (hs.nPhaseResult.trans hacts.nPhaseResult) ?_
    cases hring : e.ring h.cbu.transfer with
    | none => exact Or.inl (by rw [hres, hring, Option.toList_none, List.append_nil])
    | some r =>
        refine Or.inr ⟨fun hwait => ?_, _, hres⟩
        exact hnot ⟨hb, hwait, r, Action.ring_eq_some.mp hring⟩
  · -- a result is accepted
    by_cases hb : Bucket h.cbu.transfer.mode
    swap
    · have htransfer := Call.handle_transfer N (Call.enter h.cbu e) hstart
      exact keeps_of_not_bucket (hs.mode.trans (congrArg Transfer.mode htransfer) ▸ hb)
    have hw : Waiting h.cbu.mState h.cbu.nPhaseResult h.results := hc hb
    have hring : e.ring h.cbu.transfer = some r := Action.ring_eq_some.mpr hr
    rw [hring, Option.toList_some] at hres
    have hwait : h.cbu.mState = .allPMeasR := by
      rcases hstate with hstate | hstate
      · have hacting := (hw.of_ne (by rw [show h.cbu.mState = .extPMeasR from hstate]; decide)).1
        rw [show h.cbu.mState = .extPMeasR from hstate] at hacting
        exact absurd hacting (by decide)
      · exact hstate
    have hat : At ((Call.enter h.cbu e).receive N e) h.cbu.transfer.mode
        (getNextMState h.cbu.transfer.mode .allPMeasR h.cbu.nPhaseResult) [.allPMeasR] := by
      have hbegin : At (Call.enter h.cbu e) h.cbu.transfer.mode (.allPMeasR, h.cbu.nPhaseResult)
        [] := ⟨rfl, rfl, hwait, rfl, rfl⟩
      rw [heq]
      exact hbegin.advance hacts hret
    rw [hwait] at hw
    rcases hw.of_wait with ⟨hn, hnone⟩ | ⟨hn, r₀, hone⟩
    · rw [hn, hb.next_first] at hat
      rw [hnone, List.nil_append] at hres
      exact keeps_first hs hat.wait hres
    · rw [hn] at hat
      rw [hone, List.singleton_append] at hres
      obtain ⟨m, hneeds, hgoing⟩ := hat.second hb
      exact keeps_second hs hneeds hgoing hb hres

theorem keeps_start (hstart : e.ecaAction = ecaStart) : h.Keeps (h.event N (.action e)) := by
  have hs := h.event_shows N e
  have hres : (h.event N (.action e)).results = [] := by
    simp only [event, if_pos hstart]
  have hreceive : (Call.enter h.cbu e).receive N e = (Call.enter h.cbu e).start N e :=
    if_pos hstart
  have hout := (Call.enter h.cbu e).start_out N e
  rcases (Call.enter h.cbu e).start_cases N e with ⟨hret, -, hoff, -⟩ | ⟨sid, -, -, hret, heq⟩
  · have hhandle : (Call.enter h.cbu e).handle N e = (Call.enter h.cbu e).start N e := by
      rw [Call.handle, hreceive, foldl_inState_ret hret]
    rw [hhandle] at hs
    refine keeps_of_not_bucket ?_
    rw [hs.mode, hoff]
    decide
  · obtain ⟨mode, hmode⟩ : ∃ mode, mode = ((Call.enter h.cbu e).start N e).cbu.transfer.mode :=
      ⟨_, rfl⟩
    have hat : At ((Call.enter h.cbu e).receive N e) mode
        (getNextMState mode .s0 h.cbu.nPhaseResult) [] := by
      rw [hmode, hreceive]
      refine ⟨hret, rfl, ?_, ?_, ?_⟩
      · rw [heq]
        rfl
      · rw [heq]
        rfl
      · rw [hout]
        rfl
    by_cases hb : Bucket mode
    swap
    · have htransfer : ((Call.enter h.cbu e).handle N e).cbu.transfer.mode = mode := by
        rw [Call.handle, foldl_inState_transfer (fun _ hb => hb), hreceive, hmode]
      exact keeps_of_not_bucket (hs.mode.trans htransfer ▸ hb)
    have hwait := hat.start (e := e) (N := N) hb
    refine ⟨fun _ => ?_, fun _ => ⟨fun _ _ => ?_, fun _ _ m hm hneeds => ?_⟩⟩
    · rw [hs.mState, hs.nPhaseResult, hres]
      have hm : ((Call.enter h.cbu e).handle N e).cbu.mState = .allPMeasR := hwait.mState
      have hn : ((Call.enter h.cbu e).handle N e).cbu.nPhaseResult = 0 := hwait.nPhaseResult
      rw [hm, hn]
      exact .both
    · rw [hres]
      exact List.nodup_nil
    · have hdone : steps ((Call.enter h.cbu e).handle N e).out = [.extPMeasS, .injPMeasS] :=
        hwait.done
      rw [hs.out, hdone] at hm
      rcases List.mem_pair.mp hm with rfl | rfl <;> exact absurd hneeds (by decide)

theorem Counts.event (hc : h.Counts) (ev : Event) : h.Keeps (h.event N ev) := by
  cases ev with
  | action e =>
      by_cases hstart : e.ecaAction = ecaStart
      · exact keeps_start hstart
      · exact hc.call hstart
  | write r value => exact hc.idle rfl rfl rfl rfl (Or.inl rfl)
  | confSubmit => exact hc.idle rfl rfl rfl rfl (Or.inl rfl)
  | confClear => exact hc.idle rfl rfl rfl rfl (Or.inl rfl)
  | configure => exact hc.idle rfl rfl rfl rfl (Or.inl rfl)
  | enterOperation => exact hc.idle rfl rfl rfl rfl (Or.inl rfl)

theorem boot_not_bucket : ¬ Bucket boot.cbu.transfer.mode := by
  decide

theorem counts_run (N : Numerics) (evs : List Event) : (run N evs).Counts := by
  induction evs using List.reverseRecOn with
  | nil => exact fun hb => absurd hb boot_not_bucket
  | append_singleton evs ev ih =>
      rw [run_snoc]
      exact (ih.event ev).1

end History

/-- In a run, the steps of the bunch-to-bucket transfers that need both phases are executed with
results of both rings if and only if the first two results for each transfer come from
different rings. -/
theorem both_phases_iff (N : Numerics) (evs : List Event) :
    (∀ pre, pre <+: evs → (run N pre).BothPhases) ↔
      ∀ pre, pre <+: evs → (run N pre).DistinctRings := by
  induction evs using List.reverseRecOn with
  | nil =>
      simp only [List.prefix_nil, forall_eq]
      exact ⟨fun _ hb => absurd hb History.boot_not_bucket,
        fun _ hb => absurd hb History.boot_not_bucket⟩
  | append_singleton evs ev ih =>
      have hkeeps := (History.counts_run N evs).event ev (N := N)
      rw [← run_snoc] at hkeeps
      simp only [List.prefix_concat_iff, forall_eq_or_imp]
      constructor
      · rintro ⟨hlast, hall⟩
        have hdistinct := ih.mp hall
        exact ⟨(hkeeps.2 (hdistinct evs List.prefix_rfl)).mp hlast, hdistinct⟩
      · rintro ⟨hlast, hall⟩
        exact ⟨(hkeeps.2 (hall evs List.prefix_rfl)).mpr hlast, ih.mpr hall⟩

/-! ### A repeated result -/

section Repeated

def someTime : SysTime := ⟨1000000000, by decide⟩

def someNumerics : Numerics where
  tfns2tps := fun _ => ⟨0, 0, 0⟩
  correctionUs := fun _ => 0
  sinceCbsUs := fun _ => 0
  trigDoneUs := fun _ => 0
  shiftSeconds := fun _ => 0
  shiftDegree := fun _ _ => 0
  calcExtTime := fun s t => (statusOk, { t with ns := s.transfer.tWantExt })
  calcPhaseMatch := fun s _ t => (statusOk, { t with ns := s.transfer.tWantExt }, 0)
  phaseShiftExt := fun s _ => s.pShiftExt
  phaseShiftInj := fun s _ => s.pShiftInj

def someAction (ecaAction : Word) : Action where
  ecaAction
  recDeadline := 1000500000
  recId := buildEvtidV1 sis18B2bEsr ecaAction 0 2 1 0
  recParam := 1000600000
  recTef := 0
  flagIsLate := false
  clock := fun _ => someTime
  wrBadSync := false
  actStatus := statusOk
  locals := ⟨⟨0, 0, 0⟩, 0, 0, 0⟩

def startRun : List Event :=
  [.write .sidEExt 2, .write .gidExt sis18B2bExtract, .write .mode modeB2bFBeat,
    .write .sidEInj 2, .write .gidInj 1, .confSubmit, .action (someAction ecaStart)]

/-- The extraction result is received twice, and both kickers are triggered. -/
theorem repeated_result :
    ¬ ∀ (N : Numerics) (evs : List Event), (run N evs).BothPhases := by
  intro hall
  have hboth := hall someNumerics
    (startRun ++ [.action (someAction ecaPrExt), .action (someAction ecaPrExt)])
  revert hboth
  decide +kernel

example : kicks (run someNumerics (startRun ++ [.action (someAction ecaPrExt),
    .action (someAction ecaPrInj)])).since = [.ext, .inj] := by
  decide +kernel

end Repeated

end B2b
