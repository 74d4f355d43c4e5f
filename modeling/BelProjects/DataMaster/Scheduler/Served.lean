import BelProjects.DataMaster.Scheduler.Requests

/-!
# Open requests are served

An open abort request is closed within a bounded number of firmware steps, because the
firmware comes to the abort phase in every iteration.  Start requests are served when
nothing is due; one that is open when the firmware turns to them is closed before the
iteration ends.
-/

namespace DataMaster

open TransitionSystem

variable (P : Platform)

/-- A run in which some request stays open, with the number of firmware steps in it. -/
inductive PendingRun (Ok : ReqState → HostWrite → Prop) (Pending : ReqState → Prop) :
    Nat → ReqState → ReqState → Prop
  | refl {st : ReqState} : Pending st → PendingRun Ok Pending 0 st st
  | host {n : Nat} {st st₁ st₂ : ReqState} : PendingRun Ok Pending n st st₁ →
      HostReqStep P Ok st₁ st₂ → Pending st₂ → PendingRun Ok Pending n st st₂
  | fw {n : Nat} {st st₁ st₂ : ReqState} : PendingRun Ok Pending n st st₁ →
      FwStep P st₁ st₂ → Pending st₂ → PendingRun Ok Pending (n + 1) st st₂

theorem PendingRun.reachable {Ok : ReqState → HostWrite → Prop} {Pending : ReqState → Prop} {n : Nat}
    {st st' : ReqState} (h : PendingRun P Ok Pending n st st')
    (hst : (requestSystem P Ok).Reachable st) : (requestSystem P Ok).Reachable st' := by
  induction h with
  | refl _ => exact hst
  | host _ hstep _ ih => exact (ih hst).step (Or.inr hstep)
  | fw _ hstep _ ih => exact (ih hst).step (Or.inl hstep)

theorem PendingRun.pending {Ok : ReqState → HostWrite → Prop} {Pending : ReqState → Prop} {n : Nat}
    {st st' : ReqState} (h : PendingRun P Ok Pending n st st') : Pending st' := by
  cases h with
  | refl h => exact h
  | host _ _ h => exact h
  | fw _ _ h => exact h

theorem HostReqStep.pc {Ok : ReqState → HostWrite → Prop} {st st' : ReqState}
    (h : HostReqStep P Ok st st') : st'.pc = st.pc := by
  cases h <;> rfl

/-- A bound for the firmware steps until an open abort request is closed. -/
def abortRank : Pc → Nat
  | .abortLoop k => thrQty - k
  | .abortRunning => 9
  | .head => 10
  | .startSort => 11
  | .nodeStart _ _ _ _ => 11
  | .startStore k _ => 12 + 4 * (thrQty - 1 - k)
  | .startLoad k => 13 + 4 * (thrQty - 1 - k)
  | .startBody k => 14 + 4 * (thrQty - 1 - k)
  | .startLoop k => 15 + 4 * (thrQty - 1 - k)
  | .startTest => 44
  | .dueCheck => 45
  | .abortClear => 46

theorem abortRank_startNext {k : Nat} (hk : k < thrQty) :
    abortRank (startNext k) < 12 + 4 * (thrQty - 1 - k) := by
  have hq : thrQty = 8 := rfl
  rw [startNext]
  split <;> simp only [abortRank] <;> omega

theorem ne_zero_of_getLsbD {w : Word} {i : Nat} (h : w.getLsbD i = true) : w ≠ 0 := by
  rintro rfl
  simp at h

/-- While an abort request stays open, the firmware comes closer to closing it. -/
theorem abort_progress {st st' : ReqState} (h : ReqInv P st) (hstep : FwStep P st st') {i : Nat}
    (hi : i < thrQty) (hopen' : st'.abortReq i = true) : abortRank st'.pc < abortRank st.pc := by
  have hq : thrQty = 8 := rfl
  have hinv' := fwStep_inv P h hstep
  obtain ⟨hsafe, hmicro⟩ := hstep
  obtain ⟨pc, s, abortReq, startReq⟩ := st
  have hopen : abortReq i = true := ((Bool.and_eq_true _ _).mp hopen').1
  cases pc with
  | head =>
      have hreq : P.ld s.mem abort1Ptr ≠ 0 := ne_zero_of_getLsbD (h.abortKept i hi hopen)
      rw [microStep, if_pos hreq] at hmicro
      cases hmicro
      simp only [abortRank]
      omega
  | abortRunning =>
      cases hmicro
      simp only [abortRank]
      omega
  | abortLoop k =>
      have hk : k < thrQty := h.atPc.1
      rw [microStep] at hmicro
      split at hmicro
      · cases hmicro
        simp only [abortRank]
        omega
      · cases hmicro
        exact absurd ((hinv'.atPc i hi).symm.trans hopen') (by decide)
  | abortClear => exact absurd ((h.atPc i hi).symm.trans hopen) (by decide)
  | dueCheck =>
      simp only [microStep] at hmicro
      split at hmicro
      · split at hmicro
        · cases hmicro
          simp only [abortRank]
          omega
        · obtain ⟨s₁, -, heq⟩ := Option.map_eq_some_iff.mp hmicro
          cases heq
          simp only [abortRank]
          omega
      · cases hmicro
        simp only [abortRank]
        omega
  | nodeStart j next start bit =>
      obtain ⟨s₁, -, heq⟩ := Option.map_eq_some_iff.mp hmicro
      cases heq
      simp only [abortRank]
      omega
  | startTest =>
      rw [microStep] at hmicro
      cases hmicro
      split <;> simp only [abortRank] <;> omega
  | startLoop k =>
      have hk : k < thrQty := h.atPc
      have hnext := abortRank_startNext hk
      rw [microStep] at hmicro
      cases hmicro
      split
      · simp only [abortRank]
        omega
      · change abortRank (startNext k) < 15 + 4 * (thrQty - 1 - k)
        omega
  | startBody k =>
      obtain ⟨s₁, -, heq⟩ := Option.map_eq_some_iff.mp hmicro
      cases heq
      simp only [abortRank]
      omega
  | startLoad k =>
      cases hmicro
      simp only [abortRank]
      omega
  | startStore k start =>
      have hk : k < thrQty := h.atPc.1
      cases hmicro
      exact abortRank_startNext hk
  | startSort =>
      cases hmicro
      simp only [abortRank]
      omega

theorem abortRank_le (pc : Pc) : abortRank pc ≤ 46 := by
  have hq : thrQty = 8 := rfl
  cases pc <;> simp only [abortRank] <;> omega

/-- **An open abort request is closed within 46 steps of the firmware.** -/
theorem abort_served {st st' : ReqState} {n i : Nat} (hi : i < thrQty)
    (hrun : (requestSystem P (Undisturbed P)).Reachable st)
    (hpending : PendingRun P (Undisturbed P) (fun st => st.abortReq i = true) n st st') : n ≤ 46 := by
  have hbound : n + abortRank st'.pc ≤ abortRank st.pc := by
    induction hpending with
    | refl _ => omega
    | host hold hstep _ ih =>
        rw [hstep.pc P]
        exact ih hrun
    | fw hold hstep hopen ih =>
        have hinv := reqInv_reachable P (hold.reachable P hrun)
        have hlt := abort_progress P hinv hstep hi hopen
        have hle := ih hrun
        omega
  have hle := abortRank_le st.pc
  omega

/-- The places of the start loop at which thread `i` has not been served yet. -/
def BeforeStart (i : Nat) : Pc → Prop
  | .startTest => True
  | .startLoop k => k ≤ i
  | .startBody k => k ≤ i
  | .startLoad k => k < i
  | .startStore k _ => k < i
  | _ => False

def startRank (i : Nat) : Pc → Nat
  | .startLoop k => 4 * (i - k) + 3
  | .startBody k => 4 * (i - k) + 2
  | .startLoad k => 4 * (i - k) + 1
  | .startStore k _ => 4 * (i - k)
  | _ => 4 * i + 4

theorem startNext_before {k i : Nat} (hki : k < i) (hi : i < thrQty) :
    startNext k = .startLoop (k + 1) :=
  if_pos (by omega)

/-- While a start request stays open, the start loop comes closer to its thread. -/
theorem start_progress {st st' : ReqState} (h : ReqInv P st) (hstep : FwStep P st st') {i : Nat}
    (hi : i < thrQty) (hbefore : BeforeStart i st.pc) (hopen : st.startReq i = true)
    (hopen' : st'.startReq i = true) :
    BeforeStart i st'.pc ∧ startRank i st'.pc < startRank i st.pc := by
  have hq : thrQty = 8 := rfl
  have hinv' := fwStep_inv P h hstep
  have hset := h.startKept i hi hopen
  obtain ⟨hsafe, hmicro⟩ := hstep
  obtain ⟨pc, s, abortReq, startReq⟩ := st
  cases pc with
  | startTest =>
      have hreq : P.ld s.mem startPtr ≠ 0 := ne_zero_of_getLsbD hset
      rw [microStep, if_pos hreq] at hmicro
      cases hmicro
      simp only [BeforeStart, startRank]
      omega
  | startLoop k =>
      have hki : k ≤ i := hbefore
      rw [microStep] at hmicro
      by_cases hlast : k = i
      · subst hlast
        rw [if_pos ((and_bit_ne_zero (by omega)).mpr hset)] at hmicro
        cases hmicro
        simp only [BeforeStart, startRank]
        omega
      · rw [startNext_before (show k < i by omega) hi] at hmicro
        cases hmicro
        split <;> simp only [BeforeStart, startRank] <;> omega
  | startBody k =>
      have hki : k ≤ i := hbefore
      obtain ⟨s₁, -, heq⟩ := Option.map_eq_some_iff.mp hmicro
      cases heq
      by_cases hlast : k = i
      · subst hlast
        exact absurd (hinv'.atPc.2.symm.trans hopen') (by decide)
      · simp only [BeforeStart, startRank]
        omega
  | startLoad k =>
      cases hmicro
      exact ⟨hbefore, by simp only [startRank]; omega⟩
  | startStore k start =>
      have hki : k < i := hbefore
      rw [microStep, startNext_before hki hi] at hmicro
      cases hmicro
      simp only [BeforeStart, startRank]
      omega
  | _ => exact hbefore.elim

/-- **A start request that is open when the firmware serves starts is closed** before it
gets back to the head of the loop. -/
theorem start_served {st st' : ReqState} {n i : Nat} (hi : i < thrQty) (htest : st.pc = .startTest)
    (hrun : (requestSystem P (Undisturbed P)).Reachable st)
    (hpending : PendingRun P (Undisturbed P) (fun st => st.startReq i = true) n st st') :
    n ≤ 32 ∧ st'.pc ≠ .head := by
  have hq : thrQty = 8 := rfl
  have hbound : BeforeStart i st'.pc ∧ n + startRank i st'.pc ≤ startRank i st.pc := by
    induction hpending with
    | refl _ =>
        rw [htest]
        exact ⟨trivial, by omega⟩
    | host hold hstep _ ih =>
        rw [hstep.pc P]
        exact ih htest hrun
    | fw hold hstep hopen ih =>
        have hinv := reqInv_reachable P (hold.reachable P hrun)
        obtain ⟨hbefore, hle⟩ := ih htest hrun
        obtain ⟨hbefore', hlt⟩ := start_progress P hinv hstep hi hbefore (hold.pending P) hopen
        exact ⟨hbefore', by omega⟩
  obtain ⟨hbefore, hle⟩ := hbound
  rw [htest] at hle
  simp only [startRank] at hle
  refine ⟨by omega, fun hhead => ?_⟩
  rw [hhead] at hbefore
  exact hbefore.elim

/-- **Requests are not lost** in runs in which the host leaves the registers undisturbed
while the firmware works on a copy of them: every open request is in its register, every
start has a request of its own, an open abort request is closed within 46 steps of the
firmware, and an open start request before the firmware leaves the start loop. -/
theorem requests_not_lost {st : ReqState} (hrun : (requestSystem P (Undisturbed P)).Reachable st) :
    RequestsKept P st ∧
      (∀ i, i < thrQty → ∀ n st',
        PendingRun P (Undisturbed P) (fun st => st.abortReq i = true) n st st' → n ≤ 46) ∧
      ∀ i, i < thrQty → st.pc = .startTest → ∀ n st',
        PendingRun P (Undisturbed P) (fun st => st.startReq i = true) n st st' →
          n ≤ 32 ∧ st'.pc ≠ .head :=
  ⟨(reqInv_reachable P hrun).kept P, fun _ hi _ _ hpending => abort_served P hi hrun hpending,
    fun _ hi htest _ _ hpending => start_served P hi htest hrun hpending⟩

/-! ### A request that is lost -/

theorem noRequest_boot : ∀ i : Fin thrQty, abortBit samplePlatform (init samplePlatform (sampleCpu 1)).mem i = false := by
  decide +kernel

/-- The host has asked for thread 0 to be aborted right after booting. -/
def abortRequested : ReqState :=
  ⟨.head, (init samplePlatform (sampleCpu 1)).st samplePlatform abort1Ptr 1,
    fun i => abortBit samplePlatform (init samplePlatform (sampleCpu 1)).mem i || (1 : Word).getLsbD i,
    startBit samplePlatform (init samplePlatform (sampleCpu 1)).mem⟩

theorem abortRequested_reachable {Ok : ReqState → HostWrite → Prop}
    (hok : ∀ abortReq startReq, (∀ i : Fin thrQty, abortReq i = false) →
      Ok ⟨.head, init samplePlatform (sampleCpu 1), abortReq, startReq⟩ (.abort 1)) :
    (requestSystem samplePlatform Ok).Reachable abortRequested :=
  Reachable.step (.init ⟨sampleCpu 1, rfl⟩) (Or.inr (.abort (hok _ _ noRequest_boot)))

/-- The statement for the state with one open abort request. -/
theorem requests_not_lost_sample :
    RequestsKept samplePlatform abortRequested ∧
      (∀ i, i < thrQty → ∀ n st', PendingRun samplePlatform (Undisturbed samplePlatform)
        (fun st => st.abortReq i = true) n abortRequested st' → n ≤ 46) ∧
      ∀ i, i < thrQty → abortRequested.pc = .startTest → ∀ n st',
        PendingRun samplePlatform (Undisturbed samplePlatform) (fun st => st.startReq i = true) n
          abortRequested st' → n ≤ 32 ∧ st'.pc ≠ .head :=
  requests_not_lost samplePlatform (abortRequested_reachable fun _ _ hnone =>
    ⟨fun i hi hreq => absurd ((hnone ⟨i, hi⟩).symm.trans hreq) (by decide), trivial⟩)

section Disturbed

variable {P} {Ok : ReqState → HostWrite → Prop}

theorem abortLoop_reachable : ∀ (n k : Nat) {st : ReqState}, k + n + 1 = thrQty →
    (requestSystem P Ok).Reachable st → st.pc = .abortLoop k →
    ∃ st', (requestSystem P Ok).Reachable st' ∧ st'.pc = .abortClear := by
  intro n
  induction n with
  | zero =>
      intro k st hk hst hpc
      have hnext : microStep P (st.pc, st.cpu) =
          some (.abortClear, { st.cpu with mem := abortDeadline P st.cpu.mem k }) := by
        rw [hpc, microStep, if_neg (by omega)]
      exact ⟨_, hst.step (Or.inl (.step (by simp [hpc]) hnext)), rfl⟩
  | succ n ih =>
      intro k st hk hst hpc
      have hnext : microStep P (st.pc, st.cpu) =
          some (.abortLoop (k + 1), { st.cpu with mem := abortDeadline P st.cpu.mem k }) := by
        rw [hpc, microStep, if_pos (by omega)]
      exact ih (k + 1) (by omega)
        (hst.step (Or.inl (.step (by simp [hpc]) hnext))) rfl

theorem abort_overwritten {st : ReqState} (hany : ∀ st w, Ok st w)
    (hst : (requestSystem P Ok).Reachable st) (hpc : st.pc = .abortClear) :
    ∃ st', (requestSystem P Ok).Reachable st' ∧ ¬ RequestsKept P st' := by
  have hwrite := hst.step (Or.inr (@HostReqStep.abort P Ok st 2 (hany st _)))
  refine ⟨_, hwrite.step (Or.inl (.step (by simp [hpc])
    (by rw [hpc]; rfl))), fun hkept => ?_⟩
  have hset := hkept.abort 1 (by decide) (by
    simp only [hpc, abortLeft]
    simp)
  change abortBit P (P.st _ abort1Ptr 0) 1 = true at hset
  rw [abortBit_stAbort] at hset
  exact absurd hset (by decide)

end Disturbed

/-- **An abort request is lost**: thread 0 is being aborted, and the host asks for thread 1
between the loop over the deadlines and the write that clears the register. The bit is
gone, and thread 1 goes on. -/
theorem request_lost : ∃ (P : Platform) (st : ReqState),
    (requestSystem P fun _ _ => True).Reachable st ∧ ¬ RequestsKept P st := by
  have hhead : (requestSystem samplePlatform fun _ _ => True).Reachable abortRequested :=
    abortRequested_reachable fun _ _ _ => trivial
  have hreq : samplePlatform.ld abortRequested.cpu.mem abort1Ptr ≠ 0 := by
    rw [abortRequested, Cpu.st_mem, samplePlatform.ld_st_same]
    decide
  have hbegin : microStep samplePlatform (.head, abortRequested.cpu) =
      some (.abortRunning, abortRequested.cpu) := by
    rw [microStep, if_pos hreq]
  have hrunning := hhead.step (Or.inl (.step (by intro hpc; cases hpc) hbegin))
  have hloop := hrunning.step (Or.inl (.step (by intro hpc; cases hpc) rfl))
  obtain ⟨st, hst, hpc⟩ := abortLoop_reachable 7 0 rfl hloop rfl
  obtain ⟨st', hst', hlost⟩ := abort_overwritten (fun _ _ => trivial) hst hpc
  exact ⟨samplePlatform, st', hst', hlost⟩

end DataMaster
