import BelProjects.Library.Runs
import BelProjects.DataMaster.Scheduler.Micro

/-!
# Start and abort requests

The machine of the main loop runs beside a host that writes the start and the abort
register.  Two flags for each thread say which requests are open: a write with a bit
set opens the request, and what the firmware does for the thread closes it.  A request
is lost when it is open and its bit is gone from the register.

The firmware works on copies of the registers, so that a write which comes between a
read and the write that follows it can be undone.  The conditions under which no
request is lost say for each of these places what the host may write there.
-/

namespace DataMaster

open TransitionSystem

variable (P : Platform)

def startBit (m : Mem) (i : Nat) : Bool := (P.ld m startPtr).getLsbD i

def abortBit (m : Mem) (i : Nat) : Bool := (P.ld m abort1Ptr).getLsbD i

def runBit (m : Mem) (i : Nat) : Bool := (runningBits P m).getLsbD i

def requestWords : List Nat := P.w32 startPtr ++ P.w32 abort1Ptr

/-- The firmware, and for each thread whether it has an open abort or start request. -/
structure ReqState where
  pc : Pc
  cpu : Cpu
  abortReq : Nat → Bool
  startReq : Nat → Bool

inductive HostWrite where
  | abort (bits : Word)
  | start (bits : Word)

/-- Open abort requests after a step of the firmware: one is closed when the loop of the
abort phase has read the bit of thread `i`, and the thread is idle and not running. -/
def abortLeft (pc : Pc) (s s' : Cpu) (req : Nat → Bool) (i : Nat) : Bool :=
  req i && !(decide (pc = .abortLoop i) && abortBit P s.mem i &&
    decide (dl P s'.mem (thrPtr i) = -1) && !runBit P s'.mem i)

/-- Open start requests after a step of the firmware: a node may open one, and one is
closed when the thread has been prepared and its start bit copied to its running bit. -/
def startLeft (pc : Pc) (s s' : Cpu) (req : Nat → Bool) (i : Nat) : Bool :=
  (req i || (match pc with | .nodeStart _ _ _ bit => bit.getLsbD i | _ => false)) &&
    !(decide (pc = .startBody i) && startBit P s.mem i && runBit P s'.mem i)

/-- What a node may write at places its pointers name, without the writes to the request
registers that are meant. -/
def requestForeign (s : Cpu) (node thrData : Word) : NodeType → List Nat
  | .cnoop | .cflow | .cflush | .cwait =>
      let tg := P.ld s.mem (node + cmdTarget)
      P.w32 statusPtr ++ P.w32 (node + nodeFlags) ++
        elemFootprint P (writeElem P (s.paint P node).mem tg (cmdPrio P s.mem node)) ++
        P.w32 (tg + blockCmdqWrIdxs)
  | .startthread => P.w64 (thrStaOf (P.ld s.mem (node + startthreadThr)) + tTsStarttime)
  | ty => nodeFootprint P s node thrData ty

/-- If the top node is due, executing it writes neither a heap entry nor a request
register, apart from the writes that are meant. -/
def RequestSafe (s : Cpu) : Prop :=
  (topDue P s).1 = true →
    ∀ a ∈ requestForeign P s (topNode P s.mem) (hp P s.mem 0) (getNodeType P s.mem (topNode P s.mem)),
      a ∉ heapWords P ∧ a ∉ requestWords P

inductive FwStep : ReqState → ReqState → Prop
  | step {st : ReqState} {pc' : Pc} {s' : Cpu} : (st.pc = .dueCheck → RequestSafe P st.cpu) →
      microStep P (st.pc, st.cpu) = some (pc', s') →
      FwStep st ⟨pc', s', abortLeft P st.pc st.cpu s' st.abortReq,
        startLeft P st.pc st.cpu s' st.startReq⟩

/-- A step of the host: a write of a request register, or a write elsewhere, without the
heap array and the running bits. -/
inductive HostReqStep (Ok : ReqState → HostWrite → Prop) : ReqState → ReqState → Prop
  | abort {st : ReqState} {bits : Word} : Ok st (.abort bits) →
      HostReqStep Ok st { st with
        cpu := st.cpu.st P abort1Ptr bits
        abortReq := fun i => st.abortReq i || bits.getLsbD i }
  | start {st : ReqState} {bits : Word} : Ok st (.start bits) →
      HostReqStep Ok st { st with
        cpu := st.cpu.st P startPtr bits
        startReq := fun i => st.startReq i || bits.getLsbD i }
  | other {st : ReqState} {s' : Cpu} :
      HostStep (heapWords P ++ requestWords P ++ P.w32 runningPtr) st.cpu s' →
      HostReqStep Ok st { st with cpu := s' }

/-- Firmware and host in any interleaving, booted from any memory. Bits that are set in
the registers at boot are open requests. -/
def requestSystem (Ok : ReqState → HostWrite → Prop) : TransitionSystem ReqState where
  init st := ∃ s, st = ⟨.head, init P s, abortBit P (init P s).mem, startBit P (init P s).mem⟩
  step st st' := FwStep P st st' ∨ HostReqStep P Ok st st'

/-- No request is lost: every open request is still in its register, and a thread that is
about to be started has an open start request. -/
structure RequestsKept (st : ReqState) : Prop where
  abort : ∀ i, i < thrQty → st.abortReq i = true → abortBit P st.cpu.mem i = true
  start : ∀ i, i < thrQty → st.startReq i = true → startBit P st.cpu.mem i = true
  once : ∀ i, st.pc = .startBody i → st.startReq i = true

/-- The host writes that do no harm. A write never takes back an open request, and
between a read and the write of the firmware that depends on it no request is opened
that this write would remove. -/
def Undisturbed (st : ReqState) : HostWrite → Prop
  | .abort bits => (∀ i, i < thrQty → st.abortReq i = true → bits.getLsbD i = true) ∧
      match st.pc with
      | .abortLoop k => ∀ i, i < thrQty → bits.getLsbD i = true → k ≤ i ∧ runBit P st.cpu.mem i = false
      | .abortClear => ∀ i, i < thrQty → bits.getLsbD i = false
      | _ => True
  | .start bits => (∀ i, i < thrQty → st.startReq i = true → bits.getLsbD i = true) ∧
      match st.pc with
      | .nodeStart _ _ start bit =>
          ∀ i, i < thrQty → bits.getLsbD i = true → (start ||| bit).getLsbD i = true
      | .startLoad k => bits.getLsbD k = false
      | .startStore k start =>
          ∀ i, i < thrQty → bits.getLsbD i = true → i ≠ k ∧ start.getLsbD i = true
      | _ => True

/-! ### The invariant -/

/-- Thread `i` has been started, and its start bit is about to be cleared. -/
def Serving (i : Nat) : Pc → Prop
  | .startLoad k => k = i
  | .startStore k _ => k = i
  | _ => False

/-- What holds at each place of the loop. -/
def PcInv (st : ReqState) : Prop :=
  match st.pc with
  | .abortLoop k => k < thrQty ∧
      ∀ i, i < thrQty → st.abortReq i = true → k ≤ i ∧ runBit P st.cpu.mem i = false
  | .abortClear => ∀ i, i < thrQty → st.abortReq i = false
  | .nodeStart _ _ start bit => ∀ i, i < thrQty →
      (st.startReq i = true → (start ||| bit).getLsbD i = true) ∧
        (start.getLsbD i = true → st.startReq i = true)
  | .startLoop k => k < thrQty
  | .startBody k => k < thrQty ∧ st.startReq k = true
  | .startLoad k => k < thrQty ∧ st.startReq k = false
  | .startStore k start => k < thrQty ∧ ∀ i, i < thrQty →
      (st.startReq i = true → i ≠ k ∧ start.getLsbD i = true) ∧
        (start.getLsbD i = true → i = k ∨ st.startReq i = true)
  | _ => True

structure ReqInv (st : ReqState) : Prop where
  threads : HoldsThreads P st.cpu.mem
  abortKept : ∀ i, i < thrQty → st.abortReq i = true → abortBit P st.cpu.mem i = true
  startKept : ∀ i, i < thrQty → st.startReq i = true → startBit P st.cpu.mem i = true
  startOwn : ∀ i, i < thrQty → startBit P st.cpu.mem i = true →
    st.startReq i = true ∨ Serving i st.pc
  atPc : PcInv P st

theorem ReqInv.kept {st : ReqState} (h : ReqInv P st) : RequestsKept P st := by
  refine ⟨h.abortKept, h.startKept, fun i hpc => ?_⟩
  have hat := h.atPc
  rw [PcInv, hpc] at hat
  exact hat.2

/-! ### Registers across phases -/

theorem start_word (m : Mem) : P.ld m startPtr = m (P.ctl 324) := by rw [Platform.ld, adr_start]

theorem abort_word (m : Mem) : P.ld m abort1Ptr = m (P.ctl 332) := by rw [Platform.ld, adr_abort1]

structure SameRequests (m m' : Mem) : Prop where
  start : P.ld m' startPtr = P.ld m startPtr
  abort : P.ld m' abort1Ptr = P.ld m abort1Ptr

theorem mem_requestWords {a : Nat} : a ∈ requestWords P ↔ a = P.ctl 324 ∨ a = P.ctl 332 := by
  simp only [requestWords, Platform.w32, List.mem_append, List.mem_singleton, adr_start, adr_abort1]

theorem Frame.sameRequests {W : List Nat} {m m' : Mem} (h : Frame W m m')
    (hW : ∀ a ∈ W, a ∉ requestWords P) : SameRequests P m m' := by
  constructor
  · rw [start_word, start_word]
    exact h _ fun hmem => hW _ hmem ((mem_requestWords P).mpr (Or.inl rfl))
  · rw [abort_word, abort_word]
    exact h _ fun hmem => hW _ hmem ((mem_requestWords P).mpr (Or.inr rfl))

theorem Frame.holdsThreads {W : List Nat} {m m' : Mem} (h : Frame W m m')
    (hW : ∀ a ∈ W, a ∉ heapWords P) (hthr : HoldsThreads P m) : HoldsThreads P m' := by
  refine holdsThreads_congr P (fun i hi => ?_) hthr
  rw [hp_eq P hi, hp_eq P hi]
  exact h _ fun hmem => hW _ hmem ((mem_heapWords P).mpr ⟨i, hi, rfl⟩)

theorem ctl_not_request {o : Nat} (ho : o % 4 = 0) (hs : o ≠ 324) (ha : o ≠ 332) :
    P.ctl o ∉ requestWords P := by
  rw [mem_requestWords, not_or]
  exact ⟨P.ctl_ne ho (by omega) hs, P.ctl_ne ho (by omega) ha⟩

theorem heap_st_other {m : Mem} {ptr v : Word} (h : P.adr ptr ∉ heapWords P)
    (hthr : HoldsThreads P m) : HoldsThreads P (P.st m ptr v) := by
  have hframe : Frame (P.w32 ptr) m (P.st m ptr v) := (Frame.refl _ _).st P (List.mem_singleton.mpr rfl)
  refine hframe.holdsThreads P (fun a ha => ?_) hthr
  rwa [List.mem_singleton.mp ha]

section Stores

variable (m : Mem) (v : Word)

theorem abortBit_stAbort (i : Nat) : abortBit P (P.st m abort1Ptr v) i = v.getLsbD i := by
  rw [abortBit, P.ld_st_same]

theorem startBit_stStart (i : Nat) : startBit P (P.st m startPtr v) i = v.getLsbD i := by
  rw [startBit, P.ld_st_same]

theorem startBit_stAbort (i : Nat) : startBit P (P.st m abort1Ptr v) i = startBit P m i := by
  rw [startBit, startBit, P.ld_st_other]
  rw [adr_start, adr_abort1]
  exact P.ctl_ne (by omega) (by omega) (by omega)

theorem abortBit_stStart (i : Nat) : abortBit P (P.st m startPtr v) i = abortBit P m i := by
  rw [abortBit, abortBit, P.ld_st_other]
  rw [adr_start, adr_abort1]
  exact P.ctl_ne (by omega) (by omega) (by omega)

theorem runBit_stAbort (i : Nat) : runBit P (P.st m abort1Ptr v) i = runBit P m i := by
  rw [runBit, runBit, runningBits, runningBits, P.ld_st_other]
  rw [adr_running, adr_abort1]
  exact P.ctl_ne (by omega) (by omega) (by omega)

theorem runBit_stStart (i : Nat) : runBit P (P.st m startPtr v) i = runBit P m i := by
  rw [runBit, runBit, runningBits, runningBits, P.ld_st_other]
  rw [adr_running, adr_start]
  exact P.ctl_ne (by omega) (by omega) (by omega)

theorem SameRequests.abortBit {m m' : Mem} (h : SameRequests P m m') (i : Nat) :
    DataMaster.abortBit P m' i = DataMaster.abortBit P m i := by
  rw [DataMaster.abortBit, h.abort, DataMaster.abortBit]

theorem SameRequests.startBit {m m' : Mem} (h : SameRequests P m m') (i : Nat) :
    DataMaster.startBit P m' i = DataMaster.startBit P m i := by
  rw [DataMaster.startBit, h.start, DataMaster.startBit]

end Stores

/-! ### Steps of the host -/

/-- A write of the abort register that does no harm. -/
theorem hostAbort_inv {st : ReqState} {bits : Word} (h : ReqInv P st)
    (hok : Undisturbed P st (.abort bits)) :
    ReqInv P { st with
      cpu := st.cpu.st P abort1Ptr bits
      abortReq := fun i => st.abortReq i || bits.getLsbD i } := by
  obtain ⟨hkeep, hplace⟩ := hok
  refine ⟨?_, ?_, ?_, ?_, ?_⟩
  · exact heap_st_other P (by rw [adr_abort1]; exact ctl_not_heap P (by omega) (by omega)) h.threads
  · intro i hi hreq
    rw [Cpu.st_mem, abortBit_stAbort]
    rcases (Bool.or_eq_true _ _).mp hreq with hold | hnew
    · exact hkeep i hi hold
    · exact hnew
  · intro i hi hreq
    rw [Cpu.st_mem, startBit_stAbort]
    exact h.startKept i hi hreq
  · intro i hi hbit
    rw [Cpu.st_mem, startBit_stAbort] at hbit
    exact h.startOwn i hi hbit
  · have hat := h.atPc
    obtain ⟨pc, s, abortReq, startReq⟩ := st
    cases pc with
    | abortLoop k =>
        refine ⟨hat.1, fun i hi hreq => ?_⟩
        rw [Cpu.st_mem, runBit_stAbort]
        rcases (Bool.or_eq_true _ _).mp hreq with hold | hnew
        · exact hat.2 i hi hold
        · exact hplace i hi hnew
    | abortClear =>
        intro i hi
        rw [Bool.or_eq_false_iff]
        exact ⟨hat i hi, hplace i hi⟩
    | _ => exact hat

/-- A write of the start register that does no harm. -/
theorem hostStart_inv {st : ReqState} {bits : Word} (h : ReqInv P st)
    (hok : Undisturbed P st (.start bits)) :
    ReqInv P { st with
      cpu := st.cpu.st P startPtr bits
      startReq := fun i => st.startReq i || bits.getLsbD i } := by
  obtain ⟨hkeep, hplace⟩ := hok
  refine ⟨?_, ?_, ?_, ?_, ?_⟩
  · exact heap_st_other P (by rw [adr_start]; exact ctl_not_heap P (by omega) (by omega)) h.threads
  · intro i hi hreq
    rw [Cpu.st_mem, abortBit_stStart]
    exact h.abortKept i hi hreq
  · intro i hi hreq
    rw [Cpu.st_mem, startBit_stStart]
    rcases (Bool.or_eq_true _ _).mp hreq with hold | hnew
    · exact hkeep i hi hold
    · exact hnew
  · intro i hi hbit
    rw [Cpu.st_mem, startBit_stStart] at hbit
    exact Or.inl ((Bool.or_eq_true _ _).mpr (Or.inr hbit))
  · have hat := h.atPc
    obtain ⟨pc, s, abortReq, startReq⟩ := st
    cases pc with
    | abortLoop k =>
        refine ⟨hat.1, fun i hi hreq => ?_⟩
        rw [Cpu.st_mem, runBit_stStart]
        exact hat.2 i hi hreq
    | nodeStart i next start bit =>
        intro j hj
        refine ⟨fun hreq => ?_, fun hbit => (Bool.or_eq_true _ _).mpr (Or.inl ((hat j hj).2 hbit))⟩
        rcases (Bool.or_eq_true _ _).mp hreq with hold | hnew
        · exact (hat j hj).1 hold
        · exact hplace j hj hnew
    | startBody k => exact ⟨hat.1, (Bool.or_eq_true _ _).mpr (Or.inl hat.2)⟩
    | startLoad k => exact ⟨hat.1, by rw [Bool.or_eq_false_iff]; exact ⟨hat.2, hplace⟩⟩
    | startStore k start =>
        refine ⟨hat.1, fun j hj => ⟨fun hreq => ?_, fun hbit => ?_⟩⟩
        · rcases (Bool.or_eq_true _ _).mp hreq with hold | hnew
          · exact (hat.2 j hj).1 hold
          · exact hplace j hj hnew
        · rcases (hat.2 j hj).2 hbit with heq | hold
          · exact Or.inl heq
          · exact Or.inr ((Bool.or_eq_true _ _).mpr (Or.inl hold))
    | _ => exact hat

theorem hostOther_inv {st : ReqState} {s' : Cpu} (h : ReqInv P st)
    (hhost : HostStep (heapWords P ++ requestWords P ++ P.w32 runningPtr) st.cpu s') :
    ReqInv P { st with cpu := s' } := by
  have hreq : SameRequests P st.cpu.mem s'.mem := by
    constructor
    · rw [start_word, start_word]
      exact hhost.agree _ (by simp [mem_requestWords])
    · rw [abort_word, abort_word]
      exact hhost.agree _ (by simp [mem_requestWords])
  have hrun : ∀ i, runBit P s'.mem i = runBit P st.cpu.mem i := by
    intro i
    rw [runBit, runBit, running_word, running_word,
      hhost.agree _ (by simp [Platform.w32, adr_running])]
  refine ⟨?_, ?_, ?_, ?_, ?_⟩
  · refine holdsThreads_congr P (fun i hi => ?_) h.threads
    rw [hp_eq P hi, hp_eq P hi]
    exact hhost.agree _ (List.mem_append_left _ (List.mem_append_left _
      ((mem_heapWords P).mpr ⟨i, hi, rfl⟩)))
  · intro i hi hopen
    rw [hreq.abortBit P]
    exact h.abortKept i hi hopen
  · intro i hi hopen
    rw [hreq.startBit P]
    exact h.startKept i hi hopen
  · intro i hi hbit
    rw [hreq.startBit P] at hbit
    exact h.startOwn i hi hbit
  · have hat := h.atPc
    obtain ⟨pc, s, abortReq, startReq⟩ := st
    cases pc with
    | abortLoop k =>
        refine ⟨hat.1, fun i hi hopen => ?_⟩
        rw [hrun]
        exact hat.2 i hi hopen
    | _ => exact hat

theorem hostReqStep_inv {st st' : ReqState} (h : ReqInv P st)
    (hstep : HostReqStep P (Undisturbed P) st st') : ReqInv P st' := by
  cases hstep with
  | abort hok => exact hostAbort_inv P h hok
  | start hok => exact hostStart_inv P h hok
  | other hhost => exact hostOther_inv P h hhost

/-! ### Steps of the firmware -/

theorem abortLeft_eq {pc : Pc} (h : ∀ k, pc ≠ .abortLoop k) (s s' : Cpu) (req : Nat → Bool) :
    abortLeft P pc s s' req = req := by
  funext i
  simp [abortLeft, h i]

theorem startLeft_eq {pc : Pc} (hbody : ∀ k, pc ≠ .startBody k)
    (hnode : ∀ i next start bit, pc ≠ .nodeStart i next start bit) (s s' : Cpu) (req : Nat → Bool) :
    startLeft P pc s s' req = req := by
  funext i
  cases pc with
  | nodeStart j next start bit => exact absurd rfl (hnode j next start bit)
  | startBody k => exact absurd rfl (hbody k)
  | _ => simp [startLeft]

/-- A step that leaves the registers and the open requests alone. -/
theorem ReqInv.move {pc pc' : Pc} {s s' : Cpu} {abortReq startReq : Nat → Bool}
    (h : ReqInv P ⟨pc, s, abortReq, startReq⟩) (hthr : HoldsThreads P s'.mem)
    (hsame : SameRequests P s.mem s'.mem) (hserve : ∀ i, Serving i pc → Serving i pc')
    (hpc : PcInv P ⟨pc', s', abortReq, startReq⟩) : ReqInv P ⟨pc', s', abortReq, startReq⟩ := by
  refine ⟨hthr, fun i hi hreq => ?_, fun i hi hreq => ?_, fun i hi hbit => ?_, hpc⟩
  · rw [hsame.abortBit P]
    exact h.abortKept i hi hreq
  · rw [hsame.startBit P]
    exact h.startKept i hi hreq
  · rw [hsame.startBit P] at hbit
    exact (h.startOwn i hi hbit).imp_right (hserve i)

theorem storeRunning_effect (m : Mem) (v : Word) :
    SameRequests P m (P.st m runningPtr v) ∧ (HoldsThreads P m → HoldsThreads P (P.st m runningPtr v)) := by
  have hframe : Frame (P.w32 runningPtr) m (P.st m runningPtr v) :=
    (Frame.refl _ _).st P (List.mem_singleton.mpr rfl)
  refine ⟨hframe.sameRequests P fun a ha => ?_, heap_st_other P ?_⟩
  · rw [List.mem_singleton.mp ha, adr_running]
    exact ctl_not_request P (by omega) (by omega) (by omega)
  · rw [adr_running]
    exact ctl_not_heap P (by omega) (by omega)

/-- The running bits of the threads with a set abort bit are cleared. -/
theorem abortRunning_inv {s : Cpu} {abortReq startReq : Nat → Bool}
    (h : ReqInv P ⟨.abortRunning, s, abortReq, startReq⟩) :
    ReqInv P ⟨.abortLoop 0,
      s.st P runningPtr (P.ld s.mem runningPtr &&& ~~~(P.ld s.mem abort1Ptr)), abortReq, startReq⟩ := by
  obtain ⟨hsame, hthr⟩ := storeRunning_effect P s.mem
    (P.ld s.mem runningPtr &&& ~~~(P.ld s.mem abort1Ptr))
  refine h.move P (hthr h.threads) hsame (fun i hi => hi.elim) ⟨by decide, fun i hi hreq => ⟨Nat.zero_le i, ?_⟩⟩
  have hset := h.abortKept i hi hreq
  rw [abortBit] at hset
  rw [runBit, runningBits, Cpu.st_mem, P.ld_st_same, BitVec.getLsbD_and, BitVec.getLsbD_not, hset]
  simp

theorem abortDeadline_effect (m : Mem) {k : Nat} (hk : k < thrQty) :
    SameRequests P m (abortDeadline P m k) ∧
      (HoldsThreads P m → HoldsThreads P (abortDeadline P m k)) ∧
      ∀ i, runBit P (abortDeadline P m k) i = runBit P m i := by
  have hq : thrQty = 8 := rfl
  have hframe : Frame (P.w64 (thrPtr k + tTdDeadline)) m (abortDeadline P m k) :=
    (Frame.refl _ _).st64 P (by simp [Platform.w64])
  have hword : ∀ a ∈ P.w64 (thrPtr k + tTdDeadline),
      a = P.ctl (548 + k * 32) ∨ a = P.ctl (552 + k * 32) := by
    intro a ha
    simpa only [Platform.w64, adr_deadline P hk, adr_deadlineLo P hk, List.mem_cons,
      List.not_mem_nil, or_false] using ha
  refine ⟨hframe.sameRequests P fun a ha => ?_, hframe.holdsThreads P fun a ha => ?_, fun i => ?_⟩
  · rcases hword a ha with rfl | rfl <;> exact ctl_not_request P (by omega) (by omega) (by omega)
  · rcases hword a ha with rfl | rfl <;> exact ctl_not_heap P (by omega) (by omega)
  · rw [runBit, runBit, running_word, running_word, hframe _ fun ha => ?_]
    rcases hword _ ha with heq | heq <;> exact P.ctl_ne (by omega) (by omega) (by omega) heq

theorem abortLoop_inv {s : Cpu} {k : Nat} {abortReq startReq : Nat → Bool}
    (h : ReqInv P ⟨.abortLoop k, s, abortReq, startReq⟩) :
    ReqInv P ⟨if k + 1 < thrQty then .abortLoop (k + 1) else .abortClear,
      { s with mem := abortDeadline P s.mem k },
      abortLeft P (.abortLoop k) s { s with mem := abortDeadline P s.mem k } abortReq, startReq⟩ := by
  obtain ⟨hk, hopen⟩ := h.atPc
  obtain ⟨hsame, hthr, hrun⟩ := abortDeadline_effect P s.mem hk
  have hleft : ∀ i, abortLeft P (.abortLoop k) s { s with mem := abortDeadline P s.mem k } abortReq i =
      true → abortReq i = true := fun i hi => ((Bool.and_eq_true _ _).mp hi).1
  have hclosed : abortLeft P (.abortLoop k) s { s with mem := abortDeadline P s.mem k } abortReq k =
      false := by
    cases hreq : abortReq k with
    | false => rw [abortLeft, hreq, Bool.false_and]
    | true =>
        have hset := h.abortKept k hk hreq
        have hdl : dl P (abortDeadline P s.mem k) (thrPtr k) = -1 := by
          rw [abortDeadline_dl P hk hk, if_pos ⟨rfl, hset⟩]
        simp only [abortLeft, hreq, hset, hdl, hrun, (hopen k hk hreq).2, decide_true, Bool.and_true,
          Bool.not_false, Bool.not_true, Bool.and_false]
  refine ⟨hthr h.threads, fun i hi hreq => ?_, fun i hi hreq => ?_, fun i hi hbit => ?_, ?_⟩
  · rw [hsame.abortBit P]
    exact h.abortKept i hi (hleft i hreq)
  · rw [hsame.startBit P]
    exact h.startKept i hi hreq
  · rw [hsame.startBit P] at hbit
    exact Or.inl ((h.startOwn i hi hbit).resolve_right fun hserve => hserve.elim)
  · split
    · rename_i hnext
      refine ⟨hnext, fun i hi hreq => ?_⟩
      have hold := hopen i hi (hleft i hreq)
      have hne : i ≠ k := by
        rintro rfl
        exact absurd (hclosed.symm.trans hreq) (by decide)
      exact ⟨by omega, (hrun i).trans hold.2⟩
    · rename_i hlast
      intro i hi
      by_contra hreq
      have hreq' := Bool.eq_true_of_not_eq_false hreq
      have hold := (hopen i hi (hleft i hreq')).1
      have hik : i = k := by omega
      rw [hik] at hreq'
      exact absurd (hclosed.symm.trans hreq') (by decide)

theorem abortClear_inv {s : Cpu} {abortReq startReq : Nat → Bool}
    (h : ReqInv P ⟨.abortClear, s, abortReq, startReq⟩) :
    ReqInv P ⟨.dueCheck, { s with mem := P.st (heapify P s.mem) abort1Ptr 0 }, abortReq, startReq⟩ := by
  have hsorted : SameRequests P s.mem (heapify P s.mem) := by
    refine (heapify_frame P s.mem).sameRequests P fun a ha => ?_
    obtain ⟨j, hj, rfl⟩ := (mem_heapWords P).mp ha
    have hq : thrQty = 8 := rfl
    exact ctl_not_request P (by omega) (by omega) (by omega)
  have hthr : HoldsThreads P (heapify P s.mem) :=
    (heapify_spec P h.threads).1.holdsThreads P h.threads
  refine ⟨?_, fun i hi hreq => ?_, fun i hi hreq => ?_, fun i hi hbit => ?_, trivial⟩
  · exact heap_st_other P (by rw [adr_abort1]; exact ctl_not_heap P (by omega) (by omega)) hthr
  · have hnone : abortReq i = false := h.atPc i hi
    exact absurd (hnone.symm.trans hreq) (by decide)
  · change startBit P (P.st (heapify P s.mem) abort1Ptr 0) i = true
    rw [startBit_stAbort, hsorted.startBit P]
    exact h.startKept i hi hreq
  · change startBit P (P.st (heapify P s.mem) abort1Ptr 0) i = true at hbit
    rw [startBit_stAbort, hsorted.startBit P] at hbit
    exact Or.inl ((h.startOwn i hi hbit).resolve_right fun hserve => hserve.elim)

theorem startSort_inv {s : Cpu} {abortReq startReq : Nat → Bool}
    (h : ReqInv P ⟨.startSort, s, abortReq, startReq⟩) :
    ReqInv P ⟨.head, { s with mem := heapify P s.mem }, abortReq, startReq⟩ := by
  refine h.move P ((heapify_spec P h.threads).1.holdsThreads P h.threads) ?_
    (fun i hi => hi.elim) trivial
  refine (heapify_frame P s.mem).sameRequests P fun a ha => ?_
  obtain ⟨j, hj, rfl⟩ := (mem_heapWords P).mp ha
  have hq : thrQty = 8 := rfl
  exact ctl_not_request P (by omega) (by omega) (by omega)

/-! ### Execution of a node -/

/-- A command node writes the abort register only to halt everything. -/
theorem cmd_requests (s : Cpu) (node thrData : Word)
    (hsafe : ∀ a ∈ requestForeign P s node thrData .cnoop, a ∉ requestWords P) :
    (∀ a, a ∉ requestForeign P s node thrData .cnoop → a ≠ P.adr abort1Ptr →
      (cmd P s node thrData).2.mem a = s.mem a) ∧
      (P.ld (cmd P s node thrData).2.mem abort1Ptr = P.ld s.mem abort1Ptr ∨
        P.ld (cmd P s node thrData).2.mem abort1Ptr = 0xffffffff) := by
  have hkeeps : ∀ {m : Mem}, Frame (requestForeign P s node thrData .cnoop) s.mem m →
      (∀ a, a ∉ requestForeign P s node thrData .cnoop → a ≠ P.adr abort1Ptr → m a = s.mem a) ∧
        (P.ld m abort1Ptr = P.ld s.mem abort1Ptr ∨ P.ld m abort1Ptr = 0xffffffff) :=
    fun hframe => ⟨fun a ha _ => hframe a ha, Or.inl (hframe.sameRequests P hsafe).abort⟩
  have hpaint : Frame (requestForeign P s node thrData .cnoop) s.mem (s.paint P node).mem :=
    paint_frame P (Frame.refl _ _) (by simp [requestForeign, Platform.w32])
  simp only [cmd]
  split
  · have hstatus : P.adr statusPtr ∈ requestForeign P s node thrData .cnoop := by
      simp [requestForeign, Platform.w32]
    refine ⟨fun a ha hne => ?_, Or.inr ?_⟩
    · have hst : a ≠ P.adr statusPtr := by
        rintro rfl
        exact ha hstatus
      rw [Cpu.setStatus, Cpu.st_mem, P.st_other hst, Cpu.st_mem, P.st_other hne]
    · rw [Cpu.setStatus, Cpu.st_mem, P.ld_st_other, Cpu.st_mem, P.ld_st_same]
      rw [adr_abort1, adr_status]
      exact P.ctl_ne (by omega) (by omega) (by omega)
  · split
    · exact hkeeps hpaint
    · split
      · exact hkeeps hpaint
      · apply hkeeps
        apply enqueue_frame P hpaint
        · intro a ha; simp [requestForeign, ha]
        · simp [requestForeign, Platform.w32]

theorem callNode_requests {s s₁ : Cpu} {next : Word}
    (hty : getNodeType P s.mem (topNode P s.mem) ≠ .startthread)
    (hsafe : ∀ a ∈ requestForeign P s (topNode P s.mem) (hp P s.mem 0)
      (getNodeType P s.mem (topNode P s.mem)), a ∉ heapWords P ∧ a ∉ requestWords P)
    (hnode : callNode P s = some (next, s₁)) :
    (∀ i, i < thrQty → hp P s₁.mem i = hp P s.mem i) ∧ P.ld s₁.mem startPtr = P.ld s.mem startPtr ∧
      (P.ld s₁.mem abort1Ptr = P.ld s.mem abort1Ptr ∨ P.ld s₁.mem abort1Ptr = 0xffffffff) := by
  -- outside the foreign words only the abort register may change, and only to all ones
  have hkept : (∀ a, a ∉ requestForeign P s (topNode P s.mem) (hp P s.mem 0)
      (getNodeType P s.mem (topNode P s.mem)) → a ≠ P.adr abort1Ptr → s₁.mem a = s.mem a) ∧
      (P.ld s₁.mem abort1Ptr = P.ld s.mem abort1Ptr ∨ P.ld s₁.mem abort1Ptr = 0xffffffff) := by
    have hother : Frame (requestForeign P s (topNode P s.mem) (hp P s.mem 0)
        (getNodeType P s.mem (topNode P s.mem))) s.mem s₁.mem →
        (∀ a, a ∉ requestForeign P s (topNode P s.mem) (hp P s.mem 0)
          (getNodeType P s.mem (topNode P s.mem)) → a ≠ P.adr abort1Ptr → s₁.mem a = s.mem a) ∧
          (P.ld s₁.mem abort1Ptr = P.ld s.mem abort1Ptr ∨ P.ld s₁.mem abort1Ptr = 0xffffffff) :=
      fun hframe => ⟨fun a ha _ => hframe a ha,
        Or.inl (hframe.sameRequests P fun a ha => (hsafe a ha).2).abort⟩
    have hframe := nodeFuncs_frame P hnode
    rw [callNode] at hnode
    revert hother hframe hnode hsafe hty
    generalize getNodeType P s.mem (topNode P s.mem) = ty
    intro hty hsafe hnode hother hframe
    cases ty with
    | cnoop | cflow | cflush | cwait =>
        have hs₁ : s₁ = (cmd P { s with backlog := s.backlog + 1 } (topNode P s.mem) (hp P s.mem 0)).2 :=
          (congrArg Prod.snd (Option.some.inj hnode)).symm
        rw [hs₁]
        exact cmd_requests P { s with backlog := s.backlog + 1 } _ _ fun a ha => (hsafe a ha).2
    | startthread => exact absurd rfl hty
    | _ => exact hother hframe
  obtain ⟨hword, habort⟩ := hkept
  refine ⟨fun i hi => ?_, ?_, habort⟩
  · rw [hp_eq P hi, hp_eq P hi]
    have hheap : P.ctl (i * 4) ∈ heapWords P := (mem_heapWords P).mpr ⟨i, hi, rfl⟩
    refine hword _ (fun ha => (hsafe _ ha).1 hheap) ?_
    have hq : thrQty = 8 := rfl
    rw [adr_abort1]
    exact P.ctl_ne (by omega) (by omega) (by omega)
  · rw [start_word, start_word]
    refine hword _ (fun ha => (hsafe _ ha).2 ((mem_requestWords P).mpr (Or.inl rfl))) ?_
    rw [adr_abort1]
    exact P.ctl_ne (by omega) (by omega) (by omega)

/-- The rest of an iteration after the handler keeps the registers. -/
theorem afterNode_effect {s s' : Cpu} {i : Nat} {next : Word} (hthr : HoldsThreads P s.mem)
    (h : afterNode P s i next = some s') :
    SameRequests P s.mem s'.mem ∧ HoldsThreads P s'.mem := by
  obtain ⟨t, ht, hroot⟩ := hthr 0 (by decide)
  rw [afterNode] at h
  split at h
  · exact absurd h (by simp)
  · rename_i d s₃ hdead
    obtain rfl := Option.some.inj h
    have hdone := finishTop_turnDone P (i := i) ht hroot hdead
    refine ⟨⟨?_, ?_⟩, hdone.entries hthr⟩
    · rw [start_word, start_word]
      exact hdone.other _ (ctl_not_turn P ht (by omega) (by omega) (by omega) (by omega))
    · rw [abort_word, abort_word]
      exact hdone.other _ (ctl_not_turn P ht (by omega) (by omega) (by omega) (by omega))

theorem runTop_inv {s s' : Cpu} {abortReq startReq : Nat → Bool}
    (h : ReqInv P ⟨.dueCheck, s, abortReq, startReq⟩)
    (hty : getNodeType P s.mem (topNode P s.mem) ≠ .startthread)
    (hsafe : ∀ a ∈ requestForeign P s (topNode P s.mem) (hp P s.mem 0)
      (getNodeType P s.mem (topNode P s.mem)), a ∉ heapWords P ∧ a ∉ requestWords P)
    (hrun : runTop P s = some s') : ReqInv P ⟨.head, s', abortReq, startReq⟩ := by
  obtain ⟨next, s₁, d, s₃, hnode, -, -⟩ := runTop_cases P hrun
  obtain ⟨hentries, hstart, habort⟩ := callNode_requests P hty hsafe hnode
  rw [runTop_afterNode P hnode] at hrun
  obtain ⟨hsame, hthr⟩ := afterNode_effect P (holdsThreads_congr P hentries h.threads) hrun
  have hstartBit : ∀ i, startBit P s'.mem i = startBit P s.mem i := fun i => by
    rw [hsame.startBit P, startBit, hstart, startBit]
  refine ⟨hthr, fun i hi hreq => ?_, fun i hi hreq => ?_, fun i hi hbit => ?_, trivial⟩
  · have hq : thrQty = 8 := rfl
    have hold := h.abortKept i hi hreq
    rw [hsame.abortBit P, abortBit]
    rcases habort with heq | hall
    · rw [heq]; exact hold
    · rw [hall]
      have hones : ∀ j : Fin 32, (0xffffffff : Word).getLsbD j = true := by decide
      exact hones ⟨i, by omega⟩
  · exact (hstartBit i).trans (h.startKept i hi hreq)
  · exact h.startOwn i hi ((hstartBit i).symm.trans hbit)

theorem startThreadLoad_inv {s : Cpu} {i : Nat} {next : Word} {abortReq startReq : Nat → Bool}
    (h : ReqInv P ⟨.dueCheck, s, abortReq, startReq⟩)
    (hsafe : ∀ a ∈ requestForeign P s (topNode P s.mem) (hp P s.mem 0) .startthread,
      a ∉ heapWords P ∧ a ∉ requestWords P) :
    ReqInv P ⟨.nodeStart i next
        (P.ld (startThreadLoad P { s with backlog := s.backlog + 1 } (topNode P s.mem)
          (hp P s.mem 0)).mem startPtr) (startThreadBit P s.mem (topNode P s.mem)),
      startThreadLoad P { s with backlog := s.backlog + 1 } (topNode P s.mem) (hp P s.mem 0),
      abortReq, startReq⟩ := by
  obtain ⟨s', hs'⟩ : ∃ s', startThreadLoad P { s with backlog := s.backlog + 1 } (topNode P s.mem)
    (hp P s.mem 0) = s' := ⟨_, rfl⟩
  have hframe : Frame (requestForeign P s (topNode P s.mem) (hp P s.mem 0) .startthread) s.mem s'.mem := by
    rw [← hs']
    exact (Frame.refl _ _).st64 P (by simp [requestForeign, Platform.w64])
  rw [hs']
  have hsame := hframe.sameRequests P fun a ha => (hsafe a ha).2
  refine h.move P (hframe.holdsThreads P (fun a ha => (hsafe a ha).1) h.threads) hsame
    (fun j hj => hj.elim) fun j hj => ⟨fun hreq => ?_, fun hbit => ?_⟩
  · have hold := h.startKept j hj hreq
    rw [BitVec.getLsbD_or, hsame.start, Bool.or_eq_true]
    exact Or.inl hold
  · rw [hsame.start] at hbit
    exact (h.startOwn j hj hbit).resolve_right fun hserve => hserve.elim

/-- The store of `startThread` opens a request, and keeps those that are open. -/
theorem nodeStart_inv {s s' : Cpu} {i : Nat} {next start bit : Word} {abortReq startReq : Nat → Bool}
    (h : ReqInv P ⟨.nodeStart i next start bit, s, abortReq, startReq⟩)
    (hrun : afterNode P (s.st P startPtr (start ||| bit)) i next = some s') :
    ReqInv P ⟨.head, s', abortReq,
      startLeft P (.nodeStart i next start bit) s s' startReq⟩ := by
  have hat := h.atPc
  obtain ⟨hsame, hthr⟩ := afterNode_effect P
    (heap_st_other P (by rw [adr_start]; exact ctl_not_heap P (by omega) (by omega)) h.threads) hrun
  have hbits : ∀ j, startBit P s'.mem j = (start ||| bit).getLsbD j := fun j => by
    rw [hsame.startBit P, Cpu.st_mem, startBit_stStart]
  have hleft : ∀ j, startLeft P (.nodeStart i next start bit) s s' startReq j =
      (startReq j || bit.getLsbD j) := fun j => by
    simp [startLeft]
  refine ⟨hthr, fun j hj hreq => ?_, fun j hj hreq => ?_, fun j hj hbit => ?_, trivial⟩
  · rw [hsame.abortBit P, Cpu.st_mem, abortBit_stStart]
    exact h.abortKept j hj hreq
  · rw [hbits]
    rcases (Bool.or_eq_true _ _).mp ((hleft j).symm.trans hreq) with hold | hnew
    · exact (hat j hj).1 hold
    · rw [BitVec.getLsbD_or, hnew, Bool.or_true]
  · rw [hbits, BitVec.getLsbD_or, Bool.or_eq_true] at hbit
    refine Or.inl ((hleft j).trans ((Bool.or_eq_true _ _).mpr ?_))
    exact hbit.imp_left fun hset => (hat j hj).2 hset

/-! ### Start of threads -/

theorem recordBacklog_inv {s : Cpu} {abortReq startReq : Nat → Bool}
    (h : ReqInv P ⟨.dueCheck, s, abortReq, startReq⟩) :
    ReqInv P ⟨.startTest, recordBacklog P s, abortReq, startReq⟩ := by
  have hframe : Frame (P.w32 bcklogmaxPtr) s.mem (recordBacklog P s).mem :=
    (Frame.refl _ _).st P (List.mem_singleton.mpr rfl)
  refine h.move P (hframe.holdsThreads P (fun a ha => ?_) h.threads)
    (hframe.sameRequests P fun a ha => ?_) (fun i hi => hi.elim) trivial
  · rw [List.mem_singleton.mp ha, adr_bcklogmax]
    exact ctl_not_heap P (by omega) (by omega)
  · rw [List.mem_singleton.mp ha, adr_bcklogmax]
    exact ctl_not_request P (by omega) (by omega) (by omega)

theorem startNext_inv (s : Cpu) (k : Nat) (abortReq startReq : Nat → Bool) :
    PcInv P ⟨startNext k, s, abortReq, startReq⟩ := by
  rw [startNext]
  split
  · rename_i hnext
    exact hnext
  · trivial

theorem startLoop_inv {s : Cpu} {k : Nat} {abortReq startReq : Nat → Bool}
    (h : ReqInv P ⟨.startLoop k, s, abortReq, startReq⟩) :
    ReqInv P ⟨if P.ld s.mem startPtr &&& (1#32 <<< k) ≠ 0 then .startBody k else startNext k, s,
      abortReq, startReq⟩ := by
  have hq : thrQty = 8 := rfl
  have hk : k < thrQty := h.atPc
  have hsame : SameRequests P s.mem s.mem := ⟨rfl, rfl⟩
  split
  · rename_i hbit
    refine h.move P h.threads hsame (fun i hi => hi.elim) ⟨hk, ?_⟩
    have hset := (and_bit_ne_zero (by omega)).mp hbit
    exact (h.startOwn k hk hset).resolve_right fun hserve => hserve.elim
  · exact h.move P h.threads hsame (fun i hi => hi.elim) (startNext_inv P _ _ _ _)

theorem startBody_effect {s s' : Cpu} {k : Nat} (hk : k < thrQty) (h : startBody P s k = some s') :
    SameRequests P s.mem s'.mem ∧ (HoldsThreads P s.mem → HoldsThreads P s'.mem) ∧
      (startBit P s.mem k = true → runBit P s'.mem k = true) := by
  have hq : thrQty = 8 := rfl
  have hprep := prepareThr_frame P s k
  simp only [startBody] at h
  split at h
  · exact absurd h (by simp)
  · rename_i d s₂ hd
    obtain rfl := Option.some.inj h
    have hframe : Frame (prepareFootprint P k ++ P.w32 statusPtr) s.mem
        (s₂.st64 P (thrPtr k + tTdDeadline) d).mem :=
      ((hprep.mono (List.subset_append_left _ _)).trans
        ((deadlineFuncs_frame P hd).mono (List.subset_append_right _ _))).st64 P
          (by simp [prepareFootprint, Platform.w64])
    have hoff : ∀ o, o % 4 = 0 → o ≠ 32 → o < 532 →
        P.ctl o ∉ prepareFootprint P k ++ P.w32 statusPtr := by
      intro o ho hst hlow
      rw [List.mem_append, not_or]
      refine ⟨ctl_not_prepare P hk ho (by omega), ?_⟩
      rw [Platform.w32, adr_status, List.mem_singleton]
      exact P.ctl_ne ho (by omega) hst
    generalize hs₃ : s₂.st64 P (thrPtr k + tTdDeadline) d = s₃ at hframe
    have hsame₃ : SameRequests P s.mem s₃.mem := by
      refine hframe.sameRequests P fun a ha hmem => ?_
      rcases (mem_requestWords P).mp hmem with rfl | rfl
      · exact hoff _ (by omega) (by omega) (by omega) ha
      · exact hoff _ (by omega) (by omega) (by omega) ha
    obtain ⟨hsame, hthr⟩ := storeRunning_effect P s₃.mem
      (P.ld s₃.mem runningPtr ||| (P.ld s₃.mem startPtr &&& (1#32 <<< k)))
    refine ⟨⟨hsame.start.trans hsame₃.start, hsame.abort.trans hsame₃.abort⟩, fun h₀ => ?_,
      fun hset => ?_⟩
    · refine hthr (hframe.holdsThreads P (fun a ha hmem => ?_) h₀)
      obtain ⟨j, hj, rfl⟩ := (mem_heapWords P).mp hmem
      exact hoff _ (by omega) (by omega) (by omega) ha
    · rw [startBit] at hset
      rw [runBit, runningBits, Cpu.st_mem, P.ld_st_same, BitVec.getLsbD_or, BitVec.getLsbD_and,
        hsame₃.start, hset, getLsbD_bit (by omega)]
      simp

theorem startBody_inv {s s' : Cpu} {k : Nat} {abortReq startReq : Nat → Bool}
    (h : ReqInv P ⟨.startBody k, s, abortReq, startReq⟩) (hrun : startBody P s k = some s') :
    ReqInv P ⟨.startLoad k, s', abortReq, startLeft P (.startBody k) s s' startReq⟩ := by
  obtain ⟨hk, hown⟩ := h.atPc
  obtain ⟨hsame, hthr, hrunning⟩ := startBody_effect P hk hrun
  have hset : startBit P s.mem k = true := h.startKept k hk hown
  have hclosed : startLeft P (.startBody k) s s' startReq k = false := by
    simp only [startLeft, hset, hrunning hset, decide_true, Bool.and_true, Bool.not_true,
      Bool.and_false]
  have hother : ∀ i, i ≠ k → startLeft P (.startBody k) s s' startReq i = startReq i := by
    intro i hik
    have hne : ¬ (Pc.startBody k = .startBody i) := fun heq => hik (Pc.startBody.inj heq).symm
    simp [startLeft, hne]
  refine ⟨hthr h.threads, fun i hi hreq => ?_, fun i hi hreq => ?_, fun i hi hbit => ?_, hk, hclosed⟩
  · rw [hsame.abortBit P]
    exact h.abortKept i hi hreq
  · rw [hsame.startBit P]
    by_cases hik : i = k
    · subst hik
      exact hset
    · exact h.startKept i hi ((hother i hik).symm.trans hreq)
  · by_cases hik : i = k
    · exact Or.inr hik.symm
    · rw [hsame.startBit P] at hbit
      refine Or.inl ((hother i hik).trans ?_)
      exact (h.startOwn i hi hbit).resolve_right fun hserve => hserve.elim

theorem startLoad_inv {s : Cpu} {k : Nat} {abortReq startReq : Nat → Bool}
    (h : ReqInv P ⟨.startLoad k, s, abortReq, startReq⟩) :
    ReqInv P ⟨.startStore k (P.ld s.mem startPtr), s, abortReq, startReq⟩ := by
  obtain ⟨hk, hclosed⟩ := h.atPc
  refine h.move P h.threads ⟨rfl, rfl⟩ (fun i hi => hi) ⟨hk, fun i hi => ⟨fun hreq => ?_, fun hbit => ?_⟩⟩
  · refine ⟨?_, h.startKept i hi hreq⟩
    rintro rfl
    exact absurd (hclosed.symm.trans hreq) (by decide)
  · rcases h.startOwn i hi hbit with hopen | hserve
    · exact Or.inr hopen
    · exact Or.inl (show k = i from hserve).symm

/-- The store that clears a start bit keeps the bits of the open requests. -/
theorem startStore_inv {s : Cpu} {k : Nat} {start : Word} {abortReq startReq : Nat → Bool}
    (h : ReqInv P ⟨.startStore k start, s, abortReq, startReq⟩) :
    ReqInv P ⟨startNext k,
      (s.st P startPtr (start &&& ~~~(1#32 <<< k))).st P (thrPtr k + tTdMsgCnt) 0,
      abortReq, startReq⟩ := by
  have hq : thrQty = 8 := rfl
  obtain ⟨hk, hat⟩ := h.atPc
  have hcount : Frame (P.w32 (thrPtr k + tTdMsgCnt)) (s.st P startPtr (start &&& ~~~(1#32 <<< k))).mem
      ((s.st P startPtr (start &&& ~~~(1#32 <<< k))).st P (thrPtr k + tTdMsgCnt) 0).mem :=
    (Frame.refl _ _).st P (List.mem_singleton.mpr rfl)
  have hsame : SameRequests P (s.st P startPtr (start &&& ~~~(1#32 <<< k))).mem
      ((s.st P startPtr (start &&& ~~~(1#32 <<< k))).st P (thrPtr k + tTdMsgCnt) 0).mem := by
    refine hcount.sameRequests P fun a ha => ?_
    rw [List.mem_singleton.mp ha, adr_msgCnt P hk]
    exact ctl_not_request P (by omega) (by omega) (by omega)
  have hbits : ∀ i, i < thrQty →
      startBit P ((s.st P startPtr (start &&& ~~~(1#32 <<< k))).st P (thrPtr k + tTdMsgCnt) 0).mem i =
        (start.getLsbD i && !decide (i = k)) := by
    intro i hi
    rw [hsame.startBit P, Cpu.st_mem, startBit_stStart, BitVec.getLsbD_and, BitVec.getLsbD_not,
      getLsbD_bit (by omega), decide_eq_true (show i < 32 by omega), Bool.true_and]
  refine ⟨?_, fun i hi hreq => ?_, fun i hi hreq => ?_, fun i hi hbit => ?_, startNext_inv P _ _ _ _⟩
  · refine hcount.holdsThreads P (fun a ha => ?_)
      (heap_st_other P (by rw [adr_start]; exact ctl_not_heap P (by omega) (by omega)) h.threads)
    rw [List.mem_singleton.mp ha, adr_msgCnt P hk]
    exact ctl_not_heap P (by omega) (by omega)
  · rw [hsame.abortBit P, Cpu.st_mem, abortBit_stStart]
    exact h.abortKept i hi hreq
  · obtain ⟨hne, hset⟩ := (hat i hi).1 hreq
    rw [hbits i hi, hset, decide_eq_false hne]
    rfl
  · rw [hbits i hi, Bool.and_eq_true, Bool.not_eq_true', decide_eq_false_iff_not] at hbit
    exact Or.inl (((hat i hi).2 hbit.1).resolve_left hbit.2)

/-- The due check and what follows it up to the next access of a register. -/
theorem dueCheck_inv {s s' : Cpu} {pc' : Pc} {abortReq startReq : Nat → Bool}
    (h : ReqInv P ⟨.dueCheck, s, abortReq, startReq⟩) (hsafe : RequestSafe P s)
    (hstep : microStep P (.dueCheck, s) = some (pc', s')) :
    ReqInv P ⟨pc', s', abortReq, startReq⟩ := by
  have h₀ : ReqInv P ⟨.dueCheck, (topDue P s).2, abortReq, startReq⟩ :=
    ⟨h.threads, h.abortKept, h.startKept, h.startOwn, trivial⟩
  have hmem : (topDue P s).2.mem = s.mem := rfl
  simp only [microStep] at hstep
  split at hstep
  · rename_i hdue
    have hforeign := hsafe hdue
    split at hstep
    · rename_i hty
      rw [hmem] at hty
      rw [hty] at hforeign
      cases hstep
      exact startThreadLoad_inv P h₀ hforeign
    · rename_i hty
      cases hrun : runTop P (topDue P s).2 with
      | none => rw [hrun] at hstep; exact absurd hstep (by simp)
      | some s₁ =>
          rw [hrun] at hstep
          cases hstep
          exact runTop_inv P h₀ hty hforeign hrun
  · cases hstep
    exact recordBacklog_inv P h₀

/-- **Every step of the firmware keeps the invariant.** -/
theorem fwStep_inv {st st' : ReqState} (h : ReqInv P st) (hstep : FwStep P st st') :
    ReqInv P st' := by
  obtain ⟨hsafe, hmicro⟩ := hstep
  obtain ⟨pc, s, abortReq, startReq⟩ := st
  have hidle : (∀ k, pc ≠ .abortLoop k) → (∀ k, pc ≠ .startBody k) →
      (∀ i next start bit, pc ≠ .nodeStart i next start bit) → ∀ {pc' : Pc} {s' : Cpu},
      ReqInv P ⟨pc', s', abortReq, startReq⟩ →
      ReqInv P ⟨pc', s', abortLeft P pc s s' abortReq, startLeft P pc s s' startReq⟩ := by
    intro hloop hbody hnode pc' s' hinv
    rw [abortLeft_eq P hloop, startLeft_eq P hbody hnode]
    exact hinv
  cases pc with
  | head =>
      cases hmicro
      apply hidle (by simp) (by simp) (by simp)
      refine h.move P h.threads ⟨rfl, rfl⟩ (fun i hi => hi.elim) ?_
      split <;> trivial
  | abortRunning =>
      cases hmicro
      exact hidle (by simp) (by simp) (by simp) (abortRunning_inv P h)
  | abortLoop k =>
      cases hmicro
      have hstart : startLeft P (.abortLoop k) s { s with mem := abortDeadline P s.mem k } startReq =
          startReq := startLeft_eq P (by simp) (by simp) _ _ _
      have hinv := abortLoop_inv P h
      rw [← hstart] at hinv
      exact hinv
  | abortClear =>
      cases hmicro
      exact hidle (by simp) (by simp) (by simp) (abortClear_inv P h)
  | dueCheck => exact hidle (by simp) (by simp) (by simp) (dueCheck_inv P h (hsafe rfl) hmicro)
  | nodeStart i next start bit =>
      simp only [microStep] at hmicro
      cases hrun : afterNode P (s.st P startPtr (start ||| bit)) i next with
      | none => rw [hrun] at hmicro; exact absurd hmicro (by simp)
      | some s' =>
          rw [hrun] at hmicro
          cases hmicro
          rw [abortLeft_eq P (by simp)]
          exact nodeStart_inv P h hrun
  | startTest =>
      cases hmicro
      apply hidle (by simp) (by simp) (by simp)
      refine h.move P h.threads ⟨rfl, rfl⟩ (fun i hi => hi.elim) ?_
      split
      · exact (by decide : 0 < thrQty)
      · trivial
  | startLoop k =>
      cases hmicro
      exact hidle (by simp) (by simp) (by simp) (startLoop_inv P h)
  | startBody k =>
      simp only [microStep] at hmicro
      cases hrun : startBody P s k with
      | none => rw [hrun] at hmicro; exact absurd hmicro (by simp)
      | some s' =>
          rw [hrun] at hmicro
          cases hmicro
          rw [abortLeft_eq P (by simp)]
          exact startBody_inv P h hrun
  | startLoad k =>
      cases hmicro
      exact hidle (by simp) (by simp) (by simp) (startLoad_inv P h)
  | startStore k start =>
      cases hmicro
      exact hidle (by simp) (by simp) (by simp) (startStore_inv P h)
  | startSort =>
      cases hmicro
      exact hidle (by simp) (by simp) (by simp) (startSort_inv P h)

theorem reqInv_init (s : Cpu) :
    ReqInv P ⟨.head, init P s, abortBit P (init P s).mem, startBit P (init P s).mem⟩ :=
  ⟨(init_schedInv P s).perm.holdsThreads P, fun _ _ h => h, fun _ _ h => h, fun _ _ h => Or.inl h,
    trivial⟩

theorem reqInv_reachable {st : ReqState} (hrun : (requestSystem P (Undisturbed P)).Reachable st) :
    ReqInv P st := by
  refine Reachable.invariant _ (I := ReqInv P) ?_ ?_ st hrun
  · rintro st ⟨s, rfl⟩
    exact reqInv_init P s
  · rintro st st' - hinv (hfw | hhost)
    · exact fwStep_inv P hinv hfw
    · exact hostReqStep_inv P hinv hhost

end DataMaster
