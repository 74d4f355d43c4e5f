import BelProjects.DataMaster.Scheduler.Effects

/-!
# Nodes of types without a function

`dmInit` fills the tables of node handlers and deadline functions by hand.  Types that
are not meant to be executed get dummies, which raise an error bit and let the thread
go idle.  Management and covenant nodes are missing from both tables, although
`getNodeType` lets their numbers through.
-/

namespace DataMaster

open TransitionSystem

variable (P : Platform)

/-- The types for which `dmInit` sets the entries of `nodeFuncs` and `deadlineFuncs`, in
the order of the source. -/
def dmInitTypes : List NodeType :=
  [.unknown, .raw, .tmsg, .cnoop, .cflow, .cswitch, .cflush, .cwait, .blockFixed, .blockAlign,
    .queue, .qbuf, .share, .altdst, .origin, .startthread, .null]

def NodeType.hasFunc : NodeType → Bool
  | .tmsg | .cnoop | .cflow | .cflush | .cwait | .cswitch | .blockFixed | .blockAlign | .origin
  | .startthread | .null => true
  | .unknown | .raw | .queue | .qbuf | .share | .altdst | .mgmt | .covenant => false

theorem not_mem_dmInitTypes {ty : NodeType} : ty ∉ dmInitTypes ↔ ty = .mgmt ∨ ty = .covenant := by
  cases ty <;> decide

/-- Other types without a function have the dummies. -/
theorem funcs_dummy {ty : NodeType} (h : ty ∈ dmInitTypes) (hno : ty.hasFunc = false) (s : Cpu)
    (node thrData : Word) :
    nodeFuncs P s node thrData ty = some (dummyNodeFunc P s node thrData) ∧
      deadlineFuncs P s node thrData ty = some (dummyDeadlineFunc P s node thrData) := by
  cases ty <;> first | exact ⟨rfl, rfl⟩ | exact absurd hno (by decide) | exact absurd h (by decide)

/-! ### Containment -/

/-- The state of thread `u`: cursor, deadline, running bit and time sum. -/
structure SameThread (u : Nat) (m m' : Mem) : Prop where
  cursor : P.ld m' (thrPtr u + tTdNodePtr) = P.ld m (thrPtr u + tTdNodePtr)
  deadline : dl P m' (thrPtr u) = dl P m (thrPtr u)
  running : (runningBits P m').getLsbD u = (runningBits P m).getLsbD u
  currtime : P.ld64 m' (thrPtr u + tTdCurrtime) = P.ld64 m (thrPtr u + tTdCurrtime)

/-- Thread `t` has gone idle with the bad-node bit set, and no other thread has changed. -/
structure StoppedAlone (t : Nat) (m m' : Mem) : Prop where
  deadline : dl P m' (thrPtr t) = -1
  running : (runningBits P m').getLsbD t = false
  status : P.ld m' statusPtr &&& shctlStatusBadNodeTypeSmsk = shctlStatusBadNodeTypeSmsk
  others : ∀ u, u < thrQty → u ≠ t → SameThread P u m m'

def topType (m : Mem) : NodeType := getNodeType P m (topNode P m)

/-- A fault of the node that thread `t` executes, or of the node that follows it, stops
thread `t` only: both calls go through a filled table entry, and on a type without a
function the thread goes idle while the others stay as they are. For the second node
they are compared with the state in which the handler of the first returns. -/
structure FaultContained (t : Nat) (s : Cpu) : Prop where
  node : topType P s.mem ∈ dmInitTypes
  nodeStops : (topType P s.mem).hasFunc = false →
    ∃ s', runTop P s = some s' ∧ StoppedAlone P t s.mem s'.mem
  next : ∀ next s₁, callNode P s = some (next, s₁) → hp P s₁.mem 0 = thrPtr t →
    topType P (nextStored P s₁ next).mem ∈ dmInitTypes
  nextStops : ∀ next s₁, callNode P s = some (next, s₁) → hp P s₁.mem 0 = thrPtr t →
    (topType P (nextStored P s₁ next).mem).hasFunc = false →
    ∃ s', runTop P s = some s' ∧ StoppedAlone P t s₁.mem s'.mem

/-- Neither the node at the cursor when the handler is chosen nor the one at the cursor
when the deadline function is chosen is a management or covenant node. -/
def NoTableNode (t : Nat) (s : Cpu) : Prop :=
  (topType P s.mem ≠ .mgmt ∧ topType P s.mem ≠ .covenant) ∧
    ∀ next s₁, callNode P s = some (next, s₁) → hp P s₁.mem 0 = thrPtr t →
      topType P (nextStored P s₁ next).mem ≠ .mgmt ∧
        topType P (nextStored P s₁ next).mem ≠ .covenant

theorem mem_dmInitTypes {ty : NodeType} : ty ∈ dmInitTypes ↔ ty ≠ .mgmt ∧ ty ≠ .covenant := by
  rw [← not_or, ← not_mem_dmInitTypes, not_not]

theorem SameThread.trans {u : Nat} {m₁ m₂ m₃ : Mem} (h₁₂ : SameThread P u m₁ m₂)
    (h₂₃ : SameThread P u m₂ m₃) : SameThread P u m₁ m₃ :=
  ⟨h₂₃.cursor.trans h₁₂.cursor, h₂₃.deadline.trans h₁₂.deadline, h₂₃.running.trans h₁₂.running,
    h₂₃.currtime.trans h₁₂.currtime⟩

theorem sameThread_of_words {u : Nat} {m m' : Mem} (hu : u < thrQty)
    (hrec : ∀ o, o % 4 = 0 → 544 + u * 32 ≤ o → o < 564 + u * 32 → m' (P.ctl o) = m (P.ctl o))
    (hrun : (runningBits P m').getLsbD u = (runningBits P m).getLsbD u) : SameThread P u m m' := by
  refine ⟨?_, ?_, hrun, ?_⟩
  · rw [Platform.ld, Platform.ld, adr_nodePtr P hu, hrec _ (by omega) (by omega) (by omega)]
  · exact dl_congr P hu (hrec _ (by omega) (by omega) (by omega))
      (hrec _ (by omega) (by omega) (by omega))
  · apply P.ld64_congr
    · rw [adr_currtime P hu, hrec _ (by omega) (by omega) (by omega)]
    · rw [adr_currtimeLo P hu, hrec _ (by omega) (by omega) (by omega)]

theorem setStatus_sameThread {u : Nat} (hu : u < thrQty) (s : Cpu) (bits : Word) :
    SameThread P u s.mem (s.setStatus P bits).mem := by
  have hword : ∀ o, o % 4 = 0 → 32 < o → (s.setStatus P bits).mem (P.ctl o) = s.mem (P.ctl o) :=
    fun o ho hlow =>
      P.st_other (by rw [adr_status]; exact P.ctl_ne ho (by omega) (by omega))
  refine sameThread_of_words P hu (fun o ho hlow _ => hword o ho (by omega)) ?_
  rw [running_word, running_word, hword _ (by omega) (by omega)]

/-- An iteration changes no other thread after the handler has returned. -/
theorem TurnDone.sameThread {t u : Nat} {next : Word} {d : Time} {m m' : Mem} (ht : t < thrQty)
    (hu : u < thrQty) (hut : u ≠ t) (h : TurnDone P t t next d m m') : SameThread P u m m' := by
  have hq : thrQty = 8 := rfl
  apply sameThread_of_words P hu
  · intro o ho hlow hhigh
    exact h.other _ (ctl_not_turn P ht ho (by omega) (by omega) (by omega))
  · rw [h.running, BitVec.getLsbD_and, BitVec.getLsbD_not, getLsbD_stop d (by omega)]
    simp [hut, show u < 32 by omega]

/-- An iteration whose deadline is infinite stops its thread. -/
theorem TurnDone.stops {t : Nat} {next : Word} {m m' : Mem} (ht : t < thrQty)
    (h : TurnDone P t t next (-1) m m')
    (hstatus : P.ld m' statusPtr &&& shctlStatusBadNodeTypeSmsk = shctlStatusBadNodeTypeSmsk) :
    StoppedAlone P t m m' := by
  have hq : thrQty = 8 := rfl
  refine ⟨h.deadline, ?_, hstatus, fun u hu hut => h.sameThread P ht hu hut⟩
  rw [h.running, BitVec.getLsbD_and, BitVec.getLsbD_not, getLsbD_stop _ (by omega)]
  simp [show t < 32 by omega]

theorem status_raised (s : Cpu) :
    P.ld (s.setStatus P shctlStatusBadNodeTypeSmsk).mem statusPtr &&& shctlStatusBadNodeTypeSmsk =
      shctlStatusBadNodeTypeSmsk := by
  rw [Cpu.setStatus, Cpu.st_mem, P.ld_st_same]
  apply BitVec.eq_of_getLsbD_eq
  intro i _
  rw [BitVec.getLsbD_and, BitVec.getLsbD_or]
  cases (P.ld s.mem statusPtr).getLsbD i <;> cases shctlStatusBadNodeTypeSmsk.getLsbD i <;> rfl

theorem nextStored_root {s : Cpu} {t : Nat} (next : Word) (ht : t < thrQty)
    (hroot : hp P s.mem 0 = thrPtr t) : hp P (nextStored P s next).mem 0 = thrPtr t := by
  rw [nextStored, hroot, Cpu.st_mem]
  refine (root_st P ?_).trans hroot
  rw [adr_nodePtr P ht]
  exact P.ctl_ne (by omega) (by omega) (by omega)

section Top

variable {P} {s : Cpu} {t : Nat} (ht : t < thrQty) (htop : hp P s.mem 0 = thrPtr t)
  (hnum : thrIdx P s.mem (thrPtr t) = t)
include ht htop hnum

/-- **A dummy at the second call** stops the thread. -/
theorem nextDummy_stops {s₁ : Cpu} {next : Word} (hnode : callNode P s = some (next, s₁))
    (hroot : hp P s₁.mem 0 = thrPtr t)
    (hty : topType P (nextStored P s₁ next).mem ∈ dmInitTypes)
    (hno : (topType P (nextStored P s₁ next).mem).hasFunc = false) :
    ∃ s', runTop P s = some s' ∧ StoppedAlone P t s₁.mem s'.mem := by
  have hroot₂ := nextStored_root P next ht hroot
  have hdead : callDeadline P (nextStored P s₁ next) =
      some (-1, (nextStored P s₁ next).setStatus P shctlStatusBadNodeTypeSmsk) :=
    (funcs_dummy P hty hno _ _ _).2
  refine ⟨_, runTop_of_calls P hnode hdead, ?_⟩
  rw [htop, hnum]
  apply (finishTop_turnDone P ht hroot hdead).stops P ht
  rw [finishTop_status P ht, status_raised]
  refine (root_st P ?_).trans hroot₂
  rw [adr_status]
  exact P.ctl_ne (by omega) (by omega) (by omega)

/-- **A dummy at the first call** stops the thread: the dummy returns a null pointer. -/
theorem nodeDummy_stops (hty : topType P s.mem ∈ dmInitTypes)
    (hno : (topType P s.mem).hasFunc = false) :
    ∃ s', runTop P s = some s' ∧ StoppedAlone P t s.mem s'.mem := by
  obtain ⟨s₁, hs₁⟩ : ∃ s₁, Cpu.setStatus P { s with backlog := s.backlog + 1 }
    shctlStatusBadNodeTypeSmsk = s₁ := ⟨_, rfl⟩
  have hnode : callNode P s = some (lm32NullPtr, s₁) := by
    rw [← hs₁]
    exact (funcs_dummy P hty hno _ _ _).1
  have hmem₁ : s₁.mem = (s.setStatus P shctlStatusBadNodeTypeSmsk).mem := by rw [← hs₁]; rfl
  have hroot : hp P s₁.mem 0 = thrPtr t := by
    rw [hmem₁]
    refine (root_st P ?_).trans htop
    rw [adr_status]
    exact P.ctl_ne (by omega) (by omega) (by omega)
  have hroot₂ := nextStored_root P lm32NullPtr ht hroot
  have hnull : topNode P (nextStored P s₁ lm32NullPtr).mem = lm32NullPtr := by
    rw [topNode, hroot₂, nextStored, hroot]
    exact P.ld_st_same _ _ _
  have hdead : callDeadline P (nextStored P s₁ lm32NullPtr) =
      some (-1, nextStored P s₁ lm32NullPtr) := by
    rw [callDeadline, hnull]
    rfl
  refine ⟨_, runTop_of_calls P hnode hdead, ?_⟩
  rw [htop, hnum]
  have hdone := finishTop_turnDone P (i := t) ht hroot hdead
  have hstops := hdone.stops P ht (by
    rw [finishTop_status P ht hroot₂, nextStored, hroot, Cpu.st_mem, P.ld_st_other, hmem₁,
      status_raised]
    rw [adr_status, adr_nodePtr P ht]
    exact P.ctl_ne (by omega) (by omega) (by omega))
  refine ⟨hstops.deadline, hstops.running, hstops.status, fun u hu hut => ?_⟩
  exact (hmem₁ ▸ setStatus_sameThread P hu s _).trans P (hstops.others u hu hut)

/-- **Faults are contained except at the empty table entries**: whatever memory holds, the
node at the cursor of the thread on top and the node after it are dispatched to defined
functions, and on a type without a function only this thread stops, if and only if
neither node is a management or covenant node. -/
theorem fault_contained_iff : FaultContained P t s ↔ NoTableNode P t s := by
  constructor
  · intro h
    exact ⟨mem_dmInitTypes.mp h.node, fun next s₁ hnode hroot =>
      mem_dmInitTypes.mp (h.next next s₁ hnode hroot)⟩
  · rintro ⟨hnode, hnext⟩
    refine ⟨mem_dmInitTypes.mpr hnode, nodeDummy_stops ht htop hnum (mem_dmInitTypes.mpr hnode),
      fun next s₁ hcall hroot => mem_dmInitTypes.mpr (hnext next s₁ hcall hroot),
      fun next s₁ hcall hroot => ?_⟩
    exact nextDummy_stops ht htop hnum hcall hroot (mem_dmInitTypes.mpr (hnext next s₁ hcall hroot))

end Top

/-- The equivalence in the state after booting. -/
theorem fault_contained_boot :
    FaultContained samplePlatform 0 (init samplePlatform (sampleCpu 1)) ↔
      NoTableNode samplePlatform 0 (init samplePlatform (sampleCpu 1)) :=
  fault_contained_iff (by decide) (by decide +kernel) (by decide +kernel)

/-! ### Reachable states -/

/-- If the top node is due, executing it overwrites no scheduler word of another thread
and no thread number. -/
def ThreadsKept (s : Cpu) : Prop :=
  (topDue P s).1 = true → TopAvoids P (schedWords P ++ statusWords P) s

/-! ### A management node at a cursor -/

/-- Thread 0 is due, and the host has written a flags word with the type number of
management nodes into the node at its cursor. -/
def mgmtDueCpu : Cpu :=
  (toDueCheck samplePlatform startedCpu).hostWrites samplePlatform 10 [(sampleNode + nodeFlags, 15)]

theorem mgmtDueCpu_reachable :
    (firmware samplePlatform (schedWords samplePlatform ++ statusWords samplePlatform)
      (fun _ => True) (ThreadsKept samplePlatform)).Reachable (.dueCheck, mgmtDueCpu) := by
  have hboot : (firmware samplePlatform (schedWords samplePlatform ++ statusWords samplePlatform)
      (fun _ => True) (ThreadsKept samplePlatform)).Reachable
        (.dueCheck, init samplePlatform (sampleCpu 1)) := by
    have habort := Reachable.step (T := firmware samplePlatform
      (schedWords samplePlatform ++ statusWords samplePlatform) (fun _ => True)
      (ThreadsKept samplePlatform)) (.init ⟨sampleCpu 1, trivial, rfl⟩) .abort
    rwa [sampleInit_dueCheck] at habort
  have hhost : HostStep (schedWords samplePlatform ++ statusWords samplePlatform)
      (init samplePlatform (sampleCpu 1)) startRequest :=
    hostStep_hostWrites samplePlatform (by decide +kernel)
  have hidle : ThreadsKept samplePlatform startRequest := by
    have hdue : (topDue samplePlatform startRequest).1 = false := by decide +kernel
    intro h
    rw [hdue] at h
    exact absurd h (by decide)
  have hstart := (hboot.step (.host hhost)).step (.serve hidle startRequest_served)
  have hlater : HostStep (schedWords samplePlatform ++ statusWords samplePlatform)
      (toDueCheck samplePlatform startedCpu) mgmtDueCpu :=
    hostStep_hostWrites samplePlatform (by decide +kernel)
  exact (hstart.step .abort).step (.host hlater)

/-- **A management node is called through an empty entry**: thread 0 is due in a reachable
state, and the table has no handler for the node at its cursor. -/
theorem fault_not_contained : ∃ (P : Platform) (s : Cpu) (t : Nat),
    (firmware P (schedWords P ++ statusWords P) (fun _ => True) (ThreadsKept P)).Reachable
        (.dueCheck, s) ∧
      (t < thrQty ∧ hp P s.mem 0 = thrPtr t ∧ thrIdx P s.mem (thrPtr t) = t) ∧
      (topDue P s).1 = true ∧ runTop P s = none ∧ ¬ FaultContained P t s := by
  have hty : topType samplePlatform mgmtDueCpu.mem = .mgmt := by decide +kernel
  refine ⟨samplePlatform, mgmtDueCpu, 0, mgmtDueCpu_reachable, by decide +kernel, by decide +kernel,
    ?_, fun h => ?_⟩
  · have hnode : callNode samplePlatform mgmtDueCpu = none := by
      rw [callNode, show getNodeType samplePlatform mgmtDueCpu.mem
        (topNode samplePlatform mgmtDueCpu.mem) = .mgmt from hty]
      rfl
    rw [runTop_eq, hnode]
  · have hmem := h.node
    rw [hty] at hmem
    exact absurd hmem (by decide)

end DataMaster
