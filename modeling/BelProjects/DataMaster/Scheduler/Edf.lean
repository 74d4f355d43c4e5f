import BelProjects.Library.Runs
import BelProjects.DataMaster.Scheduler.Phases

/-!
# Runs of the firmware and the earliest-deadline-first invariant

A run starts with `init` in any memory.  At the head of the main loop and at the due
check the host may write any memory except a protected set of words, and the clock
may go on in any way; in between the firmware works through its iteration.

The heap invariant says that the heap array is a permutation of the thread records,
ordered by their deadlines.  The firmware does not check where the pointers of a node
lead, so the invariant holds for runs in which no executed node overwrites the heap
array or the deadline of another thread.
-/

namespace DataMaster

open TransitionSystem

variable (P : Platform)

inductive Phase where
  | loopHead
  | dueCheck
  deriving DecidableEq, Repr

/-- What the host and the clock may do between two phases: everything except writing
the words of `W` and the firmware's own variables. -/
structure HostStep (W : List Nat) (s s' : Cpu) : Prop where
  agree : AgreeOn W s.mem s'.mem
  pq : s'.pq = s.pq
  backlog : s'.backlog = s.backlog

inductive FirmwareStep (W : List Nat) (Ok : Cpu → Prop) : Phase × Cpu → Phase × Cpu → Prop
  | host {ph : Phase} {s s' : Cpu} : HostStep W s s' → FirmwareStep W Ok (ph, s) (ph, s')
  | abort {s : Cpu} : FirmwareStep W Ok (.loopHead, s) (.dueCheck, toDueCheck P s)
  | serve {s s' : Cpu} : Ok s → fromDueCheck P s = some s' →
      FirmwareStep W Ok (.dueCheck, s) (.loopHead, s')

/-- The firmware, booted from a memory that satisfies `Boot`. Executions from the due
check on are restricted to states that satisfy `Ok`. -/
def firmware (W : List Nat) (Boot Ok : Cpu → Prop) : TransitionSystem (Phase × Cpu) where
  init c := ∃ s, Boot s ∧ c = (.loopHead, init P s)
  step := FirmwareStep P W Ok

/-- The heap array is a permutation of the eight thread records. -/
def ThreadPerm (m : Mem) : Prop :=
  (List.ofFn fun i : Fin thrQty => hp P m i).Perm ((List.range thrQty).map thrPtr)

def MinHeap (m : Mem) : Prop :=
  ∀ i, (2 * i + 1 < thrQty → dl P m (hp P m i) ≤ dl P m (hp P m (2 * i + 1))) ∧
    (2 * i + 2 < thrQty → dl P m (hp P m i) ≤ dl P m (hp P m (2 * i + 2)))

structure SchedInv (m : Mem) : Prop where
  perm : ThreadPerm P m
  heap : MinHeap P m

/-! ### Consequences of the invariant -/

theorem minHeap_iff {m : Mem} : MinHeap P m ↔ MinHeapFrom P m 0 := by
  have hview : ∀ i, i < thrQty → (dl P m (hp P m i)).toNat = dlKey P m (heapView P m i) :=
    fun i hi => by rw [hp_eq P hi, dlKey]
  constructor
  · intro h p _
    obtain ⟨hl, hr⟩ := h p
    constructor <;> intro hn <;> rw [← hview p (by omega), ← hview _ hn]
    · exact hl hn
    · exact hr hn
  · intro h p
    obtain ⟨hl, hr⟩ := h p (Nat.zero_le p)
    constructor <;> intro hn <;> rw [BitVec.le_def, hview p (by omega), hview _ hn]
    · exact hl hn
    · exact hr hn

theorem ThreadPerm.holdsThreads {m : Mem} (h : ThreadPerm P m) : HoldsThreads P m := by
  intro i hi
  have hmem : hp P m i ∈ (List.range thrQty).map thrPtr :=
    h.subset ((List.mem_ofFn' _ _).mpr ⟨⟨i, hi⟩, rfl⟩)
  obtain ⟨t, ht, heq⟩ := List.mem_map.mp hmem
  exact ⟨t, List.mem_range.mp ht, heq.symm⟩

/-- No record occurs twice in the heap. -/
theorem ThreadPerm.inj {m : Mem} (h : ThreadPerm P m) {i j : Nat} (hi : i < thrQty)
    (hj : j < thrQty) (heq : hp P m i = hp P m j) : i = j := by
  have hnodup : (List.ofFn fun i : Fin thrQty => hp P m i).Nodup := by
    rw [h.nodup_iff]
    apply (List.nodup_map_iff_inj_on List.nodup_range).mpr
    intro a ha b hb hab
    exact thrPtr_inj (List.mem_range.mp ha) (List.mem_range.mp hb) hab
  have hfin : (⟨i, hi⟩ : Fin thrQty) = ⟨j, hj⟩ := List.nodup_ofFn.mp hnodup heq
  exact Fin.mk.inj hfin

/-- Every record is in the heap. -/
theorem ThreadPerm.surj {m : Mem} (h : ThreadPerm P m) {t : Nat} (ht : t < thrQty) :
    ∃ i, i < thrQty ∧ hp P m i = thrPtr t := by
  have hmem : thrPtr t ∈ List.ofFn fun i : Fin thrQty => hp P m i :=
    h.symm.subset (List.mem_map.mpr ⟨t, List.mem_range.mpr ht, rfl⟩)
  obtain ⟨i, hi⟩ := (List.mem_ofFn' _ _).mp hmem
  exact ⟨i, i.is_lt, hi⟩

/-- The record at the root has the smallest deadline of all threads. -/
theorem SchedInv.top_le {m : Mem} (h : SchedInv P m) {t : Nat} (ht : t < thrQty) :
    dl P m (hp P m 0) ≤ dl P m (thrPtr t) := by
  obtain ⟨i, hi, heq⟩ := h.perm.surj P ht
  have hroot := SiftDown.root_le (dlKey P m) thrQty ((minHeap_iff P).mp h.heap) i hi
  rw [← hp_eq P (by decide), ← hp_eq P hi, heq] at hroot
  exact hroot

theorem ThreadPerm.ofPerm {m m' : Mem} (h : ThreadPerm P m)
    (hperm : (List.ofFn fun i : Fin thrQty => hp P m' i).Perm
      (List.ofFn fun i : Fin thrQty => hp P m i)) : ThreadPerm P m' :=
  hperm.trans h

theorem ThreadPerm.congr {m m' : Mem} (h : ThreadPerm P m)
    (hsame : ∀ i, i < thrQty → hp P m' i = hp P m i) : ThreadPerm P m' := by
  have heq : (fun i : Fin thrQty => hp P m' i) = fun i : Fin thrQty => hp P m i :=
    funext fun i => hsame i i.is_lt
  rw [ThreadPerm, heq]
  exact h

theorem SchedInv.agree {m m' : Mem} (h : SchedInv P m) (hagree : AgreeOn (schedWords P) m m') :
    SchedInv P m' := by
  refine ⟨h.perm.congr P fun i hi => hp_agree P hagree hi, (minHeap_iff P).mpr ?_⟩
  refine ((minHeap_iff P).mp h.heap).congr P fun i _ hi => ⟨hp_agree P hagree hi, ?_⟩
  obtain ⟨t, ht, heq⟩ := h.perm.holdsThreads P i hi
  rw [heq]
  exact dl_agree P hagree t ht

/-! ### The phases keep the invariant -/

theorem init_schedInv (s : Cpu) : SchedInv P (init P s).mem := by
  obtain ⟨hidle, -⟩ := init_spec P s
  constructor
  · have hmap : (List.range thrQty).map thrPtr = List.ofFn fun i : Fin thrQty => thrPtr i := by
      rw [List.ofFn_eq_map, ← List.map_coe_finRange_eq_range, List.map_map]
      rfl
    have heq : (fun i : Fin thrQty => hp P (init P s).mem i) = fun i : Fin thrQty => thrPtr i :=
      funext fun i => (hidle i i.is_lt).entry
    rw [ThreadPerm, hmap, heq]
  · have hdl : ∀ i, i < thrQty → dl P (init P s).mem (hp P (init P s).mem i) = -1 := by
      intro i hi
      rw [(hidle i hi).entry, (hidle i hi).deadline]
    intro i
    constructor <;> intro hn <;> rw [hdl i (by omega), hdl _ hn] <;> exact BitVec.le_refl _

theorem abortThreads_schedInv {m : Mem} (h : SchedInv P m) : SchedInv P (abortThreads P m) := by
  rcases abortThreads_spec P (h.perm.holdsThreads P) with ⟨-, hsame⟩ | habort
  · rwa [hsame]
  · exact ⟨h.perm.ofPerm P habort.perm, (minHeap_iff P).mpr habort.heap⟩

theorem runTop_schedInv {s s' : Cpu} (h : SchedInv P s.mem)
    (havoid : TopAvoids P (schedWords P) s) (hrun : runTop P s = some s') :
    SchedInv P s'.mem := by
  have hq : thrQty = 8 := rfl
  obtain ⟨t, ht, htop⟩ := h.perm.holdsThreads P 0 (by decide)
  obtain ⟨d, m, hmem, htopRun, -⟩ := runTop_spec P ht htop havoid hrun
  have hperm : ThreadPerm P m := h.perm.congr P htopRun.entry
  have hthr : HoldsThreads P m := hperm.holdsThreads P
  -- only the root can be out of order: every other entry is another thread
  have hbelow : MinHeapFrom P m 1 := by
    have hheap : MinHeapFrom P s.mem 1 := fun p _ => (minHeap_iff P).mp h.heap p (Nat.zero_le p)
    refine hheap.congr P fun i hi hlt => ⟨htopRun.entry i hlt, ?_⟩
    obtain ⟨u, hu, hentry⟩ := h.perm.holdsThreads P i hlt
    have hut : u ≠ t := by
      rintro rfl
      have := h.perm.inj P hlt (show 0 < thrQty by decide) (hentry.trans htop.symm)
      omega
    rw [hentry, htopRun.deadline u hu, if_neg hut]
  rw [hmem]
  exact ⟨hperm.ofPerm P (heapReplace_resorted (by decide) hthr).perm,
    (minHeap_iff P).mpr (heapReplace_minHeap (by decide) hthr hbelow)⟩

theorem startThreads_entries : ∀ (is : List Nat) (s s' : Cpu), (∀ i ∈ is, i < thrQty) →
    startThreads P s is = some s' → ∀ j, j < thrQty → hp P s'.mem j = hp P s.mem j := by
  intro is
  induction is with
  | nil =>
      intro s s' _ h j _
      rw [startThreads] at h
      cases h
      rfl
  | cons i is ih =>
      intro s s' his h j hj
      have hrest : ∀ k ∈ is, k < thrQty := fun k hk => his k (List.mem_cons_of_mem _ hk)
      rw [startThreads] at h
      split at h
      · split at h
        · exact absurd h (by simp)
        · rename_i s₁ hstart
          obtain ⟨d, s₂, -, hstarted⟩ := startThr_spec P (his i List.mem_cons_self) hstart
          rw [ih s₁ s' hrest h j hj, hstarted.entry j hj]
      · exact ih s s' hrest h j hj

theorem serveStarts_schedInv {s s' : Cpu} (h : SchedInv P s.mem)
    (hserve : serveStarts P s = some s') : SchedInv P s'.mem := by
  have hbck : SchedInv P (recordBacklog P s).mem :=
    h.agree P ((AgreeOn.refl _ _).st P
      (by rw [adr_bcklogmax]; exact ctl_not_sched P ⟨by omega, by omega, by omega⟩))
  simp only [serveStarts] at hserve
  split at hserve
  · split at hserve
    · exact absurd hserve (by simp)
    · rename_i s₁ hstart
      obtain rfl := Option.some.inj hserve
      have hentries := startThreads_entries P _ _ _ (fun i hi => List.mem_range.mp hi) hstart
      have hperm : ThreadPerm P s₁.mem := hbck.perm.congr P hentries
      obtain ⟨hres, hheap⟩ := heapify_spec P (hperm.holdsThreads P)
      exact ⟨hperm.ofPerm P hres.perm, (minHeap_iff P).mpr hheap⟩
  · obtain rfl := Option.some.inj hserve
    exact hbck

/-! ### Runs -/

/-- If the top node is due, executing it overwrites no heap entry and no deadline of
another thread. -/
def EdfSafe (s : Cpu) : Prop := (topDue P s).1 = true → TopAvoids P (schedWords P) s

theorem fromDueCheck_schedInv {s s' : Cpu} (h : SchedInv P s.mem) (hsafe : EdfSafe P s)
    (hstep : fromDueCheck P s = some s') : SchedInv P s'.mem := by
  simp only [fromDueCheck] at hstep
  split at hstep
  · rename_i hdue
    exact runTop_schedInv P (s := (topDue P s).2) h (hsafe hdue) hstep
  · exact serveStarts_schedInv P (s := (topDue P s).2) h hstep

theorem storeAll_agree {W : List Nat} : ∀ (ws : List (Word × Word)) (m : Mem),
    (∀ w ∈ ws, P.adr w.1 ∉ W) → AgreeOn W m (storeAll P m ws) := by
  intro ws
  induction ws with
  | nil => intro m _; exact AgreeOn.refl W m
  | cons w ws ih =>
      intro m hws
      exact ((AgreeOn.refl W m).st P (hws w List.mem_cons_self)).trans
        (ih _ fun v hv => hws v (List.mem_cons_of_mem _ hv))

theorem hostStep_hostWrites {W : List Nat} {s : Cpu} {now : Time} {ws : List (Word × Word)}
    (hws : (ws.all fun w => !W.contains (P.adr w.1)) = true) :
    HostStep W s (s.hostWrites P now ws) := by
  refine ⟨storeAll_agree P ws s.mem fun w hw => ?_, rfl, rfl⟩
  simpa using List.all_eq_true.mp hws w hw

/-- Right after booting there is nothing to abort. -/
theorem sampleInit_dueCheck : toDueCheck samplePlatform (init samplePlatform (sampleCpu 1)) =
    init samplePlatform (sampleCpu 1) := by
  have hno : Platform.ld samplePlatform (init samplePlatform (sampleCpu 1)).mem abort1Ptr = 0 := by
    decide +kernel
  rw [toDueCheck, abortThreads, if_neg (not_not.mpr hno)]

def sampleNode : Word := 0x10001000

/-- The host asks for thread 0 to be started at time 1 with `sampleNode`. -/
def startRequest : Cpu :=
  (init samplePlatform (sampleCpu 1)).hostWrites samplePlatform 1
    [(thrStaPtr 0 + tTsNodePtr, sampleNode), (thrStaPtr 0 + tTsStarttime + 4, 1), (startPtr, 1),
      (sampleNode + nodeFlags, 13), (sampleNode + originDest, 5), (sampleNode + originThr, 18)]

def startedCpu : Cpu :=
  (startThreads samplePlatform (recordBacklog samplePlatform (topDue samplePlatform startRequest).2)
    (List.range thrQty)).getD (topDue samplePlatform startRequest).2

/-- If the started threads already form a heap, the final sort does nothing. -/
theorem serveStarts_sorted {s : Cpu} (hreq : P.ld (recordBacklog P s).mem startPtr ≠ 0)
    (hsome : (startThreads P (recordBacklog P s) (List.range thrQty)).isSome = true) {s' : Cpu}
    (hs' : s' = (startThreads P (recordBacklog P s) (List.range thrQty)).getD s)
    (hentry : ∀ i : Fin thrQty, hp P s'.mem i = thrPtr i)
    (hheap : ∀ i : Fin thrQty, ∀ j : Fin thrQty, (j.1 = 2 * i.1 + 1 ∨ j.1 = 2 * i.1 + 2) →
      dl P s'.mem (hp P s'.mem i) ≤ dl P s'.mem (hp P s'.mem j)) :
    serveStarts P s = some s' := by
  obtain ⟨s₁, hs₁⟩ := Option.isSome_iff_exists.mp hsome
  obtain rfl : s' = s₁ := by rw [hs', hs₁, Option.getD_some]
  have hthr : HoldsThreads P s'.mem := fun i hi => ⟨i, hi, hentry ⟨i, hi⟩⟩
  have hmin : MinHeapFrom P s'.mem 0 := (minHeap_iff P).mp fun i =>
    ⟨fun hn => hheap ⟨i, by omega⟩ ⟨2 * i + 1, hn⟩ (Or.inl rfl),
      fun hn => hheap ⟨i, by omega⟩ ⟨2 * i + 2, hn⟩ (Or.inr rfl)⟩
  simp only [serveStarts, if_pos hreq, hs₁, heapify_fixed P hthr hmin]

theorem startRequest_served : fromDueCheck samplePlatform startRequest = some startedCpu := by
  have hdue : (topDue samplePlatform startRequest).1 = false := by decide +kernel
  have hserve : serveStarts samplePlatform (topDue samplePlatform startRequest).2 =
      some startedCpu :=
    serveStarts_sorted samplePlatform (by decide +kernel) (by decide +kernel) rfl
      (by decide +kernel) (by decide +kernel)
  simp only [fromDueCheck, hdue, Bool.false_eq_true, if_false, hserve]

end DataMaster

/-!
## The due check

The heap is ordered by deadlines, while a thread is due its own preparation time ahead of
its deadline.  An iteration looks at the thread on top of the heap only, so it executes a
node for any due thread whose preparation time is not longer than that of the top thread,
and may leave one with a longer preparation time waiting.
-/

namespace DataMaster

open TransitionSystem

variable (P : Platform)

/-- At time `now`, the deadline of thread `t` is no further away than its preparation time. -/
def ThreadDue (m : Mem) (now : Time) (t : Nat) : Prop := dl P m (thrPtr t) ≤ now + prepTime P m t

instance (m : Mem) (now : Time) (t : Nat) : Decidable (ThreadDue P m now t) :=
  inferInstanceAs (Decidable (_ ≤ _))

def topThread (m : Mem) : Nat := thrIdx P m (hp P m 0)

theorem fromDueCheck_due {s : Cpu} (h : (topDue P s).1 = true) :
    fromDueCheck P s = runTop P (topDue P s).2 := by
  change (if (topDue P s).1 then runTop P (topDue P s).2 else serveStarts P (topDue P s).2) = _
  rw [h, if_pos rfl]

theorem fromDueCheck_idle {s : Cpu} (h : (topDue P s).1 = false) :
    fromDueCheck P s = serveStarts P (topDue P s).2 := by
  change (if (topDue P s).1 then runTop P (topDue P s).2 else serveStarts P (topDue P s).2) = _
  rw [h, if_neg Bool.false_ne_true]

theorem topDue_iff {s : Cpu} : (topDue P s).1 = true ↔
    dl P s.mem (hp P s.mem 0) ≤ s.clk 0 + prepTime P s.mem (topThread P s.mem) :=
  decide_eq_true_iff

theorem toDueCheck_schedInv {s : Cpu} (h : SchedInv P s.mem) : SchedInv P (toDueCheck P s).mem :=
  abortThreads_schedInv P h

/-- A sum that does not overflow grows with its second part. -/
theorem add_le_add_of_fits {now p q : Time} (h : p ≤ q) (hfits : now.toNat + q.toNat < 2 ^ 64) :
    now + p ≤ now + q := by
  rw [BitVec.le_def] at h ⊢
  rw [BitVec.toNat_add, BitVec.toNat_add, Nat.mod_eq_of_lt hfits,
    Nat.mod_eq_of_lt (Nat.lt_of_le_of_lt (Nat.add_le_add_left h _) hfits)]
  exact Nat.add_le_add_left h _

/-- **A due thread is served if the top thread prepares at least as early**: in every state
with the heap invariant in which some thread is due by its own preparation time, and the top
thread has no shorter one, the iteration executes a node. -/
theorem due_executes {s : Cpu} (hinv : SchedInv P s.mem) {t : Nat} (ht : t < thrQty)
    (hdue : ThreadDue P s.mem (s.clk 0) t)
    (hprep : prepTime P s.mem t ≤ prepTime P s.mem (topThread P s.mem))
    (hfits : (s.clk 0).toNat + (prepTime P s.mem (topThread P s.mem)).toNat < 2 ^ 64) :
    (topDue P s).1 = true ∧ fromDueCheck P s = runTop P (topDue P s).2 := by
  have htop : dl P s.mem (hp P s.mem 0) ≤ dl P s.mem (thrPtr t) := hinv.top_le P ht
  have hlater : s.clk 0 + prepTime P s.mem t ≤
      s.clk 0 + prepTime P s.mem (topThread P s.mem) := add_le_add_of_fits hprep hfits
  have hdone : (topDue P s).1 = true :=
    (topDue_iff P).2 (BitVec.le_trans (BitVec.le_trans htop hdue) hlater)
  exact ⟨hdone, fromDueCheck_due P hdone⟩

/-! ### A thread that is held back -/

/-- The host asks for two threads to be started with `sampleNode`: thread 0 at time 1000
with 10 ns of preparation, thread 1 at time 2000 with 5000 ns. -/
def twoRequests : Cpu :=
  (init samplePlatform (sampleCpu 1)).hostWrites samplePlatform 1
    [(thrStaPtr 0 + tTsNodePtr, sampleNode), (thrStaPtr 0 + tTsStarttime + 4, 1000),
      (thrStaPtr 0 + tTsPreptime + 4, 10), (thrStaPtr 1 + tTsNodePtr, sampleNode),
      (thrStaPtr 1 + tTsStarttime + 4, 2000), (thrStaPtr 1 + tTsPreptime + 4, 5000),
      (startPtr, 3), (sampleNode + nodeFlags, 13)]

def twoStarted : Cpu :=
  (startThreads samplePlatform (recordBacklog samplePlatform (topDue samplePlatform twoRequests).2)
    (List.range thrQty)).getD (topDue samplePlatform twoRequests).2

/-- The host writes behind the abort phase of the next iteration, at time 50. -/
def atFifty (ws : List (Word × Word)) : Cpu :=
  (toDueCheck samplePlatform twoStarted).hostWrites samplePlatform 50 ws

def oneHeldBack : Cpu := atFifty []

def noneHeldBack : Cpu := atFifty [(thrStaPtr 0 + tTsPreptime + 4, 5000)]

theorem twoRequests_run :
    HostStep (schedWords samplePlatform) (init samplePlatform (sampleCpu 1)) twoRequests ∧
      EdfSafe samplePlatform twoRequests ∧
      fromDueCheck samplePlatform twoRequests = some twoStarted ∧
      HostStep (schedWords samplePlatform) (toDueCheck samplePlatform twoStarted) oneHeldBack ∧
      HostStep (schedWords samplePlatform) (toDueCheck samplePlatform twoStarted) noneHeldBack := by
  have hidle : (topDue samplePlatform twoRequests).1 = false := by decide +kernel
  refine ⟨hostStep_hostWrites samplePlatform (by decide +kernel), ?_, ?_,
    hostStep_hostWrites samplePlatform (by decide +kernel),
    hostStep_hostWrites samplePlatform (by decide +kernel)⟩
  · intro hdue
    rw [hidle] at hdue
    cases hdue
  · rw [fromDueCheck_idle samplePlatform hidle]
    exact serveStarts_sorted samplePlatform (by decide +kernel) (by decide +kernel) rfl
      (by decide +kernel) (by decide +kernel)

theorem oneHeldBack_reachable : (firmware samplePlatform (schedWords samplePlatform)
    (fun _ => True) (EdfSafe samplePlatform)).Reachable (.dueCheck, oneHeldBack) := by
  obtain ⟨hhost, hsafe, hserved, hlater, -⟩ := twoRequests_run
  have hboot := Reachable.step (T := firmware samplePlatform (schedWords samplePlatform)
    (fun _ => True) (EdfSafe samplePlatform)) (.init ⟨sampleCpu 1, trivial, rfl⟩) .abort
  rw [sampleInit_dueCheck] at hboot
  have hstarted := (hboot.step (.host hhost)).step (.serve hsafe hserved)
  exact (hstarted.step .abort).step (.host hlater)

theorem twoStarted_inv : SchedInv samplePlatform (toDueCheck samplePlatform twoStarted).mem := by
  obtain ⟨hhost, hsafe, hserved, -⟩ := twoRequests_run
  have hrequests : SchedInv samplePlatform twoRequests.mem :=
    (init_schedInv samplePlatform (sampleCpu 1)).agree samplePlatform hhost.agree
  have hstarted : SchedInv samplePlatform twoStarted.mem :=
    fromDueCheck_schedInv samplePlatform hrequests hsafe hserved
  exact toDueCheck_schedInv samplePlatform hstarted

/-- **A due thread can be held back**: at time 50 thread 1 is due, 5000 ns ahead of its
deadline 2000, but the check looks at thread 0, whose deadline is 1000 and which is not due
before time 990. -/
theorem due_heldBack : ∃ (P : Platform) (s : Cpu) (t : Nat),
    (firmware P (schedWords P) (fun _ => True) (EdfSafe P)).Reachable (.dueCheck, s) ∧
      SchedInv P s.mem ∧ t < thrQty ∧ ThreadDue P s.mem (s.clk 0) t ∧
      (topDue P s).1 = false ∧ fromDueCheck P s = serveStarts P (topDue P s).2 := by
  have hinv : SchedInv samplePlatform oneHeldBack.mem :=
    twoStarted_inv.agree samplePlatform twoRequests_run.2.2.2.1.agree
  have hidle : (topDue samplePlatform oneHeldBack).1 = false := by decide +kernel
  exact ⟨samplePlatform, oneHeldBack, 1, oneHeldBack_reachable, hinv, by decide,
    by decide +kernel, hidle, fromDueCheck_idle samplePlatform hidle⟩

theorem due_executes_sample :
    (topDue samplePlatform noneHeldBack).1 = true ∧
      fromDueCheck samplePlatform noneHeldBack =
        runTop samplePlatform (topDue samplePlatform noneHeldBack).2 :=
  due_executes samplePlatform (twoStarted_inv.agree samplePlatform twoRequests_run.2.2.2.2.agree)
    (t := 1) (by decide) (by decide +kernel) (by decide +kernel) (by decide +kernel)

end DataMaster
