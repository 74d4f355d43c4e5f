import BelProjects.DataMaster.Scheduler.Running

/-!
# The two dispatches of an iteration

The iteration of a due thread calls one function for the node at the cursor and one for
the node that follows it.  What `main` does around these calls touches the heap array
and the words of the thread itself; every other word is written by the node's handler
or not at all.
-/

namespace DataMaster

variable (P : Platform)

/-! ### Sorting writes the heap array only -/

def heapWords : List Nat := (List.range thrQty).flatMap fun i => P.w32 (hpPtr i)

theorem mem_heapWords {a : Nat} : a ∈ heapWords P ↔ ∃ i, i < thrQty ∧ a = P.ctl (i * 4) := by
  simp only [heapWords, List.mem_flatMap, List.mem_range, Platform.w32, List.mem_singleton]
  constructor <;> rintro ⟨i, hi, ha⟩ <;> refine ⟨i, hi, ?_⟩
  · rwa [adr_hp P hi] at ha
  · rwa [adr_hp P hi]

theorem heapChoice_lt {m : Mem} {moving : Word} {p : Nat} (hp : p < thrQty) :
    heapChoice P m moving p < thrQty := by
  unfold heapChoice
  extract_lets left right choice
  have hchoice : choice < thrQty := by
    unfold choice
    split
    · rename_i h; exact h.1
    · exact hp
  split
  · rename_i h; exact h.1
  · exact hchoice

theorem heapReplaceLoop_frame (moving : Word) : ∀ (rounds : Nat) (m : Mem) (p : Nat), p < thrQty →
    Frame (heapWords P) m (heapReplaceLoop P moving rounds m p) := by
  have hentry : ∀ p, p < thrQty → P.adr (hpPtr p) ∈ heapWords P := fun p hp =>
    (mem_heapWords P).mpr ⟨p, hp, adr_hp P hp⟩
  intro rounds
  induction rounds with
  | zero =>
      intro m p hp
      exact (Frame.refl _ _).st P (hentry p hp)
  | succ rounds ih =>
      intro m p hp
      have hchoice : heapChoice P m moving p < thrQty := heapChoice_lt P hp
      have hstore : Frame (heapWords P) m (P.st m (hpPtr p) (DataMaster.hp P m (heapChoice P m moving p))) :=
        (Frame.refl _ _).st P (hentry p hp)
      rw [heapReplaceLoop]
      by_cases hstay : heapChoice P m moving p = p
      · simp only [if_pos hstay]
        exact hstore.st P (hentry _ hchoice)
      · simp only [if_neg hstay]
        exact hstore.trans (ih _ _ hchoice)

/-- Whatever the heap array holds, sorting writes nothing but its entries. -/
theorem heapReplace_frame {src : Nat} (hsrc : src < thrQty) (m : Mem) :
    Frame (heapWords P) m (heapReplace P m src) :=
  heapReplaceLoop_frame P _ _ m src hsrc

theorem heapify_frame (m : Mem) : Frame (heapWords P) m (heapify P m) := by
  have hbelow : ∀ (k : Nat) (m : Mem), k ≤ thrQty → Frame (heapWords P) m (heapifyBelow P m k) := by
    intro k
    induction k with
    | zero => intro m _; exact Frame.refl _ _
    | succ k ih =>
        intro m hk
        exact (heapReplace_frame P (by omega) m).trans (ih _ (by omega))
  exact hbelow _ m (by decide)

theorem ctl_not_heap {o : Nat} (ho : o % 4 = 0) (hlow : 32 ≤ o) : P.ctl o ∉ heapWords P := by
  have hq : thrQty = 8 := rfl
  rw [mem_heapWords]
  rintro ⟨i, hi, heq⟩
  exact P.ctl_ne ho (by omega) (by omega) heq

/-! ### Abort and start -/

def abortFootprint : List Nat :=
  heapWords P ++ P.w32 runningPtr ++ P.w32 abort1Ptr ++
    (List.range thrQty).flatMap fun i => P.w64 (thrPtr i + tTdDeadline)

theorem abortDeadlines_frame {W : List Nat} : ∀ (is : List Nat) (m : Mem),
    (∀ i ∈ is, P.w64 (thrPtr i + tTdDeadline) ⊆ W) → Frame W m (abortDeadlines P m is) := by
  intro is
  induction is with
  | nil => intro m _; exact Frame.refl _ _
  | cons i is ih =>
      intro m hW
      have hi := hW i List.mem_cons_self
      have hstore : Frame W m (abortDeadline P m i) :=
        (Frame.refl _ _).st64 P ⟨hi (by simp [Platform.w64]), hi (by simp [Platform.w64])⟩
      exact hstore.trans (ih _ fun j hj => hW j (List.mem_cons_of_mem _ hj))

theorem abortThreads_frame (m : Mem) : Frame (abortFootprint P) m (abortThreads P m) := by
  rw [abortThreads]
  split
  · have hheap : heapWords P ⊆ abortFootprint P := by
      intro a ha
      simp [abortFootprint, ha]
    have hrun : Frame (abortFootprint P) m
        (P.st m runningPtr (P.ld m runningPtr &&& ~~~(P.ld m abort1Ptr))) :=
      (Frame.refl _ _).st P (by simp [abortFootprint, Platform.w32])
    have hdead := hrun.trans (abortDeadlines_frame P (List.range thrQty) _ (by
      intro i hi a ha
      exact List.mem_append_right _ (List.mem_flatMap.mpr ⟨i, hi, ha⟩)))
    exact (hdead.trans ((heapify_frame P _).mono hheap)).st P (by simp [abortFootprint, Platform.w32])
  · exact Frame.refl _ _

/-- Words of its record that the preparation of thread `i` writes. -/
def prepareFootprint (i : Nat) : List Nat :=
  P.w64 (thrPtr i + tTdCurrtime) ++ P.w32 (thrPtr i + tTdNodePtr) ++ P.w64 (thrPtr i + tTdDeadline)

/-- Words that the start of thread `i` writes. -/
def startFootprint (i : Nat) : List Nat :=
  P.w32 statusPtr ++ P.w32 runningPtr ++ P.w32 startPtr ++ prepareFootprint P i ++
    P.w32 (thrPtr i + tTdMsgCnt)

theorem prepareThr_frame (s : Cpu) (i : Nat) :
    Frame (prepareFootprint P i) s.mem (prepareThr P s i).mem := by
  have hcurr : ∀ t, Frame (prepareFootprint P i) s.mem (P.st64 s.mem (thrPtr i + tTdCurrtime) t) :=
    fun t => (Frame.refl _ _).st64 P (by simp [prepareFootprint, Platform.w64])
  unfold prepareThr
  extract_lets thrData startTime s₁ s₂
  have h₁ : Frame (prepareFootprint P i) s.mem s₁.mem := by
    by_cases hzero : startTime = 0
    · simp only [s₁, if_pos hzero]; exact hcurr _
    · simp only [s₁, if_neg hzero]; exact hcurr _
  have h₂ : Frame (prepareFootprint P i) s.mem s₂.mem :=
    h₁.st P (by simp [prepareFootprint, Platform.w32, thrData])
  exact h₂.st64 P (by simp [prepareFootprint, Platform.w64, thrData])

theorem ctl_not_prepare {i o : Nat} (hi : i < thrQty) (ho : o % 4 = 0)
    (h : o < 544 + i * 32 ∨ 564 + i * 32 ≤ o) : P.ctl o ∉ prepareFootprint P i := by
  simp only [prepareFootprint, List.mem_append, not_or, Platform.w32, Platform.w64, List.mem_cons,
    List.not_mem_nil, or_false, adr_nodePtr P hi, adr_deadline P hi, adr_deadlineLo P hi,
    adr_currtime P hi, adr_currtimeLo P hi]
  refine ⟨⟨⟨?_, ?_⟩, ?_⟩, ?_, ?_⟩ <;> exact P.ctl_ne ho (by omega) (by omega)

/-- **What a start writes**: besides the record of its thread it clears the start bit of
the thread and the high word of its message counter. -/
theorem startThr_effect {s s' : Cpu} {i : Nat} (hi : i < thrQty) (h : startThr P s i = some s') :
    Frame (startFootprint P i) s.mem s'.mem ∧ P.ld s'.mem (thrPtr i + tTdMsgCnt) = 0 ∧
      P.ld s'.mem startPtr = P.ld s.mem startPtr &&& ~~~(1#32 <<< i) := by
  have hq : thrQty = 8 := rfl
  have hprep := prepareThr_frame P s i
  simp only [startThr] at h
  split at h
  · exact absurd h (by simp)
  · rename_i d s₂ hd
    obtain rfl := Option.some.inj h
    have hdead := deadlineFuncs_frame P hd
    refine ⟨?_, P.ld_st_same _ _ _, ?_⟩
    · have hrec : Frame (startFootprint P i) s.mem s₂.mem :=
        (hprep.mono (by intro a ha; simp [startFootprint, ha])).trans
          (hdead.mono (by intro a ha; simp [startFootprint, ha]))
      exact (((hrec.st64 P (by simp [startFootprint, prepareFootprint, Platform.w64])).st P
        (by simp [startFootprint, Platform.w32])).st P (by simp [startFootprint, Platform.w32])).st P
        (by simp [startFootprint, Platform.w32])
    · have hstart : ∀ m, P.ld m startPtr = m (P.ctl 324) := fun m => by
        rw [Platform.ld, adr_start]
      have hne : ∀ o, o % 4 = 0 → o ≠ 324 → P.ctl 324 ≠ P.ctl o := fun o ho hne =>
        P.ctl_ne (by omega) ho (Ne.symm hne)
      have hkept : s₂.mem (P.ctl 324) = s.mem (P.ctl 324) := by
        rw [hdead _ (by rw [Platform.w32, adr_status, List.mem_singleton]; exact hne _ (by omega) (by omega)),
          hprep _ (ctl_not_prepare P hi (by omega) (by omega))]
      have hword : ∀ r, P.ld (P.st (P.st64 s₂.mem (thrPtr i + tTdDeadline) d) runningPtr r) startPtr =
          P.ld s.mem startPtr := by
        intro r
        rw [hstart, hstart, P.st_other (by rw [adr_running]; exact hne _ (by omega) (by omega)),
          P.st64_other (by rw [adr_deadline P hi]; exact hne _ (by omega) (by omega))
            (by rw [adr_deadlineLo P hi]; exact hne _ (by omega) (by omega)), hkept]
      rw [Cpu.st_mem,
        P.ld_st_other (by rw [adr_start, adr_msgCnt P hi]; exact hne _ (by omega) (by omega)),
        Cpu.st_mem, P.ld_st_same, Cpu.st_mem, Cpu.st64_mem, hword]

/-! ### Before and after the dispatches -/

/-- The state in which the deadline function is called: `next`, the result of the
handler, is stored at the cursor. -/
def nextStored (s : Cpu) (next : Word) : Cpu := s.st P (hp P s.mem 0 + tTdNodePtr) next

def callNode (s : Cpu) : Option (Word × Cpu) :=
  nodeFuncs P { s with backlog := s.backlog + 1 } (topNode P s.mem) (hp P s.mem 0)
    (getNodeType P s.mem (topNode P s.mem))

def callDeadline (s : Cpu) : Option (Time × Cpu) :=
  deadlineFuncs P s (topNode P s.mem) (hp P s.mem 0) (getNodeType P s.mem (topNode P s.mem))

/-- An iteration is the two calls and the bookkeeping after them. -/
theorem runTop_eq (s : Cpu) : runTop P s =
    match callNode P s with
    | none => none
    | some (next, s₁) =>
        match callDeadline P (nextStored P s₁ next) with
        | none => none
        | some (d, s₃) => some (finishTop P s₃ (thrIdx P s.mem (hp P s.mem 0)) d) := rfl

theorem runTop_cases {s s' : Cpu} (h : runTop P s = some s') :
    ∃ next s₁ d s₃, callNode P s = some (next, s₁) ∧
      callDeadline P (nextStored P s₁ next) = some (d, s₃) ∧
      s' = finishTop P s₃ (thrIdx P s.mem (hp P s.mem 0)) d := by
  rw [runTop_eq] at h
  split at h
  · exact absurd h (by simp)
  · rename_i next s₁ hnode
    split at h
    · exact absurd h (by simp)
    · rename_i d s₃ hdead
      exact ⟨next, s₁, d, s₃, hnode, hdead, (Option.some.inj h).symm⟩

theorem runTop_of_calls {s s₁ s₃ : Cpu} {next : Word} {d : Time}
    (hnode : callNode P s = some (next, s₁))
    (hdead : callDeadline P (nextStored P s₁ next) = some (d, s₃)) :
    runTop P s = some (finishTop P s₃ (thrIdx P s.mem (hp P s.mem 0)) d) := by
  rw [runTop_eq, hnode]
  simp only [hdead]

/-- The root of the heap is kept by stores elsewhere. -/
theorem root_st {m : Mem} {ptr v : Word} (h : P.adr ptr ≠ P.ctl (0 * 4)) :
    hp P (P.st m ptr v) 0 = hp P m 0 := by
  rw [hp_eq P (by decide), hp_eq P (by decide)]
  exact P.st_other h.symm

/-- Words that an iteration of thread `t` writes besides the node's own stores. -/
def turnFootprint (t : Nat) : List Nat :=
  heapWords P ++ P.w32 statusPtr ++ P.w32 runningPtr ++ P.w32 (thrPtr t + tTdNodePtr) ++
    P.w64 (thrPtr t + tTdDeadline)

theorem ctl_not_turn {t o : Nat} (ht : t < thrQty) (ho : o % 4 = 0) (hlow : 32 < o) (hrun : o ≠ 336)
    (hown : o < 544 + t * 32 ∨ 556 + t * 32 ≤ o) : P.ctl o ∉ turnFootprint P t := by
  have hq : thrQty = 8 := rfl
  simp only [turnFootprint, List.mem_append, not_or, mem_heapWords, Platform.w32, Platform.w64,
    List.mem_cons, List.not_mem_nil, or_false, adr_status, adr_running, adr_nodePtr P ht,
    adr_deadline P ht, adr_deadlineLo P ht]
  refine ⟨⟨⟨⟨?_, ?_⟩, ?_⟩, ?_⟩, ?_, ?_⟩
  · rintro ⟨i, hi, heq⟩
    exact P.ctl_ne ho (by omega) (by omega) heq
  · exact P.ctl_ne ho (by omega) (by omega)
  · exact P.ctl_ne ho (by omega) hrun
  · exact P.ctl_ne ho (by omega) (by omega)
  · exact P.ctl_ne ho (by omega) (by omega)
  · exact P.ctl_ne ho (by omega) (by omega)

/-- What follows the handler in an iteration of thread `t`, number `i`: its cursor and
deadline are set, its running bit is cleared if the deadline is infinite. -/
structure TurnDone (t i : Nat) (next : Word) (d : Time) (m m' : Mem) : Prop where
  cursor : P.ld m' (thrPtr t + tTdNodePtr) = next
  deadline : dl P m' (thrPtr t) = d
  running : runningBits P m' = runningBits P m &&& ~~~((if d = -1 then 1 else 0 : Word) <<< i)
  other : Frame (turnFootprint P t) m m'
  entries : HoldsThreads P m → HoldsThreads P m'

theorem deadlineFuncs_mem {s s' : Cpu} {node thrData : Word} {ty : NodeType} {d : Time}
    (h : deadlineFuncs P s node thrData ty = some (d, s')) :
    s'.mem = s.mem ∨
      s'.mem = P.st s.mem statusPtr (P.ld s.mem statusPtr ||| shctlStatusBadNodeTypeSmsk) := by
  cases ty <;> simp only [deadlineFuncs, reduceCtorEq] at h <;>
    obtain ⟨-, rfl⟩ := Prod.mk.inj (Option.some.inj h) <;>
    first
      | exact Or.inl rfl
      | exact Or.inr rfl

/-- **The rest of an iteration**, from the return of the handler on. The handler may have
written anything, as long as the thread is still at the root of the heap. -/
theorem finishTop_turnDone {s₁ s₃ : Cpu} {t i : Nat} {next : Word} {d : Time} (ht : t < thrQty)
    (hroot : hp P s₁.mem 0 = thrPtr t)
    (hdead : callDeadline P (nextStored P s₁ next) = some (d, s₃)) :
    TurnDone P t i next d s₁.mem (finishTop P s₃ i d).mem := by
  have hq : thrQty = 8 := rfl
  have hne : ∀ {o o' : Nat}, o % 4 = 0 → o' % 4 = 0 → o ≠ o' → P.ctl o ≠ P.ctl o' :=
    fun ho ho' h => P.ctl_ne ho ho' h
  obtain ⟨m₂, hm₂⟩ : ∃ m, P.st s₁.mem (thrPtr t + tTdNodePtr) next = m := ⟨_, rfl⟩
  have hcursor₂ : P.ld m₂ (thrPtr t + tTdNodePtr) = next := by
    rw [← hm₂]; exact P.ld_st_same _ _ _
  have hmem₂ : (nextStored P s₁ next).mem = m₂ := by
    rw [nextStored, hroot, Cpu.st_mem, hm₂]
  have hmem₃ := deadlineFuncs_mem P hdead
  rw [hmem₂] at hmem₃
  have hword₃ : ∀ o, o % 4 = 0 → o ≠ 32 → s₃.mem (P.ctl o) = m₂ (P.ctl o) := by
    intro o ho hst
    rcases hmem₃ with heq | heq
    · rw [heq]
    · rw [heq, P.st_other (by rw [adr_status]; exact hne ho (by omega) hst)]
  have hword₂ : ∀ o, o % 4 = 0 → o ≠ 544 + t * 32 → m₂ (P.ctl o) = s₁.mem (P.ctl o) := by
    intro o ho hown
    rw [← hm₂, P.st_other (by rw [adr_nodePtr P ht]; exact hne ho (by omega) hown)]
  have hroot₃ : hp P s₃.mem 0 = thrPtr t := by
    rw [← hroot, hp_eq P (by omega), hp_eq P (by omega), heapView,
      hword₃ _ (by omega) (by omega), hword₂ _ (by omega) (by omega), heapView]
  obtain ⟨m₄, hm₄⟩ : ∃ m, P.st64 s₃.mem (thrPtr t + tTdDeadline) d = m := ⟨_, rfl⟩
  have hroot₄ : hp P m₄ 0 = thrPtr t := by
    rw [← hm₄, hp_st64_deadline P ht (by omega), hroot₃]
  have hdl₄ : dl P m₄ (thrPtr t) = d := by
    rw [← hm₄, dl_st64_deadline P ht ht, if_pos rfl]
  have hword₄ : ∀ o, o % 4 = 0 → o ≠ 548 + t * 32 → o ≠ 552 + t * 32 →
      m₄ (P.ctl o) = s₃.mem (P.ctl o) := by
    intro o ho hhi hlo
    rw [← hm₄, P.st64_other (by rw [adr_deadline P ht]; exact hne ho (by omega) hhi)
      (by rw [adr_deadlineLo P ht]; exact hne ho (by omega) hlo)]
  obtain ⟨m₅, hm₅⟩ : ∃ m, P.st m₄ runningPtr
    (P.ld m₄ runningPtr &&& ~~~((if d = -1 then 1 else 0 : Word) <<< i)) = m := ⟨_, rfl⟩
  have hword₅ : ∀ o, o % 4 = 0 → o ≠ 336 → m₅ (P.ctl o) = m₄ (P.ctl o) := by
    intro o ho hrun
    rw [← hm₅, P.st_other (by rw [adr_running]; exact hne ho (by omega) hrun)]
  have hmem : (finishTop P s₃ i d).mem = heapReplace P m₅ 0 := by
    simp only [finishTop, Cpu.st_mem, Cpu.st64_mem, hroot₃, hm₄, hroot₄, hdl₄, hm₅]
  have hword : ∀ o, o % 4 = 0 → 32 ≤ o → heapReplace P m₅ 0 (P.ctl o) = m₅ (P.ctl o) := by
    intro o ho hge
    apply heapReplace_frame P (by omega) m₅
    exact ctl_not_heap P ho hge
  have hentries : HoldsThreads P s₁.mem → HoldsThreads P m₅ := by
    refine holdsThreads_congr P fun j hj => ?_
    rw [hp_eq P hj, hp_eq P hj, heapView, hword₅ _ (by omega) (by omega),
      hword₄ _ (by omega) (by omega) (by omega), hword₃ _ (by omega) (by omega),
      hword₂ _ (by omega) (by omega), heapView]
  rw [hmem]
  refine ⟨?_, ?_, ?_, ?_, fun hthr => ?_⟩
  · rw [Platform.ld, adr_nodePtr P ht, hword _ (by omega) (by omega), hword₅ _ (by omega) (by omega),
      hword₄ _ (by omega) (by omega) (by omega), hword₃ _ (by omega) (by omega),
      ← adr_nodePtr P ht]
    exact hcursor₂
  · rw [dl_congr P ht (hword _ (by omega) (by omega)) (hword _ (by omega) (by omega)),
      dl_congr P ht (hword₅ _ (by omega) (by omega)) (hword₅ _ (by omega) (by omega)), hdl₄]
  · have hrun₅ : m₅ (P.ctl 336) =
        P.ld m₄ runningPtr &&& ~~~((if d = -1 then 1 else 0 : Word) <<< i) := by
      rw [← hm₅, P.st_apply, if_pos (adr_running P).symm]
    rw [running_word, hword _ (by omega) (by omega), hrun₅, Platform.ld, adr_running,
      hword₄ _ (by omega) (by omega) (by omega), hword₃ _ (by omega) (by omega),
      hword₂ _ (by omega) (by omega), ← running_word P s₁.mem]
  · intro a ha
    simp only [turnFootprint, List.mem_append, not_or, Platform.w32, Platform.w64, List.mem_cons,
      List.not_mem_nil, or_false] at ha
    obtain ⟨⟨⟨⟨hheap, hst⟩, hrun⟩, hnode⟩, hhi, hlo⟩ := ha
    rw [heapReplace_frame P (by omega) m₅ a hheap, ← hm₅, P.st_other hrun, ← hm₄, P.st64_other hhi hlo]
    rcases hmem₃ with heq | heq
    · rw [heq, ← hm₂, P.st_other hnode]
    · rw [heq, P.st_other hst, ← hm₂, P.st_other hnode]
  · exact (heapReplace_resorted (by omega) (hentries hthr)).holdsThreads P (hentries hthr)

/-- The bookkeeping after the dispatches keeps the status word. -/
theorem finishTop_status {s : Cpu} {t i : Nat} {d : Time} (ht : t < thrQty)
    (hroot : hp P s.mem 0 = thrPtr t) :
    P.ld (finishTop P s i d).mem statusPtr = P.ld s.mem statusPtr := by
  have hq : thrQty = 8 := rfl
  have hst : ∀ m, P.ld m statusPtr = m (P.ctl 32) := fun m => by rw [Platform.ld, adr_status]
  have hsort : ∀ m, heapReplace P m 0 (P.ctl 32) = m (P.ctl 32) := by
    intro m
    exact heapReplace_frame P (by omega) m _ (ctl_not_heap P (by omega) (by omega))
  rw [hst, hst]
  simp only [finishTop, Cpu.st_mem, Cpu.st64_mem, hroot]
  rw [hsort, P.st_other (by rw [adr_running]; exact P.ctl_ne (by omega) (by omega) (by omega)),
    P.st64_other (by rw [adr_deadline P ht]; exact P.ctl_ne (by omega) (by omega) (by omega))
      (by rw [adr_deadlineLo P ht]; exact P.ctl_ne (by omega) (by omega) (by omega))]

end DataMaster
