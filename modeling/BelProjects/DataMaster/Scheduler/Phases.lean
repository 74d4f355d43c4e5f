import BelProjects.DataMaster.Scheduler.Heap

/-!
# What one iteration does to the scheduler's words

The scheduler state proper is the heap array, the deadlines of the threads, their
thread numbers and the running bits.  For each phase of the main loop one lemma says
what it does to these words; the invariants of runs use only these lemmas.
-/

namespace DataMaster

variable (P : Platform)

def runningBits (m : Mem) : Word := P.ld m runningPtr

def schedWords : List Nat :=
  (List.range thrQty).flatMap fun i => P.w32 (hpPtr i) ++ P.w64 (thrPtr i + tTdDeadline)

/-- The running bits and the thread numbers in the thread records. -/
def statusWords : List Nat :=
  P.w32 runningPtr ++ (List.range thrQty).flatMap fun i => P.w32 (thrPtr i + tTdFlags)

def AgreeOn (W : List Nat) (m m' : Mem) : Prop := ∀ a ∈ W, m' a = m a

theorem AgreeOn.trans {W : List Nat} {m₁ m₂ m₃ : Mem} (h₁₂ : AgreeOn W m₁ m₂)
    (h₂₃ : AgreeOn W m₂ m₃) : AgreeOn W m₁ m₃ :=
  fun a ha => (h₂₃ a ha).trans (h₁₂ a ha)

theorem mem_schedWords {a : Nat} : a ∈ schedWords P ↔
    ∃ i, i < thrQty ∧ (a = P.ctl (i * 4) ∨ a = P.ctl (548 + i * 32) ∨ a = P.ctl (552 + i * 32)) := by
  simp only [schedWords, List.mem_flatMap, List.mem_range, List.mem_append, Platform.w32,
    Platform.w64, List.mem_cons, List.not_mem_nil, or_false]
  constructor <;> rintro ⟨i, hi, ha⟩ <;> refine ⟨i, hi, ?_⟩
  · rwa [adr_hp P hi, adr_deadline P hi, adr_deadlineLo P hi] at ha
  · rwa [adr_hp P hi, adr_deadline P hi, adr_deadlineLo P hi]

theorem mem_statusWords {a : Nat} : a ∈ statusWords P ↔
    a = P.ctl 336 ∨ ∃ i, i < thrQty ∧ a = P.ctl (532 + i * 32) := by
  simp only [statusWords, List.mem_flatMap, List.mem_range, List.mem_append, Platform.w32,
    List.mem_cons, List.not_mem_nil, or_false, adr_running]
  refine or_congr Iff.rfl ⟨?_, ?_⟩ <;> rintro ⟨i, hi, ha⟩ <;> refine ⟨i, hi, ?_⟩
  · rwa [adr_flags P hi] at ha
  · rwa [adr_flags P hi]

/-- A word of the control area that is neither in the heap array nor in a deadline. -/
def OffSched (o : Nat) : Prop := 32 ≤ o ∧ (o < 548 ∨ 8 ≤ (o - 548) % 32) ∧ o % 4 = 0

theorem ctl_not_sched {o : Nat} (h : OffSched o) : P.ctl o ∉ schedWords P := by
  obtain ⟨hlow, hmid, hal⟩ := h
  have hq : thrQty = 8 := rfl
  rw [mem_schedWords]
  rintro ⟨i, hi, heq | heq | heq⟩ <;> have := P.ctl_inj heq hal (by omega) <;> omega

/-- A word that holds neither the running bits nor a thread number. -/
def OffStatus (o : Nat) : Prop := o ≠ 336 ∧ (o < 532 ∨ 4 ≤ (o - 532) % 32) ∧ o % 4 = 0

theorem ctl_not_status {o : Nat} (h : OffStatus o) : P.ctl o ∉ statusWords P := by
  obtain ⟨hne, hmid, hal⟩ := h
  rw [mem_statusWords]
  rintro (heq | ⟨i, hi, heq⟩) <;> have := P.ctl_inj heq hal (by omega) <;> omega

theorem AgreeOn.st {W : List Nat} {m m' : Mem} {ptr v : Word} (h : AgreeOn W m m')
    (hW : P.adr ptr ∉ W) : AgreeOn W m (P.st m' ptr v) := by
  intro a ha
  rw [P.st_other, h a ha]
  rintro rfl
  exact hW ha

theorem AgreeOn.st64 {W : List Nat} {m m' : Mem} {ptr : Word} {v : Time} (h : AgreeOn W m m')
    (hhi : P.adr ptr ∉ W) (hlo : P.adr (ptr + 4) ∉ W) : AgreeOn W m (P.st64 m' ptr v) :=
  (h.st P hhi).st P hlo

theorem AgreeOn.refl (W : List Nat) (m : Mem) : AgreeOn W m m := fun _ _ => rfl

/-! ### Reading the scheduler's words -/

theorem hp_agree {m m' : Mem} (h : AgreeOn (schedWords P) m m') {i : Nat} (hi : i < thrQty) :
    hp P m' i = hp P m i := by
  rw [hp_eq P hi, hp_eq P hi]
  exact h _ ((mem_schedWords P).mpr ⟨i, hi, Or.inl rfl⟩)

theorem dl_agree {m m' : Mem} (h : AgreeOn (schedWords P) m m') : SameDeadlines P m m' :=
  fun t ht => dl_congr P ht (h _ ((mem_schedWords P).mpr ⟨t, ht, Or.inr (Or.inl rfl)⟩))
    (h _ ((mem_schedWords P).mpr ⟨t, ht, Or.inr (Or.inr rfl)⟩))

theorem running_word (m : Mem) : runningBits P m = m (P.ctl 336) := by
  rw [runningBits, Platform.ld, adr_running]

theorem thrIdx_word {m : Mem} {t : Nat} (ht : t < thrQty) :
    thrIdx P m (thrPtr t) = (m (P.ctl (532 + t * 32)) &&& 7).toNat := by
  rw [thrIdx, Platform.ld, adr_flags P ht]

theorem running_agree {m m' : Mem} (h : AgreeOn (statusWords P) m m') :
    runningBits P m' = runningBits P m := by
  rw [running_word, running_word]
  exact h _ ((mem_statusWords P).mpr (Or.inl rfl))

theorem thrIdx_agree {m m' : Mem} (h : AgreeOn (statusWords P) m m') {t : Nat} (ht : t < thrQty) :
    thrIdx P m' (thrPtr t) = thrIdx P m (thrPtr t) := by
  rw [thrIdx_word P ht, thrIdx_word P ht, h _ ((mem_statusWords P).mpr (Or.inr ⟨t, ht, rfl⟩))]

/-- The heap array holds the same entries. -/
theorem holdsThreads_congr {m m' : Mem} (h : ∀ i, i < thrQty → hp P m' i = hp P m i)
    (hthr : HoldsThreads P m) : HoldsThreads P m' := by
  intro i hi
  rw [h i hi]
  exact hthr i hi

theorem dl_st64_deadline {m : Mem} {t u : Nat} {d : Time} (ht : t < thrQty) (hu : u < thrQty) :
    dl P (P.st64 m (thrPtr t + tTdDeadline) d) (thrPtr u) =
      if u = t then d else dl P m (thrPtr u) := by
  split
  · rename_i h
    subst h
    apply P.ld64_st64_same
    rw [adr_deadline P hu, adr_deadlineLo P hu]
    exact P.ctl_ne (by omega) (by omega) (by omega)
  · rename_i hne
    apply dl_congr P hu <;> apply P.st64_other
    · rw [adr_deadline P ht]; exact P.ctl_ne (by omega) (by omega) (by omega)
    · rw [adr_deadlineLo P ht]; exact P.ctl_ne (by omega) (by omega) (by omega)
    · rw [adr_deadline P ht]; exact P.ctl_ne (by omega) (by omega) (by omega)
    · rw [adr_deadlineLo P ht]; exact P.ctl_ne (by omega) (by omega) (by omega)

theorem hp_st64_deadline {m : Mem} {t i : Nat} {d : Time} (ht : t < thrQty) (hi : i < thrQty) :
    hp P (P.st64 m (thrPtr t + tTdDeadline) d) i = hp P m i := by
  have hq : thrQty = 8 := rfl
  rw [hp_eq P hi, hp_eq P hi]
  apply P.st64_other
  · rw [adr_deadline P ht]; exact P.ctl_ne (by omega) (by omega) (by omega)
  · rw [adr_deadlineLo P ht]; exact P.ctl_ne (by omega) (by omega) (by omega)

theorem status_st64_deadline {m : Mem} {t : Nat} {d : Time} (ht : t < thrQty) :
    AgreeOn (statusWords P) m (P.st64 m (thrPtr t + tTdDeadline) d) := by
  apply (AgreeOn.refl _ m).st64 P
  · rw [adr_deadline P ht]
    exact ctl_not_status P ⟨by omega, by omega, by omega⟩
  · rw [adr_deadlineLo P ht]
    exact ctl_not_status P ⟨by omega, by omega, by omega⟩

/-! ### Initialisation -/

/-- What `dmInit` sets up for thread `i`. -/
structure ThreadIdle (m : Mem) (i : Nat) : Prop where
  entry : hp P m i = thrPtr i
  deadline : dl P m (thrPtr i) = -1
  number : thrIdx P m (thrPtr i) = i

/-- The part of the loop body of `dmInit` that leaves the record's deadline alone:
staging times and heap entry. -/
theorem initThread_tail {m : Mem} {i o : Nat} (hi : i < thrQty) (ho : o % 4 = 0)
    (hsta : o < 348 + i * 24 ∨ 364 + i * 24 ≤ o) (hheap : o ≠ i * 4) :
    initThread P m i (P.ctl o) =
      P.st (P.st64 (P.st64 m (thrPtr i + tTdCurrtime) (-1)) (thrPtr i + tTdDeadline) (-1))
        (thrPtr i + tTdFlags) (BitVec.ofNat 32 i) (P.ctl o) := by
  have hne : ∀ {o'}, o' % 4 = 0 → o ≠ o' → P.ctl o ≠ P.ctl o' := fun ho' h => P.ctl_ne ho ho' h
  simp only [initThread]
  rw [P.st_other (by rw [adr_hp P hi]; exact hne (by omega) hheap),
    P.st64_other (by rw [adr_starttime P hi]; exact hne (by omega) (by omega))
      (by rw [adr_starttimeLo P hi]; exact hne (by omega) (by omega)),
    P.st64_other (by rw [adr_preptime P hi]; exact hne (by omega) (by omega))
      (by rw [adr_preptimeLo P hi]; exact hne (by omega) (by omega))]

/-- Words that `dmInit` does not write for thread `i`: all but its heap entry, its
staging times, and its record from the deadline on and its number. -/
theorem initThread_other {m : Mem} {i o : Nat} (hi : i < thrQty) (ho : o % 4 = 0)
    (hsta : o < 348 + i * 24 ∨ 364 + i * 24 ≤ o) (hheap : o ≠ i * 4)
    (hnum : o ≠ 532 + i * 32) (hrec : o < 548 + i * 32 ∨ 564 + i * 32 ≤ o) :
    initThread P m i (P.ctl o) = m (P.ctl o) := by
  have hne : ∀ {o'}, o' % 4 = 0 → o ≠ o' → P.ctl o ≠ P.ctl o' := fun ho' h => P.ctl_ne ho ho' h
  rw [initThread_tail P hi ho hsta hheap,
    P.st_other (by rw [adr_flags P hi]; exact hne (by omega) hnum),
    P.st64_other (by rw [adr_deadline P hi]; exact hne (by omega) (by omega))
      (by rw [adr_deadlineLo P hi]; exact hne (by omega) (by omega)),
    P.st64_other (by rw [adr_currtime P hi]; exact hne (by omega) (by omega))
      (by rw [adr_currtimeLo P hi]; exact hne (by omega) (by omega))]

theorem initThread_idle {m : Mem} {i : Nat} (hi : i < thrQty) :
    ThreadIdle P (initThread P m i) i := by
  have hq : thrQty = 8 := rfl
  refine ⟨?_, ?_, ?_⟩
  · exact P.ld_st_same _ _ _
  · have hflags : ∀ o, o % 4 = 0 → o ≠ 532 + i * 32 → 548 + i * 32 ≤ o →
        initThread P m i (P.ctl o) =
          P.st64 (P.st64 m (thrPtr i + tTdCurrtime) (-1)) (thrPtr i + tTdDeadline) (-1)
            (P.ctl o) := by
      intro o ho hnum hge
      rw [initThread_tail P hi ho (by omega) (by omega),
        P.st_other (by rw [adr_flags P hi]; exact P.ctl_ne ho (by omega) hnum)]
    rw [dl_congr P hi (hflags _ (by omega) (by omega) (by omega))
      (hflags _ (by omega) (by omega) (by omega)), dl_st64_deadline P hi hi, if_pos rfl]
  · have hnum : P.ld (initThread P m i) (thrPtr i + tTdFlags) = BitVec.ofNat 32 i := by
      rw [Platform.ld, adr_flags P hi, initThread_tail P hi (by omega) (by omega) (by omega),
        P.st_apply, if_pos (adr_flags P hi).symm]
    rw [thrIdx, hnum]
    have hand : ∀ j : Fin 8, (BitVec.ofNat 32 j &&& 7).toNat = j := by decide
    exact hand ⟨i, hi⟩

theorem ThreadIdle.initThread {m : Mem} {i j : Nat} (hi : i < thrQty) (hj : j < thrQty)
    (hij : j ≠ i) (h : ThreadIdle P m j) : ThreadIdle P (initThread P m i) j := by
  have hq : thrQty = 8 := rfl
  refine ⟨?_, ?_, ?_⟩
  · rw [← h.entry, hp_eq P hj, hp_eq P hj]
    exact initThread_other P hi (by omega) (by omega) (by omega) (by omega) (by omega)
  · rw [← h.deadline]
    exact dl_congr P hj
      (initThread_other P hi (by omega) (by omega) (by omega) (by omega) (by omega))
      (initThread_other P hi (by omega) (by omega) (by omega) (by omega) (by omega))
  · have hnumber := h.number
    rw [thrIdx, Platform.ld, adr_flags P hj] at hnumber ⊢
    rw [initThread_other P hi (by omega) (by omega) (by omega) (by omega) (by omega)]
    exact hnumber

theorem initThreads_idle : ∀ (is : List Nat) (m : Mem), (∀ i ∈ is, i < thrQty) →
    ∀ j, j < thrQty → (j ∈ is ∨ ThreadIdle P m j) → ThreadIdle P (initThreads P m is) j := by
  intro is
  induction is with
  | nil =>
      intro m _ j _ hj
      rcases hj with hmem | hidle
      · exact absurd hmem (by simp)
      · exact hidle
  | cons i is ih =>
      intro m his j hjq hj
      have hi := his i List.mem_cons_self
      refine ih (initThread P m i) (fun k hk => his k (List.mem_cons_of_mem _ hk)) j hjq ?_
      by_cases hji : j = i
      · subst hji
        exact Or.inr (initThread_idle P hjq)
      · rcases hj with hmem | hidle
        · exact Or.inl ((List.mem_cons.mp hmem).resolve_left hji)
        · exact Or.inr (hidle.initThread P hi hjq hji)

theorem initThreads_running : ∀ (is : List Nat) (m : Mem), (∀ i ∈ is, i < thrQty) →
    initThreads P m is (P.ctl 336) = m (P.ctl 336) := by
  intro is
  induction is with
  | nil => intro m _; rfl
  | cons i is ih =>
      intro m his
      have hq : thrQty = 8 := rfl
      have hi := his i List.mem_cons_self
      rw [initThreads, ih _ fun k hk => his k (List.mem_cons_of_mem _ hk)]
      exact initThread_other P hi (by omega) (by omega) (by omega) (by omega) (by omega)

theorem adr_shared_off {o : Nat} (ho : o < shctlEnd) (hs : OffSched o) (ht : OffStatus o) :
    P.adr (shared o) ∉ schedWords P ++ statusWords P := by
  rw [P.adr_shared ho, List.mem_append, not_or]
  exact ⟨ctl_not_sched P hs, ctl_not_status P ht⟩

theorem shared_add_four (o : Nat) : shared o + 4 = shared (o + 4) := shared_add o 4

/-- A 32-bit store to a global word below the thread control registers. -/
theorem AgreeOn.stShared {m m' : Mem} {o : Nat} {v : Word}
    (h : AgreeOn (schedWords P ++ statusWords P) m m') (hlow : 32 ≤ o) (hhigh : o < 324)
    (hal : o % 4 = 0) : AgreeOn (schedWords P ++ statusWords P) m (P.st m' (shared o) v) := by
  have hend : shctlEnd = 820 := rfl
  exact h.st P (adr_shared_off P (by omega) ⟨hlow, by omega, hal⟩ ⟨by omega, by omega, hal⟩)

theorem AgreeOn.stShared64 {m m' : Mem} {o : Nat} {v : Time}
    (h : AgreeOn (schedWords P ++ statusWords P) m m') (hlow : 32 ≤ o) (hhigh : o < 320)
    (hal : o % 4 = 0) : AgreeOn (schedWords P ++ statusWords P) m (P.st64 m' (shared o) v) := by
  rw [Platform.st64, shared_add_four]
  exact (h.stShared P hlow (by omega) hal).stShared P (by omega) (by omega) (by omega)

/-- After the thread loop `dmInit` only writes statistics. -/
theorem dmInit_agree (s : Cpu) :
    AgreeOn (schedWords P ++ statusWords P) (initThreads P s.mem (List.range thrQty))
      (dmInit P s).mem := by
  unfold dmInit
  extract_lets s₀ s₁ s₂ s₃ s₄ s₅ s₆ s₇ s₈ s₉
  have h₁ : AgreeOn (schedWords P ++ statusWords P) s₀.mem s₁.mem :=
    (AgreeOn.refl _ _).stShared64 P (by decide) (by decide) (by decide)
  have h₂ : AgreeOn (schedWords P ++ statusWords P) s₀.mem s₂.mem :=
    h₁.stShared64 P (by decide) (by decide) (by decide)
  have h₃ : AgreeOn (schedWords P ++ statusWords P) s₀.mem s₃.mem :=
    h₂.stShared64 P (by decide) (by decide) (by decide)
  have h₄ : AgreeOn (schedWords P ++ statusWords P) s₀.mem s₄.mem :=
    h₃.stShared64 P (by decide) (by decide) (by decide)
  have h₅ : AgreeOn (schedWords P ++ statusWords P) s₀.mem s₅.mem :=
    h₄.stShared P (by decide) (by decide) (by decide)
  have h₆ : AgreeOn (schedWords P ++ statusWords P) s₀.mem s₆.mem :=
    h₅.stShared P (by decide) (by decide) (by decide)
  have h₇ : AgreeOn (schedWords P ++ statusWords P) s₀.mem s₇.mem :=
    h₆.stShared64 P (by decide) (by decide) (by decide)
  have h₈ : AgreeOn (schedWords P ++ statusWords P) s₀.mem s₈.mem :=
    h₇.stShared P (by decide) (by decide) (by decide)
  have h₉ : AgreeOn (schedWords P ++ statusWords P) s₀.mem s₉.mem :=
    h₈.stShared P (by decide) (by decide) (by decide)
  exact h₉.stShared64 P (by decide) (by decide) (by decide)

theorem AgreeOn.sched {m m' : Mem} (h : AgreeOn (schedWords P ++ statusWords P) m m') :
    AgreeOn (schedWords P) m m' :=
  fun a ha => h a (List.mem_append_left _ ha)

theorem AgreeOn.status {m m' : Mem} (h : AgreeOn (schedWords P ++ statusWords P) m m') :
    AgreeOn (statusWords P) m m' :=
  fun a ha => h a (List.mem_append_right _ ha)

theorem ThreadIdle.agree {m m' : Mem} {i : Nat} (hi : i < thrQty) (h : ThreadIdle P m i)
    (hagree : AgreeOn (schedWords P ++ statusWords P) m m') : ThreadIdle P m' i :=
  ⟨(hp_agree P (hagree.sched P) hi).trans h.entry,
    (dl_agree P (hagree.sched P) i hi).trans h.deadline,
    (thrIdx_agree P (hagree.status P) hi).trans h.number⟩

/-- **State after `init`**: every thread is idle, entry `i` of the heap is thread `i`,
and the running bits are what they were before. -/
theorem init_spec (s : Cpu) :
    (∀ i, i < thrQty → ThreadIdle P (init P s).mem i) ∧
      runningBits P (init P s).mem = runningBits P s.mem := by
  unfold init
  extract_lets s₁ s₂ s₃ s₄ s₅ s₆ s₇
  have h₁ : AgreeOn (schedWords P ++ statusWords P) s.mem s₁.mem :=
    (AgreeOn.refl _ _).stShared P (by decide) (by decide) (by decide)
  have h₂ : AgreeOn (schedWords P ++ statusWords P) s.mem s₂.mem :=
    h₁.stShared64 P (by decide) (by decide) (by decide)
  have h₃ : AgreeOn (schedWords P ++ statusWords P) s.mem s₃.mem :=
    h₂.stShared P (by decide) (by decide) (by decide)
  have h₄ : AgreeOn (schedWords P ++ statusWords P) s.mem s₄.mem :=
    h₃.stShared P (by decide) (by decide) (by decide)
  have h₅ : AgreeOn (schedWords P ++ statusWords P) s.mem s₅.mem :=
    h₄.stShared P (by decide) (by decide) (by decide)
  have hthreads : AgreeOn (schedWords P ++ statusWords P)
      (initThreads P s₅.mem (List.range thrQty)) s₆.mem := dmInit_agree P s₅
  have h₇ : AgreeOn (schedWords P ++ statusWords P)
      (initThreads P s₅.mem (List.range thrQty)) s₇.mem :=
    hthreads.stShared P (by decide) (by decide) (by decide)
  have hlast : AgreeOn (schedWords P ++ statusWords P)
      (initThreads P s₅.mem (List.range thrQty)) (s₇.getSysTime.2.st64 P boottimePtr (s₇.clk 0)).mem :=
    h₇.stShared64 P (by decide) (by decide) (by decide)
  have hrange : ∀ i ∈ List.range thrQty, i < thrQty := fun i hi => List.mem_range.mp hi
  constructor
  · intro i hi
    exact (initThreads_idle P _ _ hrange i hi (Or.inl (List.mem_range.mpr hi))).agree P hi hlast
  · calc runningBits P (s₇.getSysTime.2.st64 P boottimePtr (s₇.clk 0)).mem
        = runningBits P (initThreads P s₅.mem (List.range thrQty)) :=
          running_agree P (hlast.status P)
      _ = runningBits P s₅.mem := by
          rw [running_word, running_word]
          exact initThreads_running P _ _ hrange
      _ = runningBits P s.mem := running_agree P (h₅.status P)

/-! ### Abort -/

theorem abort_mask (a : Word) {i : Nat} (hi : i < 32) :
    (~~~(a.setWidth 64 >>> i) &&& 1) - (1 : Time) = if a.getLsbD i then -1 else 0 := by
  have hbit : (~~~(a.setWidth 64 >>> i) &&& 1#64) = if a.getLsbD i then 0#64 else 1#64 := by
    apply BitVec.eq_of_getLsbD_eq
    intro j hj
    by_cases h0 : j = 0
    · subst h0
      cases h : a.getLsbD i <;> simp [h, show i < 64 by omega]
    · cases h : a.getLsbD i <;> simp [h0, BitVec.getLsbD_one]
  change (~~~(a.setWidth 64 >>> i) &&& 1#64) - 1#64 = _
  rw [hbit]
  split <;> rfl

theorem abortDeadline_dl {m : Mem} {i j : Nat} (hi : i < thrQty) (hj : j < thrQty) :
    dl P (abortDeadline P m i) (thrPtr j) =
      if j = i ∧ (P.ld m abort1Ptr).getLsbD i then -1 else dl P m (thrPtr j) := by
  have hq : thrQty = 8 := rfl
  rw [abortDeadline, dl_st64_deadline P hi hj, abort_mask _ (by omega)]
  by_cases hji : j = i
  · subst hji
    by_cases hbit : (P.ld m abort1Ptr).getLsbD j
    · rw [if_pos rfl, if_pos hbit, if_pos ⟨rfl, hbit⟩]
      exact BitVec.or_allOnes
    · rw [if_pos rfl, if_neg hbit, if_neg fun h => hbit h.2]
      exact BitVec.or_zero
  · rw [if_neg hji, if_neg fun h => hji h.1]

theorem abortDeadline_other {m : Mem} {i a : Nat} (hi : i < thrQty)
    (hhi : a ≠ P.ctl (548 + i * 32)) (hlo : a ≠ P.ctl (552 + i * 32)) :
    abortDeadline P m i a = m a :=
  P.st64_other (by rwa [adr_deadline P hi]) (by rwa [adr_deadlineLo P hi])

theorem abortDeadlines_spec : ∀ (is : List Nat) (m : Mem), (∀ i ∈ is, i < thrQty) →
    (∀ a, (∀ i, i < thrQty → a ≠ P.ctl (548 + i * 32) ∧ a ≠ P.ctl (552 + i * 32)) →
        abortDeadlines P m is a = m a) ∧
      ∀ j, j < thrQty → dl P (abortDeadlines P m is) (thrPtr j) =
        if j ∈ is ∧ (P.ld m abort1Ptr).getLsbD j then -1 else dl P m (thrPtr j) := by
  intro is
  induction is with
  | nil => intro m _; exact ⟨fun _ _ => rfl, fun j _ => by simp [abortDeadlines]⟩
  | cons i is ih =>
      intro m his
      have hq : thrQty = 8 := rfl
      have hi := his i List.mem_cons_self
      obtain ⟨hother, hdl⟩ := ih (abortDeadline P m i) fun k hk => his k (List.mem_cons_of_mem _ hk)
      have habort : P.ld (abortDeadline P m i) abort1Ptr = P.ld m abort1Ptr := by
        rw [Platform.ld, Platform.ld, adr_abort1]
        exact abortDeadline_other P hi (P.ctl_ne (by omega) (by omega) (by omega))
          (P.ctl_ne (by omega) (by omega) (by omega))
      constructor
      · intro a ha
        rw [abortDeadlines, hother a ha, abortDeadline_other P hi (ha i hi).1 (ha i hi).2]
      · intro j hj
        rw [abortDeadlines, hdl j hj, habort, abortDeadline_dl P hi hj]
        by_cases hbit : (P.ld m abort1Ptr).getLsbD j
        · by_cases hji : j = i
          · subst hji; simp [hbit]
          · simp [hbit, hji]
        · by_cases hji : j = i
          · subst hji; simp [hbit]
          · simp [hbit, hji]

/-- What the abort phase does to a state whose heap holds thread records. -/
structure Aborted (m m' : Mem) : Prop where
  perm : (List.ofFn fun i : Fin thrQty => hp P m' i).Perm (List.ofFn fun i : Fin thrQty => hp P m i)
  heap : MinHeapFrom P m' 0
  deadline : ∀ j, j < thrQty → dl P m' (thrPtr j) =
    if (P.ld m abort1Ptr).getLsbD j then -1 else dl P m (thrPtr j)
  number : ∀ j, j < thrQty → thrIdx P m' (thrPtr j) = thrIdx P m (thrPtr j)
  running : runningBits P m' = runningBits P m &&& ~~~(P.ld m abort1Ptr)

/-- **Abort phase**: it clears the running bits of the aborted threads and moves their
deadlines to infinity, and leaves a heap of the same records. Without a request it
does nothing. -/
theorem abortThreads_spec {m : Mem} (hthr : HoldsThreads P m) :
    (P.ld m abort1Ptr = 0 ∧ abortThreads P m = m) ∨ Aborted P m (abortThreads P m) := by
  by_cases hreq : P.ld m abort1Ptr = 0
  · left
    exact ⟨hreq, by rw [abortThreads, if_neg (not_not.mpr hreq)]⟩
  · right
    have hq : thrQty = 8 := rfl
    rw [abortThreads, if_pos hreq]
    change Aborted P m (P.st (heapify P (abortDeadlines P
      (P.st m runningPtr (P.ld m runningPtr &&& ~~~(P.ld m abort1Ptr))) (List.range thrQty)))
      abort1Ptr 0)
    generalize hm₁ : P.st m runningPtr (P.ld m runningPtr &&& ~~~(P.ld m abort1Ptr)) = m₁
    have hother₁ : ∀ o, o % 4 = 0 → o ≠ 336 → m₁ (P.ctl o) = m (P.ctl o) := by
      intro o ho hne
      rw [← hm₁, P.st_other (by rw [adr_running]; exact P.ctl_ne ho (by omega) hne)]
    have hreq₁ : P.ld m₁ abort1Ptr = P.ld m abort1Ptr := by
      rw [Platform.ld, Platform.ld, adr_abort1, hother₁ _ (by omega) (by omega)]
    have hrun₁ : m₁ (P.ctl 336) = P.ld m runningPtr &&& ~~~(P.ld m abort1Ptr) := by
      rw [← hm₁, P.st_apply, if_pos (adr_running P).symm]
    obtain ⟨hother₂, hdl₂⟩ := abortDeadlines_spec P (List.range thrQty) m₁
      fun i hi => List.mem_range.mp hi
    generalize hm₂ : abortDeadlines P m₁ (List.range thrQty) = m₂ at hother₂ hdl₂
    have hoff₂ : ∀ o, o % 4 = 0 → (o < 548 ∨ 8 ≤ (o - 548) % 32) → m₂ (P.ctl o) = m₁ (P.ctl o) := by
      intro o ho hoff
      apply hother₂
      intro i hi
      exact ⟨P.ctl_ne ho (by omega) (by omega), P.ctl_ne ho (by omega) (by omega)⟩
    have hhp₂ : ∀ i, i < thrQty → hp P m₂ i = hp P m i := by
      intro i hi
      rw [hp_eq P hi, hp_eq P hi, heapView, hoff₂ _ (by omega) (by omega),
        hother₁ _ (by omega) (by omega), heapView]
    obtain ⟨hres, hheap⟩ := heapify_spec P (holdsThreads_congr P hhp₂ hthr)
    generalize heapify P m₂ = m₃ at hres hheap
    have hoff₃ : ∀ o, o % 4 = 0 → 32 ≤ o → m₃ (P.ctl o) = m₂ (P.ctl o) := by
      intro o ho hge
      exact hres.other _ fun i hi => P.ctl_ne ho (by omega) (by omega)
    have hoff₄ : ∀ o, o % 4 = 0 → o ≠ 332 → P.st m₃ abort1Ptr 0 (P.ctl o) = m₃ (P.ctl o) := by
      intro o ho hne
      exact P.st_other (by rw [adr_abort1]; exact P.ctl_ne ho (by omega) hne)
    have hhp₄ : ∀ i, i < thrQty → hp P (P.st m₃ abort1Ptr 0) i = hp P m₃ i := by
      intro i hi
      rw [hp_eq P hi, hp_eq P hi]
      exact hoff₄ _ (by omega) (by omega)
    have hdl₄ : SameDeadlines P m₃ (P.st m₃ abort1Ptr 0) := fun t ht =>
      dl_congr P ht (hoff₄ _ (by omega) (by omega)) (hoff₄ _ (by omega) (by omega))
    have hthr₃ : HoldsThreads P m₃ := hres.holdsThreads P (holdsThreads_congr P hhp₂ hthr)
    have hsame : ∀ i : Fin thrQty, hp P (P.st m₃ abort1Ptr 0) i = hp P m₃ i :=
      fun i => hhp₄ i i.is_lt
    refine ⟨?_, ?_, ?_, ?_, ?_⟩
    · have hperm := hres.perm
      simp only [hsame]
      simpa only [hhp₂ _ (Fin.is_lt _)] using hperm
    · refine hheap.congr P fun i _ hi => ⟨hhp₄ i hi, ?_⟩
      obtain ⟨t, ht, heq⟩ := hthr₃ i hi
      rw [heq]
      exact hdl₄ t ht
    · intro j hj
      rw [hdl₄ j hj, dl_congr P hj (hoff₃ _ (by omega) (by omega)) (hoff₃ _ (by omega) (by omega)),
        hdl₂ j hj, hreq₁,
        dl_congr P hj (hother₁ _ (by omega) (by omega)) (hother₁ _ (by omega) (by omega))]
      simp [List.mem_range.mpr hj]
    · intro j hj
      rw [thrIdx_word P hj, thrIdx_word P hj, hoff₄ _ (by omega) (by omega),
        hoff₃ _ (by omega) (by omega), hoff₂ _ (by omega) (by omega), hother₁ _ (by omega) (by omega)]
    · rw [running_word, hoff₄ _ (by omega) (by omega), hoff₃ _ (by omega) (by omega),
        hoff₂ _ (by omega) (by omega), hrun₁, runningBits]

/-! ### Thread start -/

theorem adr_record_off {i : Nat} (d : Nat) (hd : 4 ≤ d ∧ d < 16 ∨ 24 ≤ d ∧ d < 32) (hal : d % 4 = 0) :
    P.ctl (532 + i * 32 + d) ∉ schedWords P ++ statusWords P := by
  rw [List.mem_append, not_or]
  exact ⟨ctl_not_sched P ⟨by omega, by omega, by omega⟩,
    ctl_not_status P ⟨by omega, by omega, by omega⟩⟩

theorem prepareThr_agree {s : Cpu} {i : Nat} (hi : i < thrQty) :
    ∃ (m : Mem) (v : Time), AgreeOn (schedWords P ++ statusWords P) s.mem m ∧
      m (P.ctl 324) = s.mem (P.ctl 324) ∧
      (prepareThr P s i).mem = P.st64 m (thrPtr i + tTdDeadline) v := by
  have hq : thrQty = 8 := rfl
  have hhi : P.adr (thrPtr i + tTdCurrtime) = P.ctl (532 + i * 32 + 24) := by
    rw [adr_currtime P hi]; congr 1; omega
  have hlo : P.adr (thrPtr i + tTdCurrtime + 4) = P.ctl (532 + i * 32 + 28) := by
    rw [adr_currtimeLo P hi]; congr 1; omega
  have hptr : P.adr (thrPtr i + tTdNodePtr) = P.ctl (532 + i * 32 + 12) := by
    rw [adr_nodePtr P hi]; congr 1; omega
  have hcurr : ∀ t, AgreeOn (schedWords P ++ statusWords P) s.mem
      (P.st64 s.mem (thrPtr i + tTdCurrtime) t) ∧
      P.st64 s.mem (thrPtr i + tTdCurrtime) t (P.ctl 324) = s.mem (P.ctl 324) := by
    intro t
    constructor
    · apply (AgreeOn.refl _ _).st64 P
      · rw [hhi]; exact adr_record_off P 24 (by omega) (by omega)
      · rw [hlo]; exact adr_record_off P 28 (by omega) (by omega)
    · apply P.st64_other
      · rw [hhi]; exact P.ctl_ne (by omega) (by omega) (by omega)
      · rw [hlo]; exact P.ctl_ne (by omega) (by omega) (by omega)
  unfold prepareThr
  extract_lets thrData startTime s₁ s₂
  have h₁ : AgreeOn (schedWords P ++ statusWords P) s.mem s₁.mem ∧
      s₁.mem (P.ctl 324) = s.mem (P.ctl 324) := by
    by_cases hzero : startTime = 0
    · simp only [s₁, if_pos hzero]; exact hcurr _
    · simp only [s₁, if_neg hzero]; exact hcurr _
  refine ⟨s₂.mem, _, h₁.1.st P ?_, ?_, rfl⟩
  · rw [hptr]; exact adr_record_off P 12 (by omega) (by omega)
  · rw [← h₁.2]
    exact P.st_other (by rw [hptr]; exact P.ctl_ne (by omega) (by omega) (by omega))

/-- What the start of thread `i` with first deadline `d` does. -/
structure Started (i : Nat) (d : Time) (m m' : Mem) : Prop where
  entry : ∀ j, j < thrQty → hp P m' j = hp P m j
  deadline : ∀ j, j < thrQty → dl P m' (thrPtr j) = if j = i then d else dl P m (thrPtr j)
  number : ∀ j, j < thrQty → thrIdx P m' (thrPtr j) = thrIdx P m (thrPtr j)
  running : runningBits P m' = runningBits P m ||| (P.ld m startPtr &&& (1#32 <<< i))

/-- **Start of a thread**: its deadline becomes the one its origin node has, its
running bit is set, and no other thread is touched. -/
theorem startThr_spec {s s' : Cpu} {i : Nat} (hi : i < thrQty) (h : startThr P s i = some s') :
    ∃ d s₂, deadlineFuncs P (prepareThr P s i)
        (P.ld (prepareThr P s i).mem (thrPtr i + tTdNodePtr)) (thrPtr i)
        (getNodeType P (prepareThr P s i).mem
          (P.ld (prepareThr P s i).mem (thrPtr i + tTdNodePtr))) = some (d, s₂) ∧
      Started P i d s.mem s'.mem := by
  have hq : thrQty = 8 := rfl
  obtain ⟨m, v, hagree, hstart, hprep⟩ := prepareThr_agree P (s := s) hi
  simp only [startThr] at h
  split at h
  · exact absurd h (by simp)
  · rename_i d s₂ hd
    refine ⟨d, s₂, hd, ?_⟩
    obtain rfl := Option.some.inj h
    simp only [Cpu.st_mem, Cpu.st64_mem]
    have hstatus : ∀ o, o % 4 = 0 → o ≠ 32 → s₂.mem (P.ctl o) = (prepareThr P s i).mem (P.ctl o) := by
      intro o ho hne
      apply deadlineFuncs_frame P hd
      rw [Platform.w32, adr_status, List.mem_singleton]
      exact P.ctl_ne ho (by omega) hne
    generalize hm₃ : P.st64 s₂.mem (thrPtr i + tTdDeadline) d = m₃
    have hword : ∀ o, o % 4 = 0 → o ≠ 32 → o ≠ 548 + i * 32 → o ≠ 552 + i * 32 →
        m₃ (P.ctl o) = m (P.ctl o) := by
      intro o ho hst hdhi hdlo
      have hdead : ∀ (n : Mem) (w : Time),
          P.st64 n (thrPtr i + tTdDeadline) w (P.ctl o) = n (P.ctl o) := fun n w =>
        P.st64_other (by rw [adr_deadline P hi]; exact P.ctl_ne ho (by omega) hdhi)
          (by rw [adr_deadlineLo P hi]; exact P.ctl_ne ho (by omega) hdlo)
      rw [← hm₃, hdead, hstatus o ho hst, hprep, hdead]
    have hsched : ∀ j, j < thrQty → (m (P.ctl (j * 4)) = s.mem (P.ctl (j * 4)) ∧
        m (P.ctl (548 + j * 32)) = s.mem (P.ctl (548 + j * 32)) ∧
        m (P.ctl (552 + j * 32)) = s.mem (P.ctl (552 + j * 32))) := fun j hj =>
      ⟨hagree.sched P _ ((mem_schedWords P).mpr ⟨j, hj, Or.inl rfl⟩),
        hagree.sched P _ ((mem_schedWords P).mpr ⟨j, hj, Or.inr (Or.inl rfl)⟩),
        hagree.sched P _ ((mem_schedWords P).mpr ⟨j, hj, Or.inr (Or.inr rfl)⟩)⟩
    have htail : ∀ (r st' : Word) (o : Nat), o % 4 = 0 → o ≠ 336 → o ≠ 324 → o ≠ 536 + i * 32 →
        P.st (P.st (P.st m₃ runningPtr r) startPtr st') (thrPtr i + tTdMsgCnt) 0 (P.ctl o) =
          m₃ (P.ctl o) := by
      intro r st' o ho hr hs hc
      rw [P.st_other (by rw [adr_msgCnt P hi]; exact P.ctl_ne ho (by omega) hc),
        P.st_other (by rw [adr_start]; exact P.ctl_ne ho (by omega) hs),
        P.st_other (by rw [adr_running]; exact P.ctl_ne ho (by omega) hr)]
    refine ⟨?_, ?_, ?_, ?_⟩
    · intro j hj
      rw [hp_eq P hj, hp_eq P hj, heapView,
        htail _ _ _ (by omega) (by omega) (by omega) (by omega),
        hword _ (by omega) (by omega) (by omega) (by omega), (hsched j hj).1, heapView]
    · intro j hj
      rw [dl_congr P hj (htail _ _ _ (by omega) (by omega) (by omega) (by omega))
        (htail _ _ _ (by omega) (by omega) (by omega) (by omega))]
      split
      · rename_i hji
        subst hji
        rw [← hm₃, dl_st64_deadline P hj hj, if_pos rfl]
      · rename_i hji
        exact dl_congr P hj
          ((hword _ (by omega) (by omega) (by omega) (by omega)).trans (hsched j hj).2.1)
          ((hword _ (by omega) (by omega) (by omega) (by omega)).trans (hsched j hj).2.2)
    · intro j hj
      have hnum := hagree.status P _ ((mem_statusWords P).mpr (Or.inr ⟨j, hj, rfl⟩))
      rw [thrIdx_word P hj, thrIdx_word P hj,
        htail _ _ _ (by omega) (by omega) (by omega) (by omega),
        hword _ (by omega) (by omega) (by omega) (by omega), hnum]
    · have hrun := hagree.status P _ ((mem_statusWords P).mpr (Or.inl rfl))
      rw [running_word,
        P.st_other (by rw [adr_msgCnt P hi]; exact P.ctl_ne (by omega) (by omega) (by omega)),
        P.st_other (by rw [adr_start]; exact P.ctl_ne (by omega) (by omega) (by omega)),
        P.st_apply, if_pos (adr_running P).symm, Platform.ld, Platform.ld, adr_running, adr_start,
        hword _ (by omega) (by omega) (by omega) (by omega),
        hword _ (by omega) (by omega) (by omega) (by omega), hrun, hstart, runningBits,
        Platform.ld, Platform.ld, adr_running, adr_start]

/-! ### Execution of the top node -/

def topNode (m : Mem) : Word := P.ld m (hp P m 0 + tTdNodePtr)

/-- Executing the top thread's node writes no word of `W`, except for the thread's own
deadline. -/
def TopAvoids (W : List Nat) (s : Cpu) : Prop :=
  ∀ a ∈ nodeFootprint P s (topNode P s.mem) (hp P s.mem 0)
    (getNodeType P s.mem (topNode P s.mem)),
    a ∈ W → a ∈ P.w64 (hp P s.mem 0 + tTdDeadline)

/-- The memory of `m'` is that of `m` after an iteration of thread `t`, up to the final
sort: the deadline of `t` is `d`, and the rest of the scheduler's words is unchanged. -/
structure TopRun (t : Nat) (d : Time) (m m' : Mem) : Prop where
  entry : ∀ j, j < thrQty → hp P m' j = hp P m j
  deadline : ∀ j, j < thrQty → dl P m' (thrPtr j) = if j = t then d else dl P m (thrPtr j)

/-- The same for the running bits and the thread numbers. -/
structure TopStatus (i : Nat) (d : Time) (m m' : Mem) : Prop where
  number : ∀ j, j < thrQty → thrIdx P m' (thrPtr j) = thrIdx P m (thrPtr j)
  running : runningBits P m' =
    runningBits P m &&& ~~~((if d = -1 then 1 else 0 : Word) <<< i)

/-- The end of an iteration of thread `t`, number `i`. -/
theorem finishTop_spec {s : Cpu} {t i : Nat} {d : Time} (ht : t < thrQty)
    (htop : hp P s.mem 0 = thrPtr t) :
    ∃ m, (finishTop P s i d).mem = heapReplace P m 0 ∧ TopRun P t d s.mem m ∧
      TopStatus P i d s.mem m := by
  have hq : thrQty = 8 := rfl
  obtain ⟨m, hm⟩ : ∃ m, P.st64 s.mem (thrPtr t + tTdDeadline) d = m := ⟨_, rfl⟩
  have hhp : ∀ j, j < thrQty → hp P m j = hp P s.mem j := fun j hj =>
    hm ▸ hp_st64_deadline P ht hj
  have hdl : ∀ j, j < thrQty → dl P m (thrPtr j) = if j = t then d else dl P s.mem (thrPtr j) :=
    fun j hj => hm ▸ dl_st64_deadline P ht hj
  have hstatus : AgreeOn (statusWords P) s.mem m := hm ▸ status_st64_deadline P ht
  have hown : dl P m (hp P m 0) = d := by
    rw [hhp 0 (by omega), htop, hdl t ht, if_pos rfl]
  have hrun : ∀ (r : Word) (o : Nat), o % 4 = 0 → o ≠ 336 →
      P.st m runningPtr r (P.ctl o) = m (P.ctl o) := fun r o ho hne =>
    P.st_other (by rw [adr_running]; exact P.ctl_ne ho (by omega) hne)
  refine ⟨P.st m runningPtr (P.ld m runningPtr &&& ~~~((if d = -1 then 1 else 0 : Word) <<< i)), ?_,
    ⟨?_, ?_⟩, ⟨?_, ?_⟩⟩
  · simp only [finishTop, Cpu.st_mem, Cpu.st64_mem, htop, hm, hown]
  · intro j hj
    rw [hp_eq P hj, ← hhp j hj, hp_eq P hj]
    exact hrun _ _ (by omega) (by omega)
  · intro j hj
    rw [dl_congr P hj (hrun _ _ (by omega) (by omega)) (hrun _ _ (by omega) (by omega)), hdl j hj]
  · intro j hj
    rw [thrIdx_word P hj, hrun _ _ (by omega) (by omega), ← thrIdx_word P hj,
      thrIdx_agree P hstatus hj]
  · rw [← running_agree P hstatus]
    exact P.ld_st_same _ _ _

/-- **Execution of the top node**: whatever the node is, as long as its stores avoid the
scheduler's words, the iteration changes the deadline of the top thread only and then
sifts that thread down. -/
theorem runTop_spec {s s' : Cpu} {t : Nat} (ht : t < thrQty) (htop : hp P s.mem 0 = thrPtr t)
    (havoid : TopAvoids P (schedWords P) s) (h : runTop P s = some s') :
    ∃ d m, s'.mem = heapReplace P m 0 ∧ TopRun P t d s.mem m ∧
      (TopAvoids P (statusWords P) s → TopStatus P (thrIdx P s.mem (thrPtr t)) d s.mem m) := by
  have hq : thrQty = 8 := rfl
  simp only [runTop] at h
  split at h
  · exact absurd h (by simp)
  · rename_i next s₁ hnode
    have hframe := nodeFuncs_frame P hnode
    -- the handler leaves all scheduler words but the own deadline alone
    have hkeep : ∀ W, TopAvoids P W s → ∀ o, P.ctl o ∈ W → o % 4 = 0 → o ≠ 548 + t * 32 →
        o ≠ 552 + t * 32 → s₁.mem (P.ctl o) = s.mem (P.ctl o) := by
      intro W hW o ha ho hhi hlo
      apply hframe
      intro hmem
      have hown := hW _ hmem ha
      rw [htop, Platform.w64, adr_deadline P ht, adr_deadlineLo P ht] at hown
      simp only [List.mem_cons, List.not_mem_nil, or_false] at hown
      exact hown.elim (P.ctl_ne ho (by omega) hhi) (P.ctl_ne ho (by omega) hlo)
    have hhp₁ : hp P s₁.mem 0 = thrPtr t := by
      rw [← htop, hp_eq P (by omega), hp_eq P (by omega)]
      exact hkeep _ havoid _ ((mem_schedWords P).mpr ⟨0, by omega, Or.inl rfl⟩) (by omega)
        (by omega) (by omega)
    rw [hhp₁] at h
    generalize hs₂ : s₁.st P (thrPtr t + tTdNodePtr) next = s₂ at h
    split at h
    · exact absurd h (by simp)
    · rename_i d s₃ hdead
      have hoff₃ : ∀ o, o % 4 = 0 → o ≠ 544 + t * 32 → o ≠ 32 →
          s₃.mem (P.ctl o) = s₁.mem (P.ctl o) := by
        intro o ho hne hst
        have hoff₂ : s₂.mem (P.ctl o) = s₁.mem (P.ctl o) := by
          rw [← hs₂, Cpu.st_mem,
            P.st_other (by rw [adr_nodePtr P ht]; exact P.ctl_ne ho (by omega) hne)]
        rw [← hoff₂]
        apply deadlineFuncs_frame P hdead
        rw [Platform.w32, adr_status, List.mem_singleton]
        exact P.ctl_ne ho (by omega) hst
      have hhp₃ : hp P s₃.mem 0 = thrPtr t := by
        rw [← hhp₁, hp_eq P (by omega), hp_eq P (by omega)]
        exact hoff₃ _ (by omega) (by omega) (by omega)
      obtain rfl := Option.some.inj h
      have hword : ∀ W, TopAvoids P W s → ∀ o, P.ctl o ∈ W → o % 4 = 0 → o ≠ 544 + t * 32 →
          o ≠ 32 → o ≠ 548 + t * 32 → o ≠ 552 + t * 32 → s₃.mem (P.ctl o) = s.mem (P.ctl o) :=
        fun W hW o ha ho hne hst hhi hlo =>
          (hoff₃ o ho hne hst).trans (hkeep W hW o ha ho hhi hlo)
      obtain ⟨m, hmem, hrun, hstatus⟩ :=
        finishTop_spec P (i := thrIdx P s.mem (hp P s.mem 0)) (d := d) ht hhp₃
      refine ⟨d, m, hmem, ⟨?_, ?_⟩, fun hst => ⟨?_, ?_⟩⟩
      · intro j hj
        rw [hrun.entry j hj, hp_eq P hj, hp_eq P hj]
        exact hword _ havoid _ ((mem_schedWords P).mpr ⟨j, hj, Or.inl rfl⟩) (by omega) (by omega)
          (by omega) (by omega) (by omega)
      · intro j hj
        rw [hrun.deadline j hj]
        split
        · rfl
        · exact dl_congr P hj
            (hword _ havoid _ ((mem_schedWords P).mpr ⟨j, hj, Or.inr (Or.inl rfl)⟩) (by omega)
              (by omega) (by omega) (by omega) (by omega))
            (hword _ havoid _ ((mem_schedWords P).mpr ⟨j, hj, Or.inr (Or.inr rfl)⟩) (by omega)
              (by omega) (by omega) (by omega) (by omega))
      · intro j hj
        rw [hstatus.number j hj, thrIdx_word P hj, thrIdx_word P hj,
          hword _ hst _ ((mem_statusWords P).mpr (Or.inr ⟨j, hj, rfl⟩)) (by omega)
            (by omega) (by omega) (by omega) (by omega)]
      · rw [hstatus.running, htop, running_word, running_word,
          hword _ hst _ ((mem_statusWords P).mpr (Or.inl rfl)) (by omega)
            (by omega) (by omega) (by omega) (by omega)]

end DataMaster
