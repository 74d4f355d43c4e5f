import BelProjects.DataMaster.Scheduler.Effects

/-!
# The message counters of the threads

Each thread record has a 64-bit counter, which `tmsg` increments and the start of the
thread clears.  `main` clears it through a pointer to a 32-bit word, so only the high
word is cleared and the low word is carried over from the runs before.

Runs are observed by a tally: for each started thread the low word its latest start
found, and the number of timing messages it has executed since.
-/

namespace DataMaster

open TransitionSystem

variable (P : Platform)

def msgCnt (m : Mem) (i : Nat) : Time := P.ld64 m (thrPtr i + tTdMsgCnt)

def countWords : List Nat := (List.range thrQty).flatMap fun i => P.w64 (thrPtr i + tTdMsgCnt)

theorem mem_countWords {a : Nat} : a ∈ countWords P ↔
    ∃ i, i < thrQty ∧ (a = P.ctl (536 + i * 32) ∨ a = P.ctl (540 + i * 32)) := by
  simp only [countWords, List.mem_flatMap, List.mem_range, Platform.w64, List.mem_cons,
    List.not_mem_nil, or_false]
  constructor <;> rintro ⟨i, hi, ha⟩ <;> refine ⟨i, hi, ?_⟩
  · rwa [adr_msgCnt P hi, adr_msgCntLo P hi] at ha
  · rwa [adr_msgCnt P hi, adr_msgCntLo P hi]

theorem msgCnt_words {m : Mem} {i : Nat} (hi : i < thrQty) :
    msgCnt P m i = m (P.ctl (536 + i * 32)) ++ m (P.ctl (540 + i * 32)) := by
  rw [msgCnt, Platform.ld64, Platform.ld, Platform.ld, adr_msgCnt P hi, adr_msgCntLo P hi]

theorem msgCnt_congr {m m' : Mem} {i : Nat} (hi : i < thrQty)
    (hhi : m' (P.ctl (536 + i * 32)) = m (P.ctl (536 + i * 32)))
    (hlo : m' (P.ctl (540 + i * 32)) = m (P.ctl (540 + i * 32))) : msgCnt P m' i = msgCnt P m i := by
  rw [msgCnt_words P hi, msgCnt_words P hi, hhi, hlo]

/-- A phase that writes no counter keeps all of them. -/
theorem Frame.msgCnt {W : List Nat} {m m' : Mem} (h : Frame W m m')
    (hW : ∀ a ∈ W, a ∉ countWords P) {i : Nat} (hi : i < thrQty) :
    DataMaster.msgCnt P m' i = DataMaster.msgCnt P m i := by
  apply msgCnt_congr P hi <;> apply h <;> intro hmem <;> apply hW _ hmem
  · exact (mem_countWords P).mpr ⟨i, hi, Or.inl rfl⟩
  · exact (mem_countWords P).mpr ⟨i, hi, Or.inr rfl⟩

theorem ctl_not_count {o : Nat} (ho : o % 4 = 0)
    (h : o < 536 ∨ 8 ≤ (o - 536) % 32) : P.ctl o ∉ countWords P := by
  rw [mem_countWords]
  rintro ⟨i, hi, heq | heq⟩ <;> have := P.ctl_inj heq ho (by omega) <;> omega

/-! ### Timing messages -/

/-- The words that executing `node` may write at places its pointers name: everything
that is not a diagnostic word or the own message counter of a timing message. -/
def foreignFootprint (s : Cpu) (node thrData : Word) : NodeType → List Nat
  | .tmsg => P.w32 (node + nodeFlags)
  | ty => nodeFootprint P s node thrData ty

theorem diagFootprint_low {a : Nat} (ha : a ∈ diagFootprint P) :
    ∃ o, a = P.ctl o ∧ o % 4 = 0 ∧ 32 ≤ o ∧ o < 324 := by
  have hadr : ∀ {o}, o % 4 = 0 → 32 ≤ o → o < 320 → (a = P.adr (shared o) ∨ a = P.adr (shared o + 4)) →
      ∃ o, a = P.ctl o ∧ o % 4 = 0 ∧ 32 ≤ o ∧ o < 324 := by
    intro o ho hlow hhigh h
    have hend : shctlEnd = 820 := rfl
    rcases h with h | h
    · exact ⟨o, by rw [h, P.adr_shared (by omega)], ho, hlow, by omega⟩
    · exact ⟨o + 4, by rw [h, shared_add_four, P.adr_shared (by omega)], by omega, by omega, by omega⟩
  simp only [diagFootprint, Platform.w32, Platform.w64, List.mem_append, List.mem_cons,
    List.not_mem_nil, or_false] at ha
  rcases ha with (((((h | h) | h) | h) | h) | h) | h
  · exact hadr (by decide) (by decide) (by decide) h
  · exact hadr (by decide) (by decide) (by decide) h
  · exact hadr (by decide) (by decide) (by decide) h
  · exact hadr (by decide) (by decide) (by decide) h
  · exact hadr (by decide) (by decide) (by decide) (Or.inl h)
  · exact hadr (by decide) (by decide) (by decide) (Or.inl h)
  · exact hadr (by decide) (by decide) (by decide) h

theorem diagFootprint_off {a : Nat} (ha : a ∈ diagFootprint P) :
    a ∉ countWords P ∧ a ∉ heapWords P := by
  obtain ⟨o, rfl, hal, hlow, hhigh⟩ := diagFootprint_low P ha
  exact ⟨ctl_not_count P hal (by omega), ctl_not_heap P hal hlow⟩

/-- **A timing message counts itself**, unless its flags word lies in the counters. -/
theorem tmsg_msgCnt {s : Cpu} {node : Word} {t u : Nat} (ht : t < thrQty) (hu : u < thrQty)
    (hflags : P.adr (node + nodeFlags) ∉ countWords P) :
    msgCnt P (tmsg P s node (thrPtr t)).2.mem u = msgCnt P s.mem u + (if u = t then 1 else 0) := by
  have hdiagW : diagFootprint P ⊆ P.adr (node + nodeFlags) :: diagFootprint P :=
    List.subset_cons_self _ _
  have hoff : ∀ a ∈ P.adr (node + nodeFlags) :: diagFootprint P, a ∉ countWords P := by
    intro a ha
    rcases List.mem_cons.mp ha with rfl | hd
    · exact hflags
    · exact (diagFootprint_off P hd).1
  have hpaint : Frame (P.adr (node + nodeFlags) :: diagFootprint P) s.mem (s.paint P node).mem :=
    paint_frame P (Frame.refl _ _) List.mem_cons_self
  have hsent : ∀ diff now, Frame (P.adr (node + nodeFlags) :: diagFootprint P) s.mem
      (tmsgDiagnostics P (s.paint P node).getSysTime.2 node diff now).mem :=
    fun diff now => tmsgDiagnostics_frame P node diff now hpaint hdiagW
  unfold tmsg
  extract_lets s₁ tmpPar now s₂ tmpPar' diff s₃ msg s₄ s₅ s₆
  have h₃ : ∀ v, v < thrQty → msgCnt P s₃.mem v = msgCnt P s.mem v := fun v hv =>
    (hsent diff now).msgCnt P hoff hv
  have h₅ : msgCnt P s₅.mem u = msgCnt P s₃.mem u + (if u = t then 1 else 0) := by
    split
    · rename_i hut
      subst hut
      apply P.ld64_st64_same
      rw [adr_msgCnt P hu, adr_msgCntLo P hu]
      exact P.ctl_ne (by omega) (by omega) (by omega)
    · rename_i hut
      refine Eq.trans ?_ (BitVec.add_zero _).symm
      apply msgCnt_congr P hu <;> apply P.st64_other
      · rw [adr_msgCnt P ht]; exact P.ctl_ne (by omega) (by omega) (by omega)
      · rw [adr_msgCntLo P ht]; exact P.ctl_ne (by omega) (by omega) (by omega)
      · rw [adr_msgCnt P ht]; exact P.ctl_ne (by omega) (by omega) (by omega)
      · rw [adr_msgCntLo P ht]; exact P.ctl_ne (by omega) (by omega) (by omega)
  have h₆ : msgCnt P s₆.mem u = msgCnt P s₅.mem u := by
    have hcount : Frame (diagFootprint P) s₅.mem s₆.mem :=
      (Frame.refl _ _).st64 P (by simp [diagFootprint, Platform.w64])
    exact hcount.msgCnt P (fun a ha => (diagFootprint_off P ha).1) hu
  change msgCnt P s₆.mem u = _
  rw [h₆, h₅, h₃ u hu]

/-! ### Runs with a tally -/

/-- If the top node is due, executing it writes neither a heap entry nor a message
counter, apart from the own counter of a timing message. -/
def CountSafe (s : Cpu) : Prop :=
  (topDue P s).1 = true →
    ∀ a ∈ foreignFootprint P s (topNode P s.mem) (hp P s.mem 0) (getNodeType P s.mem (topNode P s.mem)),
      a ∉ heapWords P ∧ a ∉ countWords P

/-- For each thread that has been started: the low word of its counter at its latest
start, and the number of timing messages it has executed since. A thread whose counter
the host has overwritten since its start is not in the tally. -/
abbrev Tally := Nat → Option (Word × Nat)

/-- The node of the top thread is executed, or the requested threads are started. -/
def tallyServe (s : Cpu) (tally : Tally) : Tally := fun i =>
  if (topDue P s).1 then
    if hp P s.mem 0 = thrPtr i ∧ getNodeType P s.mem (topNode P s.mem) = .tmsg then
      (tally i).map fun entry => (entry.1, entry.2 + 1)
    else tally i
  else if (P.ld s.mem startPtr).getLsbD i then some (loW (msgCnt P s.mem i), 0)
  else tally i

def tallyHost (s s' : Cpu) (tally : Tally) : Tally := fun i =>
  if msgCnt P s'.mem i = msgCnt P s.mem i then tally i else none

inductive CountStep : (Phase × Cpu) × Tally → (Phase × Cpu) × Tally → Prop
  | host {ph : Phase} {s s' : Cpu} {tally : Tally} : HostStep (heapWords P) s s' →
      CountStep ((ph, s), tally) ((ph, s'), tallyHost P s s' tally)
  | abort {s : Cpu} {tally : Tally} :
      CountStep ((.loopHead, s), tally) ((.dueCheck, toDueCheck P s), tally)
  | serve {s s' : Cpu} {tally : Tally} : CountSafe P s → fromDueCheck P s = some s' →
      CountStep ((.dueCheck, s), tally) ((.loopHead, s'), tallyServe P s tally)

/-- The firmware with a tally, booted from any memory. The host may write any memory
except the heap array. -/
def countingFirmware : TransitionSystem ((Phase × Cpu) × Tally) where
  init c := (∃ s, c.1 = (.loopHead, init P s)) ∧ c.2 = fun _ => none
  step := CountStep P

def CountsFrom (m : Mem) (i : Nat) : Option (Word × Nat) → Prop
  | none => True
  | some (low, n) => msgCnt P m i = low.setWidth 64 + BitVec.ofNat 64 n

structure CountInv (c : (Phase × Cpu) × Tally) : Prop where
  threads : HoldsThreads P c.1.2.mem
  counts : ∀ i, i < thrQty → CountsFrom P c.1.2.mem i (c.2 i)

theorem CountsFrom.congr {m m' : Mem} {i : Nat} {entry : Option (Word × Nat)}
    (h : CountsFrom P m i entry) (heq : msgCnt P m' i = msgCnt P m i) : CountsFrom P m' i entry := by
  cases entry with
  | none => trivial
  | some entry => exact heq.trans h

/-! ### The phases keep the counts -/

theorem holdsThreads_perm {m m' : Mem}
    (hperm : (List.ofFn fun i : Fin thrQty => hp P m' i).Perm
      (List.ofFn fun i : Fin thrQty => hp P m i)) (hthr : HoldsThreads P m) : HoldsThreads P m' := by
  intro i hi
  have hmem : hp P m' i ∈ List.ofFn fun i : Fin thrQty => hp P m i :=
    hperm.subset ((List.mem_ofFn' _ _).mpr ⟨⟨i, hi⟩, rfl⟩)
  obtain ⟨j, hj⟩ := (List.mem_ofFn' _ _).mp hmem
  obtain ⟨t, ht, heq⟩ := hthr j j.is_lt
  exact ⟨t, ht, hj ▸ heq⟩

theorem abortThreads_holdsThreads {m : Mem} (hthr : HoldsThreads P m) :
    HoldsThreads P (abortThreads P m) := by
  rcases abortThreads_spec P hthr with ⟨-, hsame⟩ | habort
  · rwa [hsame]
  · exact holdsThreads_perm P habort.perm hthr

theorem abortFootprint_not_count {a : Nat} (ha : a ∈ abortFootprint P) : a ∉ countWords P := by
  have hq : thrQty = 8 := rfl
  simp only [abortFootprint, List.mem_append, mem_heapWords, Platform.w32, Platform.w64,
    List.mem_cons, List.not_mem_nil, or_false, List.mem_flatMap, List.mem_range, adr_running,
    adr_abort1] at ha
  rcases ha with ((⟨i, hi, rfl⟩ | rfl) | rfl) | ⟨i, hi, rfl | rfl⟩
  · exact ctl_not_count P (by omega) (by omega)
  · exact ctl_not_count P (by omega) (by omega)
  · exact ctl_not_count P (by omega) (by omega)
  · rw [adr_deadline P hi]; exact ctl_not_count P (by omega) (by omega)
  · rw [adr_deadlineLo P hi]; exact ctl_not_count P (by omega) (by omega)

theorem turnFootprint_not_count {a t : Nat} (ht : t < thrQty) (ha : a ∈ turnFootprint P t) :
    a ∉ countWords P := by
  have hq : thrQty = 8 := rfl
  simp only [turnFootprint, List.mem_append, mem_heapWords, Platform.w32, Platform.w64,
    List.mem_cons, List.not_mem_nil, or_false, adr_running, adr_status, adr_nodePtr P ht,
    adr_deadline P ht, adr_deadlineLo P ht] at ha
  rcases ha with (((⟨i, hi, rfl⟩ | rfl) | rfl) | rfl) | rfl | rfl
  · exact ctl_not_count P (by omega) (by omega)
  · exact ctl_not_count P (by omega) (by omega)
  · exact ctl_not_count P (by omega) (by omega)
  · exact ctl_not_count P (by omega) (by omega)
  · exact ctl_not_count P (by omega) (by omega)
  · exact ctl_not_count P (by omega) (by omega)

/-- A handler whose own stores miss the heap array keeps it. -/
theorem callNode_entries {s s₁ : Cpu} {next : Word} {t : Nat} (ht : t < thrQty)
    (htop : hp P s.mem 0 = thrPtr t)
    (hsafe : ∀ a ∈ foreignFootprint P s (topNode P s.mem) (hp P s.mem 0)
      (getNodeType P s.mem (topNode P s.mem)), a ∉ heapWords P)
    (hnode : callNode P s = some (next, s₁)) :
    ∀ i, i < thrQty → hp P s₁.mem i = hp P s.mem i := by
  have hframe := nodeFuncs_frame P hnode
  have hkept : ∀ a, a ∉ foreignFootprint P s (topNode P s.mem) (hp P s.mem 0)
      (getNodeType P s.mem (topNode P s.mem)) → a ∉ diagFootprint P →
      a ∉ P.w64 (thrPtr t + tTdMsgCnt) → s₁.mem a = s.mem a := by
    intro a ha hdiag hown
    apply hframe
    revert ha
    generalize getNodeType P s.mem (topNode P s.mem) = ty
    cases ty <;> intro ha <;> try exact ha
    rw [htop]
    simp only [nodeFootprint, tmsgFootprint, List.mem_append, not_or]
    exact ⟨⟨ha, hdiag⟩, hown⟩
  intro i hi
  rw [hp_eq P hi, hp_eq P hi]
  apply hkept
  · intro hmem
    exact hsafe _ hmem ((mem_heapWords P).mpr ⟨i, hi, rfl⟩)
  · intro hmem
    exact (diagFootprint_off P hmem).2 ((mem_heapWords P).mpr ⟨i, hi, rfl⟩)
  · have hq : thrQty = 8 := rfl
    simp only [Platform.w64, adr_msgCnt P ht, adr_msgCntLo P ht, List.mem_cons,
      List.not_mem_nil, or_false, not_or]
    exact ⟨P.ctl_ne (by omega) (by omega) (by omega), P.ctl_ne (by omega) (by omega) (by omega)⟩

theorem foreignFootprint_eq {s : Cpu} {node thrData : Word} {ty : NodeType} (hty : ty ≠ .tmsg) :
    foreignFootprint P s node thrData ty = nodeFootprint P s node thrData ty := by
  cases ty <;> first | rfl | exact absurd rfl hty

theorem callNode_count {s s₁ : Cpu} {next : Word} {t : Nat} (ht : t < thrQty)
    (htop : hp P s.mem 0 = thrPtr t)
    (hsafe : ∀ a ∈ foreignFootprint P s (topNode P s.mem) (hp P s.mem 0)
      (getNodeType P s.mem (topNode P s.mem)), a ∉ heapWords P ∧ a ∉ countWords P)
    (hnode : callNode P s = some (next, s₁)) :
    (∀ i, i < thrQty → hp P s₁.mem i = hp P s.mem i) ∧
      ∀ u, u < thrQty → msgCnt P s₁.mem u = msgCnt P s.mem u +
        (if u = t ∧ getNodeType P s.mem (topNode P s.mem) = .tmsg then 1 else 0) := by
  have hframe := nodeFuncs_frame P hnode
  refine ⟨callNode_entries P ht htop (fun a ha => (hsafe a ha).1) hnode, ?_⟩
  rw [callNode] at hnode
  intro u hu
  by_cases hty : getNodeType P s.mem (topNode P s.mem) = .tmsg
  · rw [hty] at hsafe hnode
    have hflags : P.adr (topNode P s.mem + nodeFlags) ∉ countWords P :=
      (hsafe _ (List.mem_singleton.mpr rfl)).2
    simp only [nodeFuncs, Option.some.injEq] at hnode
    have hs₁ : s₁ = (tmsg P { s with backlog := s.backlog + 1 } (topNode P s.mem) (thrPtr t)).2 := by
      rw [← htop, hnode]
    rw [hs₁, tmsg_msgCnt P ht hu hflags]
    simp [hty]
  · rw [if_neg fun h => hty h.2]
    refine Eq.trans ?_ (BitVec.add_zero _).symm
    rw [foreignFootprint_eq P hty] at hsafe
    exact hframe.msgCnt P (fun a ha => (hsafe a ha).2) hu

theorem loW_append (hi lo : Word) : loW (hi ++ lo) = lo := by
  apply BitVec.eq_of_getLsbD_eq
  intro i hi'
  rw [loW, BitVec.getLsbD_extractLsb', Nat.zero_add, BitVec.getLsbD_append]
  simp [hi']

theorem zero_append_word (lo : Word) : (0 : Word) ++ lo = lo.setWidth 64 := by
  apply BitVec.eq_of_getLsbD_eq
  intro i hi
  rw [BitVec.getLsbD_append, BitVec.getLsbD_setWidth]
  by_cases h : i < 32
  · simp [h, hi]
  · rw [BitVec.getLsbD_of_ge lo i (by omega)]
    simp [h]

/-- **A start clears the high word** of the message counter of its thread only. -/
theorem startThr_count {s s' : Cpu} {i j : Nat} (hi : i < thrQty) (hj : j < thrQty)
    (h : startThr P s i = some s') :
    msgCnt P s'.mem j = if j = i then (loW (msgCnt P s.mem j)).setWidth 64 else msgCnt P s.mem j := by
  have hq : thrQty = 8 := rfl
  obtain ⟨hframe, hzero, -⟩ := startThr_effect P hi h
  have hword : ∀ o, o % 4 = 0 → (o < 544 + i * 32 ∨ 564 + i * 32 ≤ o) → 340 ≤ o → o ≠ 536 + i * 32 →
      s'.mem (P.ctl o) = s.mem (P.ctl o) := by
    intro o ho hrec hlow hcnt
    apply hframe
    simp only [startFootprint, List.mem_append, not_or, Platform.w32, List.mem_singleton, adr_status,
      adr_running, adr_start, adr_msgCnt P hi]
    exact ⟨⟨⟨⟨P.ctl_ne ho (by omega) (by omega), P.ctl_ne ho (by omega) (by omega)⟩,
      P.ctl_ne ho (by omega) (by omega)⟩, ctl_not_prepare P hi ho hrec⟩, P.ctl_ne ho (by omega) hcnt⟩
  by_cases hji : j = i
  · subst hji
    rw [Platform.ld, adr_msgCnt P hj] at hzero
    rw [if_pos rfl, msgCnt_words P hj, hzero, hword _ (by omega) (by omega) (by omega) (by omega),
      zero_append_word, msgCnt_words P hj, loW_append]
  · rw [if_neg hji]
    exact msgCnt_congr P hj (hword _ (by omega) (by omega) (by omega) (by omega))
      (hword _ (by omega) (by omega) (by omega) (by omega))

/-- The loop over the start bits clears the high words of the requested threads. -/
theorem startThreads_count : ∀ (is : List Nat) (s s' : Cpu), (∀ i ∈ is, i < thrQty) →
    startThreads P s is = some s' → ∀ j, j < thrQty →
    msgCnt P s'.mem j = if j ∈ is ∧ (P.ld s.mem startPtr).getLsbD j = true
      then (loW (msgCnt P s.mem j)).setWidth 64 else msgCnt P s.mem j := by
  intro is
  induction is with
  | nil =>
      intro s s' _ h j _
      rw [startThreads] at h
      cases h
      rw [if_neg (by simp)]
  | cons i is ih =>
      intro s s' his h j hj
      have hq : thrQty = 8 := rfl
      have hi := his i List.mem_cons_self
      have hrest : ∀ k ∈ is, k < thrQty := fun k hk => his k (List.mem_cons_of_mem _ hk)
      rw [startThreads] at h
      split at h
      · rename_i hbit
        have hreq := (and_bit_ne_zero (by omega)).mp hbit
        split at h
        · exact absurd h (by simp)
        · rename_i s₁ hstart
          have hcount := startThr_count P hi hj hstart
          have hword := (startThr_effect P hi hstart).2.2
          rw [ih s₁ s' hrest h j hj, hcount, hword, BitVec.getLsbD_and, BitVec.getLsbD_not,
            getLsbD_bit (by omega)]
          by_cases hji : j = i
          · subst hji
            simp [hreq]
          · simp [hji, show j < 32 by omega]
      · rename_i hbit
        have hreq : ¬ (P.ld s.mem startPtr).getLsbD i = true := fun hset =>
          hbit ((and_bit_ne_zero (by omega)).mpr hset)
        rw [ih s s' hrest h j hj]
        by_cases hji : j = i
        · subst hji
          simp [hreq]
        · simp [hji]

theorem runTop_countInv {s s' : Cpu} {tally : Tally} (hthr : HoldsThreads P s.mem)
    (hcnt : ∀ i, i < thrQty → CountsFrom P s.mem i (tally i))
    (hsafe : ∀ a ∈ foreignFootprint P s (topNode P s.mem) (hp P s.mem 0)
      (getNodeType P s.mem (topNode P s.mem)), a ∉ heapWords P ∧ a ∉ countWords P)
    (hrun : runTop P s = some s') :
    HoldsThreads P s'.mem ∧ ∀ i, i < thrQty → CountsFrom P s'.mem i
      (if hp P s.mem 0 = thrPtr i ∧ getNodeType P s.mem (topNode P s.mem) = .tmsg then
        (tally i).map fun entry => (entry.1, entry.2 + 1)
      else tally i) := by
  obtain ⟨t, ht, htop⟩ := hthr 0 (by decide)
  obtain ⟨next, s₁, d, s₃, hnode, hdead, rfl⟩ := runTop_cases P hrun
  obtain ⟨hentries, hcounts⟩ := callNode_count P ht htop hsafe hnode
  have hroot : hp P s₁.mem 0 = thrPtr t := (hentries 0 (by decide)).trans htop
  have hdone := finishTop_turnDone P (i := thrIdx P s.mem (hp P s.mem 0)) ht hroot hdead
  refine ⟨hdone.entries (holdsThreads_congr P hentries hthr), fun i hi => ?_⟩
  have hnew := (hdone.other.msgCnt P (fun a ha => turnFootprint_not_count P ht ha) hi).trans
    (hcounts i hi)
  have hold := hcnt i hi
  by_cases hit : i = t
  · subst hit
    by_cases hty : getNodeType P s.mem (topNode P s.mem) = .tmsg
    · rw [if_pos ⟨htop, hty⟩]
      rw [if_pos ⟨rfl, hty⟩] at hnew
      cases hentry : tally i with
      | none => trivial
      | some entry =>
          rw [hentry] at hold
          change msgCnt P _ i = entry.1.setWidth 64 + BitVec.ofNat 64 (entry.2 + 1)
          rw [hnew, hold, BitVec.add_assoc, BitVec.ofNat_add]
          rfl
    · rw [if_neg fun h => hty h.2]
      rw [if_neg fun h => hty h.2] at hnew
      exact hold.congr P (hnew.trans (BitVec.add_zero _))
  · rw [if_neg fun h => hit (thrPtr_inj hi ht (h.1.symm.trans htop))]
    rw [if_neg fun h => hit h.1] at hnew
    exact hold.congr P (hnew.trans (BitVec.add_zero _))

theorem recordBacklog_ctl {s : Cpu} {o : Nat} (ho : o % 4 = 0) (hne : o ≠ 184) :
    (recordBacklog P s).mem (P.ctl o) = s.mem (P.ctl o) := by
  have hbck : Frame (P.w32 bcklogmaxPtr) s.mem (recordBacklog P s).mem :=
    (Frame.refl _ _).st P (List.mem_singleton.mpr rfl)
  apply hbck
  rw [Platform.w32, adr_bcklogmax, List.mem_singleton]
  exact P.ctl_ne ho (by omega) hne

/-- Threads are started and the heap is built anew, or there is nothing to start. -/
theorem serveStarts_cases {s s' : Cpu} (hthr : HoldsThreads P s.mem)
    (hserve : serveStarts P s = some s') :
    HoldsThreads P s'.mem ∧
      ((∃ s₁, startThreads P (recordBacklog P s) (List.range thrQty) = some s₁ ∧
          s'.mem = heapify P s₁.mem) ∨
        (P.ld (recordBacklog P s).mem startPtr = 0 ∧ s' = recordBacklog P s)) := by
  have hthr₀ : HoldsThreads P (recordBacklog P s).mem := by
    refine holdsThreads_congr P (fun i hi => ?_) hthr
    have hq : thrQty = 8 := rfl
    rw [hp_eq P hi, hp_eq P hi, heapView, recordBacklog_ctl P (by omega) (by omega), heapView]
  simp only [serveStarts] at hserve
  split at hserve
  · split at hserve
    · exact absurd hserve (by simp)
    · rename_i s₁ hstart
      obtain rfl := Option.some.inj hserve
      have hthr₁ : HoldsThreads P s₁.mem := holdsThreads_congr P
        (startThreads_entries P _ _ _ (fun i hi => List.mem_range.mp hi) hstart) hthr₀
      exact ⟨(heapify_spec P hthr₁).1.holdsThreads P hthr₁, .inl ⟨s₁, hstart, rfl⟩⟩
  · rename_i hnone
    obtain rfl := Option.some.inj hserve
    exact ⟨hthr₀, .inr ⟨not_not.mp hnone, rfl⟩⟩

theorem serveStarts_countInv {s s' : Cpu} {tally : Tally} (hthr : HoldsThreads P s.mem)
    (hcnt : ∀ i, i < thrQty → CountsFrom P s.mem i (tally i))
    (hserve : serveStarts P s = some s') :
    HoldsThreads P s'.mem ∧ ∀ i, i < thrQty → CountsFrom P s'.mem i
      (if (P.ld s.mem startPtr).getLsbD i then some (loW (msgCnt P s.mem i), 0) else tally i) := by
  have hstart₀ : P.ld (recordBacklog P s).mem startPtr = P.ld s.mem startPtr := by
    rw [Platform.ld, Platform.ld, adr_start, recordBacklog_ctl P (by omega) (by omega)]
  have hcnt₀ : ∀ i, i < thrQty → msgCnt P (recordBacklog P s).mem i = msgCnt P s.mem i :=
    fun i hi => msgCnt_congr P hi (recordBacklog_ctl P (by omega) (by omega))
      (recordBacklog_ctl P (by omega) (by omega))
  obtain ⟨hthr', ⟨s₁, hstart, hmem⟩ | ⟨hnone, rfl⟩⟩ := serveStarts_cases P hthr hserve
  · have hrange : ∀ i ∈ List.range thrQty, i < thrQty := fun i hi => List.mem_range.mp hi
    refine ⟨hthr', fun i hi => ?_⟩
    rw [hmem]
    have hsort : msgCnt P (heapify P s₁.mem) i = msgCnt P s₁.mem i := by
      refine (heapify_frame P s₁.mem).msgCnt P (fun a ha => ?_) hi
      obtain ⟨j, hj, rfl⟩ := (mem_heapWords P).mp ha
      have hq : thrQty = 8 := rfl
      exact ctl_not_count P (by omega) (by omega)
    have hloop := startThreads_count P _ _ _ hrange hstart i hi
    rw [hstart₀, hcnt₀ i hi] at hloop
    cases hbit : (P.ld s.mem startPtr).getLsbD i with
    | true =>
        rw [if_pos ⟨List.mem_range.mpr hi, hbit⟩] at hloop
        rw [if_pos rfl]
        change msgCnt P (heapify P s₁.mem) i = _ + BitVec.ofNat 64 0
        rw [hsort, hloop]
        exact (BitVec.add_zero _).symm
    | false =>
        rw [if_neg (by simp [hbit])] at hloop
        rw [if_neg (by simp)]
        exact (hcnt i hi).congr P (hsort.trans hloop)
  · refine ⟨hthr', fun i hi => ?_⟩
    rw [hstart₀] at hnone
    rw [hnone, if_neg (by simp)]
    exact (hcnt i hi).congr P (hcnt₀ i hi)

theorem fromDueCheck_countInv {s s' : Cpu} {tally : Tally}
    (h : CountInv P ((.dueCheck, s), tally)) (hsafe : CountSafe P s)
    (hstep : fromDueCheck P s = some s') : CountInv P ((.loopHead, s'), tallyServe P s tally) := by
  simp only [fromDueCheck] at hstep
  split at hstep
  · rename_i hdue
    obtain ⟨hthr, hcnt⟩ := runTop_countInv P (s := (topDue P s).2) h.threads h.counts (hsafe hdue) hstep
    refine ⟨hthr, fun i hi => ?_⟩
    simp only [tallyServe, if_pos hdue]
    exact hcnt i hi
  · rename_i hdue
    obtain ⟨hthr, hcnt⟩ := serveStarts_countInv P (s := (topDue P s).2) h.threads h.counts hstep
    refine ⟨hthr, fun i hi => ?_⟩
    simp only [tallyServe, if_neg hdue]
    exact hcnt i hi

/-- **The counter is the low word found at the latest start plus the messages since**, in
every run whose executed nodes leave the heap array and the counters alone. -/
theorem countInv_reachable {c : (Phase × Cpu) × Tally} (hrun : (countingFirmware P).Reachable c) :
    CountInv P c := by
  refine Reachable.invariant _ (I := CountInv P) ?_ ?_ c hrun
  · rintro ⟨c, tally⟩ ⟨⟨s, rfl⟩, rfl⟩
    exact ⟨(init_schedInv P s).perm.holdsThreads P, fun _ _ => trivial⟩
  · intro c c' _ hc hstep
    cases hstep with
    | host hhost =>
        refine ⟨holdsThreads_congr P (fun i hi => ?_) hc.threads, fun i hi => ?_⟩
        · rw [hp_eq P hi, hp_eq P hi]
          exact hhost.agree _ ((mem_heapWords P).mpr ⟨i, hi, rfl⟩)
        · simp only [tallyHost]
          split
          · rename_i heq
            exact (hc.counts i hi).congr P heq
          · trivial
    | abort =>
        refine ⟨abortThreads_holdsThreads P hc.threads, fun i hi => ?_⟩
        exact (hc.counts i hi).congr P
          ((abortThreads_frame P _).msgCnt P (fun a ha => abortFootprint_not_count P ha) hi)
    | serve hsafe hserve => exact fromDueCheck_countInv P hc hsafe hserve

/-- **The counter counts the messages since the latest start if and only if that start
found its low word at 0**, in every state of every run. -/
theorem msgCnt_exact_iff {ph : Phase} {s : Cpu} {tally : Tally}
    (hrun : (countingFirmware P).Reachable ((ph, s), tally)) {i : Nat} (hi : i < thrQty) {low : Word}
    {n : Nat} (hstarted : tally i = some (low, n)) :
    msgCnt P s.mem i = BitVec.ofNat 64 n ↔ low = 0 := by
  have hcount := (countInv_reachable P hrun).counts i hi
  change CountsFrom P s.mem i (tally i) at hcount
  rw [hstarted] at hcount
  change msgCnt P s.mem i = low.setWidth 64 + BitVec.ofNat 64 n at hcount
  rw [hcount]
  constructor
  · intro heq
    have hzero : low.setWidth 64 = (0 : Time) := by
      have hcancel : low.setWidth 64 + BitVec.ofNat 64 n = 0 + BitVec.ofNat 64 n := by
        rw [heq]
        exact (BitVec.zero_add _).symm
      exact (BitVec.add_left_inj _).mp hcancel
    have hnat := congrArg BitVec.toNat hzero
    have hlt := low.isLt
    rw [BitVec.toNat_setWidth, Nat.mod_eq_of_lt (by omega)] at hnat
    exact BitVec.eq_of_toNat_eq hnat
  · rintro rfl
    exact BitVec.zero_add _

/-! ### A restart -/

/-- The host asks for thread 0 to be started with a timing message, which is followed by
nothing. -/
def messageRequest : Cpu :=
  (init samplePlatform (sampleCpu 1)).hostWrites samplePlatform 1
    [(thrStaPtr 0 + tTsNodePtr, sampleNode), (thrStaPtr 0 + tTsStarttime + 4, 1), (startPtr, 1),
      (sampleNode + nodeFlags, 2)]

def messageStarted : Cpu :=
  (startThreads samplePlatform (recordBacklog samplePlatform (topDue samplePlatform messageRequest).2)
    (List.range thrQty)).getD (topDue samplePlatform messageRequest).2

def messageDue : Cpu := (toDueCheck samplePlatform messageStarted).hostWrites samplePlatform 10 []

def messageSent : Cpu := (fromDueCheck samplePlatform messageDue).getD messageDue

def secondRequest : Cpu :=
  (toDueCheck samplePlatform messageSent).hostWrites samplePlatform 10 [(startPtr, 1)]

def secondStarted : Cpu :=
  (startThreads samplePlatform (recordBacklog samplePlatform (topDue samplePlatform secondRequest).2)
    (List.range thrQty)).getD (topDue samplePlatform secondRequest).2

def messageTally : Tally :=
  tallyServe samplePlatform messageDue
    (tallyHost samplePlatform (toDueCheck samplePlatform messageStarted) messageDue
      (tallyServe samplePlatform messageRequest
        (tallyHost samplePlatform (init samplePlatform (sampleCpu 1)) messageRequest fun _ => none)))

def secondTally : Tally :=
  tallyServe samplePlatform secondRequest
    (tallyHost samplePlatform (toDueCheck samplePlatform messageSent) secondRequest messageTally)

theorem countSafe_of_idle {s : Cpu} (hdue : (topDue P s).1 = false) : CountSafe P s := by
  intro h
  rw [hdue] at h
  exact absurd h (by decide)

theorem startRequest_runs {s s' : Cpu} (hdue : (topDue P s).1 = false)
    (hserve : serveStarts P (topDue P s).2 = some s') : fromDueCheck P s = some s' := by
  simp only [fromDueCheck, hdue, Bool.false_eq_true, if_false, hserve]

theorem messageRun_served :
    fromDueCheck samplePlatform messageRequest = some messageStarted ∧
      fromDueCheck samplePlatform messageDue = some messageSent ∧
      fromDueCheck samplePlatform secondRequest = some secondStarted := by
  have hidle : (topDue samplePlatform messageRequest).1 = false := by decide +kernel
  have hsome : (fromDueCheck samplePlatform messageDue).isSome = true := by decide +kernel
  have hidle' : (topDue samplePlatform secondRequest).1 = false := by decide +kernel
  refine ⟨?_, ?_, ?_⟩
  · exact startRequest_runs samplePlatform hidle (serveStarts_sorted samplePlatform
      (by decide +kernel) (by decide +kernel) rfl (by decide +kernel) (by decide +kernel))
  · obtain ⟨s, hs⟩ := Option.isSome_iff_exists.mp hsome
    rw [messageSent, hs, Option.getD_some]
  · exact startRequest_runs samplePlatform hidle' (serveStarts_sorted samplePlatform
      (by decide +kernel) (by decide +kernel) rfl (by decide +kernel) (by decide +kernel))

theorem messageRun_reachable :
    (countingFirmware samplePlatform).Reachable ((.loopHead, messageSent), messageTally) ∧
      (countingFirmware samplePlatform).Reachable ((.loopHead, secondStarted), secondTally) := by
  have hboot : (countingFirmware samplePlatform).Reachable
      ((.dueCheck, init samplePlatform (sampleCpu 1)), fun _ => none) := by
    have hinit : (countingFirmware samplePlatform).Reachable
        ((.loopHead, init samplePlatform (sampleCpu 1)), fun _ => none) :=
      .init ⟨⟨sampleCpu 1, rfl⟩, rfl⟩
    have habort := hinit.step .abort
    rwa [sampleInit_dueCheck] at habort
  have hrequest : HostStep (heapWords samplePlatform) (init samplePlatform (sampleCpu 1))
      messageRequest := hostStep_hostWrites samplePlatform (by decide +kernel)
  obtain ⟨hserved, hsent, hserved'⟩ := messageRun_served
  have hlater : HostStep (heapWords samplePlatform) (toDueCheck samplePlatform messageStarted)
      messageDue := hostStep_hostWrites samplePlatform (by decide +kernel)
  have hsafe : CountSafe samplePlatform messageDue := by
    have hfree : ((foreignFootprint samplePlatform messageDue (topNode samplePlatform messageDue.mem)
        (hp samplePlatform messageDue.mem 0) (getNodeType samplePlatform messageDue.mem
          (topNode samplePlatform messageDue.mem))).all fun a =>
        !(heapWords samplePlatform).contains a && !(countWords samplePlatform).contains a) = true := by
      decide +kernel
    intro _ a ha
    simpa using List.all_eq_true.mp hfree a ha
  have hstart := (hboot.step (.host hrequest)).step
    (.serve (countSafe_of_idle samplePlatform (by decide +kernel)) hserved)
  have hmessage := ((hstart.step .abort).step (.host hlater)).step (.serve hsafe hsent)
  refine ⟨hmessage, ?_⟩
  have hagain : HostStep (heapWords samplePlatform) (toDueCheck samplePlatform messageSent)
      secondRequest := hostStep_hostWrites samplePlatform (by decide +kernel)
  exact ((hmessage.step .abort).step (.host hagain)).step
    (.serve (countSafe_of_idle samplePlatform (by decide +kernel)) hserved')

/-- The equivalence after one message: the first start found the counter at 0. -/
theorem msgCnt_exact_sample :
    msgCnt samplePlatform messageSent.mem 0 = BitVec.ofNat 64 1 ↔ (0 : Word) = 0 := by
  have htally : messageTally 0 = some (0, 1) := by decide +kernel
  exact msgCnt_exact_iff samplePlatform messageRun_reachable.1 (by decide) htally

/-- **A restarted thread keeps its old count**: after a run with one message and a second
start the counter is 1, although no message has been executed since. -/
theorem msgCnt_kept_over_restart : ∃ (P : Platform) (s : Cpu) (tally : Tally) (i n : Nat) (low : Word),
    (countingFirmware P).Reachable ((.loopHead, s), tally) ∧ i < thrQty ∧
      tally i = some (low, n) ∧ msgCnt P s.mem i ≠ BitVec.ofNat 64 n := by
  have htally : secondTally 0 = some (1, 0) := by decide +kernel
  have hcount : msgCnt samplePlatform secondStarted.mem 0 ≠ BitVec.ofNat 64 0 := by decide +kernel
  exact ⟨samplePlatform, secondStarted, secondTally, 0, 0, 1, messageRun_reachable.2, by decide,
    htally, hcount⟩

end DataMaster
