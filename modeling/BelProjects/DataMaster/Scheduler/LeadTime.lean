import Mathlib.Order.Bounds.Basic
import BelProjects.DataMaster.Scheduler.MsgCount

/-!
# The statistics on lead times

Before a timing message is sent its lead, the deadline minus the time now, goes into four
64-bit words: the least and the greatest lead, a sum of leads and the number of messages in
the sum.  A sum that would overflow is restarted with the present lead.

`dmInit` starts the greatest lead at `0xffffffffffffffff`, which is -1 in the signed
comparisons of `tmsg`, so it is never found below that.
-/

namespace DataMaster

open TransitionSystem

variable (P : Platform)

/-! ### 64-bit words of the control area -/

theorem adr_shared64 {o : Nat} (hend : o + 8 ≤ shctlEnd) :
    P.adr (shared o) = P.ctl o ∧ P.adr (shared o + 4) = P.ctl (o + 4) :=
  ⟨P.adr_shared (by omega), by rw [shared_add_four, P.adr_shared (by omega)]⟩

theorem ld64_st64_shared (m : Mem) {o : Nat} (v : Time) (ho : o % 4 = 0) (hend : o + 8 ≤ shctlEnd) :
    P.ld64 (P.st64 m (shared o) v) (shared o) = v := by
  apply P.ld64_st64_same
  rw [(adr_shared64 P hend).1, (adr_shared64 P hend).2]
  exact P.ctl_ne ho (by omega) (by omega)

theorem ld64_st64_shared_other (m : Mem) {o r : Nat} (v : Time) (ho : o % 4 = 0) (hr : r % 4 = 0)
    (hend : o + 8 ≤ shctlEnd) (hend' : r + 8 ≤ shctlEnd) (hne : o + 8 ≤ r ∨ r + 8 ≤ o) :
    P.ld64 (P.st64 m (shared o) v) (shared r) = P.ld64 m (shared r) := by
  apply P.ld64_congr <;> apply P.st64_other <;>
    simp only [adr_shared64 P hend, adr_shared64 P hend'] <;>
    exact P.ctl_ne (by omega) (by omega) (by omega)

theorem ld64_st_shared_other (m : Mem) {o r : Nat} (v : Word) (ho : o % 4 = 0) (hr : r % 4 = 0)
    (hend : o + 4 ≤ shctlEnd) (hend' : r + 8 ≤ shctlEnd) (hne : o + 4 ≤ r ∨ r + 8 ≤ o) :
    P.ld64 (P.st m (shared o) v) (shared r) = P.ld64 m (shared r) := by
  apply P.ld64_congr <;> apply P.st_other <;>
    simp only [P.adr_shared (show o < shctlEnd by omega), adr_shared64 P hend'] <;>
    exact P.ctl_ne (by omega) (by omega) (by omega)

/-! ### The overflow test -/

/-- The flag `overflow` of `tmsg`, from the signs of the terms and of their sum. -/
def sumOverflow (diff diffsum : Time) : Bool :=
  ((0#64).sle diff && (0#64).sle diffsum && (diff + diffsum).slt 0) ||
    (diff.slt 0 && diffsum.slt 0 && (0#64).sle (diff + diffsum))

theorem sumOverflow_iff {a b : Time} :
    sumOverflow a b = true ↔ ¬ (-2 ^ 63 ≤ a.toInt + b.toInt ∧ a.toInt + b.toInt < 2 ^ 63) := by
  have ha := BitVec.toInt_lt (x := a)
  have hb := BitVec.toInt_lt (x := b)
  have ha' := BitVec.le_toInt (x := a)
  have hb' := BitVec.le_toInt (x := b)
  simp only [sumOverflow, Bool.or_eq_true, Bool.and_eq_true, BitVec.sle_iff_toInt_le,
    BitVec.slt_iff_toInt_lt, BitVec.toInt_add, BitVec.toInt_zero, Int.bmod_def,
    show (0 : Time).toInt = 0 from rfl]
  split <;> omega

theorem toInt_add_of_not_sumOverflow {a b : Time} (h : ¬ sumOverflow a b = true) :
    (b + a).toInt = b.toInt + a.toInt := by
  rw [sumOverflow_iff, not_not] at h
  rw [BitVec.toInt_add]
  exact Int.bmod_eq_of_le (by omega) (by omega)

/-! ### One message -/

def leadWords : List Nat :=
  P.w64 countPtr ++ P.w64 diffminPtr ++ P.w64 diffmaxPtr ++ P.w64 diffsumPtr

theorem mem_leadWords {a : Nat} : a ∈ leadWords P ↔
    ∃ o ∈ [56, 60, 136, 140, 144, 148, 152, 156], a = P.ctl o := by
  have hcnt := adr_shared64 P (o := 56) (by decide)
  have hmin := adr_shared64 P (o := 136) (by decide)
  have hmax := adr_shared64 P (o := 144) (by decide)
  have hsum := adr_shared64 P (o := 152) (by decide)
  have hwords : leadWords P =
      [56, 60, 136, 140, 144, 148, 152, 156].map P.ctl := by
    simp only [leadWords, Platform.w64, countPtr, diffminPtr, diffmaxPtr, diffsumPtr, shctlDiag,
      tDiagMsgCnt, tDiagDifMin, tDiagDifMax, tDiagDifSum, hcnt, hmin, hmax, hsum, List.map]
    rfl
  rw [hwords, List.mem_map]
  simp only [eq_comm]

theorem leadWords_low {a : Nat} (ha : a ∈ leadWords P) :
    ∃ o, a = P.ctl o ∧ o % 4 = 0 ∧ 36 ≤ o ∧ o < 184 := by
  obtain ⟨o, ho, rfl⟩ := (mem_leadWords P).1 ha
  refine ⟨o, rfl, ?_⟩
  simp only [List.mem_cons, List.not_mem_nil, or_false] at ho
  omega

/-- What the words say about the leads of the messages so far, the latest first. -/
structure LeadStats (m : Mem) (leads : List Int) : Prop where
  least : IsLeast (insert (2 ^ 63 - 1) {d | d ∈ leads}) (P.ld64 m diffminPtr).toInt
  greatest : IsGreatest (insert (-1) {d | d ∈ leads}) (P.ld64 m diffmaxPtr).toInt
  recent : ∃ k, k ≤ leads.length ∧ (leads ≠ [] → 0 < k) ∧
    P.ld64 m countPtr = BitVec.ofNat 64 k ∧ (P.ld64 m diffsumPtr).toInt = (leads.take k).sum

theorem LeadStats.congr {m m' : Mem} {leads : List Int} (h : LeadStats P m leads)
    (hkept : ∀ a ∈ leadWords P, m' a = m a) : LeadStats P m' leads := by
  have hword : ∀ ptr, P.adr ptr ∈ leadWords P → P.adr (ptr + 4) ∈ leadWords P →
      P.ld64 m' ptr = P.ld64 m ptr :=
    fun ptr hhi hlo => P.ld64_congr (hkept _ hhi) (hkept _ hlo)
  have hmin := hword diffminPtr (by simp [leadWords, Platform.w64]) (by simp [leadWords, Platform.w64])
  have hmax := hword diffmaxPtr (by simp [leadWords, Platform.w64]) (by simp [leadWords, Platform.w64])
  have hsum := hword diffsumPtr (by simp [leadWords, Platform.w64]) (by simp [leadWords, Platform.w64])
  have hcnt := hword countPtr (by simp [leadWords, Platform.w64]) (by simp [leadWords, Platform.w64])
  refine ⟨?_, ?_, ?_⟩
  · rw [hmin]; exact h.least
  · rw [hmax]; exact h.greatest
  · rw [hcnt, hsum]; exact h.recent

/-- The four words after `tmsgDiagnostics`. -/
theorem tmsgDiagnostics_leads (s : Cpu) (node : Word) (diff now : Time) :
    P.ld64 (tmsgDiagnostics P s node diff now).mem diffsumPtr =
        (if sumOverflow diff (P.ld64 s.mem diffsumPtr) then diff
          else P.ld64 s.mem diffsumPtr + diff) ∧
      P.ld64 (tmsgDiagnostics P s node diff now).mem diffminPtr =
        (if diff.slt (P.ld64 s.mem diffminPtr) then diff else P.ld64 s.mem diffminPtr) ∧
      P.ld64 (tmsgDiagnostics P s node diff now).mem diffmaxPtr =
        (if (P.ld64 s.mem diffmaxPtr).slt diff then diff else P.ld64 s.mem diffmaxPtr) ∧
      P.ld64 (tmsgDiagnostics P s node diff now).mem countPtr =
        (if sumOverflow diff (P.ld64 s.mem diffsumPtr) then 0 else P.ld64 s.mem countPtr) := by
  simp only [tmsgDiagnostics, sumOverflow, diffsumPtr, diffminPtr, diffmaxPtr, countPtr, diffwcntPtr,
    diffwhashPtr, diffwtsPtr, Cpu.st64_mem, Cpu.st_mem]
  refine ⟨?_, ?_, ?_, ?_⟩ <;>
    simp (disch := decide) only [ld64_st64_shared, ld64_st64_shared_other, ld64_st_shared_other] <;>
    rfl

/-- The next value of a running minimum. -/
theorem isLeast_insert_slt {diff w : Time} {s : Set Int} (h : IsLeast s w.toInt) :
    IsLeast (insert diff.toInt s) (if diff.slt w then diff else w).toInt := by
  have hmin := h.insert diff.toInt
  split <;> rename_i hlt <;> rw [BitVec.slt_iff_toInt_lt] at hlt
  · rwa [min_eq_left (by omega)] at hmin
  · rwa [min_eq_right (by omega)] at hmin

/-- The next value of a running maximum. -/
theorem isGreatest_insert_slt {diff w : Time} {s : Set Int} (h : IsGreatest s w.toInt) :
    IsGreatest (insert diff.toInt s) (if w.slt diff then diff else w).toInt := by
  have hmax := h.insert diff.toInt
  split <;> rename_i hlt <;> rw [BitVec.slt_iff_toInt_lt] at hlt
  · rwa [max_eq_left (by omega)] at hmax
  · rwa [max_eq_right (by omega)] at hmax

theorem insert_insert_mem (a d : Int) (leads : List Int) :
    insert d (insert a {x | x ∈ leads}) = insert a {x | x ∈ d :: leads} := by
  ext x
  simp only [Set.mem_insert_iff, Set.mem_ofPred_eq, List.mem_cons]
  tauto

/-- Four words that are updated with the lead `diff` as `tmsg` does it. -/
theorem LeadStats.push {m m' : Mem} {leads : List Int} {diff : Time} (h : LeadStats P m leads)
    (hsum : P.ld64 m' diffsumPtr =
      if sumOverflow diff (P.ld64 m diffsumPtr) then diff else P.ld64 m diffsumPtr + diff)
    (hmin : P.ld64 m' diffminPtr =
      if diff.slt (P.ld64 m diffminPtr) then diff else P.ld64 m diffminPtr)
    (hmax : P.ld64 m' diffmaxPtr =
      if (P.ld64 m diffmaxPtr).slt diff then diff else P.ld64 m diffmaxPtr)
    (hcnt : P.ld64 m' countPtr =
      (if sumOverflow diff (P.ld64 m diffsumPtr) then 0 else P.ld64 m countPtr) + 1) :
    LeadStats P m' (diff.toInt :: leads) := by
  refine ⟨?_, ?_, ?_⟩
  · rw [hmin, ← insert_insert_mem]
    exact isLeast_insert_slt h.least
  · rw [hmax, ← insert_insert_mem]
    exact isGreatest_insert_slt h.greatest
  · obtain ⟨k, hk, -, hcount, htotal⟩ := h.recent
    by_cases hover : sumOverflow diff (P.ld64 m diffsumPtr) = true
    · -- the sum starts again with this lead
      rw [if_pos hover] at hsum hcnt
      refine ⟨1, by simp, fun _ => Nat.one_pos, hcnt, ?_⟩
      rw [hsum]
      simp
    · rw [if_neg hover] at hsum hcnt
      refine ⟨k + 1, by simpa using hk, fun _ => Nat.succ_pos k, ?_, ?_⟩
      · rw [hcnt, hcount, BitVec.ofNat_add]
        rfl
      · rw [hsum, toInt_add_of_not_sumOverflow hover, htotal, List.take_succ_cons, List.sum_cons,
          Int.add_comm]

/-- A timing message that has been sent: its deadline and the time at which it was sent. -/
structure Dispatch where
  deadline : Time
  now : Time
  deriving DecidableEq, Repr

def Dispatch.lead (e : Dispatch) : Int := (e.deadline.toNat : Int) - e.now.toNat

/-- The lead is a signed 64-bit number. -/
def Dispatch.Fits (e : Dispatch) : Prop := -2 ^ 63 ≤ e.lead ∧ e.lead < 2 ^ 63

instance (e : Dispatch) : Decidable e.Fits := by
  unfold Dispatch.Fits
  exact inferInstance

theorem Dispatch.toInt_diff {e : Dispatch} (h : e.Fits) : (e.deadline - e.now).toInt = e.lead := by
  obtain ⟨hlow, hhigh⟩ := h
  rw [BitVec.toInt_sub, BitVec.toInt_eq_toNat_bmod, BitVec.toInt_eq_toNat_bmod, ← Int.sub_bmod]
  exact Int.bmod_eq_of_le (by simpa [Dispatch.lead] using hlow) (by simpa [Dispatch.lead] using hhigh)

/-- **A timing message adds its lead to the statistics**, unless its flags word lies in them. -/
theorem tmsg_leads {s : Cpu} {node : Word} {t : Nat} {leads : List Int} (ht : t < thrQty)
    (hflags : P.adr (node + nodeFlags) ∉ leadWords P) (h : LeadStats P s.mem leads) :
    LeadStats P (tmsg P s node (thrPtr t)).2.mem
      ((dl P (s.paint P node).mem (thrPtr t) - s.clk 0).toInt :: leads) := by
  have hpaint : LeadStats P (s.paint P node).mem leads := by
    refine h.congr P fun a ha => P.st_other ?_
    rintro rfl
    exact hflags ha
  unfold tmsg
  extract_lets s₁ tmpPar now s₂ tmpPar' diff s₃ msg s₄ s₅ s₆
  obtain ⟨hsum, hmin, hmax, hcnt⟩ := tmsgDiagnostics_leads P s₂ node diff now
  have hown : ∀ a ∈ leadWords P, s₅.mem a = s₃.mem a := by
    intro a ha
    obtain ⟨o, rfl, ho, -, hhigh⟩ := leadWords_low P ha
    apply P.st64_other
    · rw [adr_msgCnt P ht]; exact P.ctl_ne ho (by omega) (by omega)
    · rw [adr_msgCntLo P ht]; exact P.ctl_ne ho (by omega) (by omega)
  have hword : ∀ ptr, P.adr ptr ∈ leadWords P → P.adr (ptr + 4) ∈ leadWords P →
      P.ld64 s₅.mem ptr = P.ld64 s₃.mem ptr :=
    fun ptr hhi hlo => P.ld64_congr (hown _ hhi) (hown _ hlo)
  have hlast : ∀ o, o % 4 = 0 → o + 8 ≤ shctlEnd → (56 + 8 ≤ o ∨ o + 8 ≤ 56) →
      P.ld64 s₆.mem (shared o) = P.ld64 s₅.mem (shared o) := fun o ho hend hne =>
    ld64_st64_shared_other P _ _ (by decide) ho (by decide) hend hne
  refine hpaint.push P ?_ ?_ ?_ ?_
  · exact (hlast 152 (by decide) (by decide) (by decide)).trans
      ((hword diffsumPtr (by simp [leadWords, Platform.w64]) (by simp [leadWords, Platform.w64])).trans hsum)
  · exact (hlast 136 (by decide) (by decide) (by decide)).trans
      ((hword diffminPtr (by simp [leadWords, Platform.w64]) (by simp [leadWords, Platform.w64])).trans hmin)
  · exact (hlast 144 (by decide) (by decide) (by decide)).trans
      ((hword diffmaxPtr (by simp [leadWords, Platform.w64]) (by simp [leadWords, Platform.w64])).trans hmax)
  · refine (ld64_st64_shared P _ _ (by decide) (by decide)).trans ?_
    rw [hword countPtr (by simp [leadWords, Platform.w64]) (by simp [leadWords, Platform.w64])]
    exact congrArg (· + 1) hcnt

/-! ### Runs -/

/-- If the top node is due, executing it writes neither a heap entry nor a word of the
statistics, apart from what a timing message writes there. -/
def LeadSafe (s : Cpu) : Prop :=
  (topDue P s).1 = true →
    ∀ a ∈ foreignFootprint P s (topNode P s.mem) (hp P s.mem 0) (getNodeType P s.mem (topNode P s.mem)),
      a ∉ heapWords P ∧ a ∉ leadWords P

/-- The messages sent, the latest first, after the rest of an iteration. The due check has
read the clock once before the message. -/
def leadServe (s : Cpu) (log : List Dispatch) : List Dispatch :=
  if (topDue P s).1 = true ∧ getNodeType P s.mem (topNode P s.mem) = .tmsg then
    ⟨dl P (s.paint P (topNode P s.mem)).mem (hp P s.mem 0), s.clk 1⟩ :: log
  else log

inductive LeadStep : (Phase × Cpu) × List Dispatch → (Phase × Cpu) × List Dispatch → Prop
  | host {ph : Phase} {s s' : Cpu} {log : List Dispatch} : HostStep (heapWords P ++ leadWords P) s s' →
      LeadStep ((ph, s), log) ((ph, s'), log)
  | abort {s : Cpu} {log : List Dispatch} :
      LeadStep ((.loopHead, s), log) ((.dueCheck, toDueCheck P s), log)
  | serve {s s' : Cpu} {log : List Dispatch} : LeadSafe P s → fromDueCheck P s = some s' →
      LeadStep ((.dueCheck, s), log) ((.loopHead, s'), leadServe P s log)

/-- The firmware with the list of the messages sent, booted from any memory. The host may
write any memory except the heap array and the statistics. -/
def leadFirmware : TransitionSystem ((Phase × Cpu) × List Dispatch) where
  init c := (∃ s, c.1 = (.loopHead, init P s)) ∧ c.2 = []
  step := LeadStep P

/-- As long as all leads fit, the statistics are about them. -/
structure LeadInv (c : (Phase × Cpu) × List Dispatch) : Prop where
  threads : HoldsThreads P c.1.2.mem
  stats : (∀ e ∈ c.2, e.Fits) → LeadStats P c.1.2.mem (c.2.map Dispatch.lead)

theorem leadWords_off_heap {a : Nat} (ha : a ∈ leadWords P) : a ∉ heapWords P := by
  obtain ⟨o, rfl, ho, hlow, -⟩ := leadWords_low P ha
  exact ctl_not_heap P ho (by omega)

theorem leadWords_off_abort {a : Nat} (ha : a ∈ leadWords P) : a ∉ abortFootprint P := by
  obtain ⟨o, rfl, ho, hlow, hhigh⟩ := leadWords_low P ha
  simp only [abortFootprint, List.mem_append, not_or, Platform.w32, Platform.w64, List.mem_cons,
    List.not_mem_nil, or_false, List.mem_flatMap, List.mem_range, adr_running, adr_abort1, not_exists,
    not_and]
  refine ⟨⟨⟨ctl_not_heap P ho (by omega), P.ctl_ne ho (by omega) (by omega)⟩,
    P.ctl_ne ho (by omega) (by omega)⟩, fun i hi => ?_⟩
  rw [adr_deadline P hi, adr_deadlineLo P hi]
  exact ⟨P.ctl_ne ho (by omega) (by omega), P.ctl_ne ho (by omega) (by omega)⟩

theorem leadWords_off_start {a i : Nat} (hi : i < thrQty) (ha : a ∈ leadWords P) :
    a ∉ startFootprint P i := by
  obtain ⟨o, rfl, ho, hlow, hhigh⟩ := leadWords_low P ha
  simp only [startFootprint, List.mem_append, not_or, Platform.w32, List.mem_singleton, adr_status,
    adr_running, adr_start, adr_msgCnt P hi]
  exact ⟨⟨⟨⟨P.ctl_ne ho (by omega) (by omega), P.ctl_ne ho (by omega) (by omega)⟩,
    P.ctl_ne ho (by omega) (by omega)⟩, ctl_not_prepare P hi ho (by omega)⟩,
    P.ctl_ne ho (by omega) (by omega)⟩

theorem startThreads_leads : ∀ (is : List Nat) (s s' : Cpu), (∀ i ∈ is, i < thrQty) →
    startThreads P s is = some s' → ∀ a ∈ leadWords P, s'.mem a = s.mem a := by
  intro is
  induction is with
  | nil =>
      intro s s' _ h a _
      rw [startThreads] at h
      cases h
      rfl
  | cons i is ih =>
      intro s s' his h a ha
      have hi := his i List.mem_cons_self
      have hrest : ∀ k ∈ is, k < thrQty := fun k hk => his k (List.mem_cons_of_mem _ hk)
      rw [startThreads] at h
      split at h
      · split at h
        · exact absurd h (by simp)
        · rename_i s₁ hstart
          rw [ih s₁ s' hrest h a ha]
          exact (startThr_effect P hi hstart).1 a (leadWords_off_start P hi ha)
      · exact ih s s' hrest h a ha

/-- The handler of the top node takes the leads over, with the new one if it sends a message. -/
theorem callNode_leads {s s₁ : Cpu} {next : Word} {t : Nat} (ht : t < thrQty)
    (htop : hp P s.mem 0 = thrPtr t)
    (hsafe : ∀ a ∈ foreignFootprint P s (topNode P s.mem) (hp P s.mem 0)
      (getNodeType P s.mem (topNode P s.mem)), a ∉ leadWords P)
    (hnode : callNode P s = some (next, s₁)) {leads : List Int} (h : LeadStats P s.mem leads) :
    LeadStats P s₁.mem (if getNodeType P s.mem (topNode P s.mem) = .tmsg then
      (dl P (s.paint P (topNode P s.mem)).mem (thrPtr t) - s.clk 0).toInt :: leads else leads) := by
  have hframe := nodeFuncs_frame P hnode
  by_cases hty : getNodeType P s.mem (topNode P s.mem) = .tmsg
  · rw [if_pos hty]
    rw [callNode, hty] at hnode
    rw [hty] at hsafe
    have hflags : P.adr (topNode P s.mem + nodeFlags) ∉ leadWords P :=
      hsafe _ (List.mem_singleton.mpr rfl)
    simp only [nodeFuncs, Option.some.injEq] at hnode
    have hs₁ : s₁ = (tmsg P { s with backlog := s.backlog + 1 } (topNode P s.mem) (thrPtr t)).2 := by
      rw [← htop, hnode]
    rw [hs₁]
    exact tmsg_leads P ht hflags h
  · rw [if_neg hty]
    rw [foreignFootprint_eq P hty] at hsafe
    exact h.congr P fun a ha => hframe a fun hmem => hsafe a hmem ha

theorem runTop_leads {s s' : Cpu} (hthr : HoldsThreads P s.mem)
    (hsafe : ∀ a ∈ foreignFootprint P s (topNode P s.mem) (hp P s.mem 0)
      (getNodeType P s.mem (topNode P s.mem)), a ∉ heapWords P ∧ a ∉ leadWords P)
    (hrun : runTop P s = some s') :
    HoldsThreads P s'.mem ∧ ∀ leads, LeadStats P s.mem leads →
      LeadStats P s'.mem (if getNodeType P s.mem (topNode P s.mem) = .tmsg then
        (dl P (s.paint P (topNode P s.mem)).mem (hp P s.mem 0) - s.clk 0).toInt :: leads
      else leads) := by
  obtain ⟨t, ht, htop⟩ := hthr 0 (by decide)
  obtain ⟨next, s₁, d, s₃, hnode, hdead, rfl⟩ := runTop_cases P hrun
  have hentries := callNode_entries P ht htop (fun a ha => (hsafe a ha).1) hnode
  have hroot : hp P s₁.mem 0 = thrPtr t := (hentries 0 (by decide)).trans htop
  have hdone := finishTop_turnDone P (i := thrIdx P s.mem (hp P s.mem 0)) ht hroot hdead
  refine ⟨hdone.entries (holdsThreads_congr P hentries hthr), fun leads h => ?_⟩
  have hcall := callNode_leads P ht htop (fun a ha => (hsafe a ha).2) hnode h
  rw [← htop] at hcall
  refine hcall.congr P fun a ha => hdone.other a ?_
  obtain ⟨o, rfl, ho, hlow, hhigh⟩ := leadWords_low P ha
  exact ctl_not_turn P ht ho (by omega) (by omega) (by omega)

theorem serveStarts_leads {s s' : Cpu} (hthr : HoldsThreads P s.mem)
    (hserve : serveStarts P s = some s') :
    HoldsThreads P s'.mem ∧ ∀ a ∈ leadWords P, s'.mem a = s.mem a := by
  have hlead₀ : ∀ a ∈ leadWords P, (recordBacklog P s).mem a = s.mem a := by
    intro a ha
    obtain ⟨o, rfl, ho, -, hhigh⟩ := leadWords_low P ha
    exact recordBacklog_ctl P ho (by omega)
  obtain ⟨hthr', ⟨s₁, hstart, hmem⟩ | ⟨-, rfl⟩⟩ := serveStarts_cases P hthr hserve
  · refine ⟨hthr', fun a ha => ?_⟩
    rw [hmem]
    exact (heapify_frame P s₁.mem a (leadWords_off_heap P ha)).trans
      ((startThreads_leads P _ _ _ (fun i hi => List.mem_range.mp hi) hstart a ha).trans
        (hlead₀ a ha))
  · exact ⟨hthr', hlead₀⟩

theorem fromDueCheck_leadInv {s s' : Cpu} {log : List Dispatch} (h : LeadInv P ((.dueCheck, s), log))
    (hsafe : LeadSafe P s) (hstep : fromDueCheck P s = some s') :
    LeadInv P ((.loopHead, s'), leadServe P s log) := by
  simp only [fromDueCheck] at hstep
  split at hstep
  · rename_i hdue
    obtain ⟨hthr, hstats⟩ := runTop_leads P (s := (topDue P s).2) h.threads (hsafe hdue) hstep
    have hleads : ∀ leads, LeadStats P s.mem leads →
        LeadStats P s'.mem (if getNodeType P s.mem (topNode P s.mem) = .tmsg then
          (dl P (s.paint P (topNode P s.mem)).mem (hp P s.mem 0) - s.clk 1).toInt :: leads
        else leads) := hstats
    refine ⟨hthr, fun hfit => ?_⟩
    by_cases hty : getNodeType P s.mem (topNode P s.mem) = .tmsg
    · simp only [leadServe, if_pos (And.intro hdue hty), List.mem_cons, forall_eq_or_imp] at hfit ⊢
      have hnew := hleads _ (h.stats hfit.2)
      rw [if_pos hty] at hnew
      rw [List.map_cons, ← Dispatch.toInt_diff hfit.1]
      exact hnew
    · have hsame : leadServe P s log = log := if_neg fun hc => hty hc.2
      rw [hsame] at hfit
      have hnew := hleads _ (h.stats hfit)
      rw [if_neg hty] at hnew
      rw [hsame]
      exact hnew
  · rename_i hdue
    obtain ⟨hthr, hkept⟩ := serveStarts_leads P (s := (topDue P s).2) h.threads hstep
    have hsame : leadServe P s log = log := if_neg fun hc => hdue hc.1
    rw [hsame]
    exact ⟨hthr, fun hfit => (h.stats hfit).congr P hkept⟩

/-! ### Boot -/

theorem initThreads_low : ∀ (is : List Nat) (m : Mem), (∀ i ∈ is, i < thrQty) →
    ∀ a ∈ leadWords P, initThreads P m is a = m a := by
  intro is
  induction is with
  | nil => intro m _ a _; rfl
  | cons i is ih =>
      intro m his a ha
      have hq : thrQty = 8 := rfl
      have hi := his i List.mem_cons_self
      rw [initThreads, ih _ (fun k hk => his k (List.mem_cons_of_mem _ hk)) a ha]
      obtain ⟨o, rfl, ho, hlow, hhigh⟩ := leadWords_low P ha
      exact initThread_other P hi ho (by omega) (by omega) (by omega) (by omega)

theorem init_leads (s : Cpu) : LeadStats P (init P s).mem [] := by
  have hthreads : P.ld64 (initThreads P
      ((((((s.st P statusPtr 0).st64 P countPtr 0).setStatus P shctlStatusUartInitSmsk).setStatus P
        shctlStatusEbmInitSmsk).setStatus P shctlStatusPqInitSmsk).mem) (List.range thrQty))
      countPtr = 0 := by
    have hkept := initThreads_low P (List.range thrQty)
      (((((s.st P statusPtr 0).st64 P countPtr 0).setStatus P shctlStatusUartInitSmsk).setStatus P
        shctlStatusEbmInitSmsk).setStatus P shctlStatusPqInitSmsk).mem
      (fun i hi => List.mem_range.mp hi)
    rw [P.ld64_congr (hkept _ (by simp [leadWords, Platform.w64]))
      (hkept _ (by simp [leadWords, Platform.w64]))]
    simp only [Cpu.setStatus, Cpu.st_mem, Cpu.st64_mem, statusPtr, countPtr]
    simp (disch := decide) only [ld64_st64_shared, ld64_st_shared_other]
  have hcnt : P.ld64 (init P s).mem countPtr = 0 := by
    rw [← hthreads]
    simp only [init, dmInit, Cpu.setStatus, Cpu.st_mem, Cpu.st64_mem, Cpu.getSysTime_mem, statusPtr,
      countPtr, diffsumPtr, diffmaxPtr, diffminPtr, diffwthPtr, diffwcntPtr, diffwhashPtr, diffwtsPtr,
      bcklogmaxPtr, badwaitcntPtr, boottimePtr]
    simp (disch := decide) only [ld64_st64_shared_other, ld64_st_shared_other]
  have hmin : P.ld64 (init P s).mem diffminPtr = 0x7fffffffffffffff := by
    simp only [init, dmInit, Cpu.setStatus, Cpu.st_mem, Cpu.st64_mem, Cpu.getSysTime_mem, statusPtr,
      diffsumPtr, diffmaxPtr, diffminPtr, diffwthPtr, diffwcntPtr, diffwhashPtr, diffwtsPtr,
      bcklogmaxPtr, badwaitcntPtr, boottimePtr]
    simp (disch := decide) only [ld64_st64_shared, ld64_st64_shared_other, ld64_st_shared_other]
  have hmax : P.ld64 (init P s).mem diffmaxPtr = 0xffffffffffffffff := by
    simp only [init, dmInit, Cpu.setStatus, Cpu.st_mem, Cpu.st64_mem, Cpu.getSysTime_mem, statusPtr,
      diffsumPtr, diffmaxPtr, diffminPtr, diffwthPtr, diffwcntPtr, diffwhashPtr, diffwtsPtr,
      bcklogmaxPtr, badwaitcntPtr, boottimePtr]
    simp (disch := decide) only [ld64_st64_shared, ld64_st64_shared_other, ld64_st_shared_other]
  have hsum : P.ld64 (init P s).mem diffsumPtr = 0 := by
    simp only [init, dmInit, Cpu.setStatus, Cpu.st_mem, Cpu.st64_mem, Cpu.getSysTime_mem, statusPtr,
      diffsumPtr, diffmaxPtr, diffminPtr, diffwthPtr, diffwcntPtr, diffwhashPtr, diffwtsPtr,
      bcklogmaxPtr, badwaitcntPtr, boottimePtr]
    simp (disch := decide) only [ld64_st64_shared, ld64_st64_shared_other, ld64_st_shared_other]
  refine ⟨?_, ?_, 0, Nat.le_refl 0, fun hne => absurd rfl hne, hcnt, ?_⟩
  · rw [hmin]
    simp
  · rw [hmax]
    simp
  · rw [hsum]
    rfl

theorem leadInv_reachable {c : (Phase × Cpu) × List Dispatch} (hrun : (leadFirmware P).Reachable c) :
    LeadInv P c := by
  refine Reachable.invariant _ (I := LeadInv P) ?_ ?_ c hrun
  · rintro ⟨c, log⟩ ⟨⟨s, rfl⟩, rfl⟩
    exact ⟨(init_schedInv P s).perm.holdsThreads P, fun _ => init_leads P s⟩
  · intro c c' _ hc hstep
    cases hstep with
    | host hhost =>
        refine ⟨holdsThreads_congr P (fun i hi => ?_) hc.threads, fun hfit => ?_⟩
        · rw [hp_eq P hi, hp_eq P hi]
          exact hhost.agree _ (List.mem_append_left _ ((mem_heapWords P).mpr ⟨i, hi, rfl⟩))
        · exact (hc.stats hfit).congr P fun a ha => hhost.agree a (List.mem_append_right _ ha)
    | abort =>
        refine ⟨abortThreads_holdsThreads P hc.threads, fun hfit => ?_⟩
        exact (hc.stats hfit).congr P fun a ha =>
          abortThreads_frame P _ a (leadWords_off_abort P ha)
    | serve hsafe hserve => exact fromDueCheck_leadInv P hc hsafe hserve

/-! ### Extrema and average -/

/-- The words are the least and the greatest of the leads, and the sum of the latest leads,
as many as are counted. -/
structure TrueLeads (m : Mem) (leads : List Int) : Prop where
  least : IsLeast {d | d ∈ leads} (P.ld64 m diffminPtr).toInt
  greatest : IsGreatest {d | d ∈ leads} (P.ld64 m diffmaxPtr).toInt
  counted : 0 < (P.ld64 m countPtr).toNat ∧ (P.ld64 m countPtr).toNat ≤ leads.length
  sum : (P.ld64 m diffsumPtr).toInt = (leads.take (P.ld64 m countPtr).toNat).sum

theorem isLeast_of_insert {a v b : Int} {s : Set Int} (h : IsLeast (insert a s) v) (hb : b ∈ s)
    (hba : b ≤ a) : IsLeast s v := by
  refine ⟨?_, fun x hx => h.2 (Set.mem_insert_of_mem a hx)⟩
  rcases h.1 with rfl | hmem
  · rwa [le_antisymm (h.2 (Set.mem_insert_of_mem v hb)) hba]
  · exact hmem

theorem isGreatest_of_insert {a v b : Int} {s : Set Int} (h : IsGreatest (insert a s) v) (hb : b ∈ s)
    (hab : a ≤ b) : IsGreatest s v := by
  refine ⟨?_, fun x hx => h.2 (Set.mem_insert_of_mem a hx)⟩
  rcases h.1 with rfl | hmem
  · rwa [le_antisymm hab (h.2 (Set.mem_insert_of_mem v hb))]
  · exact hmem

/-- **The statistics are the true ones if and only if some message left the CPU at most 1 ns
after its deadline**, in every state of every run with at most `2 ^ 64 - 1` messages whose leads
fit. -/
theorem lead_statistics_iff {ph : Phase} {s : Cpu} {log : List Dispatch}
    (hrun : (leadFirmware P).Reachable ((ph, s), log)) (hne : log ≠ []) (hfit : ∀ e ∈ log, e.Fits)
    (hlen : log.length < 2 ^ 64) :
    TrueLeads P s.mem (log.map Dispatch.lead) ↔ ∃ e ∈ log, -1 ≤ e.lead := by
  have hstats := (leadInv_reachable P hrun).stats hfit
  constructor
  · intro h
    obtain ⟨e, he, hlead⟩ := List.mem_map.1 h.greatest.1
    exact ⟨e, he, hlead ▸ hstats.greatest.2 (Set.mem_insert _ _)⟩
  · rintro ⟨e, he, hlead⟩
    have hmem : e.lead ∈ {d | d ∈ log.map Dispatch.lead} := List.mem_map_of_mem he
    have hsmall : e.lead ≤ 2 ^ 63 - 1 := Int.le_sub_one_of_lt (hfit e he).2
    obtain ⟨k, hk, hpos, hcount, hsum⟩ := hstats.recent
    have hk : k ≤ log.length := by simpa using hk
    have hnat : (P.ld64 s.mem countPtr).toNat = k := by
      rw [hcount, BitVec.toNat_ofNat]
      exact Nat.mod_eq_of_lt (by omega)
    refine ⟨isLeast_of_insert hstats.least hmem hsmall,
      isGreatest_of_insert hstats.greatest hmem hlead, ?_, ?_⟩
    · rw [hnat, List.length_map]
      exact ⟨hpos (by simpa using hne), hk⟩
    · rw [hnat, hsum]

/-! ### A late message -/

theorem leadSafe_of_idle {s : Cpu} (hdue : (topDue P s).1 = false) : LeadSafe P s := by
  intro h
  rw [hdue] at h
  exact absurd h (by decide)

theorem messageDue_leadSafe : LeadSafe samplePlatform messageDue := by
  have hsafe : ((foreignFootprint samplePlatform messageDue (topNode samplePlatform messageDue.mem)
      (hp samplePlatform messageDue.mem 0) (getNodeType samplePlatform messageDue.mem
        (topNode samplePlatform messageDue.mem))).all fun a =>
      !(heapWords samplePlatform).contains a && !(leadWords samplePlatform).contains a) = true := by
    decide +kernel
  intro _ a ha
  simpa using List.all_eq_true.mp hsafe a ha

theorem messageSent_lead :
    (leadFirmware samplePlatform).Reachable ((.loopHead, messageSent), [⟨1, 10⟩]) := by
  have hboot : (leadFirmware samplePlatform).Reachable
      ((.dueCheck, init samplePlatform (sampleCpu 1)), []) := by
    have hinit : (leadFirmware samplePlatform).Reachable
        ((.loopHead, init samplePlatform (sampleCpu 1)), []) := .init ⟨⟨sampleCpu 1, rfl⟩, rfl⟩
    have habort := hinit.step .abort
    rwa [sampleInit_dueCheck] at habort
  have hhost : HostStep (heapWords samplePlatform ++ leadWords samplePlatform)
      (init samplePlatform (sampleCpu 1)) messageRequest :=
    hostStep_hostWrites samplePlatform (by decide +kernel)
  have hlater : HostStep (heapWords samplePlatform ++ leadWords samplePlatform)
      (toDueCheck samplePlatform messageStarted) messageDue :=
    hostStep_hostWrites samplePlatform (by decide +kernel)
  have hnone : leadServe samplePlatform messageRequest [] = [] := by decide +kernel
  have hone : leadServe samplePlatform messageDue [] = [⟨1, 10⟩] := by decide +kernel
  have hstart := (hboot.step (.host hhost)).step
    (.serve (leadSafe_of_idle samplePlatform (by decide +kernel)) messageRun_served.1)
  rw [hnone] at hstart
  have hsent := ((hstart.step .abort).step (.host hlater)).step
    (.serve messageDue_leadSafe messageRun_served.2.1)
  rwa [hone] at hsent

/-- After a message that was 9 ns late neither side holds. -/
theorem lead_statistics_late : TrueLeads samplePlatform messageSent.mem [-9] ↔
    ∃ e ∈ [(⟨1, 10⟩ : Dispatch)], -1 ≤ e.lead :=
  lead_statistics_iff samplePlatform messageSent_lead (by decide) (by decide) (by decide)

/-- **A greatest lead of -1 that no message had**: the only message was 9 ns late. -/
theorem greatest_lead_start : ¬ ∀ (P : Platform) (ph : Phase) (s : Cpu) (log : List Dispatch),
    (leadFirmware P).Reachable ((ph, s), log) → log ≠ [] → (∀ e ∈ log, e.Fits) →
      TrueLeads P s.mem (log.map Dispatch.lead) := by
  intro h
  have htrue := h samplePlatform .loopHead messageSent [⟨1, 10⟩] messageSent_lead (by decide) (by decide)
  have hmax : (samplePlatform.ld64 messageSent.mem diffmaxPtr).toInt = -1 := by decide +kernel
  have hmem := htrue.greatest.1
  rw [hmax] at hmem
  revert hmem
  decide

end DataMaster
