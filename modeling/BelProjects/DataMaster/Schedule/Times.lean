import BelProjects.DataMaster.Blocks.Queue
import BelProjects.DataMaster.Scheduler.Phases
import BelProjects.DataMaster.Schedule.Graph

/-!
# What a node does to its thread's time

An event leaves the time sum of its thread alone.  A block adds its period to it, and
a wait that the block executes replaces the time sum, the period or the time added.
-/

namespace DataMaster

variable (P : Platform)

/-! ### Events -/

/-! ### Blocks -/

def QueuedCmd.waitTime (x : QueuedCmd) : Time := x.arg1 ++ x.arg2

def QueuedCmd.absolute (x : QueuedCmd) : Bool := x.act &&& actWaitAbsSmsk != 0

def QueuedCmd.permanent (x : QueuedCmd) : Bool := x.act &&& actChpSmsk != 0

/-- The command that a visit hands to its action handler, and the next reading of the
clock. -/
def servedCmd (s : Cpu) (node : Word) : Option (QueuedCmd × Time) :=
  match findCmd P s node with
  | .command c _ s₁ =>
      if actQty (P.ld s₁.mem (c + tCmdAct)) = 0 then none else some (slotCmd P s₁.mem c, s₁.clk 0)
  | _ => none

/-- Time sum of the thread after the visit, before it is rounded. -/
def servedSum (tCur period : Time) : Option (QueuedCmd × Time) → Time
  | none => tCur + period
  | some (x, now) =>
      if actType x.act = 4 then
        if x.absolute then if now < x.waitTime - period then x.waitTime else tCur + period
        else tCur + x.waitTime
      else tCur + period

def servedPeriod (period : Time) : Option (QueuedCmd × Time) → Time
  | none => period
  | some (x, _) =>
      if actType x.act = 4 ∧ x.absolute = false ∧ x.permanent = true then x.waitTime else period

def visitSum (s : Cpu) (node thrData : Word) : Time :=
  servedSum (P.ld64 s.mem (thrData + tTdCurrtime)) (P.ld64 s.mem (node + blockPeriod))
    (servedCmd P s node)

def visitPeriod (s : Cpu) (node : Word) : Time :=
  servedPeriod (P.ld64 s.mem (node + blockPeriod)) (servedCmd P s node)

def VisitDest (s : Cpu) (node r : Word) : Prop :=
  r = node ∨ r = lm32NullPtr ∨ r = P.defDest s.mem node ∨
    ∃ x now, servedCmd P s node = some (x, now) ∧ (actType x.act = 2 ∨ actType x.act = 3) ∧ r = x.arg1

theorem findCmd_idle_mem {s s₁ : Cpu} {node : Word} (h : findCmd P s node = .idle s₁) :
    s₁.mem = (s.paint P node).mem := by
  simp only [findCmd] at h
  split at h
  · split at h
    · cases h
    split at h
    · cases h
      rfl
    · cases h
  · cases h
    rfl

/-- The scan hands on the head of one of the block's queues. -/
theorem findCmd_command_mem {s s₁ : Cpu} {node c : Word} {q : Nat}
    (h : findCmd P s node = .command c q s₁) :
    s₁.mem = (s.paint P node).mem ∧ ∃ p, p < 3 ∧ P.hasQueue s.mem node p = true ∧
      c = readElem P (s.paint P node).mem node p := by
  simp only [findCmd] at h
  split at h
  · split at h
    · cases h
    rename_i c' hc
    split at h
    · cases h
    · cases h
      obtain ⟨p, hp, hqueue, rfl⟩ := scanQueues_cmd P _ _ _ _ _ _ hc (by simp)
      rw [hasQueue_paint] at hqueue
      exact ⟨rfl, p, mem_scanPrios.mp hp, hqueue, rfl⟩
  · cases h

/-- The words of a thread's time sum and of a block's period. -/
def timeWordsOf (t base : Nat) : List Nat :=
  [P.ctl (556 + t * 32), P.ctl (560 + t * 32), base, base + 1]

section Visit

variable {P} {s : Cpu} {node : Word} {base t : Nat}
  (hw : ∀ k, k < 13 → P.adr (node + BitVec.ofNat 32 (4 * k)) = base + k)
  (hctl : Apart base 13 (P.ctl 0) 205) (ht : t < thrQty)
include hw

theorem adr_periodOf : P.adr (node + blockPeriod) = base ∧ P.adr (node + blockPeriod + 4) = base + 1 := by
  constructor
  · rw [show blockPeriod = BitVec.ofNat 32 (4 * 0) from rfl]
    exact hw 0 (by decide)
  · rw [BitVec.add_assoc, show blockPeriod + 4 = BitVec.ofNat 32 (4 * 1) from rfl]
    exact hw 1 (by decide)

theorem adr_flagsOf : P.adr (node + nodeFlags) = base + 11 := by
  rw [show nodeFlags = BitVec.ofNat 32 (4 * 11) from rfl]
  exact hw 11 (by decide)

theorem adr_defDestOf : P.adr (node + nodeDefDestPtr) = base + 12 := by
  rw [show nodeDefDestPtr = BitVec.ofNat 32 (4 * 12) from rfl]
  exact hw 12 (by decide)

theorem adr_rdIdxsOf : P.adr (node + blockCmdqRdIdxs) = base + 7 := by
  rw [show blockCmdqRdIdxs = BitVec.ofNat 32 (4 * 7) from rfl]
  exact hw 7 (by decide)

include ht

theorem times_agree {m m' : Mem} (h : AgreeOn (timeWordsOf P t base) m m') :
    P.ld64 m' (thrPtr t + tTdCurrtime) = P.ld64 m (thrPtr t + tTdCurrtime) ∧
      P.ld64 m' (node + blockPeriod) = P.ld64 m (node + blockPeriod) := by
  obtain ⟨hhi, hlo⟩ := adr_periodOf hw
  constructor <;> apply P.ld64_congr
  · rw [adr_currtime P ht]
    exact h _ (by simp [timeWordsOf])
  · rw [adr_currtimeLo P ht]
    exact h _ (by simp [timeWordsOf])
  · rw [hhi]
    exact h _ (by simp [timeWordsOf])
  · rw [hlo]
    exact h _ (by simp [timeWordsOf])

include hctl

omit hw in
theorem not_mem_times {a : Nat} (h : a = P.ctl 32 ∨ a = P.ctl 188 ∨ a = base + 7 ∨ a = base + 11 ∨
    a = base + 12) : a ∉ timeWordsOf P t base := by
  have hq : thrQty = 8 := rfl
  have hne : ∀ o k, o < shctlEnd → k < 13 → P.ctl o ≠ base + k := by
    intro o k ho hk
    have hend : shctlEnd = 820 := rfl
    simp only [Apart, Platform.ctl, sharedOffs] at hctl ⊢
    omega
  have hend : shctlEnd = 820 := rfl
  simp only [timeWordsOf, List.mem_cons, List.not_mem_nil, or_false, not_or]
  rcases h with rfl | rfl | rfl | rfl | rfl
  · exact ⟨P.ctl_ne (by omega) (by omega) (by omega), P.ctl_ne (by omega) (by omega) (by omega),
      hne 32 0 (by decide) (by decide), hne 32 1 (by decide) (by decide)⟩
  · exact ⟨P.ctl_ne (by omega) (by omega) (by omega), P.ctl_ne (by omega) (by omega) (by omega),
      hne 188 0 (by decide) (by decide), hne 188 1 (by decide) (by decide)⟩
  · exact ⟨(hne _ 7 (by omega) (by decide)).symm, (hne _ 7 (by omega) (by decide)).symm, by omega, by omega⟩
  · exact ⟨(hne _ 11 (by omega) (by decide)).symm, (hne _ 11 (by omega) (by decide)).symm, by omega, by omega⟩
  · exact ⟨(hne _ 12 (by omega) (by decide)).symm, (hne _ 12 (by omega) (by decide)).symm, by omega, by omega⟩

omit hw in
theorem AgreeOn.stTimes {m m' : Mem} {ptr v : Word} (h : AgreeOn (timeWordsOf P t base) m m')
    (hp : P.adr ptr = P.ctl 32 ∨ P.adr ptr = P.ctl 188 ∨ P.adr ptr = base + 7 ∨
      P.adr ptr = base + 11 ∨ P.adr ptr = base + 12) :
    AgreeOn (timeWordsOf P t base) m (P.st m' ptr v) :=
  h.st P (not_mem_times hctl ht hp)

theorem action_times {atype : ActType} (hne : atype ≠ .wait) (s : Cpu) (c thrData : Word) :
    AgreeOn (timeWordsOf P t base) s.mem (actionFuncs P atype s node c thrData).2.mem := by
  have hrefl := AgreeOn.refl (timeWordsOf P t base) s.mem
  have hdef : ∀ {m : Mem} (v : Word), AgreeOn (timeWordsOf P t base) s.mem m →
      AgreeOn (timeWordsOf P t base) s.mem (P.st m (node + nodeDefDestPtr) v) :=
    fun v h => h.stTimes hctl ht (by simp [adr_defDestOf hw])
  have hrd : ∀ v, AgreeOn (timeWordsOf P t base) s.mem (P.st s.mem (node + blockCmdqRdIdxs) v) :=
    fun v => hrefl.stTimes hctl ht (by simp [adr_rdIdxsOf hw])
  cases atype with
  | unknown => exact hrefl.stTimes hctl ht (by simp [adr_status])
  | noop => exact hrefl
  | flow =>
      simp only [actionFuncs, execFlow]
      split
      · exact hdef _ hrefl
      · exact hrefl
  | flush =>
      simp only [actionFuncs, execFlush]
      split
      · split
        · exact hdef _ (hrd _)
        · exact hrd _
      · exact hrd _
  | wait => exact absurd rfl hne

/-- A wait changes the time sum, the period or nothing; the sum of the two is what the
visit makes of it. -/
theorem wait_times (s : Cpu) (c : Word) :
    P.ld64 (execWait P s node c (thrPtr t)).2.mem (thrPtr t + tTdCurrtime) +
        P.ld64 (execWait P s node c (thrPtr t)).2.mem (node + blockPeriod) =
      (if (slotCmd P s.mem c).absolute then
        if s.clk 0 < (slotCmd P s.mem c).waitTime - P.ld64 s.mem (node + blockPeriod) then
          (slotCmd P s.mem c).waitTime
        else P.ld64 s.mem (thrPtr t + tTdCurrtime) + P.ld64 s.mem (node + blockPeriod)
      else P.ld64 s.mem (thrPtr t + tTdCurrtime) + (slotCmd P s.mem c).waitTime) ∧
    P.ld64 (execWait P s node c (thrPtr t)).2.mem (node + blockPeriod) =
      (if (slotCmd P s.mem c).absolute = false ∧ (slotCmd P s.mem c).permanent = true then
        (slotCmd P s.mem c).waitTime
      else P.ld64 s.mem (node + blockPeriod)) := by
  have hwait : P.ld64 s.mem (c + tCmdWaitTime) = (slotCmd P s.mem c).waitTime := by
    have h4 : tCmdWaitTime + 4 = tCmdAct + 8 := by decide
    rw [Platform.ld64, BitVec.add_assoc, h4]
    rfl
  have hact : P.ld s.mem (c + tCmdAct) = (slotCmd P s.mem c).act := rfl
  obtain ⟨hhi, hlo⟩ := adr_periodOf hw
  have hq : thrQty = 8 := rfl
  have hend : shctlEnd = 820 := rfl
  have hne : ∀ o k, o < shctlEnd → k < 13 → P.ctl o ≠ base + k := by
    intro o k ho hk
    simp only [Apart, Platform.ctl, sharedOffs] at hctl ⊢
    omega
  -- time sum and period are different words
  have hsum : ∀ v, P.ld64 (P.st64 s.mem (thrPtr t + tTdCurrtime) v) (thrPtr t + tTdCurrtime) = v ∧
      P.ld64 (P.st64 s.mem (thrPtr t + tTdCurrtime) v) (node + blockPeriod) =
        P.ld64 s.mem (node + blockPeriod) := by
    intro v
    constructor
    · apply P.ld64_st64_same
      rw [adr_currtime P ht, adr_currtimeLo P ht]
      exact P.ctl_ne (by omega) (by omega) (by omega)
    · apply P.ld64_congr <;> apply P.st64_other <;>
        simp only [hhi, hlo, adr_currtime P ht, adr_currtimeLo P ht]
      · exact (hne _ 0 (by omega) (by decide)).symm
      · exact (hne _ 0 (by omega) (by decide)).symm
      · exact (hne _ 1 (by omega) (by decide)).symm
      · exact (hne _ 1 (by omega) (by decide)).symm
  have hper : ∀ v, P.ld64 (P.st64 s.mem (node + blockPeriod) v) (thrPtr t + tTdCurrtime) =
        P.ld64 s.mem (thrPtr t + tTdCurrtime) ∧
      P.ld64 (P.st64 s.mem (node + blockPeriod) v) (node + blockPeriod) = v := by
    intro v
    constructor
    · apply P.ld64_congr <;> apply P.st64_other <;>
        simp only [hhi, hlo, adr_currtime P ht, adr_currtimeLo P ht]
      · exact hne _ 0 (by omega) (by decide)
      · exact hne _ 1 (by omega) (by decide)
      · exact hne _ 0 (by omega) (by decide)
      · exact hne _ 1 (by omega) (by decide)
    · apply P.ld64_st64_same
      rw [hhi, hlo]
      omega
  by_cases ha : P.ld s.mem (c + tCmdAct) &&& actWaitAbsSmsk = 0
  · have habs : (slotCmd P s.mem c).absolute = false := by rw [QueuedCmd.absolute, ← hact, ha]; rfl
    by_cases hp : P.ld s.mem (c + tCmdAct) &&& actChpSmsk = 0
    · have hchp : (slotCmd P s.mem c).permanent = false := by rw [QueuedCmd.permanent, ← hact, hp]; rfl
      have hmem : (execWait P s node c (thrPtr t)).2.mem = P.st64 s.mem (thrPtr t + tTdCurrtime)
          (P.ld64 s.mem (thrPtr t + tTdCurrtime) +
            ((slotCmd P s.mem c).waitTime - P.ld64 s.mem (node + blockPeriod))) := by
        simp only [execWait, ha, hp, ne_eq, not_true_eq_false, if_false, hwait, Cpu.st64_mem]
      rw [hmem, (hsum _).1, (hsum _).2, habs, hchp, BitVec.add_assoc, BitVec.sub_add_cancel]
      exact ⟨rfl, rfl⟩
    · have hchp : (slotCmd P s.mem c).permanent = true := by
        rw [QueuedCmd.permanent, ← hact]
        exact bne_iff_ne.mpr hp
      have hmem : (execWait P s node c (thrPtr t)).2.mem =
          P.st64 s.mem (node + blockPeriod) (slotCmd P s.mem c).waitTime := by
        simp only [execWait, ha, hp, ne_eq, not_true_eq_false, not_false_eq_true, if_false, if_true,
          hwait, Cpu.st64_mem]
      rw [hmem, (hper _).1, (hper _).2, habs, hchp]
      exact ⟨rfl, rfl⟩
  · have habs : (slotCmd P s.mem c).absolute = true := by
      rw [QueuedCmd.absolute, ← hact]
      exact bne_iff_ne.mpr ha
    rw [habs, if_pos rfl]
    by_cases hnow : s.clk 0 < (slotCmd P s.mem c).waitTime - P.ld64 s.mem (node + blockPeriod)
    · have hmem : (execWait P s node c (thrPtr t)).2.mem = P.st64 s.mem (thrPtr t + tTdCurrtime)
          ((slotCmd P s.mem c).waitTime - P.ld64 s.mem (node + blockPeriod)) := by
        simp only [execWait, ha, ne_eq, not_false_eq_true, if_true, hwait, Cpu.getSysTime, hnow,
          Cpu.st64_mem]
      rw [hmem, (hsum _).1, (hsum _).2, if_pos hnow, BitVec.sub_add_cancel]
      exact ⟨rfl, rfl⟩
    · have hmem : (execWait P s node c (thrPtr t)).2.mem =
          P.st s.mem badwaitcntPtr (P.ld s.mem badwaitcntPtr + 1) := by
        simp only [execWait, ha, ne_eq, not_false_eq_true, if_true, hwait, Cpu.getSysTime, hnow,
          if_false, Cpu.st_mem]
      have htimes := times_agree hw ht ((AgreeOn.refl (timeWordsOf P t base) s.mem).stTimes hctl ht
        (Or.inr (Or.inl (adr_badwaitcnt P))) (v := P.ld s.mem badwaitcntPtr + 1))
      rw [hmem, htimes.1, htimes.2, if_neg hnow]
      exact ⟨rfl, rfl⟩

/-- What the action handler of a command does to the times, and where it sends the
thread. -/
theorem action_effect {s : Cpu} {c : Word} {atype : ActType}
    (harg : P.adr (c + (tCmdAct + 4)) ≠ base + 7)
    (htype : ActType.ofNum? (actType (P.ld s.mem (c + tCmdAct))) = some atype) :
    (P.ld64 (actionFuncs P atype s node c (thrPtr t)).2.mem (thrPtr t + tTdCurrtime) +
          P.ld64 (actionFuncs P atype s node c (thrPtr t)).2.mem (node + blockPeriod) =
        servedSum (P.ld64 s.mem (thrPtr t + tTdCurrtime)) (P.ld64 s.mem (node + blockPeriod))
          (some (slotCmd P s.mem c, s.clk 0)) ∧
      P.ld64 (actionFuncs P atype s node c (thrPtr t)).2.mem (node + blockPeriod) =
        servedPeriod (P.ld64 s.mem (node + blockPeriod)) (some (slotCmd P s.mem c, s.clk 0))) ∧
    ((actionFuncs P atype s node c (thrPtr t)).1 = lm32NullPtr ∨
      (actionFuncs P atype s node c (thrPtr t)).1 = P.defDest s.mem node ∨
      (actType (slotCmd P s.mem c).act = 2 ∨ actType (slotCmd P s.mem c).act = 3) ∧
        (actionFuncs P atype s node c (thrPtr t)).1 = (slotCmd P s.mem c).arg1) := by
  have hslot : (slotCmd P s.mem c).act = P.ld s.mem (c + tCmdAct) := rfl
  have hnum : actType (P.ld s.mem (c + tCmdAct)) = atype.ctorIdx := by
    revert htype
    generalize actType (P.ld s.mem (c + tCmdAct)) = n
    rcases n with _ | _ | _ | _ | _ | n <;> simp only [ActType.ofNum?, Option.some.injEq] <;>
      first | exact fun h => absurd h (by simp) | (rintro rfl; rfl)
  have hdef : ∀ {m' : Mem}, m' (base + 12) = s.mem (base + 12) →
      P.defDest m' node = P.defDest s.mem node := by
    intro m' h
    rw [Platform.defDest, Platform.defDest, Platform.ld, Platform.ld, adr_defDestOf hw, h]
  have hctlne : ∀ o, o < shctlEnd → base + 12 ≠ P.ctl o := by
    intro o ho
    have hend : shctlEnd = 820 := rfl
    simp only [Apart, Platform.ctl, sharedOffs] at hctl ⊢
    omega
  obtain ⟨hhi, hlo⟩ := adr_periodOf hw
  by_cases hwait : atype = .wait
  · subst hwait
    have h4 : actType (P.ld s.mem (c + tCmdAct)) = 4 := hnum
    refine ⟨?_, Or.inr (Or.inl ?_)⟩
    · have htimes := wait_times hw hctl ht s c
      simp only [servedSum, servedPeriod, hslot, h4, if_true, true_and]
      exact htimes
    · have hq : thrQty = 8 := rfl
      have hend : shctlEnd = 820 := rfl
      have hcur : ∀ v, P.st64 s.mem (thrPtr t + tTdCurrtime) v (base + 12) = s.mem (base + 12) := by
        intro v
        apply P.st64_other
        · rw [adr_currtime P ht]
          exact hctlne _ (by omega)
        · rw [adr_currtimeLo P ht]
          exact hctlne _ (by omega)
      simp only [actionFuncs, execWait]
      apply hdef
      by_cases ha : P.ld s.mem (c + tCmdAct) &&& actWaitAbsSmsk ≠ 0
      · rw [if_pos ha]
        by_cases hnow : s.getSysTime.1 < P.ld64 s.mem (c + tCmdWaitTime) - P.ld64 s.mem (node + blockPeriod)
        · rw [if_pos hnow]
          exact hcur _
        · rw [if_neg hnow]
          exact P.st_other (by rw [adr_badwaitcnt]; exact hctlne _ (by decide))
      · rw [if_neg ha]
        by_cases hp : P.ld s.mem (c + tCmdAct) &&& actChpSmsk ≠ 0
        · rw [if_pos hp]
          exact P.st64_other (by rw [hhi]; omega) (by rw [hlo]; omega)
        · rw [if_neg hp]
          exact hcur _
  · refine ⟨?_, ?_⟩
    · obtain ⟨hsum, hper⟩ := times_agree hw ht (action_times hw hctl ht hwait s c (thrPtr t))
      have h4 : actType (slotCmd P s.mem c).act ≠ 4 := by
        rw [hslot, hnum]
        cases atype <;> first | exact absurd rfl hwait | decide
      rw [hsum, hper, servedSum, servedPeriod, if_neg h4, if_neg fun h => h4 h.1]
      exact ⟨rfl, rfl⟩
    · rw [hslot, hnum]
      cases atype with
      | unknown => exact Or.inl rfl
      | noop => exact Or.inr (Or.inl rfl)
      | flow =>
          refine Or.inr (Or.inr ⟨Or.inl rfl, ?_⟩)
          simp only [actionFuncs, execFlow]
          split <;> rfl
      | flush =>
          have hovr : ∀ v, P.ld (P.st s.mem (node + blockCmdqRdIdxs) v) (c + tCmdFlushOvr) =
              (slotCmd P s.mem c).arg1 := fun v => P.ld_st_other (by rw [adr_rdIdxsOf hw]; exact harg)
          simp only [actionFuncs, execFlush, Cpu.st_mem, hovr]
          split
          · refine Or.inr (Or.inr ⟨Or.inr rfl, ?_⟩)
            split <;> rfl
          · refine Or.inr (Or.inl (hdef (P.st_other ?_)))
            rw [adr_rdIdxsOf hw]
            omega
      | wait => exact absurd rfl hwait

/-- **Time of a visit**: what the visit does to the time sum of its thread and to the
period of the block, and where the thread goes. -/
theorem block_times {s' : Cpu} {r : Word} {lst : Nat → Nat} {buf : Nat → Nat → Nat}
    (hl : BlockLayout P s.mem node base lst buf)
    (h : block P s node (thrPtr t) = some (r, s')) :
    (P.ld64 s'.mem (thrPtr t + tTdCurrtime) + P.ld64 s'.mem (node + blockPeriod) =
        visitSum P s node (thrPtr t) ∧
      P.ld64 s'.mem (node + blockPeriod) = visitPeriod P s node) ∧ VisitDest P s node r := by
  have hpaint : AgreeOn (timeWordsOf P t base) s.mem (s.paint P node).mem :=
    (AgreeOn.refl _ _).stTimes hctl ht (by simp [adr_flagsOf hw])
  have hdest : P.defDest (s.paint P node).mem node = P.defDest s.mem node := by
    apply P.ld_st_other
    rw [adr_defDestOf hw, adr_flagsOf hw]
    omega
  rw [block_eq] at h
  cases hfind : findCmd P s node with
  | unset =>
      rw [hfind] at h
      exact absurd h (by simp)
  | idle s₁ =>
      rw [hfind] at h
      obtain ⟨rfl, rfl⟩ := Prod.mk.inj (Option.some.inj h)
      obtain ⟨hsum, hper⟩ := times_agree hw ht hpaint
      have hnone : servedCmd P s node = none := by rw [servedCmd, hfind]
      rw [findCmd_idle_mem P hfind, hsum, hper, visitSum, visitPeriod, hnone]
      exact ⟨⟨rfl, rfl⟩, Or.inr (Or.inr (Or.inl rfl))⟩
  | command c q s₁ =>
      rw [hfind] at h
      obtain ⟨hmem₁, p, hp, hex, hhead⟩ := findCmd_command_mem P hfind
      rw [hl.readElem_paint hp hex, readElem_eq] at hhead
      have hlt := ringSlot_lt (idxByte (P.ld s.mem (node + blockCmdqRdIdxs)) p)
      have hact : P.adr (c + tCmdAct) ∉ timeWordsOf P t base := by
        have hq : thrQty = 8 := rfl
        have hend : shctlEnd = 820 := rfl
        rw [hhead, hl.adr_slotAct hp hex hlt]
        simp only [timeWordsOf, List.mem_cons, List.not_mem_nil, or_false, not_or]
        exact ⟨(hl.ctl_ne_buf (by omega) hp hex (by omega) (by omega)).symm,
          (hl.ctl_ne_buf (by omega) hp hex (by omega) (by omega)).symm,
          hl.buf_ne_node hp hex (by omega) (by omega) (show 0 < 13 by decide),
          hl.buf_ne_node hp hex (by omega) (by omega) (by decide)⟩
      have harg : P.adr (c + (tCmdAct + 4)) ≠ base + 7 := by
        rw [hhead, show tCmdAct + 4 = BitVec.ofNat 32 (4 * 3) from rfl, hl.adr_slot hp hex hlt (by decide)]
        exact hl.buf_ne_node hp hex (by omega) (by omega) (by decide)
      rw [← hmem₁] at hpaint hdest
      obtain ⟨hsum₁, hper₁⟩ := times_agree hw ht hpaint
      have hpop : ∀ {m : Mem} (s₂ : Cpu) (p : Nat) (n : BitVec 8),
          AgreeOn (timeWordsOf P t base) m s₂.mem →
          AgreeOn (timeWordsOf P t base) m (popQueue P s₂ node p n).mem :=
        fun _ p n hagree => hagree.stTimes hctl ht (by simp [adr_rdIdxsOf hw])
      have hserved : servedCmd P s node =
          if actQty (P.ld s₁.mem (c + tCmdAct)) = 0 then none
          else some (slotCmd P s₁.mem c, s₁.clk 0) := by
        rw [servedCmd, hfind]
      simp only [serveCmd] at h
      split at h
      · -- the command is executed
        rename_i hqty
        rw [if_neg hqty] at hserved
        split at h
        · exact absurd h (by simp)
        rename_i atype htype
        obtain ⟨⟨hsum, hper⟩, hret⟩ := action_effect (s := s₁) hw hctl ht harg htype
        obtain ⟨rfl, rfl⟩ := Prod.mk.inj (Option.some.inj h)
        obtain ⟨hsum₂, hper₂⟩ := times_agree hw ht (hpop
          ((actionFuncs P atype s₁ node c (thrPtr t)).2.st P (c + tCmdAct)
            ((P.ld s₁.mem (c + tCmdAct) &&& ~~~actQtyMsk) |||
              ((actQty (P.ld s₁.mem (c + tCmdAct)) - 1) &&& actQtyMsk)))
          q (if actQty (P.ld s₁.mem (c + tCmdAct)) - 1 = 0 then 1 else 0)
          ((AgreeOn.refl _ _).st P hact))
        rw [hsum₂, hper₂, hsum, hper, hsum₁, hper₁, visitSum, visitPeriod, hserved]
        refine ⟨⟨rfl, rfl⟩, ?_⟩
        rcases hret with hret | hret | ⟨htwo, hret⟩
        · exact Or.inr (Or.inl hret)
        · exact Or.inr (Or.inr (Or.inl (hret.trans hdest)))
        · exact Or.inr (Or.inr (Or.inr ⟨_, _, hserved, htwo, hret⟩))
      · -- an exhausted command is only popped
        rename_i hqty
        rw [if_pos (not_not.mp hqty)] at hserved
        obtain ⟨hsum₂, hper₂⟩ := times_agree hw ht (hpop s₁ q 1 (AgreeOn.refl _ s₁.mem))
        split at h <;> obtain ⟨rfl, rfl⟩ := Prod.mk.inj (Option.some.inj h) <;>
          rw [hsum₂, hper₂, hsum₁, hper₁, visitSum, visitPeriod, hserved]
        · exact ⟨⟨rfl, rfl⟩, Or.inl rfl⟩
        · exact ⟨⟨rfl, rfl⟩, Or.inr (Or.inr (Or.inl rfl))⟩

end Visit

end DataMaster
