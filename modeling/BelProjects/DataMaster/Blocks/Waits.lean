import BelProjects.DataMaster.Blocks.BlockTime

/-!
# Wait commands

A wait command takes the period that the block adds behind it into account: it writes the
period itself, or the time sum less the period.  An absolute wait compares the clock with
its target less the period.
-/

namespace DataMaster

variable (P : Platform)

/-- What a wait command changes. -/
@[ext]
structure WaitState where
  time : Time
  period : Time
  badwaitcnt : Word
  deriving DecidableEq, Repr

/-- The time sum of thread `t`, the period of the block and the counter of bad waits. -/
def waitState (m : Mem) (node : Word) (t : Nat) : WaitState where
  time := thrTime P m t
  period := period P m node
  badwaitcnt := P.ld m badwaitcntPtr

def waitTime (m : Mem) (c : Word) : Time := P.ld64 m (c + tCmdWaitTime)

/-- A command of action word `act` waits for a point in time. -/
def IsAbsolute (act : Word) : Prop := act &&& actWaitAbsSmsk ≠ 0

/-- A command of action word `act` changes its block for good. -/
def IsPermanent (act : Word) : Prop := act &&& actChpSmsk ≠ 0

instance (act : Word) : Decidable (IsAbsolute act) := inferInstanceAs (Decidable (_ ≠ _))
instance (act : Word) : Decidable (IsPermanent act) := inferInstanceAs (Decidable (_ ≠ _))

/-- The effect of a wait command of wait time `w` that reads the clock at `now`. -/
def afterWait (act : Word) (now w : Time) (x : WaitState) : WaitState :=
  if IsAbsolute act then
    if now < w - x.period then { x with time := w - x.period }
    else { x with badwaitcnt := x.badwaitcnt + 1 }
  else if IsPermanent act then { x with period := w }
  else { x with time := x.time + (w - x.period) }

/-! ### The words of a wait -/

section Words

variable {P} {m : Mem} {node : Word} {base : Nat} {lst : Nat → Nat} {buf : Nat → Nat → Nat}
  (hl : BlockLayout P m node base lst buf) {t : Nat} (ht : t < thrQty)
include hl ht

theorem BlockLayout.waitState_congr {m' : Mem} (hbase : m' base = m base)
    (hbase' : m' (base + 1) = m (base + 1))
    (hctl : ∀ o, o = 188 ∨ o = 556 + t * 32 ∨ o = 560 + t * 32 → m' (P.ctl o) = m (P.ctl o)) :
    waitState P m' node t = waitState P m node t := by
  have htime : thrTime P m' t = thrTime P m t := by
    apply P.ld64_congr
    · rw [adr_currtime P ht, hctl _ (Or.inr (Or.inl rfl))]
    · rw [adr_currtimeLo P ht, hctl _ (Or.inr (Or.inr rfl))]
  have hperiod : period P m' node = period P m node := by
    apply P.ld64_congr
    · rw [hl.adr_period, hbase]
    · rw [hl.adr_periodLo, hbase']
  have hbad : P.ld m' badwaitcntPtr = P.ld m badwaitcntPtr := by
    rw [Platform.ld, Platform.ld, adr_badwaitcnt, hctl _ (Or.inl rfl)]
  rw [waitState, waitState, htime, hperiod, hbad]

theorem BlockLayout.waitState_time (v : Time) :
    waitState P (P.st64 m (thrPtr t + tTdCurrtime) v) node t =
      { waitState P m node t with time := v } := by
  have hthr : thrQty = 8 := rfl
  have hend : shctlEnd = 820 := rfl
  have htime : thrTime P (P.st64 m (thrPtr t + tTdCurrtime) v) t = v := by
    apply P.ld64_st64_same
    rw [adr_currtime P ht, adr_currtimeLo P ht]
    exact P.ctl_ne (by omega) (by omega) (by omega)
  have hperiod : period P (P.st64 m (thrPtr t + tTdCurrtime) v) node = period P m node := by
    apply P.ld64_congr <;> apply P.st64_other <;>
      simp only [hl.adr_period, hl.adr_periodLo, adr_currtime P ht, adr_currtimeLo P ht]
    · exact (hl.ctl_ne_node (k := 0) (by omega) (by decide)).symm
    · exact (hl.ctl_ne_node (k := 0) (by omega) (by decide)).symm
    · exact (hl.ctl_ne_node (by omega) (by decide)).symm
    · exact (hl.ctl_ne_node (by omega) (by decide)).symm
  have hbad : P.ld (P.st64 m (thrPtr t + tTdCurrtime) v) badwaitcntPtr = P.ld m badwaitcntPtr := by
    rw [Platform.ld, Platform.ld]
    apply P.st64_other <;> simp only [adr_badwaitcnt, adr_currtime P ht, adr_currtimeLo P ht]
    · exact P.ctl_ne (by decide) (by omega) (by omega)
    · exact P.ctl_ne (by decide) (by omega) (by omega)
  rw [waitState, htime, hperiod, hbad]
  rfl

theorem BlockLayout.waitState_period (v : Time) :
    waitState P (P.st64 m (node + blockPeriod) v) node t =
      { waitState P m node t with period := v } := by
  have hthr : thrQty = 8 := rfl
  have hend : shctlEnd = 820 := rfl
  have hctl : ∀ o, o < shctlEnd → P.st64 m (node + blockPeriod) v (P.ctl o) = m (P.ctl o) := by
    intro o ho
    apply P.st64_other
    · rw [hl.adr_period]
      exact hl.ctl_ne_node (k := 0) ho (by decide)
    · rw [hl.adr_periodLo]
      exact hl.ctl_ne_node ho (by decide)
  have htime : thrTime P (P.st64 m (node + blockPeriod) v) t = thrTime P m t := by
    apply P.ld64_congr
    · rw [adr_currtime P ht, hctl _ (by omega)]
    · rw [adr_currtimeLo P ht, hctl _ (by omega)]
  have hperiod : period P (P.st64 m (node + blockPeriod) v) node = v := by
    apply P.ld64_st64_same
    rw [hl.adr_period, hl.adr_periodLo]
    omega
  have hbad : P.ld (P.st64 m (node + blockPeriod) v) badwaitcntPtr = P.ld m badwaitcntPtr := by
    rw [Platform.ld, Platform.ld, adr_badwaitcnt, hctl _ (by decide)]
  rw [waitState, htime, hperiod, hbad]
  rfl

theorem BlockLayout.waitState_bad (v : Word) :
    waitState P (P.st m badwaitcntPtr v) node t =
      { waitState P m node t with badwaitcnt := v } := by
  have hthr : thrQty = 8 := rfl
  have htime : thrTime P (P.st m badwaitcntPtr v) t = thrTime P m t := by
    apply P.ld64_congr <;> apply P.st_other <;>
      simp only [adr_badwaitcnt, adr_currtime P ht, adr_currtimeLo P ht]
    · exact P.ctl_ne (by omega) (by decide) (by omega)
    · exact P.ctl_ne (by omega) (by decide) (by omega)
  have hperiod : period P (P.st m badwaitcntPtr v) node = period P m node := by
    apply P.ld64_congr <;> apply P.st_other <;>
      simp only [adr_badwaitcnt, hl.adr_period, hl.adr_periodLo]
    · exact (hl.ctl_ne_node (k := 0) (by decide) (by decide)).symm
    · exact (hl.ctl_ne_node (by decide) (by decide)).symm
  rw [waitState, htime, hperiod, P.ld_st_same]
  rfl

end Words

/-- `execWait` in terms of what it changes. -/
theorem BlockLayout.execWait_state {P : Platform} {s : Cpu} {node c : Word} {base : Nat}
    {lst : Nat → Nat} {buf : Nat → Nat → Nat} (hl : BlockLayout P s.mem node base lst buf) {t : Nat}
    (ht : t < thrQty) :
    waitState P (execWait P s node c (thrPtr t)).2.mem node t =
      afterWait (P.ld s.mem (c + tCmdAct)) (s.clk 0) (waitTime P s.mem c)
        (waitState P s.mem node t) := by
  unfold afterWait
  by_cases habs : IsAbsolute (P.ld s.mem (c + tCmdAct))
  · have habs' : P.ld s.mem (c + tCmdAct) &&& actWaitAbsSmsk ≠ 0 := habs
    rw [if_pos habs]
    by_cases hlater : s.clk 0 < waitTime P s.mem c - (waitState P s.mem node t).period
    · have hlater' : s.getSysTime.1 <
          P.ld64 s.mem (c + tCmdWaitTime) - P.ld64 s.mem (node + blockPeriod) := hlater
      have hmem : (execWait P s node c (thrPtr t)).2.mem =
          P.st64 s.mem (thrPtr t + tTdCurrtime) (waitTime P s.mem c - period P s.mem node) := by
        simp only [execWait, if_pos habs', if_pos hlater']
        rfl
      rw [if_pos hlater, hmem, hl.waitState_time ht]
      rfl
    · have hlater' : ¬ s.getSysTime.1 <
          P.ld64 s.mem (c + tCmdWaitTime) - P.ld64 s.mem (node + blockPeriod) := hlater
      have hmem : (execWait P s node c (thrPtr t)).2.mem =
          P.st s.mem badwaitcntPtr (P.ld s.mem badwaitcntPtr + 1) := by
        simp only [execWait, if_pos habs', if_neg hlater']
        rfl
      rw [if_neg hlater, hmem, hl.waitState_bad ht]
      rfl
  · have habs' : ¬ P.ld s.mem (c + tCmdAct) &&& actWaitAbsSmsk ≠ 0 := habs
    rw [if_neg habs]
    by_cases hperm : IsPermanent (P.ld s.mem (c + tCmdAct))
    · have hperm' : P.ld s.mem (c + tCmdAct) &&& actChpSmsk ≠ 0 := hperm
      have hmem : (execWait P s node c (thrPtr t)).2.mem =
          P.st64 s.mem (node + blockPeriod) (waitTime P s.mem c) := by
        simp only [execWait, if_neg habs', if_pos hperm']
        rfl
      rw [if_pos hperm, hmem, hl.waitState_period ht]
    · have hperm' : ¬ P.ld s.mem (c + tCmdAct) &&& actChpSmsk ≠ 0 := hperm
      have hmem : (execWait P s node c (thrPtr t)).2.mem =
          P.st64 s.mem (thrPtr t + tTdCurrtime)
            (thrTime P s.mem t + (waitTime P s.mem c - period P s.mem node)) := by
        simp only [execWait, if_neg habs', if_neg hperm']
        rfl
      rw [if_neg hperm, hmem, hl.waitState_time ht]
      rfl

/-! ### Successor and time of a visit -/

/-- The successor of a block that executes a command with first argument `arg`. -/
def actionDest (atype : ActType) (arg defDest : Word) : Word :=
  match atype with
  | .unknown => lm32NullPtr
  | .noop | .wait => defDest
  | .flow => arg
  | .flush => if arg ≠ lm32NullPtr then arg else defDest

/-- What a command of any type changes of the thread's time. -/
def afterAction (atype : ActType) (act : Word) (now w : Time) (x : WaitState) : WaitState :=
  if atype = .wait then afterWait act now w x else x

section Action

variable {P : Platform} {s : Cpu} {node c : Word} {base : Nat} {lst : Nat → Nat}
  {buf : Nat → Nat → Nat} (hl : BlockLayout P s.mem node base lst buf)
include hl

theorem BlockLayout.action_other {atype : ActType} (hne : atype ≠ .wait) (thrData : Word) {a : Nat}
    (h7 : a ≠ base + 7) (h12 : a ≠ base + 12) (hstatus : a ≠ P.ctl 32) :
    (actionFuncs P atype s node c thrData).2.mem a = s.mem a := by
  have hdest : ∀ (s' : Cpu) (v : Word), (s'.st P (node + nodeDefDestPtr) v).mem a = s'.mem a := by
    intro s' v
    rw [Cpu.st_mem, P.st_other (by rwa [hl.adr_defDest])]
  have hrd : ∀ (s' : Cpu) (v : Word), (s'.st P (node + blockCmdqRdIdxs) v).mem a = s'.mem a := by
    intro s' v
    rw [Cpu.st_mem, P.st_other (by rwa [hl.adr_rdIdxs])]
  cases atype with
  | unknown =>
    change (s.setStatus P shctlStatusBadActTypeSmsk).mem a = s.mem a
    rw [Cpu.setStatus, Cpu.st_mem, P.st_other (by rwa [adr_status])]
  | noop => rfl
  | flow =>
    simp only [actionFuncs, execFlow]
    split
    · rw [hdest]
    · rfl
  | flush =>
    simp only [actionFuncs, execFlush]
    split
    · split
      · rw [hdest, hrd]
      · rw [hrd]
    · rw [hrd]
  | wait => exact absurd rfl hne

variable {t : Nat} (ht : t < thrQty)
include ht

/-- A wait leaves the default destination alone. -/
theorem BlockLayout.execWait_defDest :
    (execWait P s node c (thrPtr t)).2.mem (base + 12) = s.mem (base + 12) := by
  have hthr : thrQty = 8 := rfl
  have hend : shctlEnd = 820 := rfl
  have hctl : ∀ o, o < shctlEnd → base + 12 ≠ P.ctl o :=
    fun o ho => (hl.ctl_ne_node ho (by decide)).symm
  have htime : ∀ (m : Mem) (v : Time),
      P.st64 m (thrPtr t + tTdCurrtime) v (base + 12) = m (base + 12) := by
    intro m v
    apply P.st64_other
    · rw [adr_currtime P ht]
      exact hctl _ (by omega)
    · rw [adr_currtimeLo P ht]
      exact hctl _ (by omega)
  simp only [execWait]
  split
  · split
    · exact htime _ _
    · rw [Cpu.st_mem]
      apply P.st_other
      rw [adr_badwaitcnt]
      exact hctl _ (by decide)
  · split
    · rw [Cpu.st64_mem]
      apply P.st64_other
      · rw [hl.adr_period]
        omega
      · rw [hl.adr_periodLo]
        omega
    · exact htime _ _

theorem BlockLayout.action_dest (atype : ActType) (hc : P.adr (c + tCmdFlowDest) ≠ base + 7) :
    (actionFuncs P atype s node c (thrPtr t)).1 =
      actionDest atype (P.ld s.mem (c + tCmdFlowDest)) (P.defDest s.mem node) := by
  cases atype with
  | unknown => rfl
  | noop => rfl
  | flow =>
    simp only [actionFuncs, execFlow]
    split <;> rfl
  | flush =>
    have harg : ∀ v, P.ld (s.st P (node + blockCmdqRdIdxs) v).mem (c + tCmdFlushOvr) =
        P.ld s.mem (c + tCmdFlowDest) := by
      intro v
      apply P.ld_st_other
      rw [hl.adr_rdIdxs]
      exact hc
    have hdest : ∀ v, P.defDest (s.st P (node + blockCmdqRdIdxs) v).mem node =
        P.defDest s.mem node := by
      intro v
      apply P.ld_st_other
      rw [hl.adr_defDest, hl.adr_rdIdxs]
      omega
    simp only [actionFuncs, execFlush, actionDest, harg, hdest]
    split
    · split <;> rfl
    · rfl
  | wait =>
    change P.defDest (execWait P s node c (thrPtr t)).2.mem node = P.defDest s.mem node
    rw [Platform.defDest, Platform.defDest, Platform.ld, Platform.ld, hl.adr_defDest,
      hl.execWait_defDest ht]

theorem BlockLayout.action_state (atype : ActType) :
    waitState P (actionFuncs P atype s node c (thrPtr t)).2.mem node t =
      afterAction atype (P.ld s.mem (c + tCmdAct)) (s.clk 0) (waitTime P s.mem c)
        (waitState P s.mem node t) := by
  have hthr : thrQty = 8 := rfl
  have hend : shctlEnd = 820 := rfl
  unfold afterAction
  split
  next hwait =>
    subst hwait
    exact hl.execWait_state ht
  next hne =>
    apply hl.waitState_congr ht
    · exact hl.action_other hne _ (by omega) (by omega) (hl.ctl_ne_node (k := 0) (by decide) (by decide)).symm
    · exact hl.action_other hne _ (by omega) (by omega) (hl.ctl_ne_node (by decide) (by decide)).symm
    · intro o ho
      exact hl.action_other hne _ (hl.ctl_ne_node (by omega) (by decide))
        (hl.ctl_ne_node (by omega) (by decide)) (P.ctl_ne (by omega) (by decide) (by omega))

end Action

/-! ### A visit that executes a command -/

/-- A visit finds the command at `c`, which has a quantity left and type `atype`, and
executes it from `s₁`. -/
structure Runs (P : Platform) (s : Cpu) (node c : Word) (atype : ActType) (s₁ : Cpu) : Prop where
  found : ∃ e, findCmd P s node = .command c e s₁
  qty : actQty (P.ld s.mem (c + tCmdAct)) ≠ 0
  type : ActType.ofNum? (actType (P.ld s.mem (c + tCmdAct))) = some atype

/-- The visit goes on where the command says; the thread's time has the effect of the command
and the time step with the period it has left. -/
theorem BlockLayout.visit_runs {P : Platform} {s s₁ : Cpu} {node c : Word} {atype : ActType}
    {base : Nat} {lst : Nat → Nat} {buf : Nat → Nat → Nat}
    (hl : BlockLayout P s.mem node base lst buf) {t : Nat} (ht : t < thrQty)
    (hrun : Runs P s node c atype s₁) (aligned : Bool) {x : WaitState}
    (hx : x = afterAction atype (P.ld s.mem (c + tCmdAct)) (s₁.clk 0) (waitTime P s.mem c)
      (waitState P s.mem node t)) :
    ∃ s', visitBlock P aligned s node (thrPtr t) =
        some (actionDest atype (P.ld s.mem (c + tCmdFlowDest)) (P.defDest s.mem node), s') ∧
      waitState P s'.mem node t = { x with time := timeStep aligned x.time x.period } ∧
      dl P s'.mem (thrPtr t) = thrTime P s'.mem t := by
  have hthr : thrQty = 8 := rfl
  have hend : shctlEnd = 820 := rfl
  obtain ⟨e, hfind⟩ := hrun.found
  obtain ⟨-, hmem⟩ := hl.findCmd_command hfind
  have hl₁ : BlockLayout P s₁.mem node base lst buf := by
    rw [hmem]
    exact hl.of_sameShape hl.paint_sameShape
  have hstate₁ : waitState P s₁.mem node t = waitState P s.mem node t := by
    rw [hmem]
    apply hl.waitState_congr ht
    · exact hl.paint_other (by omega)
    · exact hl.paint_other (by omega)
    · intro o ho
      exact hl.paint_other (hl.ctl_ne_node (by omega) (by decide))
  have harg : P.ld s₁.mem (c + tCmdFlowDest) = P.ld s.mem (c + tCmdFlowDest) :=
    hl.ld_found hfind (k := 3) (by decide)
  have htime₁ : waitTime P s₁.mem c = waitTime P s.mem c := by
    have hlo := hl.ld_found hfind (k := 4) (by decide)
    rw [waitTime, waitTime, Platform.ld64, Platform.ld64, BitVec.add_assoc,
      show tCmdWaitTime + 4 = BitVec.ofNat 32 (4 * 4) from rfl, hlo,
      show tCmdWaitTime = tCmdFlowDest from rfl, harg]
  have hdest₁ : P.defDest s₁.mem node = P.defDest s.mem node := by
    rw [hmem]
    exact hl.defDest_paint
  have hc : P.adr (c + tCmdFlowDest) ≠ base + 7 := by
    obtain ⟨q, i, hq, hex, hi, hadr⟩ := hl.adr_found hfind (k := 3) (by decide)
    rw [show tCmdFlowDest = BitVec.ofNat 32 (4 * 3) from rfl, hadr]
    exact hl.slotAdr_ne_node hq hex hi (by decide) (by decide)
  obtain ⟨s₂, hblock, -, hwords⟩ := hl.block_executes hfind (thrPtr t) hrun.qty hrun.type
  rw [hl₁.action_dest ht atype hc, harg, hdest₁] at hblock
  have hvisit : ∃ s', visitBlock P aligned s node (thrPtr t) =
      some (actionDest atype (P.ld s.mem (c + tCmdFlowDest)) (P.defDest s.mem node), s') := by
    rw [visitBlock_eq, hblock]
    exact ⟨_, rfl⟩
  obtain ⟨s', hvisit⟩ := hvisit
  obtain ⟨s₃, hblock', hleaves⟩ := visitBlock_leaves P ht hvisit
  rw [hblock] at hblock'
  obtain ⟨-, rfl⟩ := Prod.mk.inj (Option.some.inj hblock')
  have hstate₂ : waitState P s₂.mem node t = x := by
    have hl₃ := hl₁.of_sameShape (hl₁.action_elems (c := c)
      (by rw [hl.ld_foundAct hfind]; exact hrun.type) ht).1
    rw [hx, ← hstate₁, ← htime₁, ← hl.ld_foundAct hfind, ← hl₁.action_state ht]
    apply hl₃.waitState_congr ht
    · exact hwords _ (hl.adr_foundAct_ne hfind (n := 0) (by decide)).symm (by omega)
    · exact hwords _ (hl.adr_foundAct_ne hfind (by decide)).symm (by omega)
    · intro o ho
      exact hwords _ (hl.adr_foundAct_ctl hfind (by omega)).symm (hl.ctl_ne_node (by omega) (by decide))
  have hperiod : period P s'.mem node = period P s₂.mem node := by
    apply P.ld64_congr
    · rw [hl.adr_period]
      exact hleaves.frame _ fun o ho ho' => (hl.ctl_ne_node (k := 0) (by omega) (by decide)).symm
    · rw [hl.adr_periodLo]
      exact hleaves.frame _ fun o ho ho' => (hl.ctl_ne_node (by omega) (by decide)).symm
  have hbad : P.ld s'.mem badwaitcntPtr = P.ld s₂.mem badwaitcntPtr := by
    rw [Platform.ld, Platform.ld, adr_badwaitcnt]
    apply hleaves.frame
    intro o ho ho'
    simp only [Platform.ctl, sharedOffs]
    omega
  refine ⟨s', hvisit, ?_, hleaves.deadline⟩
  rw [← hstate₂, waitState, hleaves.time, hperiod, hbad]
  rfl

/-! ### What waits mean -/

/-- What a sum needs below the end of the clock: one grid interval where it is rounded. -/
def room (aligned : Bool) : Nat := if aligned then tGridSize.toNat else 1

/-- From `x` to `x'` a command of action word `act` has waited for `w`, where the clock stood
at `now`. -/
structure WaitsAs (aligned : Bool) (act : Word) (now w : Time) (x x' : WaitState) : Prop where
  relative : ¬ IsAbsolute act → ¬ IsPermanent act →
    LeftAt aligned (x.time + w) x'.time ∧ x'.period = x.period
  permanent : ¬ IsAbsolute act → IsPermanent act →
    x'.period = w ∧ LeftAt aligned (x.time + w) x'.time
  ahead : IsAbsolute act → now < w → (x.period ≤ w → now < w - x.period) →
    LeftAt aligned w x'.time
  past : IsAbsolute act → x.period ≤ w → w ≤ now →
    LeftAt aligned (x.time + x.period) x'.time ∧ x'.badwaitcnt = x.badwaitcnt + 1
  forward_relative : ¬ IsAbsolute act → x.time.toNat + w.toNat + room aligned ≤ 2 ^ 64 →
    x.time ≤ x'.time
  forward_absolute : IsAbsolute act → x.time.toNat + x.period.toNat + room aligned ≤ 2 ^ 64 →
    w.toNat + room aligned ≤ 2 ^ 64 → x'.time < x.time → w < x.time

theorem LeftAt.le {aligned : Bool} {x left : Time} (h : LeftAt aligned x left)
    (hroom : x.toNat + room aligned ≤ 2 ^ 64) : x ≤ left := by
  cases aligned with
  | false =>
    rw [show left = x from h]
    exact BitVec.le_refl _
  | true => exact (h hroom).1.1

theorem toNat_add_of_room {aligned : Bool} {x y : Time}
    (h : x.toNat + y.toNat + room aligned ≤ 2 ^ 64) : (x + y).toNat = x.toNat + y.toNat := by
  have hpos : 0 < room aligned := by cases aligned <;> decide
  rw [BitVec.toNat_add, Nat.mod_eq_of_lt (by omega)]

theorem LeftAt.le_add {aligned : Bool} {x y left : Time} (h : LeftAt aligned (x + y) left)
    (hroom : x.toNat + y.toNat + room aligned ≤ 2 ^ 64) : x ≤ left := by
  have hsum := toNat_add_of_room hroom
  refine BitVec.le_trans ?_ (h.le (by rw [hsum]; exact hroom))
  rw [BitVec.le_def, hsum]
  exact Nat.le_add_right _ _

/-- Less a longer period, a target is far ahead. -/
theorem lt_sub_of_lt {now w p : Time} (hnow : now < w) (hp : w < p) : now < w - p := by
  have hlt := p.isLt
  rw [BitVec.lt_def] at hnow hp ⊢
  rw [BitVec.toNat_sub, Nat.mod_eq_of_lt (by omega)]
  omega

theorem afterWait_waits (aligned : Bool) (act : Word) (now w : Time) (x : WaitState)
    {x' y : WaitState} (hy : y = afterWait act now w x)
    (hx' : x' = { y with time := timeStep aligned y.time y.period }) :
    WaitsAs aligned act now w x x' := by
  have hleft : LeftAt aligned (y.time + y.period) x'.time := by
    rw [hx']
    exact timeStep_leftAt aligned _ _
  have hperiod : x'.period = y.period := by rw [hx']
  have hbad : x'.badwaitcnt = y.badwaitcnt := by rw [hx']
  by_cases habs : IsAbsolute act
  · rw [afterWait, if_pos habs] at hy
    by_cases hlater : now < w - x.period
    · rw [if_pos hlater] at hy
      subst hy
      rw [BitVec.sub_add_cancel] at hleft
      refine ⟨fun h => absurd habs h, fun h => absurd habs h, fun _ _ _ => hleft, ?_,
        fun h => absurd habs h, ?_⟩
      · intro _ hp hw
        rw [BitVec.lt_def, BitVec.toNat_sub_of_le hp] at hlater
        rw [BitVec.le_def] at hw
        omega
      · intro _ _ hroom hback
        exact Nat.lt_of_le_of_lt (hleft.le hroom) hback
    · rw [if_neg hlater] at hy
      subst hy
      refine ⟨fun h => absurd habs h, fun h => absurd habs h, ?_, fun _ _ _ => ⟨hleft, hbad⟩,
        fun h => absurd habs h, ?_⟩
      · intro _ hnow hahead
        by_cases hp : x.period ≤ w
        · exact absurd (hahead hp) hlater
        · exact absurd (lt_sub_of_lt hnow (BitVec.not_le.mp hp)) hlater
      · intro _ hroom _ hback
        exact absurd (hleft.le_add hroom) (BitVec.not_le.mpr hback)
  · rw [afterWait, if_neg habs] at hy
    by_cases hperm : IsPermanent act
    · rw [if_pos hperm] at hy
      subst hy
      exact ⟨fun _ h => absurd hperm h, fun _ _ => ⟨hperiod, hleft⟩, fun h => absurd h habs,
        fun h => absurd h habs, fun _ hroom => hleft.le_add hroom, fun h => absurd h habs⟩
    · rw [if_neg hperm] at hy
      subst hy
      have hsum : x.time + (w - x.period) + x.period = x.time + w := by
        rw [BitVec.add_assoc, BitVec.sub_add_cancel]
      rw [hsum] at hleft
      exact ⟨fun _ _ => ⟨hleft, hperiod⟩, fun _ h => absurd h hperm, fun h => absurd h habs,
        fun h => absurd h habs, fun _ hroom => hleft.le_add hroom, fun h => absurd h habs⟩

/-- **Wait commands**: a visit that executes one leaves the thread at the time sum plus the
wait time, or at the target of an absolute wait that is further ahead than the period, or one
period later with a bad wait counted if the target is in the past. -/
theorem wait_leaves {P : Platform} {s s₁ : Cpu} {node c : Word} {base : Nat}
    {lst : Nat → Nat} {buf : Nat → Nat → Nat} (hl : BlockLayout P s.mem node base lst buf) {t : Nat}
    (ht : t < thrQty) (hrun : Runs P s node c .wait s₁) (aligned : Bool) :
    ∃ r s', visitBlock P aligned s node (thrPtr t) = some (r, s') ∧
      WaitsAs aligned (P.ld s.mem (c + tCmdAct)) (s₁.clk 0) (waitTime P s.mem c)
        (waitState P s.mem node t) (waitState P s'.mem node t) := by
  obtain ⟨s', hvisit, hstate, -⟩ := hl.visit_runs ht hrun aligned rfl
  exact ⟨_, s', hvisit, afterWait_waits aligned _ _ _ _ rfl hstate⟩

/-! ### Waits of a sample block -/

/-- `sampleBlock` with period `p` at time `now`; its command has action word `act` and wait
time `w`, the time sum of thread 0 is `x`. -/
def waitBlock (act : Word) (now w x p : Time) : Cpu :=
  let m := samplePlatform.st sampleBlockMem (sampleElem + tCmdAct) act
  let m := samplePlatform.st64 m (sampleElem + tCmdWaitTime) w
  let m := samplePlatform.st64 m (thrPtr 0 + tTdCurrtime) x
  { sampleBlockCpu with
    mem := samplePlatform.st64 m (sampleBlock + blockPeriod) p
    clk := fun _ => now }

/-- The command a visit finds, and the time at which it reads the clock. -/
def foundAt (P : Platform) (s : Cpu) (node : Word) : Option (Word × Time) :=
  match findCmd P s node with
  | .command c _ s₁ => some (c, s₁.clk 0)
  | _ => none

theorem runs_of_foundAt {P : Platform} {s : Cpu} {node c : Word} {now : Time} {atype : ActType}
    (h : foundAt P s node = some (c, now)) (hqty : actQty (P.ld s.mem (c + tCmdAct)) ≠ 0)
    (htype : ActType.ofNum? (actType (P.ld s.mem (c + tCmdAct))) = some atype) :
    ∃ s₁, Runs P s node c atype s₁ ∧ s₁.clk 0 = now := by
  unfold foundAt at h
  split at h
  next c' e s₁ hfind =>
    cases h
    exact ⟨s₁, ⟨⟨e, hfind⟩, hqty, htype⟩, rfl⟩
  next => cases h

/-- Time sum, period and bad waits behind a visit of `sampleBlock`. -/
def visited (aligned : Bool) (s : Cpu) : Option WaitState :=
  (visitBlock samplePlatform aligned s sampleBlock (thrPtr 0)).map fun o =>
    waitState samplePlatform o.2.mem sampleBlock 0

/-- A relative wait of 100 ns in a fixed block of period 20, at time sum 5. -/
theorem wait_leaves_sample : ∃ r s',
    visitBlock samplePlatform false (waitBlock 0x02400001 50 100 5 20) sampleBlock (thrPtr 0) =
        some (r, s') ∧
      WaitsAs false 0x02400001 50 100 ⟨5, 20, 0⟩ (waitState samplePlatform s'.mem sampleBlock 0) := by
  have hl : BlockLayout samplePlatform (waitBlock 0x02400001 50 100 5 20).mem sampleBlock 0x20000400
      (fun q => 0x20000440 + 16 * q) (fun q j => 0x20000480 + 32 * q + 13 * j) :=
    sampleBlock_layout.of_sameShape ⟨by decide +kernel, by decide +kernel, by decide +kernel⟩
  have hrun : ∃ s₁, Runs samplePlatform (waitBlock 0x02400001 50 100 5 20) sampleBlock sampleElem
      .wait s₁ ∧ s₁.clk 0 = 50 :=
    runs_of_foundAt (by decide +kernel) (by decide +kernel) (by decide +kernel)
  obtain ⟨s₁, hrun, hnow⟩ := hrun
  obtain ⟨r, s', hvisit, hwaits⟩ := wait_leaves hl (t := 0) (by decide) hrun false
  have hact : samplePlatform.ld (waitBlock 0x02400001 50 100 5 20).mem (sampleElem + tCmdAct) =
      0x02400001 := by decide +kernel
  have htime : waitTime samplePlatform (waitBlock 0x02400001 50 100 5 20).mem sampleElem = 100 := by
    decide +kernel
  have hstate : waitState samplePlatform (waitBlock 0x02400001 50 100 5 20).mem sampleBlock 0 =
      ⟨5, 20, 0⟩ := by decide +kernel
  rw [hact, htime, hstate, hnow] at hwaits
  exact ⟨r, s', hvisit, hwaits⟩

/-- **What a wait need not do**: a permanent wait of 100 ns in an aligned block leaves time
sum 5 at the grid point 10000; an absolute wait with target 1010 that is read at time 1000, less
than the period before its target, counts as bad; a relative wait takes a time sum back when
the sum overflows. -/
theorem wait_leaves_elsewhere :
    (executed samplePlatform (waitBlock 0x0A400001 50 100 5 20) sampleBlock =
        [{ validTime := 10, act := 0x0A400001, arg1 := 0, arg2 := 100 }] ∧
      visited true (waitBlock 0x0A400001 50 100 5 20) = some ⟨10000, 100, 0⟩) ∧
    (executed samplePlatform (waitBlock 0x12400001 1000 1010 900 20) sampleBlock =
        [{ validTime := 10, act := 0x12400001, arg1 := 0, arg2 := 1010 }] ∧
      visited false (waitBlock 0x12400001 1000 1010 900 20) = some ⟨920, 20, 1⟩) ∧
    (executed samplePlatform (waitBlock 0x02400001 50 0x8000000000000000 0x8000000000000000 20)
          sampleBlock =
        [{ validTime := 10, act := 0x02400001, arg1 := 0x80000000, arg2 := 0 }] ∧
      visited false (waitBlock 0x02400001 50 0x8000000000000000 0x8000000000000000 20) =
        some ⟨0, 20, 0⟩) := by
  refine ⟨⟨?_, ?_⟩, ⟨?_, ?_⟩, ?_, ?_⟩ <;> decide +kernel

end DataMaster
