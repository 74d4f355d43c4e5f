import BelProjects.BurstGen.Tasks

/-!
# What a burst produces

A trigger action makes a burst inject messages at equal distances, up to its number of
cycles; after a toggle action it injects none beyond the deadline of the action.  The marks
of all bursts share one deadline, and a trigger is taken before a toggle, so this holds as
long as an action is not handled while another mark is pending that it would change.
-/

namespace BurstGen

/-! ### One task -/

def nthDeadline (start period : Long) (n : Nat) : Long := start + BitVec.ofNat 64 n * period

theorem nthDeadline_zero (start period : Long) : nthDeadline start period 0 = start := by
  rw [nthDeadline]
  exact (congrArg _ BitVec.zero_mul).trans (BitVec.add_zero start)

theorem nthDeadline_succ (start period : Long) (n : Nat) :
    nthDeadline start period (n + 1) = nthDeadline start period n + period := by
  rw [nthDeadline, nthDeadline, BitVec.ofNat_add, BitVec.add_mul, BitVec.add_assoc]
  exact congrArg _ (congrArg _ (BitVec.one_mul period))

namespace Task

variable {t : Task} {now : Long}

/-- Nothing is left to be produced, or nothing has been triggered. -/
def Inactive (t : Task) : Prop := t.cycle = 0 ∨ t.deadline = 0

instance (t : Task) : Decidable t.Inactive := inferInstanceAs (Decidable (_ ∨ _))

/-- The next message is due: there is none before it, or that one is over. -/
def Due (t : Task) (now : Long) : Prop :=
  t.lasttick = 0 ∨ (t.deadline - now < t.period ∧ t.lasttick < now)

instance (t : Task) (now : Long) : Decidable (t.Due now) := inferInstanceAs (Decidable (_ ∨ _))

/-- What a task does, by its state and the clock. -/
theorem fire_eq (t : Task) (now : Long) :
    t.fire now =
      if (t.deadline - now).toInt ≤ 0 then
        ⟨none, statusErr, if t.failed = 0 then { t with failed := now } else t, false⟩
      else if t.Inactive then ⟨none, statusNotReady, t, false⟩
      else if t.Due now then ⟨some t.deadline, statusOk, (t.advance now).1, (t.advance now).2⟩
      else ⟨none, statusIdle, t, false⟩ := by
  have henabled : ¬ (t.flag &&& (if ctlEn = ctlDis then 1 else 0) ≠ 0) := by
    rw [if_neg (by decide)]
    exact not_not.mpr BitVec.and_zero
  rw [fire]
  simp only [henabled, if_false]
  by_cases hlate : (t.deadline - now).toInt ≤ 0
  · simp only [hlate, true_and, if_true]
    rw [if_pos (by decide)]
  · simp only [hlate, false_and, if_false]
    by_cases hin : t.Inactive
    · have hresult : (if t.deadline = 0 then statusNotReady else
          if t.cycle = 0 then statusNotReady else statusOk) = statusNotReady := by
        rcases hin with h | h
        · rw [if_pos h, ite_self]
        · rw [if_pos h]
      rw [hresult, if_pos (by decide), if_pos hin]
    · obtain ⟨hcycle, hdeadline⟩ := not_or.mp hin
      rw [if_neg hdeadline, if_neg hcycle, if_neg (not_not.mpr rfl), if_neg hin]
      rfl

theorem fire_cases (t : Task) (now : Long) :
    ((t.fire now).message = none ∧
        ∃ failed, (t.fire now).task = { t with failed := failed }) ∨
      ((t.fire now).message = some t.deadline ∧ ¬ t.Inactive ∧
        (t.fire now).task = (t.advance now).1) := by
  rw [fire_eq]
  split
  · refine Or.inl ⟨rfl, ?_⟩
    dsimp only
    split
    · exact ⟨now, rfl⟩
    · exact ⟨t.failed, rfl⟩
  · split
    · exact Or.inl ⟨rfl, t.failed, rfl⟩
    · rename_i hactive
      split
      · exact Or.inr ⟨rfl, hactive, rfl⟩
      · exact Or.inl ⟨rfl, t.failed, rfl⟩

theorem fire_inactive (h : t.Inactive) (now : Long) :
    (t.fire now).message = none ∧ ∃ failed, (t.fire now).task = { t with failed := failed } :=
  (fire_cases t now).resolve_right fun hh => hh.2.1 h

/-- The next message is not late, and its deadline within the range of the clock. -/
structure OnTime (t : Task) (now : Long) : Prop where
  ahead : now < t.deadline
  inRange : (t.deadline - now).toNat < 2 ^ 63

theorem OnTime.elapsed (h : t.OnTime now) :
    (t.deadline - now).toNat = t.deadline.toNat - now.toNat :=
  BitVec.toNat_sub_of_le (BitVec.le_of_lt h.ahead)

theorem fire_onTime (h : t.OnTime now) (hactive : ¬ t.Inactive) :
    ((t.fire now).message, (t.fire now).task) =
      if t.Due now then (some t.deadline, (t.advance now).1) else (none, t) := by
  have hearly : ¬ (t.deadline - now).toInt ≤ 0 := by
    have hlt := BitVec.lt_def.mp h.ahead
    rw [BitVec.toInt_eq_toNat_of_lt (by have := h.inRange; omega), h.elapsed]
    omega
  rw [fire_eq, if_neg hearly, if_neg hactive]
  split <;> rfl

theorem due_iff (h : t.OnTime now) (hlast : t.lasttick ≠ 0)
    (hnext : t.deadline = t.lasttick + t.period) : t.Due now ↔ t.lasttick < now := by
  constructor
  · exact fun hdue => (hdue.resolve_left hlast).2
  · intro hover
    refine Or.inr ⟨?_, hover⟩
    have hahead := BitVec.lt_def.mp h.ahead
    have hlt := BitVec.lt_def.mp hover
    have hsum : t.deadline.toNat = (t.lasttick.toNat + t.period.toNat) % 2 ^ 64 := by
      rw [hnext, BitVec.toNat_add]
    rw [BitVec.lt_def, h.elapsed]
    omega

end Task

/-! ### The firmware, seen from one burst -/

/-- The task of a burst, its marks and the deadlines that go with them. -/
structure View where
  task : Task
  trig : Bool
  togg : Bool
  trigDeadline : Long
  toggDeadline : Long

/-- Take a mark. -/
def View.ctrl (v : View) : View :=
  if v.trig then
    { v with
      trig := false
      task := { v.task with lasttick := 0, failed := 0, deadline := v.trigDeadline + v.task.setup } }
  else if v.togg then { v with togg := false, task := v.task.toggled v.toggDeadline }
  else v

def View.fired (v : View) (now : Long) : Fired := v.ctrl.task.fire now

def View.next (v : View) (now : Long) : View := { v.ctrl with task := (v.fired now).task }

def Fw.view (fw : Fw) (b : Nat) : View :=
  { task := fw.tasks b
    trig := fw.gTrigCtrl.bursts.getLsbD (b - 1)
    togg := fw.gToggCtrl.bursts.getLsbD (b - 1)
    trigDeadline := fw.gTrigCtrl.deadline
    toggDeadline := fw.gToggCtrl.deadline }

/-! ### A triggered burst -/

/-- A production of `cycles` messages has one more after the first `n`. A negative number of
cycles stands for an endless one. -/
def More (cycles : Long) (n : Nat) : Prop := cycles.toInt < 0 ∨ n < cycles.toNat

instance (cycles : Long) (n : Nat) : Decidable (More cycles n) := inferInstanceAs (Decidable (_ ∨ _))

def cyclesLeft (cycles : Long) (n : Nat) : Long :=
  if cycles.toInt < 0 then cycles else cycles - BitVec.ofNat 64 n

/-- A burst that was triggered at deadline `D` with so many cycles, and has injected `n`
messages since then. -/
inductive Producing (D cycles : Long) (v : View) : Nat → Prop
  | pending : v.trig = true → v.togg = false → v.trigDeadline = D → v.task.cycle = cycles →
      D + v.task.setup ≠ 0 → Producing D cycles v 0
  | active (n : Nat) : v.trig = false → v.togg = false → More cycles (n + 1) →
      v.task.cycle = cyclesLeft cycles (n + 1) →
      v.task.lasttick = nthDeadline (D + v.task.setup) v.task.period n → v.task.lasttick ≠ 0 →
      v.task.deadline = nthDeadline (D + v.task.setup) v.task.period (n + 1) →
      v.task.deadline ≠ 0 → Producing D cycles v (n + 1)
  | complete (n : Nat) : v.trig = false → v.togg = false → ¬ More cycles n → v.task.cycle = 0 →
      Producing D cycles v n

/-- The time at which message `n` is due: at once for the first one, then after the one
before. -/
def DueAt (start period : Long) (now : Long) : Nat → Prop
  | 0 => True
  | n + 1 => nthDeadline start period n < now

instance (start period now : Long) : (n : Nat) → Decidable (DueAt start period now n)
  | 0 => inferInstanceAs (Decidable True)
  | n + 1 => inferInstanceAs (Decidable (nthDeadline start period n < now))

/-- The task may be run: what it produces is not late, and no deadline comes to the value 0,
which stands for none. -/
def View.RunsOnTime (v : View) (now : Long) : Prop :=
  ¬ v.ctrl.task.Inactive → v.ctrl.task.OnTime now ∧
    (v.ctrl.task.cycle = 1 ∨ v.ctrl.task.deadline + v.ctrl.task.period ≠ 0)

theorem cyclesLeft_toNat {cycles : Long} {n : Nat} (hpos : ¬ cycles.toInt < 0)
    (h : n < cycles.toNat) :
    (cyclesLeft cycles n).toNat = cycles.toNat - n ∧ cycles.toNat < 2 ^ 63 := by
  have hc := cycles.isLt
  have hrange : cycles.toNat < 2 ^ 63 := by
    by_contra hge
    exact hpos (BitVec.toInt_neg_iff.mpr (by omega))
  refine ⟨?_, hrange⟩
  rw [cyclesLeft, if_neg hpos, BitVec.toNat_sub_of_le]
  · rw [BitVec.toNat_ofNat, Nat.mod_eq_of_lt (by omega)]
  · rw [BitVec.le_def, BitVec.toNat_ofNat, Nat.mod_eq_of_lt (by omega)]
    exact Nat.le_of_lt h

theorem cyclesLeft_ne_zero {cycles : Long} {n : Nat} (h : More cycles n) : cyclesLeft cycles n ≠ 0 := by
  by_cases hneg : cycles.toInt < 0
  · rw [cyclesLeft, if_pos hneg]
    rintro rfl
    exact absurd hneg (by decide)
  · intro hzero
    have hlt := h.resolve_left hneg
    have hleft := (cyclesLeft_toNat hneg hlt).1
    rw [hzero] at hleft
    exact absurd hleft (by simp; omega)

theorem advance_cycle {t : Task} {cycles : Long} {n : Nat} (now : Long) (hmore : More cycles n)
    (hcycle : t.cycle = cyclesLeft cycles n) :
    (More cycles (n + 1) ∧ t.cycle ≠ 1 ∧ (t.advance now).1 =
        { t with
          action := now, lasttick := t.deadline, deadline := t.deadline + t.period
          cycle := cyclesLeft cycles (n + 1) }) ∨
      (¬ More cycles (n + 1) ∧ t.cycle = 1 ∧ (t.advance now).1.cycle = 0) := by
  by_cases hneg : cycles.toInt < 0
  · refine Or.inl ⟨Or.inl hneg, ?_, ?_⟩
    · rw [hcycle, cyclesLeft, if_pos hneg]
      rintro rfl
      exact absurd hneg (by decide)
    have hleft : ∀ k, cyclesLeft cycles k = cycles := fun k => if_pos hneg
    have hno : ¬ 0 < t.cycle.toInt := by
      rw [hcycle, hleft]
      omega
    rw [hleft] at hcycle ⊢
    rw [Task.advance, if_neg hno, ← hcycle]
  · have hlt := hmore.resolve_left hneg
    obtain ⟨hnat, hrange⟩ := cyclesLeft_toNat hneg hlt
    have hpos : 0 < t.cycle.toInt := by
      rw [hcycle, BitVec.toInt_eq_toNat_of_lt (by omega), hnat]
      omega
    have hnext : t.cycle - 1 = cyclesLeft cycles (n + 1) := by
      rw [hcycle, cyclesLeft, cyclesLeft, if_neg hneg, if_neg hneg, BitVec.ofNat_add,
        BitVec.sub_sub]
      rfl
    rw [Task.advance, if_pos hpos]
    dsimp only
    rw [hnext]
    by_cases hmore' : More cycles (n + 1)
    · refine Or.inl ⟨hmore', fun hone => ?_, ?_⟩
      · rw [hone] at hnext
        exact cyclesLeft_ne_zero hmore' hnext.symm
      · rw [if_neg (cyclesLeft_ne_zero hmore')]
    · have hlast : cycles.toNat = n + 1 := by
        have hge := (not_or.mp hmore').2
        omega
      have hone : t.cycle = 1 := by
        apply BitVec.eq_of_toNat_eq
        rw [hcycle, hnat, hlast]
        simp
      have hzero : cyclesLeft cycles (n + 1) = 0 := by
        rw [← hnext, hone]
        rfl
      refine Or.inr ⟨hmore', hone, ?_⟩
      rw [if_pos hzero]
      exact hzero

theorem more_zero_iff (cycles : Long) : More cycles 0 ↔ cycles ≠ 0 := by
  constructor
  · rintro h rfl
    rcases h with h | h
    · exact absurd h (by decide)
    · exact absurd h (by decide)
  · intro h
    refine Or.inr (Nat.pos_of_ne_zero fun hzero => h ?_)
    exact BitVec.eq_of_toNat_eq hzero

theorem cyclesLeft_zero (cycles : Long) : cyclesLeft cycles 0 = cycles := by
  rw [cyclesLeft, ite_eq_left_iff]
  intro _
  exact BitVec.sub_zero cycles

/-- The task has taken its mark, if it had one, and is to send message `n`. -/
structure Ready (D cycles : Long) (t : Task) (n : Nat) : Prop where
  more : More cycles n
  cycle : t.cycle = cyclesLeft cycles n
  deadline : t.deadline = nthDeadline (D + t.setup) t.period n
  deadline_ne : t.deadline ≠ 0

theorem Ready.active {D cycles : Long} {t : Task} {n : Nat} (h : Ready D cycles t n) :
    ¬ t.Inactive :=
  not_or.mpr ⟨h.cycle ▸ cyclesLeft_ne_zero h.more, h.deadline_ne⟩

theorem Ready.fire {D cycles : Long} {v : View} {n : Nat} {now : Long} (htrig : v.ctrl.trig = false)
    (htogg : v.ctrl.togg = false) (h : Ready D cycles v.ctrl.task n) (hrun : v.RunsOnTime now) :
    (v.ctrl.task.Due now → (v.fired now).message = some v.ctrl.task.deadline ∧
        Producing D cycles (v.next now) (n + 1)) ∧
      (¬ v.ctrl.task.Due now → (v.fired now).message = none ∧ v.next now = v.ctrl) := by
  obtain ⟨htime, hwrap⟩ := hrun h.active
  have hfire := Task.fire_onTime htime h.active
  constructor
  · intro hdue
    rw [if_pos hdue] at hfire
    obtain ⟨hmsg, htask⟩ := Prod.mk.inj hfire
    refine ⟨hmsg, ?_⟩
    have hnext : v.next now = { v.ctrl with task := (v.ctrl.task.advance now).1 } := by
      rw [View.next, View.fired, htask]
    rw [hnext]
    have hpos : v.ctrl.task.deadline ≠ 0 := h.deadline_ne
    rcases advance_cycle now h.more h.cycle with ⟨hmore, hone, hadv⟩ | ⟨hlast, -, hzero⟩
    · rw [hadv]
      refine .active n htrig htogg hmore rfl h.deadline hpos ?_ (hwrap.resolve_left hone)
      dsimp only
      rw [h.deadline, nthDeadline_succ]
    · exact .complete (n + 1) htrig htogg hlast hzero
  · intro hdue
    rw [if_neg hdue] at hfire
    obtain ⟨hmsg, htask⟩ := Prod.mk.inj hfire
    refine ⟨hmsg, ?_⟩
    rw [View.next, View.fired, htask]

/-- **The task of a triggered burst** injects the next message when it is due, as long as
there are more, and nothing else. -/
theorem Producing.next {D cycles : Long} {v : View} {n : Nat} (h : Producing D cycles v n)
    {now : Long} (hrun : v.RunsOnTime now) :
    (v.fired now).message =
        (if More cycles n ∧ DueAt (D + v.task.setup) v.task.period now n then
          some (nthDeadline (D + v.task.setup) v.task.period n) else none) ∧
      Producing D cycles (v.next now)
        (if More cycles n ∧ DueAt (D + v.task.setup) v.task.period now n then n + 1 else n) := by
  have hdone : ∀ {w : View} (n : Nat), v.ctrl = w → w.trig = false → w.togg = false → ¬ More cycles n →
      w.task.cycle = 0 → (v.fired now).message = none ∧ Producing D cycles (v.next now) n := by
    rintro w n rfl htrig htogg hno hzero
    obtain ⟨hmsg, failed, htask⟩ := Task.fire_inactive (Or.inl hzero) now
    have hnext : v.next now = { v.ctrl with task := { v.ctrl.task with failed := failed } } := by
      rw [View.next, View.fired, htask]
    rw [hnext]
    exact ⟨hmsg, .complete n htrig htogg hno hzero⟩
  cases h with
  | pending htrig htogg hD hcycle hne =>
      have hctrl : v.ctrl = { v with
          trig := false
          task := { v.task with lasttick := 0, failed := 0, deadline := v.trigDeadline + v.task.setup } } := by
        rw [View.ctrl, if_pos htrig]
      by_cases hmore : More cycles 0
      · rw [if_pos ⟨hmore, trivial⟩, if_pos ⟨hmore, trivial⟩]
        have hready : Ready D cycles v.ctrl.task 0 := by
          rw [hctrl]
          refine ⟨hmore, hcycle.trans (cyclesLeft_zero cycles).symm, ?_, ?_⟩
          · rw [nthDeadline_zero, hD]
          · rw [hD]
            exact hne
        obtain ⟨hmsg, hprod⟩ := (hready.fire (by rw [hctrl]) (by rw [hctrl]; exact htogg) hrun).1
          (Or.inl (by rw [hctrl]))
        refine ⟨hmsg.trans ?_, hprod⟩
        rw [hready.deadline, hctrl]
      · rw [if_neg fun hh => hmore hh.1, if_neg fun hh => hmore hh.1]
        refine hdone 0 hctrl rfl htogg hmore ?_
        rw [hcycle]
        exact not_not.mp fun hh => hmore ((more_zero_iff cycles).mpr hh)
  | active n htrig htogg hmore hcycle hlast hlastNe hdeadline hne =>
      have hctrl : v.ctrl = v := by
        rw [View.ctrl, htrig, htogg, if_neg Bool.false_ne_true, if_neg Bool.false_ne_true]
      have hready : Ready D cycles v.ctrl.task (n + 1) := by
        rw [hctrl]
        exact ⟨hmore, hcycle, hdeadline, hne⟩
      have htime := (hrun hready.active).1
      rw [hctrl] at htime
      have hdue : v.ctrl.task.Due now ↔ DueAt (D + v.task.setup) v.task.period now (n + 1) := by
        rw [hctrl, Task.due_iff htime hlastNe ?_, DueAt, hlast]
        rw [hdeadline, hlast, nthDeadline_succ]
      have hfire := hready.fire (by rw [hctrl, htrig]) (by rw [hctrl, htogg]) hrun
      by_cases hd : DueAt (D + v.task.setup) v.task.period now (n + 1)
      · rw [if_pos ⟨hmore, hd⟩, if_pos ⟨hmore, hd⟩]
        obtain ⟨hmsg, hprod⟩ := hfire.1 (hdue.mpr hd)
        refine ⟨hmsg.trans ?_, hprod⟩
        rw [hctrl, hdeadline]
      · rw [if_neg fun hh => hd hh.2, if_neg fun hh => hd hh.2]
        obtain ⟨hmsg, hnext⟩ := hfire.2 fun hh => hd (hdue.mp hh)
        refine ⟨hmsg, ?_⟩
        rw [hnext, hctrl]
        exact .active n htrig htogg hmore hcycle hlast hlastNe hdeadline hne
  | complete n htrig htogg hno hzero =>
      have hctrl : v.ctrl = v := by
        rw [View.ctrl, htrig, htogg, if_neg Bool.false_ne_true, if_neg Bool.false_ne_true]
      rw [if_neg fun hh => hno hh.1, if_neg fun hh => hno hh.1]
      exact hdone n hctrl htrig htogg hno hzero

/-! ### A toggled burst -/

/-- A toggle deadline that a running task can count its remaining cycles to. -/
def Task.CountsTo (t : Task) (T : Long) : Prop :=
  t.deadline < T → t.period ≠ 0 ∧ (T - t.deadline).toNat / t.period.toNat + 1 < 2 ^ 63

/-- The messages left have deadlines up to `T`. -/
def Task.EndsBy (t : Task) (T : Long) : Prop :=
  t.Inactive ∨ (0 < t.cycle.toInt ∧
    t.deadline.toNat + (t.cycle.toNat - 1) * t.period.toNat ≤ T.toNat)

/-- A burst that was toggled and not triggered since then: it injects nothing with a deadline
after `limit`. -/
inductive Stopping (limit : Nat) (v : View) : Prop
  | pending : v.trig = false → v.togg = true →
      (v.task.Inactive ∨ v.toggDeadline.toNat ≤ limit ∧ v.task.CountsTo v.toggDeadline) →
      Stopping limit v
  | taken (T : Long) : v.trig = false → v.togg = false → T.toNat ≤ limit → v.task.EndsBy T →
      Stopping limit v

theorem Task.toggled_inactive {t : Task} (h : t.Inactive) (T : Long) : (t.toggled T).Inactive := by
  rw [Task.toggled]
  split
  · exact Or.inl rfl
  · rename_i hne
    have hzero : t.cycle = 0 := h.resolve_right hne
    split
    · exact Or.inl rfl
    · rw [if_neg (not_not.mpr hzero)]
      exact Or.inl hzero

theorem Task.toggled_endsBy {t : Task} {T : Long} (hcount : t.CountsTo T) :
    (t.toggled T).EndsBy T := by
  by_cases hin : t.Inactive
  · exact Or.inl (toggled_inactive hin T)
  obtain ⟨hcycle, hdeadline⟩ := not_or.mp hin
  rw [Task.toggled, if_neg hdeadline]
  split
  · exact Or.inl (Or.inl rfl)
  · rename_i hle
    have hlt : t.deadline < T := BitVec.not_le.mp hle
    obtain ⟨hperiod, hrange⟩ := hcount hlt
    have hltNat := BitVec.lt_def.mp hlt
    have hrem : (T - t.deadline).toNat = T.toNat - t.deadline.toNat :=
      BitVec.toNat_sub_of_le (BitVec.le_of_lt hlt)
    dsimp only
    split
    · refine Or.inr ⟨(by decide : (0 : Int) < (1 : Long).toInt), ?_⟩
      dsimp only
      rw [show (1 : Long).toNat - 1 = 0 from rfl, Nat.zero_mul]
      omega
    · have hquot : ((T - t.deadline) / t.period + 1).toNat =
          (T - t.deadline).toNat / t.period.toNat + 1 := by
        rw [BitVec.toNat_add, BitVec.toNat_udiv]
        exact Nat.mod_eq_of_lt (Nat.lt_trans hrange (by decide))
      refine Or.inr ⟨?_, ?_⟩
      · dsimp only
        rw [BitVec.toInt_eq_toNat_of_lt (by omega), hquot]
        exact Int.natCast_pos.mpr (Nat.succ_pos _)
      · dsimp only
        rw [hquot, Nat.add_sub_cancel]
        have hmul := Nat.div_mul_le_self (T - t.deadline).toNat t.period.toNat
        exact Nat.le_trans (Nat.add_le_add_left hmul _) (by omega)

/-- An injected message is within the limit, and so are those left. -/
theorem Task.endsBy_fire {t : Task} {T : Long} (h : t.EndsBy T) (now : Long) :
    (∀ d, (t.fire now).message = some d → d.toNat ≤ T.toNat) ∧ (t.fire now).task.EndsBy T := by
  rcases fire_cases t now with ⟨hmsg, failed, htask⟩ | ⟨hmsg, hactive, htask⟩
  · rw [hmsg, htask]
    exact ⟨fun d hd => absurd hd (Option.some_ne_none d).symm, h⟩
  · obtain ⟨hpos, hend⟩ := h.resolve_left hactive
    have hnat : 0 < t.cycle.toNat ∧ t.cycle.toNat < 2 ^ 63 := by
      have hrange := BitVec.toInt_pos_iff.mp (Int.le_of_lt hpos)
      rw [BitVec.toInt_eq_toNat_of_lt hrange] at hpos
      omega
    rw [hmsg, htask]
    constructor
    · intro d hd
      rw [← Option.some.inj hd]
      exact Nat.le_trans (Nat.le_add_right _ _) hend
    · rw [Task.advance, if_pos hpos]
      dsimp only
      split
      · exact Or.inl (Or.inl ‹_›)
      · rename_i hleft
        have hpred : (t.cycle - 1).toNat = t.cycle.toNat - 1 :=
          BitVec.toNat_sub_of_le (by rw [BitVec.le_def]; exact hnat.1)
        have htwo : 2 ≤ t.cycle.toNat := by
          by_contra hlt
          refine hleft (BitVec.eq_of_toNat_eq ?_)
          rw [hpred]
          exact (by omega : t.cycle.toNat - 1 = 0)
        have hsplit : (t.cycle.toNat - 1) * t.period.toNat =
            t.period.toNat + (t.cycle.toNat - 1 - 1) * t.period.toNat := by
          obtain ⟨k, hk⟩ := Nat.exists_eq_add_of_le htwo
          rw [hk, show 2 + k - 1 = k + 1 by omega, Nat.add_sub_cancel, Nat.succ_mul, Nat.add_comm]
        have hsum : (t.deadline + t.period).toNat = t.deadline.toNat + t.period.toNat := by
          rw [BitVec.toNat_add]
          apply Nat.mod_eq_of_lt
          have hT := T.isLt
          omega
        refine Or.inr ⟨?_, ?_⟩
        · dsimp only
          rw [BitVec.toInt_eq_toNat_of_lt (by omega), hpred]
          omega
        · dsimp only
          rw [hpred, hsum]
          omega

/-- **The task of a toggled burst** injects nothing after the limit. -/
theorem Stopping.next {limit : Nat} {v : View} (h : Stopping limit v) (now : Long) :
    (∀ d, (v.fired now).message = some d → d.toNat ≤ limit) ∧ Stopping limit (v.next now) := by
  have hends : ∀ T : Long, v.ctrl.trig = false → v.ctrl.togg = false →
      T.toNat ≤ limit ∨ v.ctrl.task.Inactive → v.ctrl.task.EndsBy T →
      (∀ d, (v.fired now).message = some d → d.toNat ≤ limit) ∧ Stopping limit (v.next now) := by
    rintro T htrig htogg (hT | hin) hend
    · obtain ⟨hmsg, hleft⟩ := Task.endsBy_fire hend now
      exact ⟨fun d hd => Nat.le_trans (hmsg d hd) hT, .taken T htrig htogg hT hleft⟩
    · obtain ⟨hmsg, failed, htask⟩ := Task.fire_inactive hin now
      refine ⟨fun d hd => ?_, .taken 0 htrig htogg (Nat.zero_le _) (Or.inl ?_)⟩
      · rw [View.fired, hmsg] at hd
        exact absurd hd (Option.some_ne_none d).symm
      · rw [View.next, View.fired, htask]
        exact hin
  cases h with
  | pending htrig htogg hend =>
      have hctrl : v.ctrl = { v with togg := false, task := v.task.toggled v.toggDeadline } := by
        rw [View.ctrl, htrig, if_neg Bool.false_ne_true, if_pos htogg]
      rcases hend with hin | ⟨hle, hcount⟩
      · have hin' : v.ctrl.task.Inactive := by
          rw [hctrl]
          exact Task.toggled_inactive hin _
        exact hends 0 (by rw [hctrl, htrig]) (by rw [hctrl]) (Or.inr hin') (Or.inl hin')
      · refine hends v.toggDeadline (by rw [hctrl, htrig]) (by rw [hctrl]) (Or.inl hle) ?_
        rw [hctrl]
        exact Task.toggled_endsBy hcount
  | taken T htrig htogg hle hend =>
      have hctrl : v.ctrl = v := by
        rw [View.ctrl, htrig, htogg, if_neg Bool.false_ne_true, if_neg Bool.false_ne_true]
      exact hends T (by rw [hctrl, htrig]) (by rw [hctrl, htogg]) (Or.inl hle) (by rw [hctrl]; exact hend)

/-! ### Steps of the firmware -/

section Steps

variable {fw : Fw} {b : Nat}

theorem and_burstBit (w : Word) {id : Nat} (hid : 0 < id) (hlt : id < nBursts) :
    w &&& burstBit id ≠ 0 ↔ w.getLsbD (id - 1) = true := by
  have hbit := fun k => burstBit_getLsbD hid hlt k
  constructor
  · intro hne
    by_contra hno
    refine hne (BitVec.eq_of_getLsbD_eq fun k _ => ?_)
    have hoff : (w.getLsbD k && (burstBit id).getLsbD k) = false := by
      rw [Bool.and_eq_false_iff, ← Bool.not_eq_true, ← Bool.not_eq_true, hbit]
      by_cases hk : k + 1 = id
      · left
        have hk' : k = id - 1 := by omega
        rw [hk']
        exact hno
      · exact Or.inr hk
    rw [BitVec.getLsbD_and, hoff]
    simp
  · intro hset hzero
    have hand : (w &&& burstBit id).getLsbD (id - 1) = true := by
      rw [BitVec.getLsbD_and, hset, (hbit (id - 1)).mpr (Nat.sub_add_cancel hid)]
      rfl
    rw [hzero] at hand
    simp at hand

theorem clear_burstBit (w : Word) {id b : Nat} (hid : 0 < id) (hlt : id < nBursts) (hb : 0 < b) :
    (w &&& ~~~burstBit id).getLsbD (b - 1) = if b = id then false else w.getLsbD (b - 1) := by
  have hbit := burstBit_getLsbD hid hlt (b - 1)
  rw [Nat.sub_add_cancel hb] at hbit
  rw [BitVec.getLsbD_and, BitVec.getLsbD_not]
  split
  · rename_i heq
    rw [hbit.mpr heq, Bool.not_true, Bool.and_false, Bool.and_false]
  · rename_i hne
    have hoff : (burstBit id).getLsbD (b - 1) = false := by
      rw [← Bool.not_eq_true, hbit]
      exact hne
    rw [hoff, Bool.not_false, Bool.and_true]
    by_cases hrange : b - 1 < 32
    · rw [decide_eq_true hrange, Bool.and_true]
    · rw [BitVec.getLsbD_of_ge _ _ (Nat.not_lt.mp hrange), Bool.false_and]

theorem view_applyCtrl {id : Nat} (hid : 0 < id) (hlt : id < nBursts) (hb : 0 < b) :
    (fw.applyCtrl id).view b = if b = id then (fw.view b).ctrl else fw.view b := by
  have htrig := and_burstBit fw.gTrigCtrl.bursts hid hlt
  have htogg := and_burstBit fw.gToggCtrl.bursts hid hlt
  have hclear := fun w => clear_burstBit w hid hlt hb
  rw [Fw.applyCtrl]
  split
  · rename_i hmark
    have hset := htrig.mp hmark
    simp only [Fw.view, Fw.updateTask, hclear]
    split
    · rename_i hbi
      subst hbi
      rw [Function.update_self, View.ctrl, if_pos hset]
    · rename_i hbi
      rw [Function.update_of_ne hbi]
  · rename_i hmark
    have hunset : fw.gTrigCtrl.bursts.getLsbD (id - 1) ≠ true := fun h => hmark (htrig.mpr h)
    split
    · rename_i hmark'
      have hset := htogg.mp hmark'
      simp only [Fw.view, Fw.updateTask, hclear]
      split
      · rename_i hbi
        subst hbi
        rw [Function.update_self, View.ctrl, if_neg hunset, if_pos hset]
      · rename_i hbi
        rw [Function.update_of_ne hbi]
    · rename_i hmark'
      have hunset' : fw.gToggCtrl.bursts.getLsbD (id - 1) ≠ true := fun h => hmark' (htogg.mpr h)
      split
      · rename_i hbi
        subst hbi
        have hno : ¬ (fw.view b).trig = true := hunset
        have hno' : ¬ (fw.view b).togg = true := hunset'
        rw [View.ctrl, if_neg hno, if_neg hno']
      · rfl

/-- **One run of a task**, seen from a burst: its own task takes its mark and works on it,
another one changes nothing. -/
theorem view_task {id : Nat} (hid : 0 < id) (hlt : id < nBursts) (hb : 0 < b)
    (hint : (fw.tasks id).interval = 0) (tick now : Long) :
    (fw.step (.task id tick now)).view b = (if b = id then (fw.view b).next now else fw.view b) ∧
      fw.injected b (.task id tick now) =
        if b = id then ((fw.view b).fired now).message else none := by
  have hview : (fw.applyCtrl id).view b = if b = id then (fw.view b).ctrl else fw.view b :=
    view_applyCtrl hid hlt hb
  have hself : (fw.applyCtrl id).view id = if id = id then (fw.view id).ctrl else fw.view id :=
    view_applyCtrl hid hlt hid
  rw [if_pos rfl] at hself
  have htask : (fw.applyCtrl id).tasks id = (fw.view id).ctrl.task := congrArg View.task hself
  have hrun : fw.runTask id tick now =
      ((fw.triggerIoActions id now).1, (fw.triggerIoActions id now).2.2) := by
    rw [Fw.runTask, if_pos hint]
  constructor
  · rw [Fw.step, hrun, Fw.triggerIoActions, if_neg (Nat.ne_of_gt hid)]
    dsimp only
    by_cases hbi : b = id
    · subst hbi
      rw [if_pos rfl, View.next, View.fired, ← htask, ← hself]
      simp only [Fw.view, Fw.updateTask, Function.update_self]
    · rw [if_neg hbi] at hview
      rw [if_neg hbi, ← hview]
      simp only [Fw.view, Fw.updateTask, Function.update_of_ne hbi]
  · rw [Fw.injected]
    by_cases hbi : b = id
    · subst hbi
      rw [if_pos rfl, if_pos rfl, hrun, Fw.triggerIoActions, if_neg (Nat.ne_of_gt hid), View.fired,
        ← htask]
    · rw [if_neg fun h => hbi h.symm, if_neg hbi]

theorem view_next_const (v : View) (now : Long) :
    (v.next now).task.period = v.task.period ∧ (v.next now).task.setup = v.task.setup ∧
      (v.next now).task.interval = v.task.interval := by
  have hctrl : v.ctrl.task.period = v.task.period ∧ v.ctrl.task.setup = v.task.setup ∧
      v.ctrl.task.interval = v.task.interval := by
    rw [View.ctrl]
    split
    · exact ⟨rfl, rfl, rfl⟩
    · split
      · dsimp only
        rw [Task.toggled]
        split
        · exact ⟨rfl, rfl, rfl⟩
        · split
          · exact ⟨rfl, rfl, rfl⟩
          · split <;> exact ⟨rfl, rfl, rfl⟩
      · exact ⟨rfl, rfl, rfl⟩
  rw [View.next, View.fired]
  rcases Task.fire_cases v.ctrl.task now with ⟨-, failed, htask⟩ | ⟨-, -, htask⟩
  · rw [htask]
    exact hctrl
  · rw [htask, Task.advance]
    split
    · dsimp only
      split <;> exact hctrl
    · exact hctrl

/-- Burst `b` is registered for the action as a trigger. -/
def Fw.Triggers (fw : Fw) (a : EcaAction) (b : Nat) : Prop :=
  a.Handled ∧ (lookup fw.gTrigConfigs a.evtId).getLsbD (b - 1) = true

def Fw.Toggles (fw : Fw) (a : EcaAction) (b : Nat) : Prop :=
  a.Handled ∧ (lookup fw.gToggConfigs a.evtId).getLsbD (b - 1) = true

/-- The table has an entry for the event of the action. -/
def Known (configs : Nat → Config) (a : EcaAction) : Prop :=
  position configs a.evtId nConfigs ≠ nConfigs

instance (fw : Fw) (a : EcaAction) (b : Nat) : Decidable (fw.Triggers a b) :=
  inferInstanceAs (Decidable (_ ∧ _))

instance (fw : Fw) (a : EcaAction) (b : Nat) : Decidable (fw.Toggles a b) :=
  inferInstanceAs (Decidable (_ ∧ _))

instance (configs : Nat → Config) (a : EcaAction) : Decidable (Known configs a) :=
  inferInstanceAs (Decidable (_ ≠ _))

theorem Fw.Triggers.known {a : EcaAction} (h : fw.Triggers a b) : Known fw.gTrigConfigs a := by
  intro hnone
  have hbit := h.2
  rw [lookup, if_pos hnone] at hbit
  simp at hbit

theorem Fw.Toggles.known {a : EcaAction} (h : fw.Toggles a b) : Known fw.gToggConfigs a := by
  intro hnone
  have hbit := h.2
  rw [lookup, if_pos hnone] at hbit
  simp at hbit

/-- **One action**, seen from a burst: it sets the mark of the bursts registered for it, and
the deadline of all of them. -/
theorem view_action (fw : Fw) (a : EcaAction) (b : Nat) :
    (fw.ecaAction a).view b =
      if a.Handled ∧ Known fw.gTrigConfigs a then
        { fw.view b with
          trig := (fw.view b).trig || decide (fw.Triggers a b), trigDeadline := a.effective }
      else if a.Handled ∧ Known fw.gToggConfigs a then
        { fw.view b with
          togg := (fw.view b).togg || decide (fw.Toggles a b), toggDeadline := a.effective }
      else fw.view b := by
  rw [Fw.ecaAction]
  by_cases hh : a.Handled
  · rw [if_pos hh]
    dsimp only
    by_cases htrig : Known fw.gTrigConfigs a
    · have hidx : position fw.gTrigConfigs a.evtId nConfigs ≠ nConfigs := htrig
      rw [if_pos hidx, if_pos ⟨hh, htrig⟩]
      have hlook : lookup fw.gTrigConfigs a.evtId =
          (fw.gTrigConfigs (position fw.gTrigConfigs a.evtId nConfigs)).bursts := if_neg htrig
      simp only [Fw.view, Fw.Triggers, hlook, BitVec.getLsbD_or, hh, true_and, Bool.decide_eq_true]
    · have hidx : ¬ position fw.gTrigConfigs a.evtId nConfigs ≠ nConfigs := htrig
      have hno : ¬ (a.Handled ∧ Known fw.gTrigConfigs a) := fun h => htrig h.2
      rw [if_neg hidx, if_neg hno]
      by_cases htogg : Known fw.gToggConfigs a
      · have hidx' : position fw.gToggConfigs a.evtId nConfigs ≠ nConfigs := htogg
        rw [if_pos hidx', if_pos ⟨hh, htogg⟩]
        have hlook : lookup fw.gToggConfigs a.evtId =
            (fw.gToggConfigs (position fw.gToggConfigs a.evtId nConfigs)).bursts := if_neg htogg
        simp only [Fw.view, Fw.Toggles, hlook, BitVec.getLsbD_or, hh, true_and, Bool.decide_eq_true]
      · have hidx' : ¬ position fw.gToggConfigs a.evtId nConfigs ≠ nConfigs := htogg
        have hno' : ¬ (a.Handled ∧ Known fw.gToggConfigs a) := fun h => htogg h.2
        rw [if_neg hidx', if_neg hno']
  · have hno : ¬ (a.Handled ∧ Known fw.gTrigConfigs a) := fun h => hh h.1
    have hno' : ¬ (a.Handled ∧ Known fw.gToggConfigs a) := fun h => hh h.1
    rw [if_neg hh, if_neg hno, if_neg hno']

structure SameSetup (fw fw' : Fw) : Prop where
  trigger : fw'.gTrigConfigs = fw.gTrigConfigs
  toggle : fw'.gToggConfigs = fw.gToggConfigs
  task : ∀ b, 0 < b → (fw'.tasks b).period = (fw.tasks b).period ∧
    (fw'.tasks b).setup = (fw.tasks b).setup ∧ (fw'.tasks b).interval = (fw.tasks b).interval

theorem SameSetup.refl (fw : Fw) : SameSetup fw fw := ⟨rfl, rfl, fun _ _ => ⟨rfl, rfl, rfl⟩⟩

theorem SameSetup.trans {fw fw' fw'' : Fw} (h : SameSetup fw fw') (h' : SameSetup fw' fw'') :
    SameSetup fw fw'' := by
  refine ⟨h'.trigger.trans h.trigger, h'.toggle.trans h.toggle, fun b hb => ?_⟩
  obtain ⟨hp, hs, hi⟩ := h.task b hb
  obtain ⟨hp', hs', hi'⟩ := h'.task b hb
  exact ⟨hp'.trans hp, hs'.trans hs, hi'.trans hi⟩

theorem applyCtrl_configs (fw : Fw) (id : Nat) :
    (fw.applyCtrl id).gTrigConfigs = fw.gTrigConfigs ∧
      (fw.applyCtrl id).gToggConfigs = fw.gToggConfigs := by
  rw [Fw.applyCtrl]
  split
  · exact ⟨rfl, rfl⟩
  · split <;> exact ⟨rfl, rfl⟩

theorem sameSetup_task {id : Nat} (hid : 0 < id) (hlt : id < nBursts)
    (hint : (fw.tasks id).interval = 0) (tick now : Long) :
    SameSetup fw (fw.step (.task id tick now)) := by
  have hrun : fw.step (.task id tick now) = (fw.triggerIoActions id now).2.2 := by
    rw [Fw.step, Fw.runTask, if_pos hint]
  obtain ⟨htrig, htogg⟩ := applyCtrl_configs fw id
  refine ⟨?_, ?_, fun b hb => ?_⟩
  · rw [hrun, Fw.triggerIoActions, if_neg (Nat.ne_of_gt hid)]
    exact htrig
  · rw [hrun, Fw.triggerIoActions, if_neg (Nat.ne_of_gt hid)]
    exact htogg
  · have hview := congrArg View.task (view_task hid hlt hb hint tick now).1
    have htask : ((fw.step (.task id tick now)).tasks b) =
        (if b = id then (fw.view b).next now else fw.view b).task := hview
    rw [htask]
    split
    · exact view_next_const (fw.view b) now
    · exact ⟨rfl, rfl, rfl⟩

theorem sameSetup_action (fw : Fw) (a : EcaAction) : SameSetup fw (fw.ecaAction a) := by
  have hrefl := SameSetup.refl fw
  rw [Fw.ecaAction]
  split
  · dsimp only
    split
    · exact ⟨rfl, rfl, fun _ _ => ⟨rfl, rfl, rfl⟩⟩
    · split
      · exact ⟨rfl, rfl, fun _ _ => ⟨rfl, rfl, rfl⟩⟩
      · exact hrefl
  · exact hrefl

end Steps

/-! ### Runs -/

/-- An action may be handled: it changes no mark that is still pending, it is a trigger or a
toggle and not both, and the deadlines it leads to are within the range of the clock. -/
structure Fw.Accepts (fw : Fw) (a : EcaAction) : Prop where
  /-- No burst that the action triggers is marked as toggled. -/
  untoggled : ∀ b, b < nBursts → 0 < b → fw.Triggers a b → (fw.view b).togg = false
  /-- No burst that the action toggles is marked as triggered. -/
  untriggered : ∀ b, b < nBursts → 0 < b → fw.Toggles a b → (fw.view b).trig = false
  /-- The deadline is that of the other bursts that are marked. -/
  trigger : Known fw.gTrigConfigs a → ∀ b, b < nBursts → 0 < b → (fw.view b).trig = true →
    ¬ fw.Triggers a b → a.effective = fw.gTrigCtrl.deadline
  toggle : Known fw.gToggConfigs a → ∀ b, b < nBursts → 0 < b → (fw.view b).togg = true →
    ¬ fw.Toggles a b → a.effective = fw.gToggCtrl.deadline
  single : ∀ b, b < nBursts → 0 < b → fw.Toggles a b → ¬ Known fw.gTrigConfigs a
  start : ∀ b, b < nBursts → 0 < b → fw.Triggers a b → a.effective + (fw.tasks b).setup ≠ 0
  count : ∀ b, b < nBursts → 0 < b → fw.Toggles a b →
    (fw.tasks b).Inactive ∨ (fw.tasks b).CountsTo a.effective

/-- A step that meets the condition; a task is one of a burst and its message is not late. -/
def Fw.Admissible (fw : Fw) : Label → Prop
  | .task id _ now => id < nBursts ∧ 0 < id ∧ (fw.view id).RunsOnTime now
  | .action a => a.Handled → fw.Accepts a

/-- A run all of whose steps meet the condition. -/
def Fw.Good (fw : Fw) : List Label → Prop
  | [] => True
  | lab :: tr => fw.Admissible lab ∧ (fw.step lab).Good tr

theorem good_append (tr tr' : List Label) : ∀ fw : Fw,
    fw.Good (tr ++ tr') ↔ fw.Good tr ∧ (fw.run tr).Good tr' := by
  induction tr with
  | nil =>
      intro fw
      exact ⟨fun h => ⟨trivial, h⟩, And.right⟩
  | cons lab tr ih =>
      intro fw
      rw [List.cons_append, Fw.Good, Fw.Good, ih, Fw.run_cons, and_assoc]

/-- No action of the run is one for burst `b`. -/
def Quiet (fw : Fw) (b : Nat) (tr : List Label) : Prop :=
  ∀ a, .action a ∈ tr → ¬ fw.Triggers a b ∧ ¬ fw.Toggles a b

/-- All tasks run in every turn of the loop, as `setupTasks` says. -/
def Fw.Always (fw : Fw) : Prop := ∀ b, 0 < b → (fw.tasks b).interval = 0

theorem run_sameSetup (tr : List Label) : ∀ {fw : Fw}, fw.Always → fw.Good tr →
    SameSetup fw (fw.run tr) := by
  induction tr with
  | nil => intro fw _ _; exact .refl fw
  | cons lab tr ih =>
      intro fw halways ⟨hlab, hgood⟩
      have hstep : SameSetup fw (fw.step lab) := by
        cases lab with
        | task id tick now => exact sameSetup_task hlab.2.1 hlab.1 (halways id hlab.2.1) tick now
        | action a => exact sameSetup_action fw a
      exact hstep.trans (ih (fun b hb => (hstep.task b hb).2.2.trans (halways b hb)) hgood)

theorem SameSetup.triggers {fw fw' : Fw} (h : SameSetup fw fw') (a : EcaAction) (b : Nat) :
    (fw'.Triggers a b ↔ fw.Triggers a b) ∧ (fw'.Toggles a b ↔ fw.Toggles a b) := by
  rw [Fw.Triggers, Fw.Triggers, Fw.Toggles, Fw.Toggles, h.trigger, h.toggle]
  exact ⟨Iff.rfl, Iff.rfl⟩

theorem run_always {fw : Fw} {tr : List Label} (halways : fw.Always) (hgood : fw.Good tr) :
    (fw.run tr).Always :=
  fun b hb => ((run_sameSetup tr halways hgood).task b hb).2.2.trans (halways b hb)

section Burst

variable {fw : Fw} {b : Nat}

theorem producing_action {D cycles : Long} {n : Nat} (hb : 0 < b) (hlt : b < nBursts)
    (h : Producing D cycles (fw.view b) n) {a : EcaAction} (hadm : fw.Admissible (.action a))
    (htrig : ¬ fw.Triggers a b) (htogg : ¬ fw.Toggles a b) :
    Producing D cycles ((fw.ecaAction a).view b) n := by
  rw [view_action]
  split
  · rename_i hknown
    have hacc := hadm hknown.1
    rw [decide_eq_false htrig, Bool.or_false]
    cases h with
    | pending ht hg hD hc hne =>
        have hsame := hacc.trigger hknown.2 b hlt hb ht htrig
        exact .pending ht hg (hsame.trans hD) hc hne
    | active n ht hg hm hc hl hl0 hd hd0 => exact .active n ht hg hm hc hl hl0 hd hd0
    | complete n ht hg hm hz => exact .complete n ht hg hm hz
  · split
    · rw [decide_eq_false htogg, Bool.or_false]
      cases h with
      | pending ht hg hD hc hne => exact .pending ht hg hD hc hne
      | active n ht hg hm hc hl hl0 hd hd0 => exact .active n ht hg hm hc hl hl0 hd hd0
      | complete n ht hg hm hz => exact .complete n ht hg hm hz
    · exact h

theorem producing_run {D cycles : Long} (hb : 0 < b) (hlt : b < nBursts) {tr : List Label}
    (halways : fw.Always) (hgood : fw.Good tr) (hquiet : Quiet fw b tr)
    (h : Producing D cycles (fw.view b) 0) :
    ∃ n, fw.injections b tr =
        (List.range n).map (nthDeadline (D + (fw.tasks b).setup) (fw.tasks b).period) ∧
      Producing D cycles ((fw.run tr).view b) n ∧ ∀ k, k < n → More cycles k := by
  induction tr using List.reverseRecOn with
  | nil => exact ⟨0, rfl, h, fun k hk => absurd hk (Nat.not_lt_zero k)⟩
  | append_singleton tr lab ih =>
      obtain ⟨hpre, hlab, -⟩ := (good_append tr [lab] fw).mp hgood
      obtain ⟨n, hinj, hprod, hmore⟩ :=
        ih hpre fun a ha => hquiet a (List.mem_append_left _ ha)
      have hsame := run_sameSetup tr halways hpre
      rw [Fw.injections_snoc, Fw.run_snoc, hinj]
      cases lab with
      | action a =>
          obtain ⟨htrig, htogg⟩ := hquiet a (List.mem_append_right _ (List.mem_singleton_self _))
          refine ⟨n, List.append_nil _, ?_, hmore⟩
          exact producing_action hb hlt hprod hlab (mt (hsame.triggers a b).1.mp htrig)
            (mt (hsame.triggers a b).2.mp htogg)
      | task id tick now =>
          obtain ⟨hidlt, hid, htime⟩ := hlab
          obtain ⟨hview, hmsg⟩ :=
            view_task (b := b) hid hidlt hb (run_always halways hpre id hid) tick now
          rw [hview, hmsg]
          by_cases hbi : b = id
          · subst hbi
            rw [if_pos rfl, if_pos rfl]
            obtain ⟨hsend, hnext⟩ := hprod.next htime
            have hsetup : ((fw.run tr).view b).task.setup = (fw.tasks b).setup := (hsame.task b hb).2.1
            have hperiod : ((fw.run tr).view b).task.period = (fw.tasks b).period := (hsame.task b hb).1
            rw [hsend]
            rw [hsetup, hperiod] at hnext ⊢
            by_cases hdue : More cycles n ∧
                DueAt (D + (fw.tasks b).setup) (fw.tasks b).period now n
            · rw [if_pos hdue] at hnext ⊢
              refine ⟨n + 1, ?_, hnext, fun k hk => ?_⟩
              · rw [List.range_succ, List.map_append]
                rfl
              · rcases Nat.lt_succ_iff_lt_or_eq.mp hk with hk | rfl
                · exact hmore k hk
                · exact hdue.1
            · rw [if_neg hdue] at hnext ⊢
              exact ⟨n, List.append_nil _, hnext, hmore⟩
          · rw [if_neg hbi, if_neg hbi]
            exact ⟨n, List.append_nil _, hprod, hmore⟩

/-- The later toggles of the burst do not put its end off. -/
def Fw.TogglesUpTo (fw : Fw) (b : Nat) (limit : Nat) : List Label → Prop
  | [] => True
  | lab :: tr =>
      (∀ a, lab = .action a → fw.Toggles a b →
        (fw.tasks b).Inactive ∨ a.effective.toNat ≤ limit) ∧
      (fw.step lab).TogglesUpTo b limit tr

theorem stopping_action {limit : Nat} (hb : 0 < b) (hlt : b < nBursts)
    (h : Stopping limit (fw.view b)) {a : EcaAction} (hadm : fw.Admissible (.action a))
    (htrig : ¬ fw.Triggers a b)
    (hlimit : fw.Toggles a b → (fw.tasks b).Inactive ∨ a.effective.toNat ≤ limit) :
    Stopping limit ((fw.ecaAction a).view b) := by
  have hno : (fw.view b).trig = false := by
    cases h <;> assumption
  rw [view_action]
  split
  · rw [decide_eq_false htrig, Bool.or_false]
    cases h with
    | pending ht hg hend => exact .pending ht hg hend
    | taken T ht hg hT hend => exact .taken T ht hg hT hend
  · split
    · rename_i hknown
      have hacc := hadm hknown.1
      by_cases htogg : fw.Toggles a b
      · refine .pending hno (by rw [decide_eq_true htogg, Bool.or_true]) ?_
        rcases hacc.count b hlt hb htogg with hin | hcount
        · exact Or.inl hin
        · exact (hlimit htogg).imp (fun hin => hin) fun hle => ⟨hle, hcount⟩
      · rw [decide_eq_false htogg, Bool.or_false]
        cases h with
        | pending ht hg hend =>
            have hsame := hacc.toggle hknown.2 b hlt hb hg htogg
            refine .pending ht hg (hend.imp_right fun hh => ?_)
            rw [hsame]
            exact hh
        | taken T ht hg hT hend => exact .taken T ht hg hT hend
    · exact h

theorem stopping_run {limit : Nat} (hb : 0 < b) (hlt : b < nBursts) (tr : List Label) :
    ∀ {fw : Fw}, fw.Always → fw.Good tr → (∀ a, .action a ∈ tr → ¬ fw.Triggers a b) →
      fw.TogglesUpTo b limit tr → Stopping limit (fw.view b) →
      ∀ d ∈ fw.injections b tr, d.toNat ≤ limit := by
  induction tr with
  | nil => intro fw _ _ _ _ _ d hd; exact absurd hd List.not_mem_nil
  | cons lab tr ih =>
      intro fw halways hgood hno hlimit h d hd
      have hsame : SameSetup fw (fw.step lab) :=
        run_sameSetup [lab] halways ⟨hgood.1, trivial⟩
      have hrest : ∀ a, .action a ∈ tr → ¬ (fw.step lab).Triggers a b := fun a ha =>
        mt (hsame.triggers a b).1.mp (hno a (List.mem_cons_of_mem _ ha))
      have halways' : (fw.run [lab]).Always := run_always halways ⟨hgood.1, trivial⟩
      rw [Fw.injections, List.mem_append] at hd
      cases lab with
      | action a =>
          have hnext : Stopping limit ((fw.ecaAction a).view b) :=
            stopping_action hb hlt h hgood.1 (hno a List.mem_cons_self) (hlimit.1 a rfl)
          rcases hd with hd | hd
          · exact absurd hd List.not_mem_nil
          · exact ih halways' hgood.2 hrest hlimit.2 hnext d hd
      | task id tick now =>
          obtain ⟨hidlt, hid, -⟩ := hgood.1
          obtain ⟨hview, hmsg⟩ := view_task (b := b) hid hidlt hb (halways id hid) tick now
          obtain ⟨hsend, hnext⟩ := h.next now
          by_cases hbi : b = id
          · rw [if_pos hbi] at hview hmsg
            rcases hd with hd | hd
            · rw [hmsg, Option.mem_toList] at hd
              exact hsend d hd
            · exact ih halways' hgood.2 hrest hlimit.2 (hview ▸ hnext) d hd
          · rw [if_neg hbi] at hview hmsg
            rcases hd with hd | hd
            · rw [hmsg] at hd
              exact absurd hd List.not_mem_nil
            · exact ih halways' hgood.2 hrest hlimit.2 (hview ▸ h) d hd

end Burst

/-! ### The law -/

theorem triggered_producing {fw : Fw} {b : Nat} (hb : 0 < b) (hlt : b < nBursts) {a : EcaAction}
    (hadm : fw.Admissible (.action a)) (htrig : fw.Triggers a b) :
    Producing a.effective (fw.tasks b).cycle ((fw.ecaAction a).view b) 0 := by
  have hacc := hadm htrig.1
  rw [view_action, if_pos ⟨htrig.1, htrig.known⟩, decide_eq_true htrig, Bool.or_true]
  exact .pending rfl (hacc.untoggled b hlt hb htrig) rfl rfl (hacc.start b hlt hb htrig)

theorem toggled_stopping {fw : Fw} {b : Nat} (hb : 0 < b) (hlt : b < nBursts) {a : EcaAction}
    (hadm : fw.Admissible (.action a)) (htogg : fw.Toggles a b) {limit : Nat}
    (hlimit : a.effective.toNat ≤ limit) : Stopping limit ((fw.ecaAction a).view b) := by
  have hacc := hadm htogg.1
  have hno : ¬ (a.Handled ∧ Known fw.gTrigConfigs a) := fun h => hacc.single b hlt hb htogg h.2
  rw [view_action, if_neg hno, if_pos ⟨htogg.1, htogg.known⟩, decide_eq_true htogg, Bool.or_true]
  refine .pending (hacc.untriggered b hlt hb htogg) rfl ?_
  exact (hacc.count b hlt hb htogg).imp_right fun hcount => ⟨hlimit, hcount⟩

/-- **The production law**, in every run whose steps meet the condition.  From a trigger
action for burst `b` up to the next action for it, the messages of `b` are the first ones of
the sequence `D + setup + k * period`, not more than its cycles, and each time its task is
run the next one is injected if it is due.  From a toggle action with deadline `T` up to the
next trigger, no message of `b` has a deadline after `T + period`, as long as it is not
toggled again beyond that while it is active. -/
theorem production_law {fw : Fw} (halways : fw.Always) {pre post : List Label} {a : EcaAction}
    (hgood : fw.Good (pre ++ .action a :: post)) {b : Nat} (hb : 0 < b) (hlt : b < nBursts) :
    (fw.Triggers a b → Quiet fw b post →
      ∃ n, (fw.run (pre ++ [.action a])).injections b post =
          (List.range n).map
            (nthDeadline (a.effective + (fw.tasks b).setup) (fw.tasks b).period) ∧
        (∀ k, k < n → More ((fw.run pre).tasks b).cycle k) ∧
        ∀ tick now, (fw.run (pre ++ .action a :: post)).Admissible (.task b tick now) →
          (fw.run (pre ++ .action a :: post)).injected b (.task b tick now) =
            if More ((fw.run pre).tasks b).cycle n ∧
                DueAt (a.effective + (fw.tasks b).setup) (fw.tasks b).period now n then
              some (nthDeadline (a.effective + (fw.tasks b).setup) (fw.tasks b).period n)
            else none) ∧
      (fw.Toggles a b → (∀ a', .action a' ∈ post → ¬ fw.Triggers a' b) →
        (fw.run (pre ++ [.action a])).TogglesUpTo b
          (a.effective.toNat + (fw.tasks b).period.toNat) post →
        ∀ d ∈ (fw.run (pre ++ [.action a])).injections b post,
          d.toNat ≤ a.effective.toNat + (fw.tasks b).period.toNat) := by
  obtain ⟨hpre, hadm, hpost⟩ := (good_append pre (.action a :: post) fw).mp hgood
  have hsame := run_sameSetup pre halways hpre
  have halways' := run_always halways hpre
  have hstep := sameSetup_action (fw.run pre) a
  have halways'' : ((fw.run pre).ecaAction a).Always :=
    fun b hb => (hstep.task b hb).2.2.trans (halways' b hb)
  have hrun : fw.run (pre ++ [.action a]) = (fw.run pre).ecaAction a := Fw.run_snoc ..
  have hboth := hsame.trans hstep
  rw [hrun]
  constructor
  · intro htrig hquiet
    have hstart := triggered_producing hb hlt hadm ((hsame.triggers a b).1.mpr htrig)
    have hquiet' : Quiet ((fw.run pre).ecaAction a) b post := fun a' ha' =>
      ⟨mt (hboth.triggers a' b).1.mp (hquiet a' ha').1, mt (hboth.triggers a' b).2.mp (hquiet a' ha').2⟩
    obtain ⟨n, hinj, hprod, hmore⟩ := producing_run hb hlt halways'' hpost hquiet' hstart
    obtain ⟨hperiod, hsetup, -⟩ := hboth.task b hb
    rw [hperiod, hsetup] at hinj
    refine ⟨n, hinj, hmore, fun tick now htask => ?_⟩
    have hend : fw.run (pre ++ .action a :: post) = ((fw.run pre).ecaAction a).run post := by
      rw [Fw.run_append, Fw.run_cons]
      rfl
    have hgoodEnd : fw.Good (pre ++ .action a :: post) := hgood
    have hsameEnd := run_sameSetup _ halways hgoodEnd
    obtain ⟨hperiodEnd, hsetupEnd, hintEnd⟩ := hsameEnd.task b hb
    obtain ⟨-, hmsg⟩ := view_task hb hlt hb (hintEnd.trans (halways b hb)) tick now
    rw [hmsg, if_pos rfl]
    rw [← hend] at hprod
    rw [(hprod.next htask.2.2).1]
    have hview : ((fw.run (pre ++ .action a :: post)).view b).task =
        (fw.run (pre ++ .action a :: post)).tasks b := rfl
    rw [hview, hperiodEnd, hsetupEnd]
  · intro htogg hno hlimit
    have hstart := toggled_stopping hb hlt hadm ((hsame.triggers a b).2.mpr htogg)
      (Nat.le_add_right _ (fw.tasks b).period.toNat)
    have hno' : ∀ a', .action a' ∈ post → ¬ ((fw.run pre).ecaAction a).Triggers a' b := fun a' ha' =>
      mt (hboth.triggers a' b).1.mp (hno a' ha')
    exact stopping_run hb hlt post halways'' hpost hno' hlimit hstart

/-! ### The host commands keep the intervals -/

theorem updateTask_interval (fw : Fw) (id : Nat) {f : Task → Task}
    (hf : ∀ t, (f t).interval = t.interval) (b : Nat) :
    ((fw.updateTask id f).tasks b).interval = (fw.tasks b).interval := by
  by_cases hb : b = id
  · rw [hb, updateTask_self]
    exact hf _
  · rw [Fw.updateTask]
    exact congrArg Task.interval (Function.update_of_ne hb ..)

theorem mkBurst_interval (fw : Fw) (id : Nat) (args : Nat → Word) (b : Nat) :
    ((fw.mkBurst id args).tasks b).interval = (fw.tasks b).interval := by
  have hnew : ∀ t, (newBurst args t).interval = t.interval := fun _ => rfl
  rw [Fw.mkBurst, updateTogg_eq, updateTrig_eq]
  exact updateTask_interval fw id hnew b

theorem rmBurst_interval (fw : Fw) (id : Nat) (b : Nat) :
    ((fw.rmBurst id).tasks b).interval = (fw.tasks b).interval := by
  have hclear : ∀ t, (clearedBurst t).interval = t.interval := fun _ => rfl
  have hdis : ∀ t : Task, ({ t with flag := ctlDis } : Task).interval = t.interval := fun _ => rfl
  rw [Fw.rmBurst, updateTogg_eq, updateTrig_eq]
  refine (updateTask_interval _ id hclear b).trans ?_
  exact updateTask_interval fw id hdis b

theorem enable_interval (fw : Fw) (id : Nat) {first last : Nat} (h : first ≤ last) (disen : Word)
    (b : Nat) : ((fw.enable id first last disen).tasks b).interval = (fw.tasks b).interval := by
  have hflag : ∀ t, (enableTask disen t).interval = t.interval := fun _ => rfl
  rw [enable_eq fw id h]
  exact updateTask_interval fw id hflag b

theorem execHostCmd_interval (fw : Fw) (cmd : Word) (args : Nat → Word) (b : Nat) :
    ((execHostCmd fw cmd args).2.tasks b).interval = (fw.tasks b).interval := by
  have hparam : ∀ t, (getParam args t).interval = t.interval := fun _ => rfl
  have hcycle : ∀ t : Task,
      ({ t with cycle := toU64 (args 1) (args 2), deadline := 0 } : Task).interval = t.interval :=
    fun _ => rfl
  dsimp only [execHostCmd]
  split_ifs
  any_goals rfl
  · exact updateTask_interval fw _ hparam b
  · exact updateTask_interval fw _ hcycle b
  · exact mkBurst_interval fw _ _ b
  · exact rmBurst_interval fw _ b
  · exact enable_interval fw _ (by decide) _ b
  · exact enable_interval fw _ (Nat.le_refl _) _ b

/-- The hypothesis of the law about the intervals holds after any host commands. -/
theorem runCmds_always (cs : List HostCmd) : (runCmds cs).Always := by
  induction cs using List.reverseRecOn with
  | nil => exact fun _ _ => rfl
  | append_singleton cs c ih =>
      intro b hb
      rw [runCmds_snoc]
      exact (execHostCmd_interval _ c.cmd c.args b).trans (ih b hb)

/-! ### Two triggers before the tasks run -/

/-- Bursts 1 and 2, with trigger events 0xA and 0xB, one message each. -/
def sampleBursts : Fw :=
  runCmds
    [⟨cmdMkBurst, fun i => [1, 0, 0, 0xA, 0, 0, 0].getD i 0⟩,
      ⟨cmdMkBurst, fun i => [2, 0, 0, 0xB, 0, 0, 0].getD i 0⟩,
      ⟨cmdGetParam, fun i => [1, 0, 0, 1000, 0, 0].getD i 0⟩,
      ⟨cmdGetParam, fun i => [2, 0, 0, 1000, 0, 0].getD i 0⟩,
      ⟨cmdGetCycle, fun i => [1, 0, 2, 0].getD i 0⟩,
      ⟨cmdGetCycle, fun i => [2, 0, 2, 0].getD i 0⟩]

def sampleTrigger (evtId deadline : Long) : EcaAction :=
  { valid := true, tag := myActTag, evtId, deadline, param := 0 }

def sampleTask : Label := .task 1 0 4000

theorem sampleBursts_always : sampleBursts.Always := runCmds_always _

theorem sampleTrigger_accepts : sampleBursts.Accepts (sampleTrigger 0xA 5000) := by
  have hno : ∀ b, b < nBursts → ¬ sampleBursts.Toggles (sampleTrigger 0xA 5000) b := by decide +kernel
  exact
    { untoggled := by decide +kernel
      untriggered := fun b hb _ h => absurd h (hno b hb)
      trigger := by decide +kernel
      toggle := by decide +kernel
      single := fun b hb _ h => absurd h (hno b hb)
      start := by decide +kernel
      count := fun b hb _ h => absurd h (hno b hb) }

theorem sampleTask_onTime :
    ((sampleBursts.run [.action (sampleTrigger 0xA 5000)]).view 1).RunsOnTime 4000 :=
  fun _ => ⟨⟨by decide +kernel, by decide +kernel⟩, Or.inr (by decide +kernel)⟩

theorem production_law_sample : ∃ n,
    (sampleBursts.run ([] ++ [.action (sampleTrigger 0xA 5000)])).injections 1 [sampleTask] =
      (List.range n).map (nthDeadline ((sampleTrigger 0xA 5000).effective +
        (sampleBursts.tasks 1).setup) (sampleBursts.tasks 1).period) := by
  have hgood : sampleBursts.Good ([] ++ .action (sampleTrigger 0xA 5000) :: [sampleTask]) :=
    ⟨fun _ => sampleTrigger_accepts, ⟨by decide, by decide, sampleTask_onTime⟩, trivial⟩
  have hquiet : Quiet sampleBursts 1 [sampleTask] := by
    intro a ha
    rw [List.mem_singleton] at ha
    exact Label.noConfusion ha
  have htrig : sampleBursts.Triggers (sampleTrigger 0xA 5000) 1 := by decide +kernel
  obtain ⟨n, hinj, -, -⟩ :=
    (production_law sampleBursts_always hgood (by decide : 0 < 1) (by decide)).1 htrig hquiet
  exact ⟨n, hinj⟩

theorem secondTrigger_onTime :
    ((sampleBursts.run [.action (sampleTrigger 0xA 5000), .action (sampleTrigger 0xB 9000)]).view
      1).RunsOnTime 4000 :=
  fun _ => ⟨⟨by decide +kernel, by decide +kernel⟩, Or.inr (by decide +kernel)⟩

/-- **One deadline for two triggers**: burst 1 is triggered at 5000, burst 2 at 9000 before the
task of burst 1 runs, and the first message of burst 1, which is not late, has deadline 9000. -/
theorem deadline_overwritten : ∃ (cs : List HostCmd) (a a' : EcaAction) (now : Long) (b : Nat),
    (runCmds cs).Triggers a b ∧ Quiet (runCmds cs) b [.action a', .task b 0 now] ∧
      0 < b ∧ b < nBursts ∧ (((runCmds cs).run [.action a, .action a']).view b).RunsOnTime now ∧
      ∀ n, ((runCmds cs).run [.action a]).injections b [.action a', .task b 0 now] ≠
        (List.range n).map
          (nthDeadline (a.effective + ((runCmds cs).tasks b).setup) ((runCmds cs).tasks b).period) := by
  have hinj : (sampleBursts.run [.action (sampleTrigger 0xA 5000)]).injections 1
      [.action (sampleTrigger 0xB 9000), .task 1 0 4000] = [9000] := by
    decide +kernel
  have htrig : sampleBursts.Triggers (sampleTrigger 0xA 5000) 1 := by decide +kernel
  have hquiet : ¬ sampleBursts.Triggers (sampleTrigger 0xB 9000) 1 ∧
      ¬ sampleBursts.Toggles (sampleTrigger 0xB 9000) 1 := by
    decide +kernel
  have hfirst : (9000 : Long) ≠
      (sampleTrigger 0xA 5000).effective + (sampleBursts.tasks 1).setup := by
    decide +kernel
  refine ⟨_, sampleTrigger 0xA 5000, sampleTrigger 0xB 9000, 4000, 1, htrig, ?_, by decide, by decide,
    secondTrigger_onTime, fun n heq => ?_⟩
  · intro a ha
    rcases List.mem_cons.mp ha with h | h
    · rw [Label.action.inj h]
      exact hquiet
    · exact Label.noConfusion (List.mem_singleton.mp h)
  · replace heq := hinj.symm.trans heq
    cases n with
    | zero => exact List.cons_ne_nil _ _ heq
    | succ n =>
        rw [List.range_succ_eq_map, List.map_cons, nthDeadline_zero] at heq
        exact hfirst (List.cons.inj heq).1

end BurstGen
