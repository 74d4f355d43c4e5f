import BelProjects.DataMaster.Blocks.Waits
import BelProjects.DataMaster.Schedule.Times

/-!
# Aligned blocks one after the other

An aligned block adds its period to the time sum of the thread and rounds the sum up to the
time grid.  A command that the visit executes may have changed the sum or the period before:
a relative wait takes the place of the period, an absolute wait the place of the sum.  So a
thread that goes from aligned block to aligned block stays on the grid, and only an absolute
wait whose target lies behind the thread takes it back in time.
-/

namespace DataMaster

def OnGrid (x : Time) : Prop := x.toNat % tGridSize.toNat = tGridOffs.toNat % tGridSize.toNat

/-- `y` is the sum of `x` and `p` rounded up to the grid. -/
structure Rounded (x p y : Time) : Prop where
  onGrid : OnGrid y
  ge : x.toNat + p.toNat ≤ y.toNat
  lt : y.toNat < x.toNat + p.toNat + tGridSize.toNat

theorem onGrid_iff {x : Time} : OnGrid x ↔ 10000 ∣ x.toNat := by
  have hoffs : tGridOffs.toNat = 0 := rfl
  have hsize : tGridSize.toNat = 10000 := rfl
  rw [OnGrid, hoffs, hsize, Nat.zero_mod, Nat.dvd_iff_mod_eq_zero]

theorem alignUp_rounded {x p : Time} (h : x.toNat + p.toNat + tGridSize.toNat < 2 ^ 64) :
    Rounded x p (alignUp x p) := by
  have hsize : tGridSize.toNat = 10000 := rfl
  have hsum : (x + p).toNat = x.toNat + p.toNat := by
    rw [BitVec.toNat_add, Nat.mod_eq_of_lt (by omega)]
  have hy := alignUp_toNat (x := x) (p := p) (by rw [hsum]; omega)
  rw [hsum] at hy
  refine ⟨?_, ?_, ?_⟩
  · rw [onGrid_iff, hy]
    exact dvd_gridUp _
  · rw [hy]
    exact le_gridUp _
  · rw [hy, hsize]
    exact gridUp_lt _

/-! ### The effect of a visit -/

/-- What a visit does to the time sum before it is rounded. -/
inductive Effect where
  | add (d : Time)
  | set (w : Time)
  deriving DecidableEq, Repr

namespace Effect

def apply (x : Time) : Effect → Time
  | .add d => x + d
  | .set w => w

/-- The sum does not overflow, nor does the grid interval in which it is rounded. -/
def Fits (x : Time) : Effect → Prop
  | .add d => x.toNat + d.toNat + tGridSize.toNat < 2 ^ 64
  | .set w => w.toNat + tGridSize.toNat < 2 ^ 64

/-- The sum is replaced by one that stays behind it even when it is rounded up. -/
def TurnsBack (x : Time) : Effect → Prop
  | .add _ => False
  | .set w => gridUp w.toNat < x.toNat

end Effect

/-- What the command that a visit executes does to the time sum, with the period of the block:
the commands that do not wait, and no command, add the period. -/
def servedEffect (period : Time) : Option (QueuedCmd × Time) → Effect
  | none => .add period
  | some (x, now) =>
      if actType x.act = 4 then
        if x.absolute then if now < x.waitTime - period then .set x.waitTime else .add period
        else .add x.waitTime
      else .add period

def effect (P : Platform) (s : Cpu) (node : Word) : Effect :=
  servedEffect (period P s.mem node) (servedCmd P s node)

theorem servedEffect_apply (tCur period : Time) (served : Option (QueuedCmd × Time)) :
    (servedEffect period served).apply tCur = servedSum tCur period served := by
  cases served with
  | none => rfl
  | some x =>
      simp only [servedEffect, servedSum]
      repeat' split
      all_goals rfl

section Visit

variable {P : Platform} {s s' : Cpu} {node r : Word} {base : Nat} {lst : Nat → Nat}
  {buf : Nat → Nat → Nat} {t : Nat}

theorem BlockLayout.blockAlign_effect (hl : BlockLayout P s.mem node base lst buf)
    (ht : t < thrQty) (hvisit : blockAlign P s node (thrPtr t) = some (r, s')) :
    thrTime P s'.mem t = alignUp ((effect P s node).apply (thrTime P s.mem t)) 0 := by
  have haligned : visitBlock P true s node (thrPtr t) = some (r, s') := hvisit
  obtain ⟨s₁, hblock, hleaves⟩ := visitBlock_leaves P ht haligned
  obtain ⟨⟨hsum, -⟩, -⟩ := block_times hl.node_adr hl.node_ctl ht hl hblock
  have hsum' : thrTime P s₁.mem t + period P s₁.mem node =
      (effect P s node).apply (thrTime P s.mem t) := by
    rw [effect, servedEffect_apply]
    exact hsum
  rw [hleaves.time, ← hsum']
  simp only [timeStep, if_true, alignUp]
  rw [show thrTime P s₁.mem t + period P s₁.mem node + 0 = _ from BitVec.add_zero _]

/-- A visit to an aligned block puts the thread on the grid; it takes it back in time exactly
if it executes an absolute wait whose target lies behind the thread. -/
theorem BlockLayout.blockAlign_time (hl : BlockLayout P s.mem node base lst buf) (ht : t < thrQty)
    (hfits : (effect P s node).Fits (thrTime P s.mem t))
    (hvisit : blockAlign P s node (thrPtr t) = some (r, s')) :
    OnGrid (thrTime P s'.mem t) ∧
      (thrTime P s'.mem t < thrTime P s.mem t ↔
        (effect P s node).TurnsBack (thrTime P s.mem t)) := by
  have hsize : tGridSize.toNat = 10000 := rfl
  have htime : thrTime P s'.mem t = alignUp ((effect P s node).apply (thrTime P s.mem t)) 0 :=
    hl.blockAlign_effect ht hvisit
  have hround : ∀ y : Time, y.toNat + tGridSize.toNat < 2 ^ 64 →
      (alignUp y 0).toNat = gridUp y.toNat := by
    intro y hy
    have hzero : y + 0 = y := BitVec.add_zero y
    rw [alignUp_toNat (by rw [hzero]; omega), hzero]
  rw [htime, onGrid_iff, BitVec.lt_def]
  cases heffect : effect P s node with
  | add d =>
      rw [heffect] at hfits
      have hsum : (thrTime P s.mem t + d).toNat = (thrTime P s.mem t).toNat + d.toNat := by
        rw [BitVec.toNat_add, Nat.mod_eq_of_lt]
        exact (Nat.le_add_right _ _).trans_lt hfits
      simp only [Effect.apply, Effect.TurnsBack]
      rw [hround _ (by rw [hsum]; exact hfits), hsum]
      refine ⟨dvd_gridUp _, iff_of_false (Nat.not_lt.mpr ?_) not_false⟩
      exact (Nat.le_add_right _ _).trans (le_gridUp _)
  | set w =>
      rw [heffect] at hfits
      simp only [Effect.apply, Effect.TurnsBack]
      rw [hround w hfits]
      exact ⟨dvd_gridUp _, Iff.rfl⟩

end Visit

/-! ### Runs -/

/-- Thread `t` goes through aligned blocks, with visits of which `ok` holds.  Between the
visits everything may happen that leaves its time sum alone. -/
inductive AlignedRun (P : Platform) (t : Nat) (ok : Time → Effect → Prop) : Cpu → Cpu → Prop
  | none {s : Cpu} : AlignedRun P t ok s s
  | visit {s s₁ s₂ s' : Cpu} {node r : Word} {base : Nat} {lst : Nat → Nat}
      {buf : Nat → Nat → Nat} : BlockLayout P s.mem node base lst buf →
      ok (thrTime P s.mem t) (effect P s node) →
      blockAlign P s node (thrPtr t) = some (r, s₁) →
      thrTime P s₂.mem t = thrTime P s₁.mem t → AlignedRun P t ok s₂ s' →
      AlignedRun P t ok s s'

theorem AlignedRun.onGrid {P : Platform} {t : Nat} (ht : t < thrQty)
    {ok : Time → Effect → Prop} (hok : ∀ x e, ok x e → e.Fits x) {s s' : Cpu}
    (h : AlignedRun P t ok s s') (hstart : OnGrid (thrTime P s.mem t)) :
    OnGrid (thrTime P s'.mem t) := by
  induction h with
  | none => exact hstart
  | visit hl hvisitOk hvisit hbetween _ ih =>
      refine ih ?_
      rw [hbetween]
      exact (hl.blockAlign_time ht (hok _ _ hvisitOk) hvisit).1

theorem AlignedRun.le {P : Platform} {t : Nat} (ht : t < thrQty) {s s' : Cpu}
    (h : AlignedRun P t (fun x e => e.Fits x ∧ ¬ e.TurnsBack x) s s') :
    thrTime P s.mem t ≤ thrTime P s'.mem t := by
  induction h with
  | none => exact BitVec.le_refl _
  | visit hl hok hvisit hbetween _ ih =>
      have htime := (hl.blockAlign_time ht hok.1 hvisit).2
      rw [hbetween] at ih
      exact BitVec.le_trans (BitVec.not_lt.mp (mt htime.mp hok.2)) ih

/-- **Aligned blocks**: an aligned block leaves its thread at the sum of time and period, as
the command of the visit has left them, rounded up to the grid.  So a visit always ends on the
grid, a run of visits keeps the thread there, and no visit takes it back in time but one that
executes an absolute wait whose target, rounded up, lies behind the thread. -/
theorem align_rounds (P : Platform) {t : Nat} (ht : t < thrQty) :
    (∀ s node r s', blockAlign P s node (thrPtr t) = some (r, s') →
      ∃ s₁, block P s node (thrPtr t) = some (r, s₁) ∧
        ((thrTime P s₁.mem t).toNat + (period P s₁.mem node).toNat + tGridSize.toNat < 2 ^ 64 →
          Rounded (thrTime P s₁.mem t) (period P s₁.mem node) (thrTime P s'.mem t))) ∧
    (∀ s node r s' base lst buf, BlockLayout P s.mem node base lst buf →
      (effect P s node).Fits (thrTime P s.mem t) →
      blockAlign P s node (thrPtr t) = some (r, s') → OnGrid (thrTime P s'.mem t) ∧
        (thrTime P s'.mem t < thrTime P s.mem t ↔
          (effect P s node).TurnsBack (thrTime P s.mem t))) ∧
    (∀ s s', AlignedRun P t (fun x e => e.Fits x) s s' → OnGrid (thrTime P s.mem t) →
      OnGrid (thrTime P s'.mem t)) ∧
    (∀ s s', AlignedRun P t (fun x e => e.Fits x ∧ ¬ e.TurnsBack x) s s' →
      thrTime P s.mem t ≤ thrTime P s'.mem t) := by
  refine ⟨?_, ?_, fun s s' h hs => h.onGrid ht (fun _ _ h => h) hs, fun s s' h => h.le ht⟩
  · intro s node r s' hvisit
    have haligned : visitBlock P true s node (thrPtr t) = some (r, s') := hvisit
    obtain ⟨s₁, hblock, hleaves⟩ := visitBlock_leaves P ht haligned
    refine ⟨s₁, hblock, fun hroom => ?_⟩
    rw [hleaves.time]
    exact alignUp_rounded hroom
  · intro s node r s' base lst buf hl hfits hvisit
    exact hl.blockAlign_time ht hfits hvisit

/-- A relative wait of 100 ns in an aligned block, at time sum 50000. -/
theorem align_rounds_sample : ∃ r s',
    blockAlign samplePlatform (waitBlock 0x02400001 50 100 50000 20) sampleBlock (thrPtr 0) =
        some (r, s') ∧
      OnGrid (thrTime samplePlatform s'.mem 0) ∧
      ¬ thrTime samplePlatform s'.mem 0 < 50000 := by
  have hl : BlockLayout samplePlatform (waitBlock 0x02400001 50 100 50000 20).mem sampleBlock
      0x20000400 (fun q => 0x20000440 + 16 * q) (fun q j => 0x20000480 + 32 * q + 13 * j) :=
    sampleBlock_layout.of_sameShape ⟨by decide +kernel, by decide +kernel, by decide +kernel⟩
  have heffect : effect samplePlatform (waitBlock 0x02400001 50 100 50000 20) sampleBlock =
      .add 100 := by decide +kernel
  have htime : thrTime samplePlatform (waitBlock 0x02400001 50 100 50000 20).mem 0 = 50000 := by
    decide +kernel
  have hsome : (blockAlign samplePlatform (waitBlock 0x02400001 50 100 50000 20) sampleBlock
      (thrPtr 0)).isSome := by decide +kernel
  obtain ⟨⟨r, s'⟩, hvisit⟩ := Option.isSome_iff_exists.mp hsome
  have hstep := (align_rounds samplePlatform (t := 0) (by decide)).2.1 _ _ r s' _ _ _ hl
    (by rw [heffect, htime]; exact Nat.le_of_ble_eq_true rfl) hvisit
  rw [heffect, htime] at hstep
  exact ⟨r, s', hvisit, hstep.1, mt hstep.2.mp id⟩

/-- **An absolute wait takes a thread back**: its target 30000 is ahead of the clock, but
20000 ns behind the time sum, which is on the grid like the time the visit leaves. -/
theorem absolute_wait_turns_back : ∃ s r s',
    thrTime samplePlatform s.mem 0 = 50000 ∧
      blockAlign samplePlatform s sampleBlock (thrPtr 0) = some (r, s') ∧
      thrTime samplePlatform s'.mem 0 = 30000 := by
  have hvisited : visited true (waitBlock 0x12400001 50 30000 50000 20) = some ⟨30000, 20, 0⟩ := by
    decide +kernel
  have htime : thrTime samplePlatform (waitBlock 0x12400001 50 30000 50000 20).mem 0 = 50000 := by
    decide +kernel
  obtain ⟨⟨r, s'⟩, hvisit, hstate⟩ := Option.map_eq_some_iff.mp hvisited
  exact ⟨_, r, s', htime, hvisit, congrArg WaitState.time hstate⟩

end DataMaster
