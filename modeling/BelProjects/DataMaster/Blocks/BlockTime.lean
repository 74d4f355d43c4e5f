import BelProjects.DataMaster.Blocks.Visit
import Mathlib.Order.Bounds.Basic

/-!
# Blocks and the time of their threads

Behind every visit the time sum of the thread grows by the period of the block.  An
aligned block rounds the sum up to its time grid.  Whatever a visit executes before that,
the words it leaves are those of the action, but for the word of the command and the word
of the read indices.
-/

namespace DataMaster

variable (P : Platform)

def thrTime (m : Mem) (t : Nat) : Time := P.ld64 m (thrPtr t + tTdCurrtime)

def period (m : Mem) (node : Word) : Time := P.ld64 m (node + blockPeriod)

def visitBlock (aligned : Bool) (s : Cpu) (node thrData : Word) : Option (Word × Cpu) :=
  if aligned then blockAlign P s node thrData else blockFixed P s node thrData

/-- The time sum behind a visit, from the sum and the period the action has left. -/
def timeStep (aligned : Bool) (x p : Time) : Time := if aligned then alignUp x p else x + p

/-! ### The time grid -/

/-- The first point of the time grid from `n` on. -/
def gridUp (n : Nat) : Nat := (n + 9999) / 10000 * 10000

theorem gridUp_isLeast (n : Nat) :
    IsLeast {y | n ≤ y ∧ ∃ k, y = tGridOffs.toNat + k * tGridSize.toNat} (gridUp n) := by
  have hoffs : tGridOffs.toNat = 0 := rfl
  have hsize : tGridSize.toNat = 10000 := rfl
  rw [hoffs, hsize]
  unfold gridUp
  constructor
  · exact ⟨by omega, _, (Nat.zero_add _).symm⟩
  · rintro y ⟨hy, k, rfl⟩
    omega

theorem le_gridUp (n : Nat) : n ≤ gridUp n := by
  unfold gridUp
  omega

theorem gridUp_lt (n : Nat) : gridUp n < n + 10000 := by
  unfold gridUp
  omega

theorem dvd_gridUp (n : Nat) : 10000 ∣ gridUp n := Dvd.intro_left _ rfl

/-- Whole grid intervals stay out of the rounding. -/
theorem gridUp_add {g : Nat} (h : 10000 ∣ g) (n : Nat) : gridUp (g + n) = g + gridUp n := by
  unfold gridUp
  omega

theorem gridUp_mono {n k : Nat} (h : n ≤ k) : gridUp n ≤ gridUp k := by
  unfold gridUp
  omega

theorem gridUp_add_le (n k : Nat) : gridUp (n + k) ≤ gridUp n + gridUp k := by
  unfold gridUp
  omega

theorem gridUp_eq_zero {n : Nat} : gridUp n = 0 ↔ n = 0 := by
  unfold gridUp
  omega

/-- Up to the next grid point nothing changes. -/
theorem gridUp_eq_iff {n k : Nat} : gridUp (n + k) = gridUp n ↔ n + k ≤ gridUp n := by
  unfold gridUp
  omega

/-- The sum is rounded up to the grid, as long as it does not overflow. -/
theorem alignUp_toNat {x p : Time} (h : (x + p).toNat + tGridSize.toNat ≤ 2 ^ 64) :
    (alignUp x p).toNat = gridUp (x + p).toNat := by
  have hoffs : tGridOffs = 0#64 := rfl
  have hsize : tGridSize.toNat = 10000 := rfl
  rw [hsize] at h
  have hdiff : (x + p + (tGridSize - 1)).toNat = (x + p).toNat + 9999 := by
    rw [BitVec.toNat_add (x + p), show (tGridSize - 1).toNat = 9999 from rfl,
      Nat.mod_eq_of_lt (by omega)]
  have hrest : (x + p + (tGridSize - 1)) % tGridSize ≤ x + p + (tGridSize - 1) := by
    rw [BitVec.le_def, BitVec.toNat_umod]
    exact Nat.mod_le _ _
  simp only [alignUp, hoffs, BitVec.sub_zero, BitVec.add_zero]
  rw [BitVec.toNat_sub_of_le hrest, BitVec.toNat_umod, hdiff, hsize, gridUp]
  omega

/-- A block leaves its thread at time `x`, an aligned block at the first grid point from
`x` on. -/
def LeftAt (aligned : Bool) (x left : Time) : Prop :=
  if aligned then
    x.toNat + tGridSize.toNat ≤ 2 ^ 64 →
      IsLeast {y | x.toNat ≤ y ∧ ∃ k, y = tGridOffs.toNat + k * tGridSize.toNat} left.toNat
  else left = x

theorem timeStep_leftAt (aligned : Bool) (x p : Time) :
    LeftAt aligned (x + p) (timeStep aligned x p) := by
  cases aligned with
  | false => exact rfl
  | true =>
    intro h
    change IsLeast _ (alignUp x p).toNat
    rw [alignUp_toNat h]
    exact gridUp_isLeast _

/-! ### The words behind a visit -/

theorem visitBlock_eq (aligned : Bool) (s : Cpu) (node thrData : Word) :
    visitBlock P aligned s node thrData = match block P s node thrData with
      | none => none
      | some (ret, s) =>
        let s := s.st64 P (thrData + tTdCurrtime)
          (timeStep aligned (P.ld64 s.mem (thrData + tTdCurrtime)) (P.ld64 s.mem (node + blockPeriod)))
        some (ret, s.st64 P (thrData + tTdDeadline) (P.ld64 s.mem (thrData + tTdCurrtime))) := by
  cases aligned <;> rfl

/-- What a visit leaves, `s₁` being the state behind `block`. -/
structure VisitLeaves (P : Platform) (aligned : Bool) (node : Word) (t : Nat) (s₁ s' : Cpu) : Prop where
  time : thrTime P s'.mem t = timeStep aligned (thrTime P s₁.mem t) (period P s₁.mem node)
  deadline : dl P s'.mem (thrPtr t) = thrTime P s'.mem t
  clk : s'.clk = s₁.clk
  frame : ∀ a, (∀ o, 548 ≤ o → o < 564 → a ≠ P.ctl (o + t * 32)) → s'.mem a = s₁.mem a

theorem visitBlock_leaves {aligned : Bool} {s s' : Cpu} {node r : Word} {t : Nat} (ht : t < thrQty)
    (h : visitBlock P aligned s node (thrPtr t) = some (r, s')) :
    ∃ s₁, block P s node (thrPtr t) = some (r, s₁) ∧ VisitLeaves P aligned node t s₁ s' := by
  have hthr : thrQty = 8 := rfl
  rw [visitBlock_eq] at h
  cases hblock : block P s node (thrPtr t) with
  | none =>
    rw [hblock] at h
    cases h
  | some x =>
    obtain ⟨r', s₁⟩ := x
    rw [hblock] at h
    obtain ⟨rfl, rfl⟩ := Prod.mk.inj (Option.some.inj h)
    have hcurr : P.adr (thrPtr t + tTdCurrtime) ≠ P.adr (thrPtr t + tTdCurrtime + 4) := by
      rw [adr_currtime P ht, adr_currtimeLo P ht]
      exact P.ctl_ne (by omega) (by omega) (by omega)
    have hdead : P.adr (thrPtr t + tTdDeadline) ≠ P.adr (thrPtr t + tTdDeadline + 4) := by
      rw [adr_deadline P ht, adr_deadlineLo P ht]
      exact P.ctl_ne (by omega) (by omega) (by omega)
    have hkeep : ∀ (m : Mem) (v : Time),
        thrTime P (P.st64 m (thrPtr t + tTdDeadline) v) t = thrTime P m t := by
      intro m v
      apply P.ld64_congr <;> apply P.st64_other <;>
        simp only [adr_currtime P ht, adr_currtimeLo P ht, adr_deadline P ht, adr_deadlineLo P ht] <;>
        exact P.ctl_ne (by omega) (by omega) (by omega)
    refine ⟨s₁, rfl, ?_, ?_, rfl, ?_⟩
    · simp only [Cpu.st64_mem, hkeep]
      exact P.ld64_st64_same hcurr
    · simp only [Cpu.st64_mem, hkeep]
      exact P.ld64_st64_same hdead
    · intro a ha
      have hne : ∀ o, 548 ≤ o → o < 564 → a ≠ P.ctl (o + t * 32) := ha
      simp only [Cpu.st64_mem]
      rw [P.st64_other (by rw [adr_deadline P ht]; exact hne 548 (by omega) (by omega))
          (by rw [adr_deadlineLo P ht]; exact hne 552 (by omega) (by omega)),
        P.st64_other (by rw [adr_currtime P ht]; exact hne 556 (by omega) (by omega))
          (by rw [adr_currtimeLo P ht]; exact hne 560 (by omega) (by omega))]

/-! ### The command a visit executes -/

section Served

variable {P} {s s₁ : Cpu} {node c : Word} {e : Nat} {base : Nat} {lst : Nat → Nat}
  {buf : Nat → Nat → Nat} (hl : BlockLayout P s.mem node base lst buf)
  (hfind : findCmd P s node = .command c e s₁)
include hl hfind

theorem BlockLayout.findCmd_command :
    (∃ q, q < 3 ∧ P.hasQueue s.mem node q = true ∧ c = readElem P s.mem node q) ∧
      s₁.mem = (s.paint P node).mem := by
  simp only [findCmd] at hfind
  split at hfind
  next =>
    split at hfind
    next => cases hfind
    next c' hc =>
      split at hfind
      next => cases hfind
      next =>
        cases hfind
        obtain ⟨q, hmem, hex, rfl⟩ := scanQueues_cmd P _ _ _ _ _ _ hc (by simp)
        have hq : q < 3 := mem_scanPrios.1 hmem
        rw [hasQueue_paint] at hex
        exact ⟨⟨q, hq, hex, hl.readElem_paint hq hex⟩, rfl⟩
  next => cases hfind

theorem BlockLayout.adr_found {k : Nat} (hk : k < 5) :
    ∃ q i, q < 3 ∧ P.hasQueue s.mem node q = true ∧ i < 4 ∧
      P.adr (c + BitVec.ofNat 32 (4 * k)) = slotAdr buf q i + k := by
  obtain ⟨⟨q, hq, hex, rfl⟩, -⟩ := hl.findCmd_command hfind
  refine ⟨q, _, hq, hex, ringSlot_lt (idxByte (P.ld s.mem (node + blockCmdqRdIdxs)) q), ?_⟩
  rw [readElem_eq, hl.adr_slot hq hex (ringSlot_lt _) hk, slotAdr, Nat.add_assoc]

theorem BlockLayout.adr_foundAct_ne {n : Nat} (hn : n < 13) : P.adr (c + tCmdAct) ≠ base + n := by
  obtain ⟨q, i, hq, hex, hi, hadr⟩ := hl.adr_found hfind (k := 2) (by decide)
  rw [show tCmdAct = BitVec.ofNat 32 (4 * 2) from rfl, hadr]
  exact hl.slotAdr_ne_node hq hex hi (by decide) hn

theorem BlockLayout.adr_foundAct_ctl {o : Nat} (ho : o < shctlEnd) :
    P.adr (c + tCmdAct) ≠ P.ctl o := by
  obtain ⟨q, i, hq, hex, hi, hadr⟩ := hl.adr_found hfind (k := 2) (by decide)
  rw [show tCmdAct = BitVec.ofNat 32 (4 * 2) from rfl, hadr, slotAdr, Nat.add_assoc]
  exact (hl.ctl_ne_buf ho hq hex (by omega) (by omega)).symm

theorem BlockLayout.ld_found {k : Nat} (hk : k < 5) :
    P.ld s₁.mem (c + BitVec.ofNat 32 (4 * k)) = P.ld s.mem (c + BitVec.ofNat 32 (4 * k)) := by
  obtain ⟨q, i, hq, hex, hi, hadr⟩ := hl.adr_found hfind hk
  rw [(hl.findCmd_command hfind).2]
  apply hl.ld_paint
  rw [hadr]
  exact hl.slotAdr_ne_node hq hex hi hk (by decide)

theorem BlockLayout.ld_foundAct : P.ld s₁.mem (c + tCmdAct) = P.ld s.mem (c + tCmdAct) :=
  hl.ld_found hfind (k := 2) (by decide)

/-- A command with quantity left is executed; what the visit leaves are the words of its
action, but for the command's own and for the read indices. -/
theorem BlockLayout.block_executes (thrData : Word) {atype : ActType}
    (hqty : actQty (P.ld s.mem (c + tCmdAct)) ≠ 0)
    (htype : ActType.ofNum? (actType (P.ld s.mem (c + tCmdAct))) = some atype) :
    ∃ s', block P s node thrData = some ((actionFuncs P atype s₁ node c thrData).1, s') ∧
      s'.clk = (actionFuncs P atype s₁ node c thrData).2.clk ∧
      ∀ a, a ≠ P.adr (c + tCmdAct) → a ≠ base + 7 →
        s'.mem a = (actionFuncs P atype s₁ node c thrData).2.mem a := by
  rw [← hl.ld_foundAct hfind] at hqty htype
  rw [block_eq, hfind]
  simp only [serveCmd, if_pos hqty, htype]
  refine ⟨_, rfl, rfl, ?_⟩
  intro a hact hrd
  rw [popQueue, Cpu.st_mem, P.st_other (by rwa [hl.adr_rdIdxs]), Cpu.st_mem, P.st_other hact]

end Served

end DataMaster
