import BelProjects.B2b.Network
import BelProjects.B2b.Times
import BelProjects.Library.CheckedArray

/-!
# The fit of a phase

The phase measurement collects timestamps of an rf signal, sorts them, and fits the phase: it
projects the second timestamp by whole periods and compares each later one with it.  The
deviations are in attoseconds.

The array of timestamps is a memory with a size.  The code has `B2B_NSAMPLES` entries; with the
number of timestamps as the size, every access beyond them is a fault.
-/

namespace B2b

open CheckedArray

/-- Timestamps in order, as `uint64_t` are compared. -/
instance : LinearOrder Long where
  le_refl := BitVec.le_refl
  le_trans _ _ _ := BitVec.le_trans
  lt_iff_le_not_ge a b := by
    rw [BitVec.lt_def, BitVec.le_def, BitVec.le_def]
    omega
  le_antisymm _ _ := BitVec.le_antisymm
  le_total := BitVec.le_total
  toDecidableLE := inferInstance

abbrev Stamps := Nat → Long

/-- `B2B_NSAMPLES` -/
def maxSamples : Nat := 32

/-- `B2B_FW_USESUBNSFIT` -/
def useSubNsFit : Bool := true

def statusPhaseFailed : Word := 16

def oneNsAs : Long := 1000000000

/-- `sum_rfperiods_as`, `sum_deviation_as`, `max_deviation_as` and `min_deviation_as`, as `int64_t`,
and `nGood`. -/
structure Deviations where
  sumRfPeriods : Long
  sumDeviation : Long
  maxDeviation : Long
  minDeviation : Long
  nGood : Nat

def Deviations.init : Deviations := ⟨0, 0, 0, 0, 0⟩

def absDeviation (deviation : Long) : Long := if deviation.slt 0 then -deviation else deviation

/-- Take the next timestamp into account. -/
def Deviations.add (period tFirst : Long) (d : Deviations) (stamp : Long) : Deviations :=
  let diffStamp := (stamp - tFirst) * oneNsAs
  let deviation := diffStamp - d.sumRfPeriods
  let d :=
    if (absDeviation deviation).slt (period >>> 2) then
      { d with
        sumDeviation := d.sumDeviation + deviation
        nGood := d.nGood + 1
        maxDeviation := if d.maxDeviation.slt deviation then deviation else d.maxDeviation
        minDeviation := if deviation.slt d.minDeviation then deviation else d.minDeviation }
    else d
  { d with sumRfPeriods := d.sumRfPeriods + period }

def sdivChecked {w : Nat} (x y : BitVec w) : Except Fault (BitVec w) :=
  if y = 0 then .error .divByZero else .ok (x.sdiv y)

def sremChecked {w : Nat} (x y : BitVec w) : Except Fault (BitVec w) :=
  if y = 0 then .error .divByZero else .ok (x.srem y)

def Deviations.time (d : Deviations) (tFirst aveDeviation : Long) : B2bt :=
  let subNsFit := (d.maxDeviation + d.minDeviation).sshiftRight 1
  let window : Word := (d.maxDeviation - d.minDeviation).setWidth 32
  let deviation := if useSubNsFit then subNsFit else aveDeviation
  cleanB2bt ⟨tFirst, (deviation.sdiv 1000000).setWidth 32, window >>> 20⟩

def phaseFitAverage (size : Nat) (tStamp : Stamps) (period : Long) (nSamples : Nat) (phase : B2bt) :
    Except Fault (Word × B2bt) := do
  if period = 0 then return (statusPhaseFailed, phase)
  if nSamples < 3 then return (statusPhaseFailed, phase)
  let tFirst ← load size tStamp 1
  let d ← (List.range' 1 (nSamples - 1)).foldlM
    (fun d i => do let stamp ← load size tStamp i; pure (d.add period tFirst stamp))
    Deviations.init
  if d.nGood < 1 then
    return (statusPhaseFailed, ⟨0x7fffffffffffffff, 0x7fffffff, 0x7fffffff⟩)
  let aveDeviation ← sdivChecked d.sumDeviation (BitVec.ofNat 64 d.nGood)
  return (statusOk, d.time tFirst aveDeviation)

/-- `periodNs` of `phaseFit`, an `int32_t`. -/
def nsOfPeriod (period : Long) : Word := (period / 1000000000).setWidth 32

/-- `dt` of `phaseFit`. -/
def dtOf (periodNs delta : Word) : Word :=
  if (periodNs.sshiftRight 1).slt delta then periodNs - delta else delta

def phaseFit (size : Nat) (tStamp : Stamps) (period : Long) (nSamples : Nat) (phase : B2bt) :
    Except Fault (Word × B2bt) := do
  if period = 0 then return (statusPhaseFailed, phase)
  if nSamples < 3 then return (statusPhaseFailed, phase)
  -- the timestamp in the middle
  let usedIdx := nSamples >>> 1
  let periodNs := nsOfPeriod period
  let maxDelta : Word := periodNs.sdiv 10
  let next ← load size tStamp (usedIdx + 1)
  let used ← load size tStamp usedIdx
  let diff : Word := (next - used).setWidth 32
  let delta ← sremChecked diff periodNs
  -- `dt` is converted to unsigned for this comparison
  if maxDelta < dtOf periodNs delta then return (statusPhaseFailed, phase)
  let (status, phase) ← phaseFitAverage size tStamp period nSamples phase
  if status ≠ statusOk then
    let used ← load size tStamp usedIdx
    return (statusOk, ⟨used, 0, 2000⟩)
  return (status, phase)

/-! ### What a fit depends on -/

/-- The result of `phaseFitAverage` for the timestamps after the first one. -/
def averageOf (period : Long) (stamps : List Long) : Word × B2bt :=
  let tFirst := stamps.headD 0
  let d := stamps.foldl (Deviations.add period tFirst) Deviations.init
  if d.nGood < 1 then (statusPhaseFailed, ⟨0x7fffffffffffffff, 0x7fffffff, 0x7fffffff⟩)
  else (statusOk, d.time tFirst (d.sumDeviation.sdiv (BitVec.ofNat 64 d.nGood)))

/-- The timestamp in the middle and its successor are not a whole number of periods apart. -/
def OffPeriod (periodNs diff : Word) : Prop := periodNs.sdiv 10 < dtOf periodNs (diff.srem periodNs)

instance (periodNs diff : Word) : Decidable (OffPeriod periodNs diff) :=
  inferInstanceAs (Decidable (_ < _))

theorem nGood_add_le (period tFirst : Long) (d : Deviations) (stamp : Long) :
    (d.add period tFirst stamp).nGood ≤ d.nGood + 1 := by
  unfold Deviations.add
  dsimp only
  split
  · exact Nat.le_refl _
  · exact Nat.le_succ _

theorem nGood_foldl_le (period tFirst : Long) (stamps : List Long) (d : Deviations) :
    (stamps.foldl (Deviations.add period tFirst) d).nGood ≤ d.nGood + stamps.length := by
  induction stamps generalizing d with
  | nil => exact Nat.le_refl _
  | cons stamp stamps ih =>
    have hadd := nGood_add_le period tFirst d stamp
    have hrest := ih (d.add period tFirst stamp)
    rw [List.foldl_cons, List.length_cons]
    omega

theorem tail_contents (tStamp : Stamps) (n : Nat) :
    (contents tStamp n).tail = (List.range' 1 (n - 1)).map tStamp := by
  rw [contents, ← List.map_tail, List.range_eq_range', List.tail_range']

theorem phaseFitAverage_eq {size n : Nat} {period : Long} (hperiod : period ≠ 0) (hn : 3 ≤ n)
    (hsize : n ≤ size) (hmax : n ≤ maxSamples) (tStamp : Stamps) (phase : B2bt) :
    phaseFitAverage size tStamp period n phase =
      .ok (averageOf period (contents tStamp n).tail) := by
  have hfirst : (contents tStamp n).tail.headD 0 = tStamp 1 := by
    obtain ⟨m, rfl⟩ : ∃ m, n = m + 2 := ⟨n - 2, by omega⟩
    rw [tail_contents]
    rfl
  have hinside : ∀ i ∈ List.range' 1 (n - 1), i < size := by
    intro i hi
    rw [List.mem_range'_1] at hi
    omega
  have hloop := foldlM_load tStamp (Deviations.add period (tStamp 1)) hinside Deviations.init
  have hgood := nGood_foldl_le period (tStamp 1) ((List.range' 1 (n - 1)).map tStamp) Deviations.init
  rw [averageOf, hfirst, tail_contents]
  simp only [phaseFitAverage, if_neg hperiod, if_neg (show ¬n < 3 by omega),
    load_ok (show 1 < size by omega), ok_bind]
  rw [hloop]
  simp only [ok_bind, pure_eq_ok]
  generalize ((List.range' 1 (n - 1)).map tStamp).foldl (Deviations.add period (tStamp 1))
    Deviations.init = d at hgood ⊢
  split
  · rfl
  · have hne : BitVec.ofNat 64 d.nGood ≠ 0 := by
      intro h
      have hzero := congrArg BitVec.toNat h
      simp [Deviations.init, maxSamples] at hzero hgood hmax
      omega
    rw [sdivChecked, if_neg hne]
    rfl

/-- The fit of enough timestamps looks at no others.  It divides by the period in ns. -/
theorem phaseFit_eq {size n : Nat} {period : Long} (hperiod : period ≠ 0) (hn : 3 ≤ n)
    (hsize : n ≤ size) (hmax : n ≤ maxSamples) (tStamp : Stamps) (phase : B2bt) :
    phaseFit size tStamp period n phase =
      if nsOfPeriod period = 0 then .error .divByZero
      else .ok (
        if OffPeriod (nsOfPeriod period)
            ((tStamp (n >>> 1 + 1) - tStamp (n >>> 1)).setWidth 32) then (statusPhaseFailed, phase)
        else if (averageOf period (contents tStamp n).tail).1 ≠ statusOk then
          (statusOk, ⟨tStamp (n >>> 1), 0, 2000⟩)
        else averageOf period (contents tStamp n).tail) := by
  have hhalf : n >>> 1 + 1 < n := by
    rw [Nat.shiftRight_eq_div_pow]
    omega
  simp only [phaseFit, if_neg hperiod, if_neg (show ¬n < 3 by omega),
    load_ok (show n >>> 1 + 1 < size by omega), load_ok (show n >>> 1 < size by omega), ok_bind,
    phaseFitAverage_eq hperiod hn hsize hmax, sremChecked, pure_eq_ok]
  by_cases hns : nsOfPeriod period = 0
  · rw [if_pos hns, if_pos hns]
    rfl
  · rw [if_neg hns, if_neg hns, ok_bind]
    by_cases hoff : OffPeriod (nsOfPeriod period)
        ((tStamp (n >>> 1 + 1) - tStamp (n >>> 1)).setWidth 32)
    · rw [if_pos hoff]
      exact if_pos hoff
    · rw [if_neg hoff]
      refine (if_neg hoff).trans ?_
      split <;> rfl

theorem phaseFit_refused {size n : Nat} {period : Long} (h : period = 0 ∨ n < 3) (tStamp : Stamps)
    (phase : B2bt) : phaseFit size tStamp period n phase = .ok (statusPhaseFailed, phase) := by
  by_cases hperiod : period = 0
  · simp only [phaseFit, if_pos hperiod, pure_eq_ok]
  · have hn := h.resolve_left hperiod
    simp only [phaseFit, if_neg hperiod, if_pos hn, pure_eq_ok]

/-- A fit that succeeds is the same in every array that begins with the same timestamps. -/
theorem phaseFit_alone {size size' n : Nat} {period : Long} {ts ts' : Stamps} {phase t : B2bt}
    (hsize : n ≤ size) (hsize' : n ≤ size') (hmax : n ≤ maxSamples)
    (hcontents : contents ts n = contents ts' n)
    (h : phaseFit size ts period n phase = .ok (statusOk, t)) (phase' : B2bt) :
    phaseFit size' ts' period n phase' = .ok (statusOk, t) := by
  have hfailed : statusPhaseFailed ≠ statusOk := by decide
  by_cases hrefused : period = 0 ∨ n < 3
  · rw [phaseFit_refused hrefused] at h
    exact absurd (congrArg Prod.fst (Except.ok.inj h)) hfailed
  · have hn : 3 ≤ n := by omega
    have hperiod : period ≠ 0 := fun hzero => hrefused (Or.inl hzero)
    have hentry : ∀ i < n, ts i = ts' i := by
      intro i hi
      have hget := congrArg (·[i]?) hcontents
      simpa only [getElem?_contents hi, Option.some.injEq] using hget
    have hhalf : n >>> 1 + 1 < n := by
      rw [Nat.shiftRight_eq_div_pow]
      omega
    rw [phaseFit_eq hperiod hn hsize hmax] at h
    rw [phaseFit_eq hperiod hn hsize' hmax, ← hcontents, ← hentry _ hhalf,
      ← hentry (n >>> 1) (by omega)]
    by_cases hns : nsOfPeriod period = 0
    · rw [if_pos hns] at h
      cases h
    · rw [if_neg hns] at h ⊢
      split at h
      · exact absurd (congrArg Prod.fst (Except.ok.inj h)) hfailed
      · rename_i hon
        rw [if_neg hon]
        exact h

theorem nsOfPeriod_eq_zero_iff {period : Long} (h : period.toNat < 2 ^ 52) :
    nsOfPeriod period = 0 ↔ period.toNat < 1000000000 := by
  have hdiv : (nsOfPeriod period).toNat = period.toNat / 1000000000 := by
    rw [nsOfPeriod, BitVec.toNat_setWidth, BitVec.toNat_udiv]
    exact Nat.mod_eq_of_lt (by
      change period.toNat / 1000000000 < 2 ^ 32
      omega)
  rw [← BitVec.toNat_inj, hdiv]
  change period.toNat / 1000000000 = 0 ↔ _
  omega

end B2b
