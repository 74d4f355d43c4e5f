import BelProjects.WrMil.F50Validity

/-!
# The limits of the regulation

The forecast and the period of the next cycle are limited to what the Data Master can do.  The
differences are formed in unsigned words before they are compared with the limits.
-/

namespace WrF50

open B2b (Word Long SysTime TimingMsg evtGid buildEvtidV1 ebmWriteTM)

/-- A signed value limited to the lengths of a cycle. -/
def clamp (v : Int) : Int := max 19800000 (min 20400000 v)

theorem clamp_of_lt {v : Int} (h : v < 19800000) : clamp v = 19800000 := by
  rw [clamp]
  omega

theorem clamp_of_gt {v : Int} (h : 20400000 < v) : clamp v = 20400000 := by
  rw [clamp]
  omega

theorem clamp_of_mem {v : Int} (hmin : 19800000 ≤ v) (hmax : v ≤ 20400000) : clamp v = v := by
  rw [clamp]
  omega

theorem clamp_bounds (v : Int) : 19800000 ≤ clamp v ∧ clamp v ≤ 20400000 := by
  rw [clamp]
  omega

/-! ### The forecast -/

/-- The slope of the regression line, `b`. -/
def slope (stamps : Stamps) : Long :=
  let x0 := stamps 0 - 1000000
  let n := BitVec.ofNat 64 nStamps
  let x (i : Fin nStamps) := BitVec.ofNat 64 i.1
  let xMean := (total x).sdiv n
  let yMean := (total fun i => stamps i - x0).sdiv n
  let num := (total fun i => x i * (stamps i - x0)) - n * xMean * yMean
  let denom := (total fun i => x i * x i) - n * xMean * xMean
  num.sdiv denom

/-- The forecast for cycle `k`, without limits. -/
def forecast (stamps : Stamps) (k : Long) : Long :=
  let x0 := stamps 0 - 1000000
  let n := BitVec.ofNat 64 nStamps
  let xMean := (total fun i => BitVec.ofNat 64 i.1).sdiv n
  let yMean := (total fun i => stamps i - x0).sdiv n
  x0 + (yMean - slope stamps * xMean) + slope stamps * k

theorem nextStamp_eq (stamps : Stamps) : nextStamp stamps =
    (hardLimits (forecast stamps 21) (stamps (Fin.last _)),
      hardLimits (forecast stamps 22) (hardLimits (forecast stamps 21) (stamps (Fin.last _)))) := rfl

theorem hardLimits_sub (nxtStamp actStamp : Long) :
    ((hardLimits nxtStamp actStamp - actStamp).toNat : Int) =
      clamp ((nxtStamp - actStamp).toNat : Int) := by
  have hcancel : ∀ d : Long, actStamp + d - actStamp = d := fun d => by
    rw [BitVec.add_comm, BitVec.add_sub_cancel]
  rw [hardLimits]
  by_cases hmin : nxtStamp - actStamp < cycleLenMin
  · have hlt : (nxtStamp - actStamp).toNat < 19800000 := hmin
    have hnot : ¬ cycleLenMax < cycleLenMin := by decide
    rw [if_pos hmin, hcancel, if_neg hnot, hcancel, clamp_of_lt (by exact_mod_cast hlt)]
    rfl
  · rw [if_neg hmin]
    have hge : 19800000 ≤ (nxtStamp - actStamp).toNat := Nat.le_of_not_lt hmin
    by_cases hmax : cycleLenMax < nxtStamp - actStamp
    · have hgt : 20400000 < (nxtStamp - actStamp).toNat := hmax
      rw [if_pos hmax, hcancel, clamp_of_gt (by exact_mod_cast hgt)]
      rfl
    · have hle : (nxtStamp - actStamp).toNat ≤ 20400000 := Nat.le_of_not_lt hmax
      rw [if_neg hmax, clamp_of_mem (by exact_mod_cast hge) (by exact_mod_cast hle)]

theorem hardLimits_bounds (nxtStamp actStamp : Long) :
    19800000 ≤ (hardLimits nxtStamp actStamp - actStamp).toInt ∧
      (hardLimits nxtStamp actStamp - actStamp).toInt ≤ 20400000 ∧
      (hardLimits nxtStamp actStamp - actStamp).toInt =
        (hardLimits nxtStamp actStamp - actStamp).toNat := by
  have hsub := hardLimits_sub nxtStamp actStamp
  have hbounds := clamp_bounds ((nxtStamp - actStamp).toNat : Int)
  rw [BitVec.toInt_eq_toNat_cond]
  split <;> omega

theorem hardLimits_clamp_iff (nxtStamp actStamp : Long) :
    (hardLimits nxtStamp actStamp - actStamp).toInt = clamp (nxtStamp - actStamp).toInt ↔
      0 ≤ (nxtStamp - actStamp).toInt := by
  obtain ⟨-, -, hint⟩ := hardLimits_bounds nxtStamp actStamp
  have hlt := (nxtStamp - actStamp).isLt
  rw [hint, hardLimits_sub, BitVec.toInt_eq_toNat_cond]
  split
  · exact iff_of_true rfl (Int.natCast_nonneg _)
  · -- a negative distance is a huge unsigned one
    rw [clamp_of_gt (by omega), clamp_of_lt (by omega)]
    constructor <;> intro h <;> omega

/-! ### The period of the Data Master -/

def limitSet (getTDmSet : Word) : Word :=
  let getTDmSet :=
    if getTDmSet < cycleLenMin.setWidth 32 then cycleLenMin.setWidth 32 else getTDmSet
  if cycleLenMax.setWidth 32 < getTDmSet then cycleLenMax.setWidth 32 else getTDmSet

theorem limitSet_toNat (w : Word) : ((limitSet w).toNat : Int) = clamp (w.toNat : Int) := by
  rw [limitSet]
  by_cases hmin : w < cycleLenMin.setWidth 32
  · have hlt : w.toNat < 19800000 := hmin
    have hnot : ¬ cycleLenMax.setWidth 32 < cycleLenMin.setWidth 32 := by decide
    rw [if_pos hmin, if_neg hnot, clamp_of_lt (by exact_mod_cast hlt)]
    rfl
  · rw [if_neg hmin]
    have hge : 19800000 ≤ w.toNat := Nat.le_of_not_lt hmin
    by_cases hmax : cycleLenMax.setWidth 32 < w
    · have hgt : 20400000 < w.toNat := hmax
      rw [if_pos hmax, clamp_of_gt (by exact_mod_cast hgt)]
      rfl
    · have hle : w.toNat ≤ 20400000 := Nat.le_of_not_lt hmax
      rw [if_neg hmax, clamp_of_mem (by exact_mod_cast hge) (by exact_mod_cast hle)]

theorem period_toNat (d : Long) (offset : Word) :
    ((d.setWidth 32 - offset).toNat : Int) = (d.toInt - offset.toNat) % 2 ^ 32 := by
  rw [BitVec.toNat_sub, BitVec.toNat_setWidth, BitVec.toInt_eq_toNat_cond]
  have hoffset := offset.isLt
  split <;> omega

/-- The low 32 bits are on the right side of the limits. -/
def Kept (v : Int) : Prop :=
  (19800000 ≤ v ∧ v ≤ 20400000) ∨ (v < 19800000 ∧ v % 2 ^ 32 ≤ 19800000) ∨
    (20400000 < v ∧ 20400000 ≤ v % 2 ^ 32)

theorem clamp_mod_iff (v : Int) : clamp (v % 2 ^ 32) = clamp v ↔ Kept v := by
  rw [clamp, clamp, Kept]
  omega

section Tune

variable (s : F50) (tluStamp : Long) (x : Meets)

theorem F50.tune_t1 : (s.tune tluStamp x).1.t1F50 =
    hardLimits (forecast s.stampsF50 21) (s.stampsF50 (Fin.last _)) := by
  simp only [F50.tune, nextStamp_eq]

theorem F50.tune_t2 : (s.tune tluStamp x).1.t2F50 =
    hardLimits (forecast s.stampsF50 22) (s.tune tluStamp x).1.t1F50 := by
  simp only [F50.tune, nextStamp_eq]

theorem F50.tune_set : (s.tune tluStamp x).1.getTDmSet =
    limitSet (((s.tune tluStamp x).1.t1F50 - s.t0Dm).setWidth 32 - s.setF50Offset) := by
  unfold F50.tune
  generalize nextStamp s.stampsF50 = stamps
  obtain ⟨t1F50, t2F50⟩ := stamps
  rfl

/-- The message that tells the Data Master the length of its next cycle. -/
def tuneEvtId : Long := buildEvtidV1 pzuF50 ecaDoF50Tune 0 0 0 0

def Output.message : Output → TimingMsg
  | .eca m => m
  | .network m => m

def F50.excess : Long := ((s.tune tluStamp x).1.getTDmSet - cycleLenMin.setWidth 32).setWidth 64

theorem F50.tune_out : (s.tune tluStamp x).2 =
    [.eca (ebmWriteTM x.checked x.rescheduled (tluStamp + tuneMsgDelay) tuneEvtId
        (s.excess tluStamp x) 0),
      if s.setMode &&& maskLockDm ≠ 0 then
        .network (ebmWriteTM x.checked2 x.rescheduled2 (tluStamp + tuneMsgDelay) tuneEvtId
          (s.excess tluStamp x) 0)
      else
        .eca (ebmWriteTM x.checked2 x.rescheduled2 (s.tune tluStamp x).1.t1F50
          (buildEvtidV1 pzuF50 ecaDoF50Dm 0 0 0 0) 0 0)] := by
  simp only [F50.excess, F50.tune, tuneEvtId]

theorem F50.set_bounds :
    19800000 ≤ (s.tune tluStamp x).1.getTDmSet.toNat ∧
      (s.tune tluStamp x).1.getTDmSet.toNat ≤ 20400000 := by
  have hset := limitSet_toNat
    (((s.tune tluStamp x).1.t1F50 - s.t0Dm).setWidth 32 - s.setF50Offset)
  have hbounds := clamp_bounds
    ((((s.tune tluStamp x).1.t1F50 - s.t0Dm).setWidth 32 - s.setF50Offset).toNat : Int)
  rw [F50.tune_set]
  omega

theorem F50.excess_toNat :
    (s.excess tluStamp x).toNat = (s.tune tluStamp x).1.getTDmSet.toNat - 19800000 := by
  obtain ⟨hmin, hmax⟩ := s.set_bounds tluStamp x
  have hlimit : (cycleLenMin.setWidth 32).toNat = 19800000 := rfl
  rw [F50.excess, BitVec.toNat_setWidth, BitVec.toNat_sub, hlimit]
  omega

/-- The second message is the first one for the network, or one for the own ECA. -/
theorem F50.tune_param {o : Output} (ho : o ∈ (s.tune tluStamp x).2)
    (htune : o.message.evtId = tuneEvtId) : o.message.param = s.excess tluStamp x := by
  rw [F50.tune_out] at ho
  rcases List.mem_cons.mp ho with rfl | ho
  · rw [Output.message, B2b.ebmWriteTM_param]
  · obtain rfl := List.mem_singleton.mp ho
    by_cases hmode : s.setMode &&& maskLockDm ≠ 0
    · rw [if_pos hmode, Output.message, B2b.ebmWriteTM_param]
    · have hne : buildEvtidV1 pzuF50 ecaDoF50Dm 0 0 0 0 ≠ tuneEvtId := by decide
      rw [if_neg hmode, Output.message, B2b.ebmWriteTM_evtId] at htune
      exact absurd htune hne

end Tune

/-- What is predicted and set are the unlimited values, limited to the lengths of a cycle. -/
structure F50.Limited (s s' : F50) : Prop where
  first : (s'.t1F50 - s.stampsF50 (Fin.last _)).toInt =
    clamp (forecast s.stampsF50 21 - s.stampsF50 (Fin.last _)).toInt
  second : (s'.t2F50 - s'.t1F50).toInt = clamp (forecast s.stampsF50 22 - s'.t1F50).toInt
  period : (s'.getTDmSet.toNat : Int) =
    clamp ((s'.t1F50 - s.t0Dm).toInt - s.setF50Offset.toNat)

def F50.nextMains (s : F50) : Long :=
  s.stampsF50 (Fin.last _) +
    BitVec.ofInt 64 (clamp (forecast s.stampsF50 21 - s.stampsF50 (Fin.last _)).toInt)

/-- The regression line is not before the stamps that it continues, and the time that is left
for the cycle of the Data Master is within the limits, or its low word is on the same side of
them. -/
structure F50.Ahead (s : F50) : Prop where
  first : 0 ≤ (forecast s.stampsF50 21 - s.stampsF50 (Fin.last _)).toInt
  second : 0 ≤ (forecast s.stampsF50 22 - s.nextMains).toInt
  period : Kept ((s.nextMains - s.t0Dm).toInt - s.setF50Offset.toNat)

theorem F50.tune_t1_eq {s : F50} (tluStamp : Long) (x : Meets)
    (h : 0 ≤ (forecast s.stampsF50 21 - s.stampsF50 (Fin.last _)).toInt) :
    (s.tune tluStamp x).1.t1F50 = s.nextMains := by
  have hclamp := (hardLimits_clamp_iff _ _).mpr h
  rw [F50.nextMains, ← hclamp, BitVec.ofInt_toInt, F50.tune_t1, BitVec.add_comm, BitVec.sub_add_cancel]

section Limited

variable (s : F50) (tluStamp : Long) (x : Meets)

theorem F50.first_iff : ((s.tune tluStamp x).1.t1F50 - s.stampsF50 (Fin.last _)).toInt =
      clamp (forecast s.stampsF50 21 - s.stampsF50 (Fin.last _)).toInt ↔
    0 ≤ (forecast s.stampsF50 21 - s.stampsF50 (Fin.last _)).toInt := by
  rw [F50.tune_t1, hardLimits_clamp_iff]

theorem F50.second_iff : ((s.tune tluStamp x).1.t2F50 - (s.tune tluStamp x).1.t1F50).toInt =
      clamp (forecast s.stampsF50 22 - (s.tune tluStamp x).1.t1F50).toInt ↔
    0 ≤ (forecast s.stampsF50 22 - (s.tune tluStamp x).1.t1F50).toInt := by
  rw [F50.tune_t2, hardLimits_clamp_iff]

theorem F50.period_iff : ((s.tune tluStamp x).1.getTDmSet.toNat : Int) =
      clamp (((s.tune tluStamp x).1.t1F50 - s.t0Dm).toInt - s.setF50Offset.toNat) ↔
    Kept (((s.tune tluStamp x).1.t1F50 - s.t0Dm).toInt - s.setF50Offset.toNat) := by
  rw [F50.tune_set, limitSet_toNat, period_toNat, clamp_mod_iff]

end Limited

/-- **The limits**, for any content of the state.  The set value is within the limits, and the
Data Master is told how much it is above the lower one.  Forecast and set value are the signed
values, clamped, if and only if the regression line does not run backwards and the time left
for the Data Master fits. -/
theorem limited_iff (s : F50) (tluStamp : Long) (x : Meets) :
    (19800000 ≤ (s.tune tluStamp x).1.getTDmSet.toNat ∧
        (s.tune tluStamp x).1.getTDmSet.toNat ≤ 20400000) ∧
      (∀ o ∈ (s.tune tluStamp x).2, o.message.evtId = tuneEvtId →
        o.message.param.toNat = (s.tune tluStamp x).1.getTDmSet.toNat - 19800000) ∧
      (s.Limited (s.tune tluStamp x).1 ↔ s.Ahead) := by
  refine ⟨s.set_bounds tluStamp x, fun o ho htune => ?_, ?_⟩
  · rw [s.tune_param tluStamp x ho htune, F50.excess_toNat]
  constructor
  · intro h
    have hfirst := (s.first_iff tluStamp x).mp h.first
    have hsecond := (s.second_iff tluStamp x).mp h.second
    have hperiod := (s.period_iff tluStamp x).mp h.period
    rw [F50.tune_t1_eq tluStamp x hfirst] at hsecond hperiod
    exact ⟨hfirst, hsecond, hperiod⟩
  · rintro ⟨hfirst, hsecond, hperiod⟩
    rw [← F50.tune_t1_eq tluStamp x hfirst] at hsecond hperiod
    exact ⟨(s.first_iff tluStamp x).mpr hfirst, (s.second_iff tluStamp x).mpr hsecond,
      (s.period_iff tluStamp x).mpr hperiod⟩

/-- The mains are regular, and the Data Master is half a cycle late. -/
def lateDm : F50 :=
  { F50.boot with
    setF50Offset := 15000000
    stampsF50 := fun i => 1800000000000000000 + BitVec.ofNat 64 i.1 * 20000000
    t0Dm := 1800000000000000000 + 20 * 20000000 + 10000000 }

/-- **A late Data Master is slowed down**: the set period should be the lower limit, and is the
upper one. -/
theorem late_slowed_down :
    ¬ ∀ (s : F50) (tluStamp : Long) (x : Meets), s.Limited (s.tune tluStamp x).1 := by
  intro h
  have hperiod := (h lateDm 0 (meetsAt startTime)).period
  revert hperiod
  decide +kernel

end WrF50
