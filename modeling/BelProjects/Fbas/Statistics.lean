import BelProjects.Fbas.Messages
import Mathlib.Data.List.Induction
import Mathlib.Algebra.Order.BigOperators.Group.List

/-!
# Statistics of measured periods

Each item has the extremes, the average and the counts of the periods measured for it.  They are
those of the periods since the last clearing of all items.  A clearing of one item clears
nothing, since its loop ends before the item; so the statistics are right exactly if the item was
not measured before it.
-/

namespace Fbas

def nMsrItems : Nat := 9

structure MsrSumStats where
  ts : Long
  avg : Long
  min : Long
  max : Long
  cntValid : Word
  cntTotal : Word
  deriving DecidableEq, Repr

def MsrSumStats.zero : MsrSumStats := ⟨0, 0, 0, 0, 0, 0⟩

def outlierThreshold (item : Fin nMsrItems) : Word :=
  [10000, 20000, 20000, 200000, 200000, 10000000, 101000000, 200000, 20000].getD item.1 0

/-- `sumStats` and the counts of `outlierStat`. -/
structure Measures where
  sumStats : Fin nMsrItems → MsrSumStats
  outlierCnt : Fin nMsrItems → Word

def Measures.boot : Measures := ⟨fun _ => .zero, fun _ => 0⟩

/-- A period is an `int64_t`. -/
def isPositive (value : Long) : Bool := (0 : Long).slt value

def calculateSumStats (value : Long) (p : MsrSumStats) : MsrSumStats :=
  let p :=
    if isPositive value then
      { p with
        avg := (value + p.cntValid.setWidth 64 * p.avg) / (p.cntValid + 1).setWidth 64
        cntValid := p.cntValid + 1
        max := if p.max.toNat < value.toNat then value else p.max
        min := if value.slt p.min ∨ p.min = 0 then value else p.min }
    else p
  { p with cntTotal := p.cntTotal + 1 }

def isOutlier (item : Fin nMsrItems) (period : Long) : Prop :=
  ((outlierThreshold item).setWidth 64 : Long).slt period

instance (item : Fin nMsrItems) (period : Long) : Decidable (isOutlier item period) :=
  inferInstanceAs (Decidable (_ = _))

namespace Measures

def measureSummarize (s : Measures) (item : Fin nMsrItems) (from_ now : Long) : Measures where
  sumStats := Function.update s.sumStats item (calculateSumStats (now - from_) (s.sumStats item))
  outlierCnt :=
    if isOutlier item (now - from_) then
      Function.update s.outlierCnt item (s.outlierCnt item + 1)
    else s.outlierCnt

/-- The body of the loop of `measureClearSummary`. -/
def clearItem (s : Measures) (i : Nat) : Measures where
  sumStats := fun item => if item.1 = i then .zero else s.sumStats item
  outlierCnt := fun item => if item.1 = i then 0 else s.outlierCnt item

/-- The loop of `measureClearSummary`. -/
def clearRange (s : Measures) (firstItem lastItem : Nat) : Measures :=
  (List.range' firstItem (lastItem - firstItem)).foldl clearItem s

def measureClearSummary (s : Measures) (item : Word) : Measures :=
  if item.toNat = nMsrItems then s.clearRange 0 nMsrItems
  else if item.toNat < nMsrItems then s.clearRange item.toNat item.toNat
  else s

end Measures

/-! ### Histories -/

inductive MsrCall where
  | summarize (item : Fin nMsrItems) (from_ now : Long)
  | clear (item : Word)
  deriving DecidableEq, Repr

def Measures.call (s : Measures) : MsrCall → Measures
  | .summarize item from_ now => s.measureSummarize item from_ now
  | .clear item => s.measureClearSummary item

def Measures.run (s : Measures) (calls : List MsrCall) : Measures := calls.foldl call s

def measuredSince (clears : Word → Prop) [DecidablePred clears] (item : Fin nMsrItems)
    (calls : List MsrCall) : List Long :=
  calls.foldl (fun periods c =>
    match c with
    | .summarize i from_ now => if i = item then periods ++ [now - from_] else periods
    | .clear i => if clears i then [] else periods) []

def Covers (item : Fin nMsrItems) (i : Word) : Prop := i.toNat = item.1 ∨ i.toNat = nMsrItems

instance (item : Fin nMsrItems) : DecidablePred (Covers item) :=
  fun _ => inferInstanceAs (Decidable (_ ∨ _))

def ClearsAll (i : Word) : Prop := i.toNat = nMsrItems

instance : DecidablePred ClearsAll := fun i => inferInstanceAs (Decidable (i.toNat = _))

def validPeriods (periods : List Long) : List Nat :=
  (periods.filter fun period => isPositive period).map BitVec.toNat

structure Measures.Are (s : Measures) (item : Fin nMsrItems) (periods : List Long) : Prop where
  least : validPeriods periods ≠ [] → (s.sumStats item).min.toNat ∈ validPeriods periods ∧
    ∀ v ∈ validPeriods periods, (s.sumStats item).min.toNat ≤ v
  greatest : validPeriods periods ≠ [] → (s.sumStats item).max.toNat ∈ validPeriods periods ∧
    ∀ v ∈ validPeriods periods, v ≤ (s.sumStats item).max.toNat
  cntValid : (s.sumStats item).cntValid.toNat = (validPeriods periods).length
  cntTotal : (s.sumStats item).cntTotal.toNat = periods.length
  outliers : (s.outlierCnt item).toNat =
    (periods.filter fun period => isOutlier item period).length
  average : (s.sumStats item).cntValid ≠ 0 →
    (s.sumStats item).min.toNat ≤ (s.sumStats item).avg.toNat ∧
      (s.sumStats item).avg.toNat ≤ (s.sumStats item).max.toNat

/-- A clearing of one item leaves the others as they are. -/
def Measures.ClearsOnly (s : Measures) : Prop :=
  ∀ i item : Fin nMsrItems, item ≠ i →
    (s.measureClearSummary (BitVec.ofNat 32 i.1)).sumStats item = s.sumStats item ∧
      (s.measureClearSummary (BitVec.ofNat 32 i.1)).outlierCnt item = s.outlierCnt item

/-! ### Clearing -/

namespace Measures

variable (s : Measures) (item : Fin nMsrItems)

theorem foldl_clearItem (n first : Nat) :
    ((List.range' first n).foldl clearItem s).sumStats item =
        (if first ≤ item.1 ∧ item.1 < first + n then .zero else s.sumStats item) ∧
      ((List.range' first n).foldl clearItem s).outlierCnt item =
        (if first ≤ item.1 ∧ item.1 < first + n then 0 else s.outlierCnt item) := by
  induction n generalizing first s with
  | zero =>
      have hout : ¬ (first ≤ item.1 ∧ item.1 < first + 0) := by omega
      rw [if_neg hout, if_neg hout]
      exact ⟨rfl, rfl⟩
  | succ n ih =>
      rw [List.range'_succ, List.foldl_cons, (ih (s.clearItem first) (first + 1)).1,
        (ih (s.clearItem first) (first + 1)).2]
      simp only [clearItem]
      by_cases heq : item.1 = first
      · have hin : first ≤ item.1 ∧ item.1 < first + (n + 1) := by omega
        rw [if_pos hin, if_pos hin, if_pos heq, if_pos heq, ite_self, ite_self]
        exact ⟨rfl, rfl⟩
      · have hiff : first + 1 ≤ item.1 ∧ item.1 < first + 1 + n ↔
            first ≤ item.1 ∧ item.1 < first + (n + 1) := by omega
        rw [if_neg heq, if_neg heq]
        exact ⟨if_congr hiff rfl rfl, if_congr hiff rfl rfl⟩

theorem measureClearSummary_all {i : Word} (h : ClearsAll i) :
    (s.measureClearSummary i).sumStats item = .zero ∧
      (s.measureClearSummary i).outlierCnt item = 0 := by
  have hin : 0 ≤ item.1 ∧ item.1 < 0 + (nMsrItems - 0) := ⟨Nat.zero_le _, by omega⟩
  have hclear := s.foldl_clearItem item (nMsrItems - 0) 0
  rw [if_pos hin, if_pos hin] at hclear
  have hall : s.measureClearSummary i = s.clearRange 0 nMsrItems := if_pos h
  rw [hall]
  exact hclear

theorem measureClearSummary_other {i : Word} (h : ¬ ClearsAll i) :
    s.measureClearSummary i = s := by
  refine (if_neg h).trans ?_
  rw [clearRange, Nat.sub_self]
  exact ite_self s

theorem clearsOnly : s.ClearsOnly := by
  intro i item _
  have hi := i.isLt
  have hnine : nMsrItems = 9 := rfl
  have hother : ¬ ClearsAll (BitVec.ofNat 32 i.1) := by
    rw [ClearsAll, BitVec.toNat_ofNat]
    omega
  rw [measureClearSummary_other s hother]
  exact ⟨rfl, rfl⟩

end Measures

/-! ### Measuring -/

/-- The statistics with what the running average needs. -/
structure Measures.Tally (s : Measures) (item : Fin nMsrItems) (periods : List Long) : Prop
    extends s.Are item periods where
  none : validPeriods periods = [] → (s.sumStats item).min = 0 ∧ (s.sumStats item).max = 0
  sum : (s.sumStats item).cntValid.toNat * (s.sumStats item).avg.toNat ≤
    (validPeriods periods).sum

section Measuring

variable {s : Measures} {item : Fin nMsrItems} {periods : List Long} {value : Long}

theorem lt_of_isPositive (h : isPositive value) : 0 < value.toNat ∧ value.toNat < 2 ^ 63 := by
  have hzero : (0 : Long).toInt = 0 := by decide
  rw [isPositive, BitVec.slt_iff_toInt_lt, hzero, BitVec.toInt_eq_toNat_cond] at h
  split at h <;> omega

theorem mem_validPeriods {v : Nat} (h : v ∈ validPeriods periods) : 0 < v ∧ v < 2 ^ 63 := by
  obtain ⟨period, hmem, rfl⟩ := List.mem_map.mp h
  exact lt_of_isPositive (List.mem_filter.mp hmem).2

theorem validPeriods_snoc (h : isPositive value) :
    validPeriods (periods ++ [value]) = validPeriods periods ++ [value.toNat] := by
  simp [validPeriods, h]

theorem validPeriods_snoc_of_not (h : ¬ isPositive value) :
    validPeriods (periods ++ [value]) = validPeriods periods := by
  simp [validPeriods, h]

theorem slt_iff_of_small {a b : Long} (ha : a.toNat < 2 ^ 63) (hb : b.toNat < 2 ^ 63) :
    a.slt b ↔ a.toNat < b.toNat := by
  rw [BitVec.slt_iff_toInt_lt, BitVec.toInt_eq_toNat_of_lt (by omega),
    BitVec.toInt_eq_toNat_of_lt (by omega)]
  omega

theorem least_snoc {p : MsrSumStats} {l : List Nat} (hpos : isPositive value)
    (hsmall : ∀ v ∈ l, 0 < v ∧ v < 2 ^ 63)
    (hleast : l ≠ [] → p.min.toNat ∈ l ∧ ∀ v ∈ l, p.min.toNat ≤ v)
    (hnone : l = [] → p.min = 0) :
    (calculateSumStats value p).min.toNat ∈ l ++ [value.toNat] ∧
      ∀ v ∈ l ++ [value.toNat], (calculateSumStats value p).min.toNat ≤ v := by
  obtain ⟨-, hvalue⟩ := lt_of_isPositive hpos
  rw [calculateSumStats, if_pos hpos]
  dsimp only
  by_cases hl : l = []
  · rw [if_pos (.inr (hnone hl)), hl]
    simp
  obtain ⟨hmem, hle⟩ := hleast hl
  obtain ⟨hminpos, hmin⟩ := hsmall _ hmem
  have hnonzero : p.min ≠ 0 := by
    rintro h0
    rw [h0] at hminpos
    exact absurd hminpos (by decide)
  by_cases hlt : value.slt p.min
  · have hlt' := (slt_iff_of_small hvalue hmin).mp hlt
    rw [if_pos (.inl hlt)]
    refine ⟨List.mem_append_right _ List.mem_cons_self, fun v hv => ?_⟩
    rcases List.mem_append.mp hv with hv | hv
    · exact Nat.le_trans (Nat.le_of_lt hlt') (hle v hv)
    · exact (List.mem_singleton.mp hv).ge
  · have hge : p.min.toNat ≤ value.toNat :=
      Nat.le_of_not_lt fun h => hlt ((slt_iff_of_small hvalue hmin).mpr h)
    have hkept : ¬ (value.slt p.min ∨ p.min = 0) := by
      rintro (h | h)
      · exact hlt h
      · exact hnonzero h
    rw [if_neg hkept]
    refine ⟨List.mem_append_left _ hmem, fun v hv => ?_⟩
    rcases List.mem_append.mp hv with hv | hv
    · exact hle v hv
    · rw [List.mem_singleton.mp hv]
      exact hge

theorem greatest_snoc {p : MsrSumStats} {l : List Nat} (hpos : isPositive value)
    (hgreatest : l ≠ [] → p.max.toNat ∈ l ∧ ∀ v ∈ l, v ≤ p.max.toNat)
    (hnone : l = [] → p.max = 0) :
    (calculateSumStats value p).max.toNat ∈ l ++ [value.toNat] ∧
      ∀ v ∈ l ++ [value.toNat], v ≤ (calculateSumStats value p).max.toNat := by
  obtain ⟨hvalue, -⟩ := lt_of_isPositive hpos
  rw [calculateSumStats, if_pos hpos]
  dsimp only
  by_cases hl : l = []
  · have hlt : p.max.toNat < value.toNat := by
      rw [hnone hl]
      exact hvalue
    rw [if_pos hlt, hl]
    simp
  obtain ⟨hmem, hle⟩ := hgreatest hl
  by_cases hlt : p.max.toNat < value.toNat
  · rw [if_pos hlt]
    refine ⟨List.mem_append_right _ List.mem_cons_self, fun v hv => ?_⟩
    rcases List.mem_append.mp hv with hv | hv
    · exact Nat.le_trans (hle v hv) (Nat.le_of_lt hlt)
    · exact (List.mem_singleton.mp hv).le
  · rw [if_neg hlt]
    refine ⟨List.mem_append_left _ hmem, fun v hv => ?_⟩
    rcases List.mem_append.mp hv with hv | hv
    · exact hle v hv
    · rw [List.mem_singleton.mp hv]
      exact Nat.le_of_not_lt hlt

/-- The average of the periods with one more. -/
theorem toNat_avg {p : MsrSumStats} (hpos : isPositive value)
    (hcnt : p.cntValid.toNat + 1 < 2 ^ 32)
    (hsum : value.toNat + p.cntValid.toNat * p.avg.toNat < 2 ^ 63) :
    (calculateSumStats value p).avg.toNat =
      (value.toNat + p.cntValid.toNat * p.avg.toNat) / (p.cntValid.toNat + 1) := by
  have hprod : (p.cntValid.setWidth 64 * p.avg).toNat = p.cntValid.toNat * p.avg.toNat := by
    have hwide : (p.cntValid.setWidth 64 : Long).toNat = p.cntValid.toNat := by
      rw [BitVec.toNat_setWidth]
      omega
    rw [BitVec.toNat_mul, hwide, Nat.mod_eq_of_lt (by omega)]
  have hcount : ((p.cntValid + 1).setWidth 64 : Long).toNat = p.cntValid.toNat + 1 := by
    rw [BitVec.toNat_setWidth, BitVec.toNat_add]
    change (p.cntValid.toNat + 1) % 2 ^ 32 % 2 ^ 64 = _
    omega
  rw [calculateSumStats, if_pos hpos]
  dsimp only
  rw [BitVec.toNat_udiv, BitVec.toNat_add, hprod, hcount, Nat.mod_eq_of_lt (by omega)]

theorem calculateSumStats_of_not (h : ¬ isPositive value) (p : MsrSumStats) :
    calculateSumStats value p = { p with cntTotal := p.cntTotal + 1 } := by
  rw [calculateSumStats, if_neg h]

theorem succ_mul_le {n m v a : Nat} (hv : m ≤ v) (ha : n ≠ 0 → m ≤ a) :
    (n + 1) * m ≤ v + n * a := by
  rcases Nat.eq_zero_or_pos n with rfl | hpos
  · omega
  · have hmul := Nat.mul_le_mul_left n (ha hpos.ne')
    rw [Nat.succ_mul]
    omega

theorem le_succ_mul {n m v a : Nat} (hv : v ≤ m) (ha : n ≠ 0 → a ≤ m) :
    v + n * a ≤ (n + 1) * m := by
  rcases Nat.eq_zero_or_pos n with rfl | hpos
  · omega
  · have hmul := Nat.mul_le_mul_left n (ha hpos.ne')
    rw [Nat.succ_mul]
    omega

theorem toNat_succ {x : Word} (h : x.toNat + 1 < 2 ^ 32) : (x + 1).toNat = x.toNat + 1 := by
  rw [BitVec.toNat_add]
  exact Nat.mod_eq_of_lt h

namespace Measures

theorem measureSummarize_sumStats (from_ now : Long) :
    (s.measureSummarize item from_ now).sumStats item =
      calculateSumStats (now - from_) (s.sumStats item) := Function.update_self _ _ _

theorem measureSummarize_outlierCnt (from_ now : Long) :
    (s.measureSummarize item from_ now).outlierCnt item =
      if isOutlier item (now - from_) then s.outlierCnt item + 1 else s.outlierCnt item := by
  rw [measureSummarize]
  dsimp only
  split
  · exact Function.update_self _ _ _
  · rfl

theorem measureSummarize_other {i : Fin nMsrItems} (h : i ≠ item) (from_ now : Long) :
    (s.measureSummarize i from_ now).sumStats item = s.sumStats item ∧
      (s.measureSummarize i from_ now).outlierCnt item = s.outlierCnt item := by
  rw [measureSummarize]
  refine ⟨Function.update_of_ne h.symm _ _, ?_⟩
  dsimp only
  split
  · exact Function.update_of_ne h.symm _ _
  · rfl

theorem Tally.congr {s' : Measures} (h : s.Tally item periods)
    (hstats : s'.sumStats item = s.sumStats item) (hcnt : s'.outlierCnt item = s.outlierCnt item) :
    s'.Tally item periods := by
  obtain ⟨⟨hleast, hgreatest, hvalid, htotal, houtliers, havg⟩, hnone, hsum⟩ := h
  rw [← hstats] at hleast hgreatest hvalid htotal havg hnone hsum
  rw [← hcnt] at houtliers
  exact ⟨⟨hleast, hgreatest, hvalid, htotal, houtliers, havg⟩, hnone, hsum⟩

/-- Nothing has been measured. -/
theorem Tally.zero (hstats : s.sumStats item = .zero) (hcnt : s.outlierCnt item = 0) :
    s.Tally item [] := by
  refine ⟨⟨fun h => absurd rfl h, fun h => absurd rfl h, ?_, ?_, ?_, ?_⟩, fun _ => ?_, ?_⟩
  · rw [hstats]
    rfl
  · rw [hstats]
    rfl
  · rw [hcnt]
    rfl
  · rw [hstats]
    exact fun h => absurd rfl h
  · rw [hstats]
    exact ⟨rfl, rfl⟩
  · rw [hstats]
    exact Nat.le_refl _

theorem Tally.counts (h : s.Tally item periods) (hlen : periods.length + 1 < 2 ^ 32)
    (from_ now : Long) :
    ((s.measureSummarize item from_ now).sumStats item).cntTotal.toNat =
        (periods ++ [now - from_]).length ∧
      ((s.measureSummarize item from_ now).outlierCnt item).toNat =
        ((periods ++ [now - from_]).filter fun period => isOutlier item period).length := by
  constructor
  · have htotal : (calculateSumStats (now - from_) (s.sumStats item)).cntTotal =
        (s.sumStats item).cntTotal + 1 := by
      rw [calculateSumStats]
      split <;> rfl
    have hcnt := h.cntTotal
    rw [measureSummarize_sumStats, htotal, toNat_succ (by omega), hcnt, List.length_append]
    rfl
  · have hout := h.outliers
    have hle : (periods.filter fun period => isOutlier item period).length ≤ periods.length :=
      List.length_filter_le _ _
    rw [measureSummarize_outlierCnt, List.filter_append, List.length_append]
    by_cases hlarge : isOutlier item (now - from_)
    · rw [if_pos hlarge, toNat_succ (by omega), hout]
      simp [hlarge]
    · rw [if_neg hlarge, hout]
      simp [hlarge]

theorem Tally.summarize (h : s.Tally item periods) (hlen : periods.length + 1 < 2 ^ 32)
    {from_ now : Long} (hsum : (validPeriods (periods ++ [now - from_])).sum < 2 ^ 63) :
    (s.measureSummarize item from_ now).Tally item (periods ++ [now - from_]) := by
  obtain ⟨htotal, houtliers⟩ := h.counts hlen from_ now
  by_cases hpos : isPositive (now - from_)
  case neg =>
    have hvalid := @validPeriods_snoc_of_not periods _ hpos
    have hstats := @measureSummarize_sumStats s item from_ now
    rw [calculateSumStats_of_not hpos] at hstats
    refine ⟨⟨?_, ?_, ?_, htotal, houtliers, ?_⟩, ?_, ?_⟩
    · rw [hvalid, hstats]
      exact h.least
    · rw [hvalid, hstats]
      exact h.greatest
    · rw [hvalid, hstats]
      exact h.cntValid
    · rw [hstats]
      exact h.average
    · rw [hvalid, hstats]
      exact h.none
    · rw [hvalid, hstats]
      exact h.sum
  have hvalid := @validPeriods_snoc periods _ hpos
  have hstats := @measureSummarize_sumStats s item from_ now
  have hcnt := h.cntValid
  have hle : (validPeriods periods).length ≤ periods.length := by
    rw [validPeriods, List.length_map]
    exact List.length_filter_le _ _
  have hcntValid : (calculateSumStats (now - from_) (s.sumStats item)).cntValid.toNat =
      (s.sumStats item).cntValid.toNat + 1 := by
    rw [calculateSumStats, if_pos hpos]
    exact toNat_succ (by omega)
  rw [hvalid, List.sum_append, List.sum_singleton] at hsum
  have hprod := h.sum
  have hleast := least_snoc hpos (fun _ hv => mem_validPeriods hv) h.least fun hl => (h.none hl).1
  have hgreatest := greatest_snoc hpos h.greatest fun hl => (h.none hl).2
  have havg := toNat_avg hpos (by omega) (by omega : (now - from_).toNat +
    (s.sumStats item).cntValid.toNat * (s.sumStats item).avg.toNat < 2 ^ 63)
  rw [← hvalid] at hleast hgreatest
  rw [← hstats] at hcntValid hleast hgreatest havg
  refine ⟨⟨fun _ => hleast, fun _ => hgreatest, ?_, htotal, houtliers, fun _ => ?_⟩, ?_, ?_⟩
  · rw [hcntValid, hcnt, hvalid, List.length_append]
    rfl
  · -- the sum lies between the multiples of the new extremes
    have hnew : (now - from_).toNat ∈ validPeriods (periods ++ [now - from_]) := by
      rw [hvalid]
      exact List.mem_append_right _ List.mem_cons_self
    have hold : ∀ v ∈ validPeriods periods, v ∈ validPeriods (periods ++ [now - from_]) := by
      intro v hv
      rw [hvalid]
      exact List.mem_append_left _ hv
    have hfilled : (s.sumStats item).cntValid.toNat ≠ 0 →
        validPeriods periods ≠ [] ∧ (s.sumStats item).cntValid ≠ 0 := by
      refine fun h0 => ⟨fun hnil => h0 ?_, fun hzero => h0 ?_⟩
      · rw [hcnt, hnil]
        rfl
      · rw [hzero]
        rfl
    have hmin : ((s.sumStats item).cntValid.toNat + 1) *
        ((s.measureSummarize item from_ now).sumStats item).min.toNat ≤
          (now - from_).toNat + (s.sumStats item).cntValid.toNat * (s.sumStats item).avg.toNat := by
      refine succ_mul_le (hleast.2 _ hnew) fun h0 => ?_
      obtain ⟨hne, hne'⟩ := hfilled h0
      exact (hleast.2 _ (hold _ (h.least hne).1)).trans (h.average hne').1
    have hmax : (now - from_).toNat + (s.sumStats item).cntValid.toNat *
        (s.sumStats item).avg.toNat ≤ ((s.sumStats item).cntValid.toNat + 1) *
          ((s.measureSummarize item from_ now).sumStats item).max.toNat := by
      refine le_succ_mul (hgreatest.2 _ hnew) fun h0 => ?_
      obtain ⟨hne, hne'⟩ := hfilled h0
      exact (h.average hne').2.trans (hgreatest.2 _ (hold _ (h.greatest hne).1))
    rw [havg]
    refine ⟨(Nat.le_div_iff_mul_le (Nat.succ_pos _)).mpr ?_, Nat.div_le_of_le_mul hmax⟩
    rw [Nat.mul_comm]
    exact hmin
  · intro hnil
    rw [hvalid] at hnil
    exact absurd hnil (by simp)
  · rw [hcntValid, havg, hvalid, List.sum_append, List.sum_singleton]
    have hdiv := Nat.mul_div_le ((now - from_).toNat +
      (s.sumStats item).cntValid.toNat * (s.sumStats item).avg.toNat)
      ((s.sumStats item).cntValid.toNat + 1)
    omega

end Measures

end Measuring

/-! ### Histories of one item -/

section Histories

variable {clears : Word → Prop} [DecidablePred clears] {item : Fin nMsrItems}
  {calls : List MsrCall}

theorem measuredSince_summarize (from_ now : Long) :
    measuredSince clears item (calls ++ [.summarize item from_ now]) =
      measuredSince clears item calls ++ [now - from_] := by
  rw [measuredSince, List.foldl_append, List.foldl_cons, List.foldl_nil]
  exact if_pos rfl

theorem measuredSince_other {i : Fin nMsrItems} (h : i ≠ item) (from_ now : Long) :
    measuredSince clears item (calls ++ [.summarize i from_ now]) =
      measuredSince clears item calls := by
  rw [measuredSince, List.foldl_append, List.foldl_cons, List.foldl_nil]
  exact if_neg h

theorem measuredSince_clears {i : Word} (h : clears i) :
    measuredSince clears item (calls ++ [.clear i]) = [] := by
  rw [measuredSince, List.foldl_append, List.foldl_cons, List.foldl_nil]
  exact if_pos h

theorem measuredSince_keeps {i : Word} (h : ¬ clears i) :
    measuredSince clears item (calls ++ [.clear i]) = measuredSince clears item calls := by
  rw [measuredSince, List.foldl_append, List.foldl_cons, List.foldl_nil]
  exact if_neg h

theorem length_measuredSince_le : (measuredSince clears item calls).length ≤ calls.length := by
  induction calls using List.reverseRecOn with
  | nil => exact Nat.le_refl _
  | append_singleton calls c ih =>
      rw [List.length_append, List.length_singleton]
      cases c with
      | summarize i from_ now =>
          by_cases h : i = item
          · subst h
            rw [measuredSince_summarize, List.length_append, List.length_singleton]
            omega
          · rw [measuredSince_other h]
            omega
      | clear i =>
          by_cases h : clears i
          · rw [measuredSince_clears h]
            exact Nat.zero_le _
          · rw [measuredSince_keeps h]
            omega

theorem Measures.run_snoc (s : Measures) (c : MsrCall) :
    s.run (calls ++ [c]) = (s.run calls).call c := by
  rw [run, List.foldl_append]
  rfl

theorem run_tally (hlen : calls.length < 2 ^ 32)
    (hsum : (validPeriods (measuredSince ClearsAll item calls)).sum < 2 ^ 63) :
    (Measures.boot.run calls).Tally item (measuredSince ClearsAll item calls) := by
  induction calls using List.reverseRecOn with
  | nil => exact .zero rfl rfl
  | append_singleton calls c ih =>
      rw [List.length_append, List.length_singleton] at hlen
      rw [Measures.run_snoc]
      cases c with
      | summarize i from_ now =>
          by_cases h : i = item
          · subst h
            rw [measuredSince_summarize] at hsum ⊢
            have hle : (measuredSince ClearsAll i calls).length ≤ calls.length :=
              length_measuredSince_le
            refine (ih (by omega) ?_).summarize (by omega) hsum
            refine Nat.lt_of_le_of_lt ?_ hsum
            rw [validPeriods, validPeriods, List.filter_append, List.map_append, List.sum_append]
            exact Nat.le_add_right _ _
          · rw [measuredSince_other h] at hsum ⊢
            have hother := (Measures.boot.run calls).measureSummarize_other h from_ now
            exact (ih (by omega) hsum).congr hother.1 hother.2
      | clear i =>
          by_cases h : ClearsAll i
          · rw [measuredSince_clears h]
            have hall := (Measures.boot.run calls).measureClearSummary_all item h
            exact .zero hall.1 hall.2
          · rw [measuredSince_keeps h] at hsum ⊢
            rw [Measures.call, Measures.measureClearSummary_other _ h]
            exact ih (by omega) hsum

theorem cntTotal_calculateSumStats (value : Long) (p : MsrSumStats) :
    (calculateSumStats value p).cntTotal = p.cntTotal + 1 := by
  rw [calculateSumStats]
  split <;> rfl

theorem run_cntTotal (hlen : calls.length < 2 ^ 32) :
    ((Measures.boot.run calls).sumStats item).cntTotal.toNat =
      (measuredSince ClearsAll item calls).length := by
  induction calls using List.reverseRecOn with
  | nil => rfl
  | append_singleton calls c ih =>
      rw [List.length_append, List.length_singleton] at hlen
      have hle : (measuredSince ClearsAll item calls).length ≤ calls.length :=
        length_measuredSince_le
      have hcnt := ih (by omega)
      rw [Measures.run_snoc]
      cases c with
      | summarize i from_ now =>
          by_cases h : i = item
          · subst h
            rw [measuredSince_summarize, List.length_append, Measures.call,
              Measures.measureSummarize_sumStats, cntTotal_calculateSumStats,
              toNat_succ (by omega), hcnt]
            rfl
          · rw [measuredSince_other h, ← hcnt]
            exact congrArg (fun p : MsrSumStats => p.cntTotal.toNat)
              ((Measures.boot.run calls).measureSummarize_other h from_ now).1
      | clear i =>
          by_cases h : ClearsAll i
          · rw [measuredSince_clears h, Measures.call,
              ((Measures.boot.run calls).measureClearSummary_all item h).1]
            rfl
          · rw [measuredSince_keeps h, Measures.call, Measures.measureClearSummary_other _ h, hcnt]

/-- A clearing of one item that finds nothing measured, or is followed by a clearing of all. -/
def ClearedUnmeasured (item : Fin nMsrItems) (calls : List MsrCall) : Prop :=
  ∀ before i after, calls = before ++ .clear i :: after → i.toNat = item.1 →
    (∀ j, MsrCall.clear j ∈ after → ¬ ClearsAll j) → measuredSince ClearsAll item before = []

/-- The last call of a history, or an earlier one. -/
theorem snoc_eq_iff {c x : MsrCall} {before after : List MsrCall} :
    calls ++ [c] = before ++ x :: after ↔
      (after = [] ∧ calls = before ∧ c = x) ∨
        ∃ rest, after = rest ++ [c] ∧ calls = before ++ x :: rest := by
  constructor
  · intro h
    rcases List.eq_nil_or_concat after with rfl | ⟨rest, last, rfl⟩
    · obtain ⟨hcalls, hc⟩ := List.append_inj' h rfl
      exact .inl ⟨rfl, hcalls, List.head_eq_of_cons_eq hc⟩
    · have hassoc : before ++ x :: (rest.concat last) = (before ++ x :: rest) ++ [last] := by
        simp
      rw [hassoc] at h
      obtain ⟨hcalls, hc⟩ := List.append_inj' h rfl
      obtain rfl := List.head_eq_of_cons_eq hc
      exact .inr ⟨rest, List.concat_eq_append, hcalls⟩
  · rintro (⟨rfl, rfl, rfl⟩ | ⟨rest, rfl, rfl⟩)
    · rfl
    · simp

theorem measuredSince_grows {after : List MsrCall}
    (h : ∀ j, MsrCall.clear j ∈ after → ¬ ClearsAll j) :
    measuredSince ClearsAll item calls <+: measuredSince ClearsAll item (calls ++ after) := by
  induction after using List.reverseRecOn with
  | nil => rw [List.append_nil]
  | append_singleton after c ih =>
      have hprefix := ih fun j hj => h j (List.mem_append_left _ hj)
      rw [← List.append_assoc]
      cases c with
      | summarize i from_ now =>
          by_cases heq : i = item
          · subst heq
            rw [measuredSince_summarize]
            exact hprefix.trans (List.prefix_append _ _)
          · rw [measuredSince_other heq]
            exact hprefix
      | clear i =>
          rw [measuredSince_keeps (h i (List.mem_append_right _ List.mem_cons_self))]
          exact hprefix

theorem ClearedUnmeasured.init {c : MsrCall} (h : ClearedUnmeasured item (calls ++ [c]))
    (hc : ∀ j, c = .clear j → ¬ ClearsAll j) : ClearedUnmeasured item calls := by
  intro before i after hcalls hi hafter
  refine h before i (after ++ [c]) (snoc_eq_iff.mpr (.inr ⟨after, rfl, hcalls⟩)) hi fun j hj => ?_
  rcases List.mem_append.mp hj with hj | hj
  · exact hafter j hj
  · exact hc j (List.mem_singleton.mp hj).symm

theorem ClearedUnmeasured.snoc {c : MsrCall} (h : ClearedUnmeasured item calls)
    (hc : ∀ i, c = .clear i → i.toNat = item.1 → measuredSince ClearsAll item calls = []) :
    ClearedUnmeasured item (calls ++ [c]) := by
  intro before i after hcalls hi hafter
  rcases snoc_eq_iff.mp hcalls with ⟨rfl, rfl, rfl⟩ | ⟨rest, rfl, hrest⟩
  · exact hc i rfl hi
  · exact h before i rest hrest hi fun j hj => hafter j (List.mem_append_left _ hj)

theorem measuredSince_eq_iff :
    measuredSince (Covers item) item calls = measuredSince ClearsAll item calls ↔
      ClearedUnmeasured item calls := by
  have hnine : nMsrItems = 9 := rfl
  have hitem := item.isLt
  induction calls using List.reverseRecOn with
  | nil =>
      refine ⟨fun _ before i after hcalls => ?_, fun _ => rfl⟩
      exact absurd hcalls (by simp)
  | append_singleton calls c ih =>
      cases c with
      | summarize i from_ now =>
          have hequal : measuredSince (Covers item) item (calls ++ [.summarize i from_ now]) =
              measuredSince ClearsAll item (calls ++ [.summarize i from_ now]) ↔
              measuredSince (Covers item) item calls = measuredSince ClearsAll item calls := by
            by_cases h : i = item
            · subst h
              rw [measuredSince_summarize, measuredSince_summarize]
              exact List.append_left_inj _
            · rw [measuredSince_other h, measuredSince_other h]
          exact hequal.trans (ih.trans ⟨fun h => h.snoc nofun, fun h => h.init nofun⟩)
      | clear i =>
          by_cases hall : ClearsAll i
          · have hcovers : Covers item i := .inr hall
            rw [measuredSince_clears hall, measuredSince_clears hcovers]
            refine ⟨fun _ before j after hcalls hj hafter => ?_, fun _ => rfl⟩
            rcases snoc_eq_iff.mp hcalls with ⟨rfl, rfl, hc⟩ | ⟨rest, rfl, -⟩
            · cases hc
              rw [ClearsAll] at hall
              omega
            · exact absurd hall (hafter i (List.mem_append_right _ List.mem_cons_self))
          · rw [measuredSince_keeps hall]
            have hclear : ∀ j, MsrCall.clear i = .clear j → ¬ ClearsAll j := by
              rintro j hj
              cases hj
              exact hall
            by_cases hcovers : Covers item i
            · have hi : i.toNat = item.1 := hcovers.resolve_right hall
              rw [measuredSince_clears hcovers]
              constructor
              · intro hnil before j after hcalls hj hafter
                rcases snoc_eq_iff.mp hcalls with ⟨rfl, rfl, -⟩ | ⟨rest, rfl, rfl⟩
                · exact hnil.symm
                · have hrest : ∀ k, MsrCall.clear k ∈ .clear j :: rest → ¬ ClearsAll k := by
                    intro k hk
                    rcases List.mem_cons.mp hk with hk | hk
                    · cases hk
                      rw [ClearsAll]
                      omega
                    · exact hafter k (List.mem_append_left _ hk)
                  have hprefix := @measuredSince_grows item before _ hrest
                  rw [← hnil] at hprefix
                  exact List.prefix_nil.mp hprefix
              · intro h
                exact (h calls i [] rfl hi nofun).symm
            · rw [measuredSince_keeps hcovers]
              refine ih.trans ⟨fun h => h.snoc ?_, fun h => h.init hclear⟩
              rintro j hj hi
              cases hj
              exact absurd (.inl hi) hcovers

end Histories

theorem measuredSince_suffix (item : Fin nMsrItems) (calls : List MsrCall) :
    measuredSince (Covers item) item calls <:+ measuredSince ClearsAll item calls := by
  induction calls using List.reverseRecOn with
  | nil => exact List.suffix_refl _
  | append_singleton calls c ih =>
      cases c with
      | summarize i from_ now =>
          by_cases h : i = item
          · subst h
            rw [measuredSince_summarize, measuredSince_summarize]
            exact (List.suffix_append_inj_of_length_eq rfl).mpr ⟨ih, rfl⟩
          · rw [measuredSince_other h, measuredSince_other h]
            exact ih
      | clear i =>
          by_cases hall : ClearsAll i
          · have hcovers : Covers item i := .inr hall
            rw [measuredSince_clears hall, measuredSince_clears hcovers]
          · rw [measuredSince_keeps hall]
            by_cases hcovers : Covers item i
            · rw [measuredSince_clears hcovers]
              exact List.nil_suffix
            · rw [measuredSince_keeps hcovers]
              exact ih

/-- The statistics of an item are those of the periods since the last clearing that covers it
exactly if it was not measured before a clearing of this item alone. -/
theorem statistics_iff (calls : List MsrCall) (hlen : calls.length < 2 ^ 32)
    (item : Fin nMsrItems)
    (hsum : (validPeriods (measuredSince (Covers item) item calls)).sum < 2 ^ 63) :
    ((Measures.boot.run calls).Are item (measuredSince (Covers item) item calls) ∧
        (Measures.boot.run calls).ClearsOnly) ↔
      ClearedUnmeasured item calls := by
  rw [← measuredSince_eq_iff]
  constructor
  · rintro ⟨hare, -⟩
    have hcount := hare.cntTotal
    rw [run_cntTotal hlen] at hcount
    exact (measuredSince_suffix item calls).eq_of_length hcount.symm
  · intro heq
    rw [heq] at hsum ⊢
    exact ⟨(run_tally hlen hsum).toAre, Measures.clearsOnly _⟩

section Sample

def msrEcaDly : Fin nMsrItems := ⟨0, by decide⟩

/-- An item is measured, cleared with the others and measured again. -/
def msrSample : List MsrCall := [.summarize msrEcaDly 5 25, .clear 9, .summarize msrEcaDly 30 33]

theorem msrSample_statistics :
    msrSample.length < 2 ^ 32 ∧
      (validPeriods (measuredSince (Covers msrEcaDly) msrEcaDly msrSample)).sum < 2 ^ 63 ∧
        (((Measures.boot.run msrSample).Are msrEcaDly
            (measuredSince (Covers msrEcaDly) msrEcaDly msrSample) ∧
          (Measures.boot.run msrSample).ClearsOnly) ↔ ClearedUnmeasured msrEcaDly msrSample) :=
  ⟨by decide, by decide, statistics_iff msrSample (by decide) msrEcaDly (by decide)⟩

def msrCleared : List MsrCall := [.summarize msrEcaDly 5 25, .clear 0]

theorem item_not_cleared :
    ¬ ∀ (calls : List MsrCall) (item : Fin nMsrItems), calls.length < 2 ^ 32 →
      (validPeriods (measuredSince (Covers item) item calls)).sum < 2 ^ 63 →
        (Measures.boot.run calls).Are item (measuredSince (Covers item) item calls) ∧
          (Measures.boot.run calls).ClearsOnly := by
  intro h
  have hare := (h msrCleared msrEcaDly (by decide) (by decide)).1
  exact absurd hare.cntTotal (by decide)

end Sample

end Fbas
