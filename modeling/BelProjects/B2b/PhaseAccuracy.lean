import BelProjects.B2b.PhaseFit
import Mathlib.Algebra.Order.Archimedean.Real.Basic

/-!
# The accuracy of a fit

A signal of constant period is sampled in whole nanoseconds.  The deviation of a timestamp from
the projection of the first good one is the difference of the fractions of a nanosecond that the
two have lost, so it is less than a nanosecond in size and no timestamp is rejected.  The middle
of the window of all deviations puts the time between the first good timestamp and its true
time, up to a nanosecond.
-/

namespace B2b

open BitFields CheckedArray

/-! ### Deviations as integers -/

/-- The deviation of a timestamp from the projection of the first one, in attoseconds. -/
def deviation (T : Nat) (s : Stamps) (i : Nat) : Int :=
  ((s i).toNat - (s 0).toNat) * 1000000000 - i * T

/-- The words of an `int64_t` between these bounds keep the order. -/
def Moderate (v : Int) : Prop := -2 ^ 62 ≤ v ∧ v < 2 ^ 62

theorem Moderate.toInt {v : Int} (h : Moderate v) : (BitVec.ofInt 64 v).toInt = v := by
  obtain ⟨hlow, hhigh⟩ := h
  exact BitVec.toInt_ofInt_eq_self (by decide) (by omega) (by omega)

theorem slt_ofInt {v w : Int} (hv : Moderate v) (hw : Moderate w) :
    (BitVec.ofInt 64 v).slt (BitVec.ofInt 64 w) = decide (v < w) := by
  rw [BitVec.slt_eq_decide, hv.toInt, hw.toInt]

theorem deviation_ofInt (T : Nat) (s : Stamps) (i : Nat) :
    (s i - s 0) * oneNsAs - BitVec.ofInt 64 (i * T) = BitVec.ofInt 64 (deviation T s i) := by
  have hdiff : BitVec.ofInt 64 (((s i).toNat - (s 0).toNat) * 1000000000) =
      (s i - s 0) * oneNsAs := by
    rw [BitVec.ofInt_mul, ofInt_sub, ofInt_toNat, ofInt_toNat]
    rfl
  rw [deviation, ofInt_sub, hdiff]

theorem absDeviation_ofInt {v : Int} (h : Moderate v) :
    absDeviation (BitVec.ofInt 64 v) = BitVec.ofInt 64 |v| := by
  rw [absDeviation, show (0 : Long) = BitVec.ofInt 64 0 from rfl,
    slt_ofInt h (by constructor <;> decide)]
  by_cases hv : v < 0
  · rw [if_pos (decide_eq_true hv), abs_of_neg hv, BitVec.ofInt_neg]
  · rw [if_neg (by simp [hv]), abs_of_nonneg (by omega)]

/-! ### The loop -/

section Loop

variable {T : Nat} {s : Stamps}

/-- The loop has accepted the first `m` timestamps, whose deviations go from `lo` to `hi`. -/
structure Tracked (T : Nat) (s : Stamps) (m : Nat) (d : Deviations) (lo hi : Int) : Prop where
  sumRfPeriods : d.sumRfPeriods = BitVec.ofInt 64 (m * T)
  maxDeviation : d.maxDeviation = BitVec.ofInt 64 hi
  minDeviation : d.minDeviation = BitVec.ofInt 64 lo
  nGood : d.nGood = m
  le_hi : ∀ i < m, deviation T s i ≤ hi
  lo_le : ∀ i < m, lo ≤ deviation T s i
  hi_mem : ∃ i < m, deviation T s i = hi
  lo_mem : ∃ i < m, deviation T s i = lo

/-- Every deviation is less than a nanosecond in size. -/
def Small (T : Nat) (s : Stamps) (m : Nat) : Prop := ∀ i < m, |deviation T s i| < 1000000000

theorem Small.moderate {m : Nat} (h : Small T s m) {i : Nat} (hi : i < m) :
    Moderate (deviation T s i) := by
  have hbound := abs_lt.mp (h i hi)
  constructor <;> omega

theorem add_accepted {d : Deviations} {m : Nat} (hT : 100000000000 ≤ T) (hT' : T < 2 ^ 62)
    (hsmall : Small T s (m + 1)) (hsum : d.sumRfPeriods = BitVec.ofInt 64 (m * T)) :
    d.add (BitVec.ofNat 64 T) (s 0) (s m) =
      { sumRfPeriods := BitVec.ofInt 64 ((m + 1 : Nat) * T)
        sumDeviation := d.sumDeviation + BitVec.ofInt 64 (deviation T s m)
        maxDeviation := if d.maxDeviation.slt (BitVec.ofInt 64 (deviation T s m)) then
            BitVec.ofInt 64 (deviation T s m) else d.maxDeviation
        minDeviation := if (BitVec.ofInt 64 (deviation T s m)).slt d.minDeviation then
            BitVec.ofInt 64 (deviation T s m) else d.minDeviation
        nGood := d.nGood + 1 } := by
  have hquarter : BitVec.ofNat 64 T >>> 2 = BitVec.ofInt 64 (T / 4 : Nat) := by
    rw [BitVec.ofInt_natCast]
    apply BitVec.eq_of_toNat_eq
    rw [BitVec.toNat_ushiftRight, BitVec.toNat_ofNat, BitVec.toNat_ofNat, Nat.shiftRight_eq_div_pow,
      Nat.mod_eq_of_lt (by omega), Nat.mod_eq_of_lt (by omega)]
  have hmod := hsmall.moderate (Nat.lt_succ_self m)
  have hbound := hsmall m (Nat.lt_succ_self m)
  have haccept : (absDeviation (BitVec.ofInt 64 (deviation T s m))).slt
      (BitVec.ofNat 64 T >>> 2) = true := by
    have habs := abs_nonneg (deviation T s m)
    rw [absDeviation_ofInt hmod, hquarter, slt_ofInt (by constructor <;> omega)
      (by constructor <;> omega)]
    exact decide_eq_true (by omega)
  have hnext : BitVec.ofInt 64 (m * T) + BitVec.ofNat 64 T = BitVec.ofInt 64 ((m + 1 : Nat) * T) := by
    rw [← BitVec.ofInt_natCast, ← BitVec.ofInt_add]
    congr 1
    push_cast
    ring
  simp only [Deviations.add, hsum, deviation_ofInt, haccept, if_true, hnext]

theorem Tracked.first {d : Deviations} (hT : 100000000000 ≤ T) (hT' : T < 2 ^ 62)
    (hsmall : Small T s 1) (hd : d = Deviations.init) :
    Tracked T s 1 (d.add (BitVec.ofNat 64 T) (s 0) (s 0)) 0 0 := by
  have hzero : deviation T s 0 = 0 := by
    simp [deviation]
  subst hd
  rw [add_accepted hT hT' hsmall (by simp [Deviations.init])]
  simp only [hzero]
  refine ⟨rfl, rfl, rfl, rfl, ?_, ?_, ⟨0, Nat.one_pos, hzero⟩, ⟨0, Nat.one_pos, hzero⟩⟩
  · intro i hi
    obtain rfl : i = 0 := by omega
    exact hzero.le
  · intro i hi
    obtain rfl : i = 0 := by omega
    exact hzero.ge

theorem Tracked.step {d : Deviations} {m : Nat} {lo hi : Int} (h : Tracked T s m d lo hi)
    (hT : 100000000000 ≤ T) (hT' : T < 2 ^ 62) (hsmall : Small T s (m + 1)) :
    Tracked T s (m + 1) (d.add (BitVec.ofNat 64 T) (s 0) (s m)) (min lo (deviation T s m))
      (max hi (deviation T s m)) := by
  have hmod := hsmall.moderate (Nat.lt_succ_self m)
  obtain ⟨i, hi', rfl⟩ := h.hi_mem
  obtain ⟨j, hj', rfl⟩ := h.lo_mem
  have hmodi := hsmall.moderate (Nat.lt_succ_of_lt hi')
  have hmodj := hsmall.moderate (Nat.lt_succ_of_lt hj')
  rw [add_accepted hT hT' hsmall h.sumRfPeriods, h.maxDeviation, h.minDeviation, h.nGood,
    slt_ofInt hmodi hmod, slt_ofInt hmod hmodj]
  refine ⟨rfl, ?_, ?_, rfl, ?_, ?_, ?_, ?_⟩
  · dsimp only
    split
    case isTrue hlt => rw [max_eq_right (of_decide_eq_true hlt).le]
    case isFalse hge => rw [max_eq_left (by simpa using hge)]
  · dsimp only
    split
    case isTrue hlt => rw [min_eq_right (of_decide_eq_true hlt).le]
    case isFalse hge => rw [min_eq_left (by simpa using hge)]
  · intro k hk
    rcases Nat.lt_succ_iff_lt_or_eq.mp hk with hk | rfl
    · exact (h.le_hi k hk).trans (le_max_left _ _)
    · exact le_max_right _ _
  · intro k hk
    rcases Nat.lt_succ_iff_lt_or_eq.mp hk with hk | rfl
    · exact (min_le_left _ _).trans (h.lo_le k hk)
    · exact min_le_right _ _
  · rcases max_choice (deviation T s i) (deviation T s m) with hmax | hmax
    · exact ⟨i, Nat.lt_succ_of_lt hi', hmax.symm⟩
    · exact ⟨m, Nat.lt_succ_self m, hmax.symm⟩
  · rcases min_choice (deviation T s j) (deviation T s m) with hmin | hmin
    · exact ⟨j, Nat.lt_succ_of_lt hj', hmin.symm⟩
    · exact ⟨m, Nat.lt_succ_self m, hmin.symm⟩

/-- The loop accepts every timestamp. -/
theorem tracked_foldl (hT : 100000000000 ≤ T) (hT' : T < 2 ^ 62) (m : Nat)
    (hsmall : Small T s (m + 1)) :
    ∃ lo hi, Tracked T s (m + 1)
      ((contents s (m + 1)).foldl (Deviations.add (BitVec.ofNat 64 T) (s 0)) Deviations.init) lo
      hi := by
  induction m with
  | zero => exact ⟨0, 0, Tracked.first hT hT' hsmall rfl⟩
  | succ m ih =>
    obtain ⟨lo, hi, htracked⟩ := ih fun i hi => hsmall i (Nat.lt_succ_of_lt hi)
    rw [contents_succ, List.foldl_append]
    exact ⟨_, _, htracked.step hT hT' hsmall⟩

end Loop

/-! ### The fitted time -/

theorem cleanB2bt_of_clean {t : B2bt} (h : t.Clean) : cleanB2bt t = t := by
  obtain ⟨hlow, hhigh⟩ := h
  rw [cleanB2bt, B2bt.raisePs, if_neg (by omega), B2bt.lowerPs, if_neg (by omega)]

/-- The quotient of a truncating division lies between zero and the number. -/
theorem tdiv_million_between {v : Int} :
    (0 ≤ v → 0 ≤ v.tdiv 1000000 * 1000000 ∧ v.tdiv 1000000 * 1000000 ≤ v) ∧
      (v ≤ 0 → v ≤ v.tdiv 1000000 * 1000000 ∧ v.tdiv 1000000 * 1000000 ≤ 0) := by
  constructor
  · intro hv
    rw [Int.tdiv_eq_ediv_of_nonneg hv]
    omega
  · intro hv
    obtain ⟨u, rfl⟩ : ∃ u, v = -u := ⟨-v, by omega⟩
    rw [Int.neg_tdiv, Int.tdiv_eq_ediv_of_nonneg (by omega)]
    omega

/-- The picoseconds that the fit adds to the first good timestamp. -/
def middlePs (lo hi : Int) : Int := ((hi + lo) / 2).tdiv 1000000

section Window

variable {lo hi : Int}

theorem middlePs_between (hlo : lo ≤ 0) (hhi : 0 ≤ hi) :
    lo ≤ middlePs lo hi * 1000000 ∧ middlePs lo hi * 1000000 ≤ hi := by
  obtain ⟨hpos, hneg⟩ := tdiv_million_between (v := (hi + lo) / 2)
  unfold middlePs
  rcases Int.le_total 0 ((hi + lo) / 2) with hv | hv
  · have hbounds := hpos hv
    omega
  · have hbounds := hneg hv
    omega

/-- Half a window of less than two nanoseconds is less than half a nanosecond. -/
theorem middlePs_small (hlo : -1000000000 < lo) (hlo' : lo ≤ 0) (hhi : 0 ≤ hi)
    (hhi' : hi < 1000000000) : -500 ≤ middlePs lo hi ∧ middlePs lo hi < 500 := by
  obtain ⟨hpos, hneg⟩ := tdiv_million_between (v := (hi + lo) / 2)
  unfold middlePs
  rcases Int.le_total 0 ((hi + lo) / 2) with hv | hv
  · have hbounds := hpos hv
    omega
  · have hbounds := hneg hv
    omega

/-- The time of a window is clean before it is cleaned. -/
theorem time_spec {d : Deviations} (hmax : d.maxDeviation = BitVec.ofInt 64 hi)
    (hmin : d.minDeviation = BitVec.ofInt 64 lo) (hlo : -1000000000 < lo) (hlo' : lo ≤ 0)
    (hhi : 0 ≤ hi) (hhi' : hi < 1000000000) (tFirst ave : Long) :
    (d.time tFirst ave).ns = tFirst ∧ (d.time tFirst ave).ps.toInt = middlePs lo hi ∧
      ((d.time tFirst ave).dps.toNat : Int) = (hi - lo) / 2 ^ 20 := by
  have hsmall := middlePs_small hlo hlo' hhi hhi'
  have hshift : ((d.maxDeviation + d.minDeviation).sshiftRight 1).toInt = (hi + lo) / 2 := by
    rw [hmax, hmin, ← BitVec.ofInt_add, BitVec.toInt_sshiftRight,
      Moderate.toInt (by constructor <;> omega), Int.shiftRight_eq_div_pow]
    rfl
  have hdiv : (((d.maxDeviation + d.minDeviation).sshiftRight 1).sdiv 1000000).toInt =
      middlePs lo hi := by
    rw [toInt_sdiv_million, hshift, middlePs]
  have hps : ((((d.maxDeviation + d.minDeviation).sshiftRight 1).sdiv 1000000).setWidth
      32 : Word).toInt = middlePs lo hi := by
    rw [toInt_setWidth_of_small (by omega) (by omega), hdiv]
  have hwindow : (d.maxDeviation - d.minDeviation).toNat = (hi - lo).toNat := by
    rw [hmax, hmin, ← ofInt_sub, BitVec.toNat_ofInt]
    omega
  have hdps : (((d.maxDeviation - d.minDeviation).setWidth 32 : Word) >>> 20).toNat =
      (hi - lo).toNat / 2 ^ 20 := by
    rw [BitVec.toNat_ushiftRight, BitVec.toNat_setWidth, hwindow, Nat.shiftRight_eq_div_pow,
      Nat.mod_eq_of_lt (by omega)]
  rw [Deviations.time, cleanB2bt_of_clean]
  · refine ⟨rfl, hps, ?_⟩
    rw [hdps, Int.natCast_ediv, Int.toNat_of_nonneg (by omega)]
    rfl
  · change -500 ≤ (BitVec.setWidth 32 _).toInt ∧ (BitVec.setWidth 32 _).toInt < 500
    rw [if_pos (show useSubNsFit = true from rfl), hps]
    exact hsmall

end Window

/-! ### A sampled signal -/

section Signal

variable {t0 : ℝ} {T : Nat} {a : Int} {s : Stamps} {m : Nat}

/-- The true time of a sample, in nanoseconds; the period is in attoseconds. -/
noncomputable def trueTime (t0 : ℝ) (T : Nat) (k : Int) : ℝ := t0 + k * (T / 10 ^ 9)

def Samples (t0 : ℝ) (T : Nat) (a : Int) (s : Stamps) (m : Nat) : Prop :=
  ∀ i < m, ((s i).toNat : Int) = ⌊trueTime t0 T (a + i)⌋

/-- What a timestamp has lost of the true time, in attoseconds. -/
noncomputable def lost (t0 : ℝ) (T : Nat) (a : Int) (s : Stamps) (i : Nat) : ℝ :=
  (trueTime t0 T (a + i) - (s i).toNat) * 10 ^ 9

theorem Samples.lost_between (h : Samples t0 T a s m) {i : Nat} (hi : i < m) :
    0 ≤ lost t0 T a s i ∧ lost t0 T a s i < 10 ^ 9 := by
  have hfloor := Int.floor_le (trueTime t0 T (a + i))
  have hlt := Int.lt_floor_add_one (trueTime t0 T (a + i))
  rw [← h i hi, Int.cast_natCast] at hfloor hlt
  unfold lost
  constructor
  · exact mul_nonneg (sub_nonneg.mpr hfloor) (by norm_num)
  · have hfrac : trueTime t0 T (a + i) - (s i).toNat < 1 := by linarith
    linarith

theorem deviation_eq_lost (t0 : ℝ) (T : Nat) (a : Int) (s : Stamps) (i : Nat) :
    (deviation T s i : ℝ) = lost t0 T a s 0 - lost t0 T a s i := by
  unfold deviation lost trueTime
  push_cast
  ring

theorem Samples.small (h : Samples t0 T a s m) : Small T s m := by
  intro i hi
  have h0 := h.lost_between (Nat.zero_lt_of_lt hi)
  have hI := h.lost_between hi
  have heq := deviation_eq_lost t0 T a s i
  rw [abs_lt]
  constructor
  · have hreal : (-1000000000 : ℝ) < deviation T s i := by linarith
    exact_mod_cast hreal
  · have hreal : (deviation T s i : ℝ) < 1000000000 := by linarith
    exact_mod_cast hreal

theorem Samples.ordered (h : Samples t0 T a s m) {i j : Nat} (hij : i ≤ j) (hj : j < m) :
    s i ≤ s j := by
  have hfloor : ⌊trueTime t0 T (a + i)⌋ ≤ ⌊trueTime t0 T (a + j)⌋ := by
    apply Int.floor_mono
    unfold trueTime
    gcongr
  rw [← h i (by omega), ← h j hj] at hfloor
  exact BitVec.le_def.mpr (by exact_mod_cast hfloor)

/-- Two neighbouring timestamps are the period in ns, or one ns more, apart. -/
theorem Samples.neighbours (h : Samples t0 T a s m) {i : Nat} (hi : i + 1 < m) :
    (s (i + 1)).toNat = (s i).toNat + T / 1000000000 ∨
      (s (i + 1)).toNat = (s i).toNat + T / 1000000000 + 1 := by
  have h1 := h.lost_between hi
  have h0 := h.lost_between (Nat.lt_of_succ_lt hi)
  have hdev := deviation_eq_lost t0 T a s i
  have hdev' := deviation_eq_lost t0 T a s (i + 1)
  have hlow : (-1000000000 : ℝ) < deviation T s (i + 1) - deviation T s i := by linarith
  have hhigh : (deviation T s (i + 1) - deviation T s i : ℝ) < 1000000000 := by linarith
  have hlow' : -1000000000 < deviation T s (i + 1) - deviation T s i := by exact_mod_cast hlow
  have hhigh' : deviation T s (i + 1) - deviation T s i < 1000000000 := by exact_mod_cast hhigh
  have hstep : deviation T s (i + 1) - deviation T s i =
      ((s (i + 1)).toNat - (s i).toNat) * 1000000000 - T := by
    unfold deviation
    push_cast
    ring_nf
  rw [hstep] at hlow' hhigh'
  omega

end Signal

/-- A difference of the period in ns, or one ns more, is accepted. -/
theorem not_offPeriod {p b : Nat} (hp : 100 ≤ p) (hp' : p ≤ 37000) (hb : b ≤ 1) :
    ¬OffPeriod (BitVec.ofNat 32 p) (BitVec.ofNat 32 (p + b)) := by
  have hint : ∀ v : Nat, v ≤ 37001 → (BitVec.ofNat 32 v).toInt = v := by
    intro v hv
    have hnat : (BitVec.ofNat 32 v).toNat = v := Nat.mod_eq_of_lt (by omega)
    rw [BitVec.toInt_eq_toNat_of_lt (by omega), hnat]
  have hdelta : (BitVec.ofNat 32 (p + b)).srem (BitVec.ofNat 32 p) = BitVec.ofNat 32 b := by
    apply BitVec.eq_of_toInt_eq
    rw [BitVec.toInt_srem, hint _ (by omega), hint _ (by omega), hint _ (by omega),
      Int.tmod_eq_emod_of_nonneg (by omega), Int.natCast_add, Int.add_emod_left]
    exact Int.emod_eq_of_lt (by omega) (by omega)
  have hhalf : ((BitVec.ofNat 32 p).sshiftRight 1).toInt = p / 2 := by
    rw [BitVec.toInt_sshiftRight, hint _ (by omega), Int.shiftRight_eq_div_pow]
    rfl
  have hdt : dtOf (BitVec.ofNat 32 p) (BitVec.ofNat 32 b) = BitVec.ofNat 32 b := by
    rw [dtOf, if_neg]
    rw [BitVec.slt_iff_toInt_lt, hhalf, hint _ (by omega)]
    omega
  have hmax : ((BitVec.ofNat 32 p).sdiv 10).toInt = p / 10 := by
    rw [BitVec.toInt_sdiv_of_ne_or_ne _ _ (Or.inr (by decide)), hint _ (by omega)]
    exact Int.tdiv_eq_ediv_of_nonneg (by omega)
  have hmax' : ((BitVec.ofNat 32 p).sdiv 10).toNat = p / 10 := by
    rw [BitVec.toInt_eq_toNat_cond] at hmax
    have hlt := ((BitVec.ofNat 32 p).sdiv 10).isLt
    split at hmax <;> omega
  rw [OffPeriod, hdelta, hdt, BitVec.lt_def, hmax', BitVec.toNat_ofNat]
  omega

/-- The timestamps that are handed over: an earlier one and consecutive samples of a signal, in
any order. -/
structure Handed (t0 : ℝ) (T : Nat) (ts : Stamps) (n : Nat) (e : Long) (a : Int) (s : Stamps) :
    Prop where
  enough : 3 ≤ n
  fits : n ≤ maxSamples
  samples : Samples t0 T a s (n - 1)
  earlier : e ≤ s 0
  perm : (contents ts n).Perm (e :: contents s (n - 1))

/-- `insertionSort` followed by `phaseFit`. -/
def sortAndFit (ts : Stamps) (period : Long) (n : Nat) (phase : B2bt) :
    Except Fault (Word × B2bt) := do
  let ts ← insertionSort maxSamples ts n
  phaseFit maxSamples ts period n phase

section Fit

variable {t0 : ℝ} {T : Nat} {ts : Stamps} {n : Nat} {e : Long} {a : Int} {s : Stamps}

theorem contents_ordered {m : Nat} (h : Samples t0 T a s m) :
    (contents s m).Pairwise (· ≤ ·) := by
  rw [List.pairwise_iff_getElem]
  intro i j hi hj hij
  simp only [length_contents] at hi hj
  simp only [contents, List.getElem_map, List.getElem_range]
  exact h.ordered hij.le hj

/-- Sorting puts the earlier timestamp first. -/
theorem Handed.sorted (h : Handed t0 T ts n e a s) :
    (contents ts n).insertionSort (· ≤ ·) = e :: contents s (n - 1) := by
  apply List.Perm.eq_of_pairwise' (List.pairwise_insertionSort _ _)
  · refine List.pairwise_cons.mpr ⟨?_, contents_ordered h.samples⟩
    intro b hb
    simp only [contents, List.mem_map, List.mem_range] at hb
    obtain ⟨i, hi, rfl⟩ := hb
    exact h.earlier.trans (h.samples.ordered (Nat.zero_le i) hi)
  · exact (List.perm_insertionSort _ _).trans h.perm

theorem Samples.not_offPeriod {m i : Nat} (h : Samples t0 T a s m)
    (hlow : 100000000000 ≤ T) (hhigh : T ≤ 37000000000000) (hi : i + 1 < m) :
    ¬OffPeriod (nsOfPeriod (BitVec.ofNat 64 T)) ((s (i + 1) - s i).setWidth 32) := by
  have hns : nsOfPeriod (BitVec.ofNat 64 T) = BitVec.ofNat 32 (T / 1000000000) := by
    apply BitVec.eq_of_toNat_eq
    rw [nsOfPeriod, BitVec.toNat_setWidth, BitVec.toNat_udiv, BitVec.toNat_ofNat,
      BitVec.toNat_ofNat, Nat.mod_eq_of_lt (show T < 2 ^ 64 by omega)]
    rfl
  have hdiff : ∀ b, (s (i + 1)).toNat = (s i).toNat + T / 1000000000 + b →
      ((s (i + 1) - s i).setWidth 32 : Word) = BitVec.ofNat 32 (T / 1000000000 + b) := by
    intro b hb
    apply BitVec.eq_of_toNat_eq
    have hlt := (s (i + 1)).isLt
    rw [BitVec.toNat_setWidth, BitVec.toNat_ofNat,
      BitVec.toNat_sub_of_le (BitVec.le_def.mpr (by omega)), hb]
    congr 1
    omega
  rw [hns]
  rcases h.neighbours hi with hb | hb
  · rw [hdiff 0 hb]
    exact B2b.not_offPeriod (by omega) (by omega) (by omega)
  · rw [hdiff 1 hb]
    exact B2b.not_offPeriod (by omega) (by omega) (by omega)

/-- The fit runs over the samples. -/
theorem Handed.sortAndFit_eq (h : Handed t0 T ts n e a s) (hlow : 100000000000 ≤ T)
    (hhigh : T ≤ 37000000000000) (phase : B2bt) {d : Deviations}
    (hd : (contents s (n - 1)).foldl (Deviations.add (BitVec.ofNat 64 T) (s 0)) Deviations.init = d)
    (hgood : 1 ≤ d.nGood) :
    sortAndFit ts (BitVec.ofNat 64 T) n phase =
      .ok (statusOk, d.time (s 0) (d.sumDeviation.sdiv (BitVec.ofNat 64 d.nGood))) := by
  have hn := h.enough
  obtain ⟨ts', hsort, hcontents, -⟩ := insertionSort_ok ts n
  rw [h.sorted] at hcontents
  have hentry : ∀ i, i + 1 < n → ts' (i + 1) = s i := by
    intro i hi
    have hget := congrArg (·[i + 1]?) hcontents
    simpa [getElem?_contents hi, getElem?_contents (show i < n - 1 by omega)] using hget
  have hperiod : BitVec.ofNat 64 T ≠ 0 := by
    intro hzero
    have hnat := congrArg BitVec.toNat hzero
    simp only [BitVec.toNat_ofNat, BitVec.ofNat_eq_ofNat] at hnat
    omega
  have hns : nsOfPeriod (BitVec.ofNat 64 T) ≠ 0 := by
    have hnat : (BitVec.ofNat 64 T).toNat = T := Nat.mod_eq_of_lt (by omega)
    rw [Ne, nsOfPeriod_eq_zero_iff (by omega), hnat]
    omega
  obtain ⟨i, hi⟩ : ∃ i, n >>> 1 = i + 1 := ⟨n >>> 1 - 1, by
    rw [Nat.shiftRight_eq_div_pow]
    omega⟩
  have hi' : i + 1 < n - 1 := by
    rw [← hi, Nat.shiftRight_eq_div_pow]
    omega
  have hfirst : (contents s (n - 1)).headD 0 = s 0 := by
    obtain ⟨m, hm⟩ : ∃ m, n - 1 = m + 1 := ⟨n - 2, by omega⟩
    rw [hm, contents, List.range_succ_eq_map]
    rfl
  have havg : averageOf (BitVec.ofNat 64 T) (contents ts' n).tail =
      (statusOk, d.time (s 0) (d.sumDeviation.sdiv (BitVec.ofNat 64 d.nGood))) := by
    rw [hcontents, List.tail_cons, averageOf, hfirst, hd]
    exact if_neg (by omega)
  rw [sortAndFit, hsort maxSamples h.fits, ok_bind, phaseFit_eq hperiod hn h.fits h.fits,
    if_neg hns, hi, hentry i (by omega), hentry (i + 1) (by omega),
    if_neg (h.samples.not_offPeriod hlow hhigh hi'), havg]
  rfl

/-- The fit of a sampled signal is a true time up to a nanosecond, and its uncertainty is the
window of the deviations, in units of `2 ^ 20` attoseconds and rounded down. -/
theorem phaseFit_accurate (h : Handed t0 T ts n e a s) (hlow : 100000000000 ≤ T)
    (hhigh : T ≤ 37000000000000) (phase : B2bt) :
    ∃ t, sortAndFit ts (BitVec.ofNat 64 T) n phase = .ok (statusOk, t) ∧
      (∃ k : Int, |(t.ns.toNat + t.ps.toInt / 1000 : ℝ) - trueTime t0 T k| < 1) ∧
      (-500 ≤ t.ps.toInt ∧ t.ps.toInt < 500) ∧
      (∀ i < n - 1, ∀ j < n - 1,
        deviation T s i - deviation T s j < ((t.dps.toNat : Int) + 1) * 2 ^ 20) ∧
      ∃ i < n - 1, ∃ j < n - 1, (t.dps.toNat : Int) * 2 ^ 20 ≤ deviation T s i - deviation T s j := by
  have hn := h.enough
  obtain ⟨m, hm⟩ : ∃ m, n - 1 = m + 1 := ⟨n - 2, by omega⟩
  have hsamples := h.samples
  rw [hm] at hsamples
  obtain ⟨lo, hi, htracked⟩ := tracked_foldl hlow (by omega) m hsamples.small
  rw [← hm] at htracked hsamples
  generalize hd : (contents s (n - 1)).foldl (Deviations.add (BitVec.ofNat 64 T) (s 0))
    Deviations.init = d at htracked
  have hzero : deviation T s 0 = 0 := by simp [deviation]
  have hlo' := htracked.lo_le 0 (by omega)
  have hhi' := htracked.le_hi 0 (by omega)
  obtain ⟨i, hi', hieq⟩ := htracked.hi_mem
  obtain ⟨j, hj', hjeq⟩ := htracked.lo_mem
  have hsmalli := abs_lt.mp (hsamples.small i hi')
  have hsmallj := abs_lt.mp (hsamples.small j hj')
  rw [hzero] at hlo' hhi'
  rw [hieq] at hsmalli
  rw [hjeq] at hsmallj
  obtain ⟨hns, hps, hdps⟩ := time_spec htracked.maxDeviation htracked.minDeviation hsmallj.1 hlo'
    hhi' hsmalli.2 (s 0) (d.sumDeviation.sdiv (BitVec.ofNat 64 d.nGood))
  refine ⟨_, h.sortAndFit_eq hlow hhigh phase hd (by rw [htracked.nGood]; omega), ⟨a, ?_⟩, ?_, ?_,
    i, hi', j, hj', ?_⟩
  · have hlosti := hsamples.lost_between hi'
    have hlostj := hsamples.lost_between hj'
    have hdevi := deviation_eq_lost t0 T a s i
    have hdevj := deviation_eq_lost t0 T a s j
    rw [hieq] at hdevi
    rw [hjeq] at hdevj
    obtain ⟨hmlow, hmhigh⟩ := middlePs_between hlo' hhi'
    have hmlow' : (lo : ℝ) ≤ middlePs lo hi * 1000000 := by exact_mod_cast hmlow
    have hmhigh' : (middlePs lo hi * 1000000 : ℝ) ≤ hi := by exact_mod_cast hmhigh
    have hlost0 : lost t0 T a s 0 = (trueTime t0 T a - (s 0).toNat) * 10 ^ 9 := by
      simp [lost]
    rw [hns, hps, abs_lt]
    constructor <;> linarith
  · rw [hps]
    exact middlePs_small hsmallj.1 hlo' hhi' hsmalli.2
  · intro k hk l hl
    have hkhi := htracked.le_hi k hk
    have hllo := htracked.lo_le l hl
    rw [hdps]
    omega
  · rw [hieq, hjeq, hdps]
    omega

end Fit

/-! ### A signal with 100.0005 ns -/

def sampleMemory : Stamps
  | 0 => 1100
  | 1 => 500
  | 2 => 1200
  | _ => 1000

theorem sampleMemory_handed :
    Handed 1000 100000500000 sampleMemory 4 500 0 fun i => BitVec.ofNat 64 (1000 + 100 * i) where
  enough := by decide
  fits := by decide
  samples := by
    intro i hi
    obtain rfl | rfl | rfl : i = 0 ∨ i = 1 ∨ i = 2 := by omega
    all_goals
      symm
      rw [Int.floor_eq_iff, trueTime]
      norm_num
  earlier := by decide
  perm := by decide

theorem sampleMemory_accurate :
    ∃ t, sortAndFit sampleMemory (BitVec.ofNat 64 100000500000) 4 ⟨0, 0, 0⟩ = .ok (statusOk, t) ∧
      ∃ k : Int, |(t.ns.toNat + t.ps.toInt / 1000 : ℝ) - trueTime 1000 100000500000 k| < 1 := by
  obtain ⟨t, hfit, hnear, -⟩ :=
    phaseFit_accurate sampleMemory_handed (by decide) (by decide) ⟨0, 0, 0⟩
  exact ⟨t, hfit, hnear⟩

/-- The deviations spread over a million attoseconds, and the fit shows no uncertainty. -/
theorem dps_below_window :
    ¬∀ (t0 : ℝ) (T : Nat) (ts : Stamps) (n : Nat) (e : Long) (a : Int) (s : Stamps) (phase : B2bt),
      Handed t0 T ts n e a s → 100000000000 ≤ T → T ≤ 37000000000000 →
        ∃ t, sortAndFit ts (BitVec.ofNat 64 T) n phase = .ok (statusOk, t) ∧
          ∀ i < n - 1, ∀ j < n - 1,
            deviation T s i - deviation T s j ≤ (t.dps.toNat : Int) * 2 ^ 20 := by
  intro hall
  obtain ⟨t, hfit, hwindow⟩ := hall _ _ _ _ _ _ _ ⟨0, 0, 0⟩ sampleMemory_handed (by decide)
    (by decide)
  have hdps : (sortAndFit sampleMemory (BitVec.ofNat 64 100000500000) 4 ⟨0, 0, 0⟩).map
      (fun fit => fit.2.dps) = .ok 0 := by
    decide +kernel
  rw [hfit] at hdps
  obtain hzero : t.dps = 0 := Except.ok.inj hdps
  have hspread := hwindow 0 (by decide) 2 (by decide)
  rw [hzero] at hspread
  revert hspread
  decide

end B2b
