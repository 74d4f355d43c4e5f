import BelProjects.Library.Selection
import Mathlib.Tactic.FinCases
import Mathlib.Data.Fintype.Prod

/-!
# The sorting tree of the priority queue

Nine timestamps are compared in two stages: each group of three channels by a comparator,
and the three results by another one.  Both stages are registered, so that the second stage
is one cycle behind the first.  The output combines the two as they are in one cycle.
-/

namespace PrioQueue

abbrev Word := BitVec 32
abbrev Long := BitVec 64

/-- What the comparators use of the matrix package: the value of a reset matrix. -/
structure MatrixPkg where
  mrst : Fin 3 → Fin 3 → Bool
  mrst_zero : ∀ x y, mrst x y = false

variable (pkg : MatrixPkg)

/-! ### The comparator of three -/

def ca : Fin 3 := 2
def cb : Fin 3 := 1
def cc : Fin 3 := 0

/-- The matrix of `min_one_hot`: comparator values below the diagonal, the inverted ones
above it. -/
def leMatrix (a_le_b b_le_c a_le_c : Bool) (x y : Fin 3) : Bool :=
  if x = ca ∧ y = cb then a_le_b
  else if x = cb ∧ y = cc then b_le_c
  else if x = ca ∧ y = cc then a_le_c
  else if x = cb ∧ y = ca then !a_le_b
  else if x = cc ∧ y = cb then !b_le_c
  else if x = cc ∧ y = ca then !a_le_c
  else !pkg.mrst x y

def minOneHot (a_le_b b_le_c a_le_c : Bool) (x : Fin 3) : Bool :=
  (List.finRange 3).all (leMatrix pkg a_le_b b_le_c a_le_c x)

structure Min3 where
  min : Long
  e : Bool
  y_abc : Fin 3 → Bool

def Min3.reset : Min3 := { min := 0, e := true, y_abc := fun _ => false }

/-- What is compared: the empty flag, then the timestamp. -/
def key (e : Bool) (ts : Long) : BitVec 65 := BitVec.ofBool e ++ ts

def selectMin (y_abc : Fin 3 → Bool) (ts : Fin 3 → Long) : Long :=
  match y_abc ca, y_abc cb, y_abc cc with
  | true, false, false => ts ca
  | false, true, false => ts cb
  | false, false, true => ts cc
  | _, _, _ => ts ca

def min3 (rst_n : Bool) (ts : Fin 3 → Long) (e : Fin 3 → Bool) : Min3 :=
  let s := fun x => key (e x) (ts x)
  let y_abc := minOneHot pkg (s ca ≤ s cb) (s cb ≤ s cc) (s ca ≤ s cc)
  if rst_n = false then Min3.reset
  else { min := selectMin y_abc ts, e := e ca && e cb && e cc, y_abc }

/-! ### Nine channels -/

def channel (I J : Fin 3) : Fin 9 := ⟨I * 3 + J, by omega⟩

def groupOf (q : Fin 9) : Fin 3 := ⟨q / 3, by omega⟩
def memberOf (q : Fin 9) : Fin 3 := ⟨q % 3, by omega⟩

/-- The registers of `min9_64`. -/
structure Sorter where
  group : Fin 3 → Min3
  top : Min3

def Sorter.reset : Sorter := { group := fun _ => Min3.reset, top := Min3.reset }

def groupMin3 (rst_n : Bool) (ts : Fin 9 → Long) (e : Fin 9 → Bool) (I : Fin 3) : Min3 :=
  min3 pkg rst_n (fun J => ts (channel I J)) fun J => e (channel I J)

/-- `min9_64` at a clock edge. -/
def Sorter.step (s : Sorter) (rst_n : Bool) (ts : Fin 9 → Long) (e : Fin 9 → Bool) : Sorter :=
  { group := groupMin3 pkg rst_n ts e
    top := min3 pkg rst_n (fun I => (s.group I).min) fun I => (s.group I).e }

def Sorter.y (s : Sorter) (q : Fin 9) : Bool :=
  (s.group (groupOf q)).y_abc (memberOf q) && !s.top.e && s.top.y_abc (groupOf q)

/-! ### What a comparator selects -/

theorem key_toNat (e : Bool) (ts : Long) : (key e ts).toNat = e.toNat * 2 ^ 64 + ts.toNat := by
  rw [key, BitVec.toNat_append, ← Nat.shiftLeft_add_eq_or_of_lt ts.isLt, Nat.shiftLeft_eq,
    BitVec.toNat_ofBool]

/-- A channel without a timestamp is never before one with a timestamp. -/
theorem key_le_iff (e e' : Bool) (ts ts' : Long) :
    key e ts ≤ key e' ts' ↔ (e = false ∧ e' = true) ∨ (e = e' ∧ ts ≤ ts') := by
  rw [BitVec.le_def, key_toNat, key_toNat, BitVec.le_def]
  cases e <;> cases e' <;> simp <;> omega

theorem minOneHot_iff (s : Fin 3 → BitVec 65) (x : Fin 3) :
    minOneHot pkg (s ca ≤ s cb) (s cb ≤ s cc) (s ca ≤ s cc) x = true ↔
      Selected (fun y => (s y).toNat) x := by
  have hdiag : ∀ x, pkg.mrst x x = false := fun x => pkg.mrst_zero x x
  simp only [minOneHot, List.all_eq_true, List.mem_finRange, forall_const, Selected, Fin.forall_fin_succ]
  fin_cases x <;> simp [leMatrix, ca, cb, cc, hdiag, BitVec.le_def]

/-- The keys of a comparator's inputs, or of the nine channels. -/
def keys {n : Nat} (ts : Fin n → Long) (e : Fin n → Bool) (x : Fin n) : Nat := (key (e x) (ts x)).toNat

theorem selectMin_eq {y_abc : Fin 3 → Bool} {x : Fin 3} (ts : Fin 3 → Long)
    (h : ∀ y, y_abc y = true ↔ y = x) : selectMin y_abc ts = ts x := by
  have hy : y_abc = fun y => decide (y = x) := by
    funext y
    exact Bool.eq_iff_iff.mpr ((h y).trans decide_eq_true_iff.symm)
  subst hy
  fin_cases x <;> rfl

section Comparator

variable {pkg} {ts : Fin 3 → Long} {e : Fin 3 → Bool}

theorem min3_y (x : Fin 3) : (min3 pkg true ts e).y_abc x = true ↔ Selected (keys ts e) x :=
  minOneHot_iff pkg (fun x => key (e x) (ts x)) x

/-- The output of a comparator is the timestamp that it selects, with its empty flag. -/
theorem min3_out {x : Fin 3} (h : Selected (keys ts e) x) :
    (min3 pkg true ts e).min = ts x ∧ (min3 pkg true ts e).e = e x := by
  constructor
  · exact selectMin_eq ts fun y =>
      (min3_y y).trans ⟨fun hy => hy.unique h, fun heq => heq ▸ h⟩
  · have hle : ∀ y, e x = true → e y = true := by
      intro y hx
      have hkey : key (e x) (ts x) ≤ key (e y) (ts y) := BitVec.le_def.mpr (h.le y)
      rcases (key_le_iff _ _ _ _).mp hkey with ⟨-, hy⟩ | ⟨hxy, -⟩
      · exact hy
      · exact hxy ▸ hx
    have hall : (min3 pkg true ts e).e = true ↔ e x = true := by
      have hout : (min3 pkg true ts e).e = (e ca && e cb && e cc) := rfl
      rw [hout, Bool.and_eq_true, Bool.and_eq_true]
      constructor
      · rintro ⟨⟨ha, hb⟩, hc⟩
        fin_cases x
        · exact hc
        · exact hb
        · exact ha
      · intro hx
        exact ⟨⟨hle ca hx, hle cb hx⟩, hle cc hx⟩
    exact Bool.eq_iff_iff.mpr hall

end Comparator

/-! ### What the tree selects -/

theorem channel_groupOf (q : Fin 9) : channel (groupOf q) (memberOf q) = q := by
  apply Fin.ext
  show q / 3 * 3 + q % 3 = (q : Nat)
  omega

theorem groupOf_channel (I J : Fin 3) : groupOf (channel I J) = I := by
  apply Fin.ext
  show (I * 3 + J) / 3 = (I : Nat)
  omega

theorem channel_lex {I I' J J' : Fin 3} (h : channel I J < channel I' J') :
    I < I' ∨ I = I' ∧ J < J' := by
  have hval : (I : Nat) * 3 + J < I' * 3 + J' := h
  rcases lt_trichotomy I I' with hlt | heq | hgt
  · exact Or.inl hlt
  · subst heq
    exact Or.inr ⟨rfl, by omega⟩
  · omega

variable {pkg}

/-- The smallest timestamp of group `I`, as the second stage sees it. -/
def groupKeys (pkg : MatrixPkg) (ts : Fin 9 → Long) (e : Fin 9 → Bool) : Fin 3 → Nat :=
  keys (fun I => (groupMin3 pkg true ts e I).min) fun I => (groupMin3 pkg true ts e I).e

theorem groupKeys_eq (pkg : MatrixPkg) (ts : Fin 9 → Long) (e : Fin 9 → Bool) (I : Fin 3) :
    ∃ J, Selected (fun J => keys ts e (channel I J)) J ∧
      (groupMin3 pkg true ts e I).e = e (channel I J) ∧
      groupKeys pkg ts e I = keys ts e (channel I J) := by
  obtain ⟨J, hJ⟩ := Selected.exists fun J => keys ts e (channel I J)
  have hout : (groupMin3 pkg true ts e I).min = ts (channel I J) ∧
      (groupMin3 pkg true ts e I).e = e (channel I J) := min3_out hJ
  refine ⟨J, hJ, hout.2, ?_⟩
  rw [groupKeys, keys, hout.1, hout.2]
  rfl

theorem selected_group {ts : Fin 9 → Long} {e : Fin 9 → Bool} {I : Fin 3} :
    Selected (groupKeys pkg ts e) I ↔
      ∃ q, Selected (keys ts e) q ∧ groupOf q = I ∧ (groupMin3 pkg true ts e I).e = e q := by
  have hall : ∀ q, ∃ I J, q = channel I J := fun q => ⟨_, _, (channel_groupOf q).symm⟩
  have hnested : ∀ I, Selected (groupKeys pkg ts e) I →
      ∃ q, Selected (keys ts e) q ∧ groupOf q = I ∧ (groupMin3 pkg true ts e I).e = e q := by
    intro I hI
    obtain ⟨J, hJ, hempty, -⟩ := groupKeys_eq pkg ts e I
    refine ⟨channel I J, Selected.nested hall channel_lex ?_ hI hJ, groupOf_channel I J, hempty⟩
    intro I'
    obtain ⟨J', hJ', -, hkey⟩ := groupKeys_eq pkg ts e I'
    exact ⟨J', hJ', hkey⟩
  constructor
  · exact hnested I
  · rintro ⟨q, hq, rfl, -⟩
    obtain ⟨I', hI'⟩ := Selected.exists (groupKeys pkg ts e)
    obtain ⟨q', hq', rfl, -⟩ := hnested I' hI'
    rw [hq.unique hq']
    exact hI'

theorem selected_valid {n : Nat} {ts : Fin n → Long} {e : Fin n → Bool} {q q' : Fin n}
    (h : Selected (keys ts e) q) (hq' : e q' = false) : e q = false := by
  have hle : key (e q) (ts q) ≤ key (e q') (ts q') := BitVec.le_def.mpr (h.le q')
  rcases (key_le_iff _ _ _ _).mp hle with ⟨hq, -⟩ | ⟨heq, -⟩
  · exact hq
  · exact heq.trans hq'

/-- The tree puts out nothing in the two cycles after a reset. -/
theorem Sorter.reset_y (q : Fin 9) : Sorter.reset.y q = false := rfl

theorem Sorter.reset_step_y (rst_n : Bool) (ts : Fin 9 → Long) (e : Fin 9 → Bool) (q : Fin 9) :
    (Sorter.reset.step pkg rst_n ts e).y q = false := by
  have hempty : (Sorter.reset.step pkg rst_n ts e).top.e = true := by
    rw [Sorter.step]
    cases rst_n with
    | false => rfl
    | true => rfl
  rw [Sorter.y, hempty, Bool.not_true, Bool.and_false, Bool.false_and]

theorem groupMin3_y (ts : Fin 9 → Long) (e : Fin 9 → Bool) (I J : Fin 3) :
    (groupMin3 pkg true ts e I).y_abc J = true ↔ Selected (fun J => keys ts e (channel I J)) J := by
  rw [groupMin3]
  exact min3_y J

theorem Sorter.top_eq (s : Sorter) (ts ts' : Fin 9 → Long) (e e' : Fin 9 → Bool) :
    ((s.step pkg true ts e).step pkg true ts' e').top =
      min3 pkg true (fun I => (groupMin3 pkg true ts e I).min)
        fun I => (groupMin3 pkg true ts e I).e := rfl

theorem Sorter.top_y (s : Sorter) (ts ts' : Fin 9 → Long) (e e' : Fin 9 → Bool) (I : Fin 3) :
    ((s.step pkg true ts e).step pkg true ts' e').top.y_abc I = true ↔
      Selected (groupKeys pkg ts e) I := by
  rw [Sorter.top_eq, min3_y, groupKeys]

theorem Sorter.top_e (s : Sorter) (ts ts' : Fin 9 → Long) (e e' : Fin 9 → Bool) {I : Fin 3}
    (h : Selected (groupKeys pkg ts e) I) :
    ((s.step pkg true ts e).step pkg true ts' e').top.e = (groupMin3 pkg true ts e I).e := by
  rw [groupKeys] at h
  rw [Sorter.top_eq, (min3_out h).2]

/-- **The output of the tree**, two cycles after the inputs `ts`, `e`: the group is that of
the smallest timestamp among them, the channel in it is the first one of the next inputs. -/
theorem Sorter.y_iff (s : Sorter) (rst_n rst_n' : Bool) (ts ts' : Fin 9 → Long)
    (e e' : Fin 9 → Bool) (q : Fin 9) :
    ((s.step pkg rst_n ts e).step pkg rst_n' ts' e').y q = true ↔
      rst_n = true ∧ rst_n' = true ∧
        (∃ q₀, Selected (keys ts e) q₀ ∧ e q₀ = false ∧ groupOf q₀ = groupOf q) ∧
        Selected (fun J => keys ts' e' (channel (groupOf q) J)) (memberOf q) := by
  rw [Sorter.y, Bool.and_eq_true, Bool.and_eq_true, Bool.not_eq_true']
  cases rst_n' with
  | false =>
      constructor
      · rintro ⟨-, h⟩
        exact absurd h Bool.false_ne_true
      · rintro ⟨-, h, -⟩
        exact absurd h Bool.false_ne_true
  | true =>
      cases rst_n with
      | false =>
          -- the second stage sees three empty groups
          have hempty : ((s.step pkg false ts e).step pkg true ts' e').top.e = true := rfl
          rw [hempty]
          constructor
          · rintro ⟨⟨-, h⟩, -⟩
            exact absurd h.symm Bool.false_ne_true
          · rintro ⟨h, -⟩
            exact absurd h Bool.false_ne_true
      | true =>
          have htop : ∀ I, ((s.step pkg true ts e).step pkg true ts' e').top.y_abc I = true ↔
              Selected (groupKeys pkg ts e) I := fun I => Sorter.top_y s ts ts' e e' I
          have hmember : (((s.step pkg true ts e).step pkg true ts' e').group (groupOf q)).y_abc
              (memberOf q) = true ↔
                Selected (fun J => keys ts' e' (channel (groupOf q) J)) (memberOf q) :=
            groupMin3_y ts' e' _ _
          have hempty : ∀ I, Selected (groupKeys pkg ts e) I →
              ((s.step pkg true ts e).step pkg true ts' e').top.e =
                (groupMin3 pkg true ts e I).e := fun I hI => Sorter.top_e s ts ts' e e' hI
          rw [hmember, htop]
          constructor
          · rintro ⟨⟨hm, he⟩, hI⟩
            obtain ⟨q₀, hq₀, hgroup, heq⟩ := selected_group.mp hI
            rw [hempty _ hI, heq] at he
            exact ⟨rfl, rfl, ⟨q₀, hq₀, he, hgroup⟩, hm⟩
          · rintro ⟨-, -, ⟨q₀, hq₀, he, hgroup⟩, hm⟩
            obtain ⟨I, hI⟩ := Selected.exists (groupKeys pkg ts e)
            obtain ⟨q', hq', rfl, heq⟩ := selected_group.mp hI
            rw [hq'.unique hq₀, hgroup] at hI
            rw [hq'.unique hq₀, hgroup] at heq
            exact ⟨⟨hm, (hempty _ hI).trans (heq.trans he)⟩, hI⟩

end PrioQueue
