import BelProjects.PrioQueue.Sorter
import BelProjects.Library.Clocked

/-!
# The pipelined minimum

The sorting tree alone, for any sequence of inputs from a reset on: what it puts out while
its inputs do not change, and what it can put out while they do.
-/

namespace PrioQueue

variable (pkg : MatrixPkg)

/-- The inputs of `min9_64` in one cycle. -/
structure TreeInputs where
  rst_n : Bool
  ts : Fin 9 → Long
  e : Fin 9 → Bool

def treeAt (inp : Nat → TreeInputs) (t : Nat) : Sorter :=
  Clocked.trace (fun i s => Sorter.step pkg s i.rst_n i.ts i.e) Sorter.reset inp t

/-- Queue `q` has a timestamp that is minimal among the valid ones, and comes first of those
that have it: in the order of the tree `a` is before `b` and `b` before `c`, and `a` has the
highest index. -/
structure FirstMinimal (i : TreeInputs) (q : Fin 9) : Prop where
  valid : i.e q = false
  minimal : ∀ q', i.e q' = false → i.ts q ≤ i.ts q'
  first : ∀ q', i.e q' = false → i.ts q' = i.ts q → q' ≤ q

/-- The channel of a group that its comparator selects when the group has no timestamp. -/
def EmptyChoice (i : TreeInputs) (I : Fin 3) (J : Fin 3) : Prop :=
  ∀ J', (i.ts (channel I J) ≤ i.ts (channel I J')) ∧
    (i.ts (channel I J') = i.ts (channel I J) → J' ≤ J)

variable {pkg}

theorem firstMinimal_iff (i : TreeInputs) (q : Fin 9) :
    FirstMinimal i q ↔ Selected (keys i.ts i.e) q ∧ i.e q = false := by
  have hkey : ∀ q', i.e q' = false → keys i.ts i.e q' = (i.ts q').toNat := by
    intro q' hq'
    rw [keys, key_toNat, hq', Bool.toNat_false, Nat.zero_mul, Nat.zero_add]
  constructor
  · intro h
    refine ⟨fun q' => ?_, h.valid⟩
    cases hq' : i.e q' with
    | true =>
        -- the empty flag is above all timestamps
        have hlt : keys i.ts i.e q < keys i.ts i.e q' := by
          have hbound := (i.ts q).isLt
          rw [hkey q h.valid, keys, key_toNat, hq', Bool.toNat_true]
          omega
        exact ⟨fun _ => Nat.le_of_lt hlt, fun _ => hlt⟩
    | false =>
        rw [hkey q h.valid, hkey q' hq']
        have hle : (i.ts q).toNat ≤ (i.ts q').toNat := BitVec.le_def.mp (h.minimal q' hq')
        refine ⟨fun _ => hle, fun hlt => Nat.lt_of_le_of_ne hle fun heq => ?_⟩
        exact absurd (h.first q' hq' (BitVec.eq_of_toNat_eq heq.symm)) (not_le.mpr hlt)
  · rintro ⟨hsel, hvalid⟩
    refine ⟨hvalid, fun q' hq' => ?_, fun q' hq' heq => ?_⟩
    · have hle := hsel.le q'
      rw [hkey q hvalid, hkey q' hq'] at hle
      exact BitVec.le_def.mpr hle
    · by_contra hlt
      have hstrict := (hsel q').2 (not_le.mp hlt)
      rw [hkey q hvalid, hkey q' hq', heq] at hstrict
      exact Nat.lt_irrefl _ hstrict

/-- Without a timestamp the comparator compares the words at its inputs all the same. -/
theorem emptyChoice_iff {i : TreeInputs} {I : Fin 3} (hempty : ∀ J, i.e (channel I J) = true)
    (J : Fin 3) : EmptyChoice i I J ↔ Selected (fun J => keys i.ts i.e (channel I J)) J := by
  have hkey : ∀ J, keys i.ts i.e (channel I J) = 2 ^ 64 + (i.ts (channel I J)).toNat := by
    intro J
    rw [keys, key_toNat, hempty J, Bool.toNat_true, Nat.one_mul]
  constructor
  · intro h J'
    obtain ⟨hle, hfirst⟩ := h J'
    have hle' : (i.ts (channel I J)).toNat ≤ (i.ts (channel I J')).toNat := BitVec.le_def.mp hle
    simp only [hkey]
    refine ⟨fun _ => Nat.add_le_add_left hle' _, fun hlt => ?_⟩
    apply Nat.add_lt_add_left
    refine Nat.lt_of_le_of_ne hle' fun heq => ?_
    exact absurd (hfirst (BitVec.eq_of_toNat_eq heq.symm)) (not_le.mpr hlt)
  · intro h J'
    have hle := h.le J'
    rw [hkey, hkey] at hle
    refine ⟨BitVec.le_def.mpr (Nat.le_of_add_le_add_left hle), fun heq => ?_⟩
    by_contra hlt
    have hstrict := (h J').2 (not_le.mp hlt)
    simp only [hkey, heq] at hstrict
    exact Nat.lt_irrefl _ hstrict

section Pipeline

variable {inp : Nat → TreeInputs} {t : Nat}

theorem treeAt_y_iff (q : Fin 9) :
    (treeAt pkg inp (t + 2)).y q = true ↔
      (inp t).rst_n = true ∧ (inp (t + 1)).rst_n = true ∧
        (∃ q₀, FirstMinimal (inp t) q₀ ∧ groupOf q₀ = groupOf q) ∧
        Selected (fun J => keys (inp (t + 1)).ts (inp (t + 1)).e (channel (groupOf q) J))
          (memberOf q) := by
  rw [treeAt, Clocked.trace_succ, Clocked.trace_succ, Sorter.y_iff]
  simp only [firstMinimal_iff, and_assoc]

theorem treeAt_y_early (ht : t < 2) (q : Fin 9) : (treeAt pkg inp t).y q = false := by
  match t, ht with
  | 0, _ => exact Sorter.reset_y q
  | 1, _ => exact Sorter.reset_step_y _ _ _ q

/-- A marked queue was marked by the inputs of two cycles. -/
theorem exists_sampled {q : Fin 9} (h : (treeAt pkg inp t).y q = true) : ∃ s, t = s + 2 := by
  by_cases ht : t < 2
  · rw [treeAt_y_early ht] at h
    exact absurd h Bool.false_ne_true
  · exact ⟨t - 2, (Nat.sub_add_cancel (Nat.le_of_not_lt ht)).symm⟩

theorem treeAt_y_unique {q q' : Fin 9} (h : (treeAt pkg inp t).y q = true)
    (h' : (treeAt pkg inp t).y q' = true) : q = q' := by
  obtain ⟨s, rfl⟩ := exists_sampled h
  obtain ⟨-, -, ⟨q₀, hq₀, hgroup⟩, hm⟩ := (treeAt_y_iff q).mp h
  obtain ⟨-, -, ⟨q₁, hq₁, hgroup'⟩, hm'⟩ := (treeAt_y_iff q').mp h'
  have hsel := ((firstMinimal_iff _ _).mp hq₀).1.unique ((firstMinimal_iff _ _).mp hq₁).1
  have hsame : groupOf q = groupOf q' := by rw [← hgroup, ← hgroup', hsel]
  rw [← hsame] at hm'
  rw [← channel_groupOf q, ← channel_groupOf q', ← hsame, hm.unique hm']

theorem channel_strictMono (I : Fin 3) : StrictMono (channel I) := by
  intro J J' hlt
  show (I : Nat) * 3 + J < (I : Nat) * 3 + J'
  exact Nat.add_lt_add_left hlt _

/-- **Stable inputs**: the tree marks the first queue with the minimal timestamp, and puts
this timestamp out. -/
theorem treeAt_stable (hrst : (inp t).rst_n = true) (hstable : inp (t + 1) = inp t) (q : Fin 9) :
    ((treeAt pkg inp (t + 2)).y q = true ↔ FirstMinimal (inp t) q) ∧
      (FirstMinimal (inp t) q → (treeAt pkg inp (t + 2)).top.min = (inp t).ts q) := by
  constructor
  · rw [treeAt_y_iff, hstable]
    constructor
    · rintro ⟨-, -, ⟨q₀, hq₀, hgroup⟩, hm⟩
      obtain ⟨hsel, -⟩ := (firstMinimal_iff _ _).mp hq₀
      rw [← channel_groupOf q₀] at hsel
      have hown := hsel.comp (channel_strictMono (groupOf q₀))
      rw [hgroup] at hown
      rw [← channel_groupOf q, ← hown.unique hm, ← hgroup, channel_groupOf]
      exact hq₀
    · intro hq
      obtain ⟨hsel, -⟩ := (firstMinimal_iff _ _).mp hq
      rw [← channel_groupOf q] at hsel
      exact ⟨hrst, hrst, ⟨q, hq, rfl⟩, hsel.comp (channel_strictMono (groupOf q))⟩
  · intro hq
    obtain ⟨hsel, -⟩ := (firstMinimal_iff _ _).mp hq
    obtain ⟨J, hJ, -, hkey⟩ := groupKeys_eq pkg (inp t).ts (inp t).e (groupOf q)
    have hgroup : Selected (groupKeys pkg (inp t).ts (inp t).e) (groupOf q) := by
      obtain ⟨I, hI⟩ := Selected.exists (groupKeys pkg (inp t).ts (inp t).e)
      obtain ⟨q', hq', rfl, -⟩ := selected_group.mp hI
      rwa [hsel.unique hq']
    have htop : (treeAt pkg inp (t + 2)).top =
        min3 pkg true (fun I => (groupMin3 pkg true (inp t).ts (inp t).e I).min)
          fun I => (groupMin3 pkg true (inp t).ts (inp t).e I).e := by
      rw [treeAt, Clocked.trace_succ, Clocked.trace_succ, hstable, hrst]
      rfl
    rw [htop, (min3_out hgroup).1]
    rw [← channel_groupOf q] at hsel
    have hown := hsel.comp (channel_strictMono (groupOf q))
    have hmin : (groupMin3 pkg true (inp t).ts (inp t).e (groupOf q)).min =
        (inp t).ts (channel (groupOf q) (memberOf q)) := (min3_out hown).1
    rw [hmin, channel_groupOf]

/-- The group of the smallest timestamp of a cycle has no timestamp in the next one. -/
structure Vanished (inp : Nat → TreeInputs) (s : Nat) (q₀ : Fin 9) : Prop where
  rst_n : (inp s).rst_n = true ∧ (inp (s + 1)).rst_n = true
  leading : FirstMinimal (inp s) q₀
  empty : ∀ J, (inp (s + 1)).e (channel (groupOf q₀) J) = true

/-- A marked queue had a timestamp in one of the two cycles, unless its group lost them all. -/
theorem marked_valid {s : Nat} {q : Fin 9} (h : (treeAt pkg inp (s + 2)).y q = true) :
    (inp (s + 1)).e q = false ∨ ∃ q₀, Vanished inp s q₀ ∧ groupOf q₀ = groupOf q ∧
      EmptyChoice (inp (s + 1)) (groupOf q₀) (memberOf q) := by
  obtain ⟨hrst, hrst', ⟨q₀, hq₀, hgroup⟩, hm⟩ := (treeAt_y_iff q).mp h
  by_cases hempty : ∀ J, (inp (s + 1)).e (channel (groupOf q) J) = true
  · refine Or.inr ⟨q₀, ⟨⟨hrst, hrst'⟩, hq₀, ?_⟩, hgroup, ?_⟩
    · rwa [hgroup]
    · rw [hgroup]
      exact (emptyChoice_iff hempty _).mpr hm
  · obtain ⟨J, hJ⟩ := not_forall.mp hempty
    rw [Bool.not_eq_true] at hJ
    have hvalid : (inp (s + 1)).e (channel (groupOf q) (memberOf q)) = false :=
      @selected_valid 3 (fun J => (inp (s + 1)).ts (channel (groupOf q) J))
        (fun J => (inp (s + 1)).e (channel (groupOf q) J)) _ _ hm hJ
    rw [channel_groupOf] at hvalid
    exact Or.inl hvalid

theorem Vanished.marks {s : Nat} {q₀ : Fin 9} (h : Vanished inp s q₀) {J : Fin 3}
    (hJ : EmptyChoice (inp (s + 1)) (groupOf q₀) J) :
    (treeAt pkg inp (s + 2)).y (channel (groupOf q₀) J) = true := by
  have hmember : memberOf (channel (groupOf q₀) J) = J := by
    apply Fin.ext
    show ((groupOf q₀ : Nat) * 3 + J) % 3 = (J : Nat)
    omega
  rw [treeAt_y_iff, groupOf_channel, hmember]
  exact ⟨h.rst_n.1, h.rst_n.2, ⟨q₀, h.leading, rfl⟩, (emptyChoice_iff h.empty J).mp hJ⟩

end Pipeline

/-- **The pipelined minimum**, over any inputs from a reset on.  Inputs that stay the same at
two edges give the first queue with the minimal timestamp and this timestamp, or nothing.
Never is more than one queue marked.  Only queues are marked that had a timestamp at one of
the two edges, if and only if this is so whenever a group loses its last timestamp just after
it had the smallest one. -/
theorem pipelined_minimum (pkg : MatrixPkg) (inp : Nat → TreeInputs) :
    (∀ t, (inp t).rst_n = true → inp (t + 1) = inp t →
        (∀ q, (treeAt pkg inp (t + 2)).y q = true ↔ FirstMinimal (inp t) q) ∧
          (∀ q, FirstMinimal (inp t) q → (treeAt pkg inp (t + 2)).top.min = (inp t).ts q) ∧
          ((∀ q, (inp t).e q = true) → ∀ q, (treeAt pkg inp (t + 2)).y q = false) ∧
          ((∃ q, (inp t).e q = false) → ∃ q, FirstMinimal (inp t) q)) ∧
      (∀ t q q', (treeAt pkg inp t).y q = true → (treeAt pkg inp t).y q' = true → q = q') ∧
      ((∀ t q, (treeAt pkg inp t).y q = true →
          ∃ s, t = s + 2 ∧ ((inp s).e q = false ∨ (inp (s + 1)).e q = false)) ↔
        ∀ s q₀, Vanished inp s q₀ → ∀ J, EmptyChoice (inp (s + 1)) (groupOf q₀) J →
          (inp s).e (channel (groupOf q₀) J) = false) := by
  refine ⟨fun t hrst hstable => ⟨fun q => (treeAt_stable hrst hstable q).1,
    fun q => (treeAt_stable hrst hstable q).2, fun hempty q => ?_, ?_⟩,
    fun t q q' => treeAt_y_unique, ?_, ?_⟩
  · rw [← Bool.not_eq_true, (treeAt_stable hrst hstable q).1]
    exact fun hq => Bool.false_ne_true (hq.valid.symm.trans (hempty q))
  · rintro ⟨q, hq⟩
    obtain ⟨q', hq'⟩ := Selected.exists (keys (inp t).ts (inp t).e)
    exact ⟨q', (firstMinimal_iff _ _).mpr ⟨hq', selected_valid hq' hq⟩⟩
  · intro h s q₀ hv J hJ
    obtain ⟨s', heq, hvalid⟩ := h (s + 2) _ (hv.marks hJ)
    obtain rfl := Nat.add_right_cancel heq
    rcases hvalid with hs | hs
    · exact hs
    · exact absurd (hs.symm.trans (hv.empty J)) Bool.false_ne_true
  · intro h t q hq
    obtain ⟨s, rfl⟩ := exists_sampled hq
    refine ⟨s, rfl, ?_⟩
    rcases marked_valid hq with hvalid | ⟨q₀, hv, hgroup, hchoice⟩
    · exact Or.inr hvalid
    · have hvalid := h s q₀ hv _ hchoice
      rw [hgroup, channel_groupOf] at hvalid
      exact Or.inl hvalid

/-- A timestamp of queue 0 that is there in one cycle only. -/
def pulse (t : Nat) : TreeInputs :=
  { rst_n := true, ts := fun _ => 0, e := fun q => !(decide (q = 0) && decide (t = 0)) }

/-- **A mark for a queue that never had a timestamp**: queue 2, after queue 0 had one. -/
theorem mark_without_timestamp : ∃ (pkg : MatrixPkg) (inp : Nat → TreeInputs) (t : Nat) (q : Fin 9),
    (treeAt pkg inp t).y q = true ∧ ∀ s, (inp s).e q = true :=
  ⟨⟨fun _ _ => false, fun _ _ => rfl⟩, pulse, 2, 2, by decide +kernel, fun _ => rfl⟩

end PrioQueue
