import BelProjects.DataMaster.Blocks.Layout

/-!
# What `block` finds in its queues

`scanQueues` takes one clock reading for each queue it finds pending, highest priority
first, and stops at the first head that is valid at its reading.  Two lemmas say how
it ends, with a hit or without, and the rest says that the paint bit, set before the
scan, changes nothing the scan looks at.
-/

namespace DataMaster

variable (P : Platform)

/-- Queue `q` exists and has a command pending. -/
def isPending (m : Mem) (node : Word) (q : Nat) : Bool :=
  P.hasQueue m node q && queuePending P m node q

def headTime (m : Mem) (node : Word) (q : Nat) : Time :=
  P.ld64 m (readElem P m node q + tCmdTime)

def headAct (m : Mem) (node : Word) (q : Nat) : Word :=
  P.ld m (readElem P m node q + tCmdAct)

/-- Number of clock readings that a scan of `prios` takes before it looks at `q`. -/
def readingsBefore (m : Mem) (node : Word) (prios : List Nat) (q : Nat) : Nat :=
  prios.countP fun p => decide (q < p) && isPending P m node p

/-- The loop variables after a scan without a hit. -/
def missVars (m : Mem) (node : Word) : List Nat → ScanVars → ScanVars
  | [], v => v
  | prio :: prios, v =>
      missVars m node prios
        (if P.hasQueue m node prio then
          { rdPrio := prio
            cmd := if queuePending P m node prio then some (readElem P m node prio) else v.cmd }
        else v)

section Scan

variable {P} {m : Mem} {node : Word}

theorem readingsBefore_head {prio : Nat} {prios : List Nat} (h : ∀ p ∈ prios, p < prio) :
    readingsBefore P m node (prio :: prios) prio = 0 := by
  rw [readingsBefore, List.countP_eq_zero]
  intro p hp
  rcases List.mem_cons.mp hp with rfl | hp
  · simp
  · have hlt := h p hp
    simp only [Bool.and_eq_true, decide_eq_true_eq, not_and]
    intro hgt
    omega

theorem readingsBefore_tail {prio q : Nat} {prios : List Nat} (h : q < prio) :
    readingsBefore P m node (prio :: prios) q =
      readingsBefore P m node prios q + if isPending P m node prio then 1 else 0 := by
  rw [readingsBefore, List.countP_cons, readingsBefore]
  simp [h]

/-- A queue without a command that is valid at its reading is passed over. -/
theorem scanQueues_cons {prio : Nat} {prios : List Nat} {v : ScanVars} {clk : Nat → Time}
    (h : isPending P m node prio = true → clk 0 < headTime P m node prio) :
    scanQueues P m node (prio :: prios) v clk =
      scanQueues P m node prios (missVars P m node [prio] v)
        (fun n => clk (n + if isPending P m node prio then 1 else 0)) := by
  rw [scanQueues]
  by_cases hq : P.hasQueue m node prio = true
  · rw [if_pos hq]
    by_cases hp : queuePending P m node prio = true
    · have hpend : isPending P m node prio = true := by rw [isPending, hq, hp]; rfl
      have hlate : ¬ P.ld64 m (readElem P m node prio + tCmdTime) ≤ clk 0 :=
        BitVec.not_le.mpr (h hpend)
      simp only [if_pos hp, if_neg hlate, if_pos hpend, missVars, if_pos hq]
    · have hpend : isPending P m node prio = false := by simp [isPending, hp]
      simp only [if_neg hp, hpend, missVars, if_pos hq]
      rfl
  · have hpend : isPending P m node prio = false := by simp [isPending, hq]
    simp only [if_neg hq, hpend, missVars]
    rfl

/-- The scan stops at the first head that is valid at its reading. -/
theorem scanQueues_hit {q : Nat} :
    ∀ {prios : List Nat} {v : ScanVars} {clk : Nat → Time}, prios.Pairwise (· > ·) → q ∈ prios →
      isPending P m node q = true →
      headTime P m node q ≤ clk (readingsBefore P m node prios q) →
      (∀ p ∈ prios, q < p → isPending P m node p = true →
        clk (readingsBefore P m node prios p) < headTime P m node p) →
      scanQueues P m node prios v clk =
        ({ rdPrio := q, cmd := some (readElem P m node q) },
          fun n => clk (n + 1 + readingsBefore P m node prios q)) := by
  intro prios
  induction prios with
  | nil => intro v clk _ hq; exact absurd hq (by simp)
  | cons prio prios ih =>
      intro v clk hdesc hq hpend hvalid hlate
      obtain ⟨hhead, hdesc⟩ := List.pairwise_cons.mp hdesc
      rcases List.mem_cons.mp hq with rfl | hq
      · rw [readingsBefore_head hhead] at hvalid ⊢
        obtain ⟨hex, hp⟩ := Bool.and_eq_true_iff.mp hpend
        have hnow : P.ld64 m (readElem P m node q + tCmdTime) ≤ clk 0 := hvalid
        simp only [scanQueues, if_pos hex, if_pos hp, if_pos hnow, Nat.add_zero]
      · have hlt : q < prio := hhead q hq
        have hskip := hlate prio List.mem_cons_self hlt
        rw [readingsBefore_head hhead] at hskip
        rw [readingsBefore_tail hlt] at hvalid ⊢
        rw [scanQueues_cons hskip, ih hdesc hq hpend hvalid]
        · simp only [Nat.add_assoc]
        · intro p hp hqp hpp
          have hpl := hlate p (List.mem_cons_of_mem _ hp) hqp hpp
          rwa [readingsBefore_tail (hhead p hp)] at hpl

/-- A scan without a hit passes over every queue. -/
theorem scanQueues_miss :
    ∀ {prios : List Nat} {v : ScanVars} {clk : Nat → Time}, prios.Pairwise (· > ·) →
      (∀ p ∈ prios, isPending P m node p = true →
        clk (readingsBefore P m node prios p) < headTime P m node p) →
      scanQueues P m node prios v clk =
        (missVars P m node prios v, fun n => clk (n + prios.countP (isPending P m node))) := by
  intro prios
  induction prios with
  | nil => intro v clk _ _; rfl
  | cons prio prios ih =>
      intro v clk hdesc hlate
      obtain ⟨hhead, hdesc⟩ := List.pairwise_cons.mp hdesc
      have hskip := hlate prio List.mem_cons_self
      rw [readingsBefore_head hhead] at hskip
      rw [scanQueues_cons hskip, ih hdesc]
      · simp only [missVars, List.countP_cons, Nat.add_assoc]
      · intro p hp hpp
        have hpl := hlate p (List.mem_cons_of_mem _ hp) hpp
        rwa [readingsBefore_tail (hhead p hp)] at hpl

theorem missVars_cmd_none :
    ∀ {prios : List Nat} {v : ScanVars}, (∀ p ∈ prios, isPending P m node p = false) →
      (missVars P m node prios v).cmd = v.cmd := by
  intro prios
  induction prios with
  | nil => intro v _; rfl
  | cons prio prios ih =>
      intro v hnone
      have hp := hnone prio List.mem_cons_self
      rw [missVars, ih fun p hp => hnone p (List.mem_cons_of_mem _ hp)]
      by_cases hex : P.hasQueue m node prio = true
      · have hq : ¬ queuePending P m node prio = true := by
          intro hq
          rw [isPending, hex, hq] at hp
          exact absurd hp (by decide)
        simp only [if_pos hex, if_neg hq]
      · rw [if_neg hex]

theorem missVars_cmd {q : Nat} (hpend : isPending P m node q = true) :
    ∀ {prios : List Nat} {v : ScanVars}, prios.Pairwise (· > ·) → q ∈ prios →
      (∀ p ∈ prios, p < q → isPending P m node p = false) →
      (missVars P m node prios v).cmd = some (readElem P m node q) := by
  intro prios
  induction prios with
  | nil => intro v _ hq; exact absurd hq (by simp)
  | cons prio prios ih =>
      intro v hdesc hq hbelow
      obtain ⟨hhead, hdesc⟩ := List.pairwise_cons.mp hdesc
      rcases List.mem_cons.mp hq with rfl | hq
      · obtain ⟨hex, hp⟩ := Bool.and_eq_true_iff.mp hpend
        rw [missVars, missVars_cmd_none fun p hp => hbelow p (List.mem_cons_of_mem _ hp) (hhead p hp)]
        simp only [if_pos hex, if_pos hp]
      · rw [missVars]
        exact ih hdesc hq fun p hp => hbelow p (List.mem_cons_of_mem _ hp)

theorem missVars_rdPrio {e : Nat} (hex : P.hasQueue m node e = true) :
    ∀ {prios : List Nat} {v : ScanVars}, prios.Pairwise (· > ·) → e ∈ prios →
      (∀ p ∈ prios, p < e → P.hasQueue m node p = false) →
      (missVars P m node prios v).rdPrio = e := by
  have hlow : ∀ {prios : List Nat} {v : ScanVars},
      (∀ p ∈ prios, P.hasQueue m node p = false) → missVars P m node prios v = v := by
    intro prios
    induction prios with
    | nil => intro v _; rfl
    | cons prio prios ih =>
        intro v hnone
        rw [missVars, ih fun p hp => hnone p (List.mem_cons_of_mem _ hp),
          hnone prio List.mem_cons_self]
        rfl
  intro prios
  induction prios with
  | nil => intro v _ he; exact absurd he (by simp)
  | cons prio prios ih =>
      intro v hdesc he hbelow
      obtain ⟨hhead, hdesc⟩ := List.pairwise_cons.mp hdesc
      rcases List.mem_cons.mp he with rfl | he
      · rw [missVars, hlow fun p hp => hbelow p (List.mem_cons_of_mem _ hp) (hhead p hp), if_pos hex]
      · rw [missVars]
        exact ih hdesc he fun p hp => hbelow p (List.mem_cons_of_mem _ hp)

end Scan

end DataMaster
