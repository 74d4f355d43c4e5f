import BelProjects.ScheduleCompare.ReplaceChain
import BelProjects.Library.Contraction
import Mathlib.Logic.Relation

/-!
# The search of a chain

The search backwards visits a vertex at most once, and so does the collection of a chain.  What
is collected is a path that is entered only at its first vertex and left only at its last one.
-/

namespace ScheduleCompare

open AdjacencyList

/-- With blocks separated, only vertices of one type are neighbours in a chain. -/
def SameKind (config : ChainConfig) (g : ChainGraph) (u v : Nat) : Prop :=
  config.blocksSeparated = true → (vertexAt g u).member .type = (vertexAt g v).member .type

/-- The vertices `u` and `v` are the start of a chain, or are within one.  A cycle of two
vertices is none. -/
def Replaceable (config : ChainConfig) (g : ChainGraph) (u v : Nat) : Prop :=
  successorInChain config g u = some v ∧ predecessorInChain config g u ≠ some v ∧
    g.inDegree u ≤ 1 ∧ g.inDegree v ≤ 1 ∧ g.outDegree v ≤ 1

section Search

variable {config : ChainConfig} {g : ChainGraph} {u v w x y : Nat}

theorem SameKind.symm (h : SameKind config g u v) : SameKind config g v u :=
  fun hon => (h hon).symm

theorem SameKind.trans (h : SameKind config g u v) (h' : SameKind config g v w) :
    SameKind config g u w :=
  fun hon => (h hon).trans (h' hon)

theorem successor_iff {inChain : Bool} : successor config g u inChain = some v ↔
    (∃ b, g.outEdges u = [(u, v, b)]) ∧ (inChain = true → SameKind config g u v) := by
  unfold successor SameKind
  constructor
  · intro h
    split at h
    · rename_i source target b hout
      have hsource : source = u :=
        (mem_outEdges.mp (hout ▸ List.mem_singleton_self _ : (source, target, b) ∈ g.outEdges u)).2
      by_cases hon : config.blocksSeparated = true ∧ inChain = true
      · simp only [hon, Bool.and_true, if_true, Option.ite_none_right_eq_some, Option.some.injEq] at h
        exact ⟨⟨b, by rw [hout, hsource, h.2]⟩, fun _ _ => h.2 ▸ h.1⟩
      · rw [if_neg (by rwa [Bool.and_eq_true]), Option.some.injEq] at h
        exact ⟨⟨b, by rw [hout, hsource, h]⟩, fun hchain hblocks => absurd ⟨hblocks, hchain⟩ hon⟩
    · cases h
  · rintro ⟨⟨b, hb⟩, htype⟩
    simp only [hb, Bool.and_eq_true]
    split
    · rename_i hon
      rw [if_pos (htype hon.2 hon.1)]
    · rfl

theorem predecessor_iff {inChain : Bool} : predecessor config g v inChain = some u ↔
    (∃ b, g.inEdges v = [(u, v, b)]) ∧ (inChain = true → SameKind config g v u) := by
  unfold predecessor SameKind
  constructor
  · intro h
    split at h
    · rename_i source target b hin
      have htarget : target = v :=
        (mem_inEdges.mp (hin ▸ List.mem_singleton_self _ : (source, target, b) ∈ g.inEdges v)).2
      by_cases hon : config.blocksSeparated = true ∧ inChain = true
      · simp only [hon, Bool.and_true, if_true, Option.ite_none_right_eq_some, Option.some.injEq] at h
        exact ⟨⟨b, by rw [hin, htarget, h.2]⟩, fun _ _ => h.2 ▸ h.1⟩
      · rw [if_neg (by rwa [Bool.and_eq_true]), Option.some.injEq] at h
        exact ⟨⟨b, by rw [hin, htarget, h]⟩, fun hchain hblocks => absurd ⟨hblocks, hchain⟩ hon⟩
    · cases h
  · rintro ⟨⟨b, hb⟩, htype⟩
    simp only [hb, Bool.and_eq_true]
    split
    · rename_i hon
      rw [if_pos (htype hon.2 hon.1)]
    · rfl

/-- The vertices that the search visits, the last one first. -/
structure Visited (config : ChainConfig) (g : ChainGraph) (first v : Nat) (path : List Nat) :
    Prop where
  head : path.head? = some v
  last : path.getLast? = some first
  nodup : path.Nodup
  range : ∀ u ∈ path, u < g.order
  linked : ∀ e ∈ links path, successorInChain config g e.1 = some e.2

theorem anySuccessor_iff : anySuccessor config g u = some v ↔ ∃ b, g.outEdges u = [(u, v, b)] :=
  successor_iff.trans (by simp)

theorem successorInChain_iff : successorInChain config g u = some v ↔
    (∃ b, g.outEdges u = [(u, v, b)]) ∧ SameKind config g u v :=
  successor_iff.trans (by simp)

theorem anyPredecessor_iff :
    anyPredecessor config g v = some u ↔ ∃ b, g.inEdges v = [(u, v, b)] :=
  predecessor_iff.trans (by simp)

theorem predecessorInChain_iff : predecessorInChain config g v = some u ↔
    (∃ b, g.inEdges v = [(u, v, b)]) ∧ SameKind config g v u :=
  predecessor_iff.trans (by simp)

def Step (config : ChainConfig) (g : ChainGraph) (u v : Nat) : Prop :=
  successorInChain config g u = some v ∧ g.inDegree v = 1 ∧ g.outDegree v ≤ 1

def NoneBefore (config : ChainConfig) (g : ChainGraph) (v : Nat) : Prop :=
  ∀ p, predecessorInChain config g v = some p → ¬ (g.inDegree p ≤ 1 ∧ g.outDegree p ≤ 1)

/-- The search at `v` ends with `start`.  In a cycle it goes back to `v`. -/
def StartOf (config : ChainConfig) (g : ChainGraph) (v start : Nat) : Prop :=
  Relation.ReflTransGen (Step config g) start v ∧
    (Relation.TransGen (Step config g) start start → start = v)

/-- The vertex `v` is in a chain that can be replaced. -/
def Chained (config : ChainConfig) (g : ChainGraph) (v : Nat) : Prop :=
  ∃ u, Replaceable config g u v ∨ Replaceable config g v u

structure IsStart (config : ChainConfig) (g : ChainGraph) (start : Nat) : Prop where
  range : start < g.order
  entered : g.inDegree start ≤ 1
  left : g.outDegree start = 1
  /-- The start is not in a cycle of two vertices. -/
  single : ∀ s, successorInChain config g start = some s → g.inDegree s ≤ 1 →
    g.outDegree s ≤ 1 → predecessorInChain config g start ≠ some s
  /-- Only in a cycle is there a chain vertex before the start. -/
  top : NoneBefore config g start ∨ Relation.TransGen (Step config g) start start

theorem outDegree_of_successor (h : successorInChain config g u = some v) : g.outDegree u = 1 := by
  obtain ⟨⟨b, hb⟩, -⟩ := successorInChain_iff.mp h
  rw [outDegree, hb]
  rfl

theorem inDegree_of_predecessor (h : predecessorInChain config g v = some u) :
    g.inDegree v = 1 := by
  obtain ⟨⟨b, hb⟩, -⟩ := predecessorInChain_iff.mp h
  rw [inDegree, hb]
  rfl

theorem predecessor_of_successor (h : successorInChain config g u = some v)
    (hin : g.inDegree v ≤ 1) : predecessorInChain config g v = some u := by
  obtain ⟨⟨b, hb⟩, hkind⟩ := successorInChain_iff.mp h
  have hedge := (mem_outEdges.mp (hb ▸ List.mem_singleton_self _ : (u, v, b) ∈ g.outEdges u)).1
  exact predecessorInChain_iff.mpr ⟨⟨b, inEdges_of_mem hin hedge⟩, hkind.symm⟩

theorem successor_of_predecessor (h : predecessorInChain config g v = some u)
    (hout : g.outDegree u ≤ 1) : successorInChain config g u = some v := by
  obtain ⟨⟨b, hb⟩, hkind⟩ := predecessorInChain_iff.mp h
  have hedge := (mem_inEdges.mp (hb ▸ List.mem_singleton_self _ : (u, v, b) ∈ g.inEdges v)).1
  exact successorInChain_iff.mpr ⟨⟨b, outEdges_of_mem hout hedge⟩, hkind.symm⟩

theorem lt_order_of_predecessor (hwf : g.WellFormed) (h : predecessorInChain config g v = some u) :
    u < g.order := by
  obtain ⟨⟨b, hb⟩, -⟩ := predecessorInChain_iff.mp h
  exact (hwf _ (mem_inEdges.mp (hb ▸ List.mem_singleton_self _ :
    (u, v, b) ∈ g.inEdges v)).1).1

theorem lt_order_of_successor (hwf : g.WellFormed) (h : successorInChain config g u = some v) :
    v < g.order := by
  obtain ⟨⟨b, hb⟩, -⟩ := successorInChain_iff.mp h
  exact (hwf _ (mem_outEdges.mp (hb ▸ List.mem_singleton_self _ :
    (u, v, b) ∈ g.outEdges u)).1).2

/-! ### The search backwards -/

theorem Visited.length_le {first : Nat} {path : List Nat}
    (h : Visited config g first v path) : path.length ≤ g.order := by
  have hsub := (h.nodup.subperm fun u hu => List.mem_range.mpr (h.range u hu)).length_le
  rwa [List.length_range] at hsub

theorem Visited.step (hwf : g.WellFormed) {first p : Nat} {path : List Nat}
    (h : Visited config g first v path) (hp : predecessorInChain config g v = some p)
    (hout : g.outDegree p ≤ 1) (hfirst : p ≠ first) : Visited config g first p (p :: path) := by
  have hsucc := successor_of_predecessor hp hout
  obtain ⟨l, rfl⟩ := List.head?_eq_some_iff.mp h.head
  have hnew : p ∉ v :: l := by
    intro hmem
    rcases link_of_ne_last hmem with hlast | ⟨y, hy⟩
    · exact hfirst (Option.some.inj (hlast.symm.trans h.last))
    · have hyv : y = v := Option.some.inj ((h.linked _ hy).symm.trans hsucc)
      exact link_snd_ne_head h.nodup h.head hy hyv
  refine ⟨rfl, ?_, List.nodup_cons.mpr ⟨hnew, h.nodup⟩, fun u hu => ?_, fun e he => ?_⟩
  · rw [List.getLast?_cons_cons]
    exact h.last
  · rcases List.mem_cons.mp hu with rfl | hu
    · exact lt_order_of_predecessor hwf hp
    · exact h.range u hu
  · rcases List.mem_cons.mp he with rfl | he
    · exact hsucc
    · exact h.linked e he

theorem breaksAt_iff : breaksAt config g u = true ↔
    ∃ s, successorInChain config g u = some s ∧ g.inDegree s ≤ 1 ∧ g.outDegree s ≤ 1 := by
  unfold breaksAt
  constructor
  · intro h
    split at h
    · rename_i s hs
      exact ⟨s, hs, of_decide_eq_true h⟩
    · cases h
  · rintro ⟨s, hs, hdegree⟩
    simp only [hs, decide_eq_true_eq]
    exact hdegree

theorem Replaceable.breaksAt (h : Replaceable config g u v) : breaksAt config g u = true :=
  breaksAt_iff.mpr ⟨v, h.1, h.2.2.2⟩

theorem Replaceable.step (h : Replaceable config g u v) : Step config g u v :=
  ⟨h.1, inDegree_of_predecessor (predecessor_of_successor h.1 h.2.2.2.1), h.2.2.2.2⟩

theorem Replaceable.isStart (h : Replaceable config g u v) (hu : u < g.order)
    (htop : NoneBefore config g u ∨ Relation.TransGen (Step config g) u u) :
    IsStart config g u where
  range := hu
  entered := h.2.2.1
  left := outDegree_of_successor h.1
  single s hs _ _ := by
    rw [← Option.some.inj (h.1.symm.trans hs)]
    exact h.2.1
  top := htop

theorem predecessor_of_step (h : Step config g u v) : predecessorInChain config g v = some u :=
  predecessor_of_successor h.1 (Nat.le_of_eq h.2.1)

/-- The vertex before the end of a walk is a chain vertex. -/
theorem step_of_closed (h : Relation.TransGen (Step config g) u v) (hu : g.inDegree u ≤ 1) :
    ∃ p, Relation.ReflTransGen (Step config g) u p ∧ Step config g p v ∧ g.inDegree p ≤ 1 ∧
      g.outDegree p ≤ 1 := by
  obtain ⟨p, hp, hlast⟩ := Relation.TransGen.tail'_iff.mp h
  refine ⟨p, hp, hlast, ?_, Nat.le_of_eq (outDegree_of_successor hlast.1)⟩
  rcases Relation.ReflTransGen.cases_tail hp with rfl | ⟨q, -, hq⟩
  · exact hu
  · exact Nat.le_of_eq hq.2.1

theorem NoneBefore.not_closed (h : NoneBefore config g v) (hv : g.inDegree v ≤ 1) :
    ¬ Relation.TransGen (Step config g) v v := by
  intro hclosed
  obtain ⟨p, -, hlast, hinner⟩ := step_of_closed hclosed hv
  exact h p (predecessor_of_step hlast) hinner

theorem NoneBefore.startOf (h : NoneBefore config g u) (hu : g.inDegree u ≤ 1)
    (hreach : Relation.ReflTransGen (Step config g) u v) : StartOf config g v u :=
  ⟨hreach, fun hclosed => absurd hclosed (h.not_closed hu)⟩

theorem IsStart.cycle {start p : Nat} (h : IsStart config g start)
    (hp : predecessorInChain config g start = some p) (hin : g.inDegree p ≤ 1)
    (hout : g.outDegree p ≤ 1) : Relation.ReflTransGen (Step config g) start p := by
  have hclosed := h.top.resolve_left fun hnone => hnone p hp ⟨hin, hout⟩
  obtain ⟨q, hq, hlast, -⟩ := step_of_closed hclosed h.entered
  rw [Option.some.inj (hp.symm.trans (predecessor_of_step hlast))]
  exact hq

/-- Behind two vertices of a chain the search backwards finds its start. -/
theorem getStartOfChain_breaks (hwf : g.WellFormed) {first : Nat} {l : List Nat} (fuel : Nat)
    (hvisited : Visited config g first v (v :: l)) (hnext : Replaceable config g v w)
    (hback : Relation.TransGen (Step config g) v first)
    (hfuel : g.order < fuel + (v :: l).length) : ∃ start,
      getStartOfChain config g first fuel v = some (some start) ∧ IsStart config g start ∧
        breaksAt config g start = true ∧ StartOf config g first start := by
  induction fuel generalizing v w l with
  | zero =>
    have hlength := hvisited.length_le
    omega
  | succ fuel ih =>
    have hout := outDegree_of_successor hnext.1
    have hbreaks := hnext.breaksAt
    have hv : NoneBefore config g v → IsStart config g v ∧ breaksAt config g v = true ∧
        StartOf config g first v := fun hnone =>
      ⟨hnext.isStart (hvisited.range v List.mem_cons_self) (Or.inl hnone), hbreaks,
        hnone.startOf hnext.2.2.1 hback.to_reflTransGen⟩
    rcases Nat.le_one_iff_eq_zero_or_eq_one.mp hnext.2.2.1 with hin | hin
    · refine ⟨v, by simp [getStartOfChain, hin, hout], hv fun p hp _ => ?_⟩
      exact absurd (hin.symm.trans (inDegree_of_predecessor hp)) Nat.zero_ne_one
    · cases hpred : predecessorInChain config g v with
      | none =>
        refine ⟨v, by simp [getStartOfChain, hin, hout, hpred], hv fun p hp _ => ?_⟩
        cases hpred.symm.trans hp
      | some p =>
        have hcycle : predecessorInChain config g p ≠ some v := by
          intro hback
          have hsucc := successor_of_predecessor hback (Nat.le_of_eq hout)
          exact hnext.2.1 (hpred.trans (hsucc.symm.trans hnext.1))
        by_cases hp : g.inDegree p ≤ 1 ∧ g.outDegree p = 1
        · have hsucc := successor_of_predecessor hpred (Nat.le_of_eq hp.2)
          have hbefore : Replaceable config g p v :=
            ⟨hsucc, hcycle, hp.1, Nat.le_of_eq hin, Nat.le_of_eq hout⟩
          by_cases hfirst : p = first
          · -- the search went once around the cycle
            subst hfirst
            have hclosed := Relation.TransGen.head hbefore.step hback
            exact ⟨p, by simp [getStartOfChain, hin, hout, hpred, hcycle, hp],
              hbefore.isStart (lt_order_of_predecessor hwf hpred) (Or.inr hclosed),
              hbefore.breaksAt, Relation.ReflTransGen.refl, fun _ => rfl⟩
          · obtain ⟨start, hstart, hrest⟩ := ih
              (hvisited.step hwf hpred (Nat.le_of_eq hp.2) hfirst) hbefore
              (Relation.TransGen.head hbefore.step hback) (by rw [List.length_cons]; omega)
            exact ⟨start, by simp [getStartOfChain, hin, hout, hpred, hcycle, hp, hfirst, hstart],
              hrest⟩
        · refine ⟨v, by simp [getStartOfChain, hin, hout, hpred, hcycle, hp],
            hv fun q hq hinner => ?_⟩
          obtain rfl := Option.some.inj (hpred.symm.trans hq)
          exact hp ⟨hinner.1, outDegree_of_successor (successor_of_predecessor hpred hinner.2)⟩

theorem Replaceable.predecessor (h : Replaceable config g u v) :
    predecessorInChain config g v = some u ∧ g.inDegree u ≤ 1 ∧ g.outDegree u = 1 ∧
      g.inDegree v = 1 ∧ g.outDegree v ≤ 1 :=
  have hpred := predecessor_of_successor h.1 h.2.2.2.1
  ⟨hpred, h.2.2.1, outDegree_of_successor h.1, inDegree_of_predecessor hpred, h.2.2.2.2⟩

structure FoundFrom (config : ChainConfig) (g : ChainGraph) (v : Nat) (r : Option Nat) : Prop where
  isStart : ∀ start, r = some start → IsStart config g start
  found : Chained config g v → ∃ start, r = some start ∧ breaksAt config g start = true
  startOf : ∀ start, r = some start → breaksAt config g start = true →
    Chained config g v ∧ StartOf config g v start

theorem FoundFrom.none (h : ¬ Chained config g v) : FoundFrom config g v none :=
  ⟨fun _ heq => (nomatch heq), fun hv => absurd hv h, fun _ heq => (nomatch heq)⟩

theorem FoundFrom.self (h : ∀ u, ¬ Replaceable config g u v) (hv : IsStart config g v)
    (hnone : NoneBefore config g v) : FoundFrom config g v (some v) := by
  refine ⟨fun _ heq => Option.some.inj heq ▸ hv, fun hchained => ?_, fun start heq hbreaks => ?_⟩
  · obtain ⟨u, hu | hu⟩ := hchained
    · exact absurd hu (h u)
    · exact ⟨v, rfl, hu.breaksAt⟩
  · obtain rfl := Option.some.inj heq
    obtain ⟨s, hs, hin, hout⟩ := breaksAt_iff.mp hbreaks
    exact ⟨⟨s, Or.inr ⟨hs, hv.single s hs hin hout, hv.entered, hin, hout⟩⟩,
      hnone.startOf hv.entered Relation.ReflTransGen.refl⟩

theorem FoundFrom.back {start : Nat} (hv : Replaceable config g u v)
    (h : IsStart config g start ∧ breaksAt config g start = true ∧ StartOf config g v start) :
    FoundFrom config g v (some start) :=
  ⟨fun _ heq => Option.some.inj heq ▸ h.1, fun _ => ⟨start, rfl, h.2.1⟩,
    fun _ heq _ => ⟨⟨u, Or.inl hv⟩, Option.some.inj heq ▸ h.2.2⟩⟩

theorem not_chained (hfirst : ∀ u, ¬ Replaceable config g v u)
    (hsecond : ∀ u, ¬ Replaceable config g u v) : ¬ Chained config g v := by
  rintro ⟨u, hu | hu⟩
  · exact hsecond u hu
  · exact hfirst u hu

theorem getStartOfChain_spec (config : ChainConfig) (hwf : g.WellFormed) (hv : v < g.order) :
    ∃ r, getStartOfChain config g v (g.order + 1) v = some r ∧ FoundFrom config g v r := by
  have hvisited : Visited config g v v [v] :=
    ⟨rfl, rfl, List.nodup_singleton v, fun u hu => List.mem_singleton.mp hu ▸ hv,
      fun e he => absurd he (by simp [links])⟩
  have hopen : g.outDegree v ≠ 1 → ∀ u, ¬ Replaceable config g v u := fun hout u hu =>
    hout (outDegree_of_successor hu.1)
  by_cases hin : g.inDegree v = 1
  · cases hpred : predecessorInChain config g v with
    | none =>
      have hnone : ∀ u, ¬ Replaceable config g u v := fun u hu =>
        absurd (hpred.symm.trans hu.predecessor.1) (Option.some_ne_none u).symm
      have hbefore : NoneBefore config g v := by
        intro p hp
        cases hpred.symm.trans hp
      by_cases hout : g.outDegree v = 1
      · refine ⟨some v, by simp [getStartOfChain, hin, hout, hpred], FoundFrom.self hnone
          ⟨hv, Nat.le_of_eq hin, hout, fun s _ _ _ hs => ?_, Or.inl hbefore⟩ hbefore⟩
        cases hpred.symm.trans hs
      · have hnot := not_chained (hopen hout) hnone
        by_cases hzero : g.outDegree v = 0
        · exact ⟨none, by simp [getStartOfChain, hin, hzero, hpred], FoundFrom.none hnot⟩
        · exact ⟨none, by simp [getStartOfChain, hin, hout, hzero], FoundFrom.none hnot⟩
    | some p =>
      have hout1 : g.outDegree p ≤ 1 → g.outDegree p = 1 := fun hle =>
        outDegree_of_successor (successor_of_predecessor hpred hle)
      have hnone : ¬ (g.inDegree p ≤ 1 ∧ g.outDegree p ≤ 1) → ∀ u, ¬ Replaceable config g u v := by
        intro hp u hu
        obtain ⟨hu', hin', hout', -⟩ := hu.predecessor
        obtain rfl := Option.some.inj (hpred.symm.trans hu')
        exact hp ⟨hin', Nat.le_of_eq hout'⟩
      by_cases hout : g.outDegree v = 1
      · by_cases hcycle : predecessorInChain config g p = some v
        · refine ⟨none, by simp [getStartOfChain, hin, hout, hpred, hcycle],
            FoundFrom.none (not_chained (fun u hu => ?_) fun u hu => ?_)⟩
          · have hsucc := successor_of_predecessor hcycle (Nat.le_of_eq hout)
            exact hu.2.1 (Option.some.inj (hsucc.symm.trans hu.1) ▸ hpred)
          · obtain rfl := Option.some.inj (hpred.symm.trans hu.predecessor.1)
            exact hu.2.1 hcycle
        · have hpv : p ≠ v := by
            rintro rfl
            exact hcycle hpred
          by_cases hp : g.inDegree p ≤ 1 ∧ g.outDegree p ≤ 1
          · have hp1 := hout1 hp.2
            have hsucc := successor_of_predecessor hpred hp.2
            have hbefore : Replaceable config g p v :=
              ⟨hsucc, hcycle, hp.1, Nat.le_of_eq hin, Nat.le_of_eq hout⟩
            obtain ⟨start, hstart, hfound⟩ := getStartOfChain_breaks hwf g.order
              (hvisited.step hwf hpred hp.2 hpv) hbefore (Relation.TransGen.single hbefore.step)
              (by simp)
            exact ⟨some start,
              by simp [getStartOfChain, hin, hout, hpred, hcycle, hp.1, hp1, hpv, hstart],
              FoundFrom.back hbefore hfound⟩
          · have hp' : ¬ (g.inDegree p ≤ 1 ∧ g.outDegree p = 1) := fun hboth =>
              hp ⟨hboth.1, Nat.le_of_eq hboth.2⟩
            have hbefore : NoneBefore config g v := fun q hq hinner =>
              hp (Option.some.inj (hpred.symm.trans hq) ▸ hinner)
            refine ⟨some v, by simp [getStartOfChain, hin, hout, hpred, hcycle, hp'],
              FoundFrom.self (hnone hp)
                ⟨hv, Nat.le_of_eq hin, hout, fun s _ hins houts hs => ?_, Or.inl hbefore⟩ hbefore⟩
            exact hbefore s hs ⟨hins, houts⟩
      · by_cases hzero : g.outDegree v = 0
        · by_cases hp : g.inDegree p ≤ 1 ∧ g.outDegree p ≤ 1
          · have hsucc := successor_of_predecessor hpred hp.2
            have hpv : p ≠ v := by
              rintro rfl
              exact hout (hout1 hp.2)
            have hcycle : predecessorInChain config g p ≠ some v := fun hback =>
              hout (outDegree_of_successor
                (successor_of_predecessor hback (hzero ▸ Nat.zero_le 1)))
            have hbefore : Replaceable config g p v :=
              ⟨hsucc, hcycle, hp.1, Nat.le_of_eq hin, hzero ▸ Nat.zero_le 1⟩
            obtain ⟨start, hstart, hfound⟩ := getStartOfChain_breaks hwf g.order
              (hvisited.step hwf hpred hp.2 hpv) hbefore (Relation.TransGen.single hbefore.step)
              (by simp)
            exact ⟨some start, by simp [getStartOfChain, hin, hzero, hpred, hp, hstart],
              FoundFrom.back hbefore hfound⟩
          · exact ⟨none, by simp [getStartOfChain, hin, hzero, hpred, hp],
              FoundFrom.none (not_chained (hopen hout) (hnone hp))⟩
        · refine ⟨none, by simp [getStartOfChain, hin, hout, hzero],
            FoundFrom.none (not_chained (hopen hout) fun u hu => ?_)⟩
          exact absurd hu.predecessor.2.2.2.2 (by omega)
  · have hnone : ∀ u, ¬ Replaceable config g u v := fun u hu => hin hu.predecessor.2.2.2.1
    by_cases hstart : g.inDegree v = 0 ∧ g.outDegree v = 1
    · have hbefore : NoneBefore config g v := fun p hp =>
        absurd (inDegree_of_predecessor hp) hin
      refine ⟨some v, by simp [getStartOfChain, hstart], FoundFrom.self hnone
        ⟨hv, hstart.1 ▸ Nat.zero_le 1, hstart.2, fun s _ _ _ hs => ?_, Or.inl hbefore⟩ hbefore⟩
      exact hin (inDegree_of_predecessor hs)
    · have hopen' : ∀ u, ¬ Replaceable config g v u := by
        intro u hu
        have hle := hu.2.2.1
        exact hstart ⟨by omega, outDegree_of_successor hu.1⟩
      refine ⟨none, ?_, FoundFrom.none (not_chained hopen' hnone)⟩
      simp only [getStartOfChain, hin, false_and, if_false, hstart]
      split <;> rfl

/-- The chain of the lowest vertex that is in a chain starts at `start`. -/
def FirstFound (config : ChainConfig) (g : ChainGraph) (start : Nat) : Prop :=
  ∃ v < g.order, Chained config g v ∧ (∀ u < v, ¬ Chained config g u) ∧ StartOf config g v start

theorem findStartOfChain_spec (config : ChainConfig) (hwf : g.WellFormed) :
    ∃ r, findStartOfChain config g = some r ∧
      (∀ start, r = some start → IsStart config g start) ∧
      (∀ start, r = some start → breaksAt config g start = true → FirstFound config g start) ∧
      ∀ v < g.order, Chained config g v → ∃ start, r = some start ∧
        breaksAt config g start = true := by
  have hloop : ∀ (n k : Nat), k + n = g.order → (∀ u < k, ¬ Chained config g u) →
      ∀ r₀ : Option Nat, (∀ start, r₀ = some start → IsStart config g start) →
      (∀ start, r₀ = some start → breaksAt config g start = false) → ∃ r,
        findStartLoop config g (List.range' k n) r₀ = some r ∧
          (∀ start, r = some start → IsStart config g start) ∧
          (∀ start, r = some start → breaksAt config g start = true →
            FirstFound config g start) ∧
          ∀ v < g.order, Chained config g v → ∃ start, r = some start ∧
            breaksAt config g start = true := by
    intro n
    induction n with
    | zero =>
      intro k hk hlow r₀ hstart hbreaks
      refine ⟨r₀, rfl, hstart, fun start heq hb => ?_, fun v hv hchained => ?_⟩
      · rw [hbreaks start heq] at hb
        cases hb
      · exact absurd hchained (hlow v (by omega))
    | succ n ih =>
      intro k hk hlow r₀ _ _
      obtain ⟨r, hr, hfound⟩ :=
        getStartOfChain_spec config hwf (show k < g.order by omega)
      rw [List.range'_succ]
      by_cases hchained : Chained config g k
      · obtain ⟨start, rfl, hb⟩ := hfound.found hchained
        refine ⟨some start, by simp [findStartLoop, hr, hb], hfound.isStart, fun _ heq _ => ?_,
          fun _ _ _ => ⟨start, rfl, hb⟩⟩
        exact Option.some.inj heq ▸
          ⟨k, by omega, hchained, hlow, (hfound.startOf start rfl hb).2⟩
      · have hnone : ∀ start, r = some start → breaksAt config g start = false := by
          intro start heq
          rw [← Bool.not_eq_true]
          exact fun hb => hchained (hfound.startOf start heq hb).1
        obtain ⟨r', hr', hrest⟩ := ih (k + 1) (by omega) (fun u hu => by
          rcases Nat.lt_succ_iff_lt_or_eq.mp hu with hlt | rfl
          · exact hlow u hlt
          · exact hchained) r hfound.isStart hnone
        refine ⟨r', ?_, hrest⟩
        cases r with
        | none => simpa [findStartLoop, hr] using hr'
        | some start => simpa [findStartLoop, hr, hnone start rfl] using hr'
  obtain ⟨r, hr, hrest⟩ := hloop g.order 0 (Nat.zero_add _) (fun u hu => absurd hu (Nat.not_lt_zero u))
    none (fun _ heq => nomatch heq) (fun _ heq => nomatch heq)
  refine ⟨r, ?_, hrest⟩
  rw [findStartOfChain, List.range_eq_range']
  exact hr

/-! ### The collection of a chain -/

structure Collecting (config : ChainConfig) (g : ChainGraph) (start : Nat) (c : List Nat) :
    Prop where
  head : c.head? = some start
  nodup : c.Nodup
  range : ∀ v ∈ c, v < g.order
  linked : ∀ e ∈ links c, successorInChain config g e.1 = some e.2 ∧
    g.inDegree e.2 = 1 ∧ g.outDegree e.2 ≤ 1
  notClosed : ∀ l, c.getLast? = some l → successorInChain config g l ≠ some start

/-- The vertex that goes into the chain next. -/
def Extends (config : ChainConfig) (g : ChainGraph) (start : Nat) (c : List Nat) (v : Nat) : Prop :=
  v ∉ c ∧ g.inDegree v = 1 ∧ g.outDegree v ≤ 1 ∧ successorInChain config g v ≠ some start

/-- The collection stops when no vertex goes into the chain. -/
def Complete (config : ChainConfig) (g : ChainGraph) (start : Nat) (c : List Nat) : Prop :=
  ∀ l v, c.getLast? = some l → successorInChain config g l = some v → ¬ Extends config g start c v

theorem links_concat {γ : Type*} {c : List γ} {l v : γ} (hlast : c.getLast? = some l) :
    links (c ++ [v]) = links c ++ [(l, v)] :=
  links_append hlast rfl

theorem Collecting.length_le {start : Nat} {c : List Nat} (h : Collecting config g start c) :
    c.length ≤ g.order := by
  have hsub := (h.nodup.subperm fun u hu => List.mem_range.mpr (h.range u hu)).length_le
  rwa [List.length_range] at hsub

theorem Collecting.concat (hwf : g.WellFormed) {start l : Nat} {c : List Nat}
    (h : Collecting config g start c) (hlast : c.getLast? = some l)
    (hnext : successorInChain config g l = some v) (hv : Extends config g start c v) :
    Collecting config g start (c ++ [v]) where
  head := by
    rw [List.head?_append, h.head]
    rfl
  nodup := by
    refine List.Nodup.append h.nodup (List.nodup_singleton v) fun u hu hu' => ?_
    exact hv.1 (List.mem_singleton.mp hu' ▸ hu)
  range u hu := by
    rcases List.mem_append.mp hu with hu | hu
    · exact h.range u hu
    · exact List.mem_singleton.mp hu ▸ lt_order_of_successor hwf hnext
  linked e he := by
    rw [links_concat hlast] at he
    rcases List.mem_append.mp he with he | he
    · exact h.linked e he
    · rw [List.mem_singleton.mp he]
      exact ⟨hnext, hv.2.1, hv.2.2.1⟩
  notClosed l' hl' := by
    rw [List.getLast?_concat] at hl'
    exact Option.some.inj hl' ▸ hv.2.2.2

/-- A collection that is under way ends. -/
theorem checkToReplace_collects (hwf : g.WellFormed) {start l : Nat} {c : Collected} (fuel : Nat)
    (hc : Collecting config g start c.chain) (hlast : c.chain.getLast? = some l)
    (hnext : successorInChain config g l = some v) (hfuel : g.order < fuel + c.chain.length) :
    ∃ c', checkToReplace config g start fuel v c = some c' ∧
      Collecting config g start c'.chain ∧ Complete config g start c'.chain := by
  induction fuel generalizing v l c with
  | zero =>
    have hlength := hc.length_le
    omega
  | succ fuel ih =>
    have hnil : c.chain ≠ [] := by
      intro hnil
      rw [hnil] at hlast
      cases hlast
    have hstop : ¬ Extends config g start c.chain v → Complete config g start c.chain := by
      intro hv l' v' hl' hv'
      obtain rfl := Option.some.inj (hlast.symm.trans hl')
      exact Option.some.inj (hnext.symm.trans hv') ▸ hv
    by_cases hv : v ∉ c.chain ∧ g.inDegree v = 1 ∧ g.outDegree v ≤ 1
    · cases hsucc : successorInChain config g v with
      | none =>
        have hextends : Extends config g start c.chain v :=
          ⟨hv.1, hv.2.1, hv.2.2, by rw [hsucc]; exact nofun⟩
        have hconcat := hc.concat hwf hlast hnext hextends
        have hcomplete : Complete config g start (c.chain ++ [v]) := by
          intro l' v' hl' hv'
          rw [List.getLast?_concat] at hl'
          rw [← Option.some.inj hl', hsucc] at hv'
          cases hv'
        rw [checkToReplace, if_neg hnil, if_pos hv, hsucc]
        exact ⟨_, rfl, hconcat, hcomplete⟩
      | some s =>
        by_cases hs : s = start
        · subst hs
          have hcomplete := hstop fun hextends => hextends.2.2.2 hsucc
          rw [checkToReplace, if_neg hnil, if_pos hv, hsucc]
          simp only [if_true]
          exact ⟨{ c with result := false }, rfl, hc, hcomplete⟩
        · have hextends : Extends config g start c.chain v := by
            refine ⟨hv.1, hv.2.1, hv.2.2, ?_⟩
            rw [hsucc, ne_eq, Option.some.injEq]
            exact hs
          obtain ⟨c', hc', hrest⟩ := ih
            (c := { c with
              chain := c.chain ++ [v]
              newName := c.newName ++ "\n" ++ (vertexAt g v).member .name
              newLabel := if (vertexAt g v).member .label ≠ "" then
                c.newLabel ++ "\n" ++ (vertexAt g v).member .label else c.newLabel })
            (hc.concat hwf hlast hnext hextends) (List.getLast?_concat) hsucc
            (by rw [List.length_append, List.length_singleton]; omega)
          refine ⟨c', ?_, hrest⟩
          rw [checkToReplace, if_neg hnil, if_pos hv, hsucc]
          simp only [Option.some.injEq, hs, if_false]
          exact hc'
    · have hcomplete := hstop fun hextends => hv ⟨hextends.1, hextends.2.1, hextends.2.2.1⟩
      rw [checkToReplace, if_neg hnil, if_neg hv]
      exact ⟨{ c with result := false }, rfl, hc, hcomplete⟩

theorem checkToReplace_nil {start : Nat} (fuel : Nat) (h : breaksAt config g start = false) :
    ∃ c, checkToReplace config g start (fuel + 1) start {} = some c ∧ c.chain = [] := by
  rw [checkToReplace, if_pos rfl]
  cases hs : successorInChain config g start with
  | none => exact ⟨_, rfl, rfl⟩
  | some s =>
    have hdegree : ¬ (g.inDegree s = 1 ∧ g.outDegree s ≤ 1) := by
      intro hdegree
      rw [breaksAt_iff.mpr ⟨s, hs, Nat.le_of_eq hdegree.1, hdegree.2⟩] at h
      cases h
    simp only [if_neg hdegree]
    exact ⟨_, rfl, rfl⟩

theorem checkToReplace_spec (hwf : g.WellFormed) {start : Nat} (hstart : IsStart config g start)
    (h : breaksAt config g start = true) : ∃ c,
      checkToReplace config g start (g.order + 1) start {} = some c ∧
        Collecting config g start c.chain ∧ Complete config g start c.chain ∧
          2 ≤ c.chain.length := by
  obtain ⟨s, hs, hin, hout⟩ := breaksAt_iff.mp h
  have hpred := predecessor_of_successor hs hin
  have hsingle := hstart.single s hs hin hout
  have hne : s ≠ start := by
    rintro rfl
    exact hsingle hpred
  have hback : successorInChain config g s ≠ some start := fun hback =>
    hsingle (predecessor_of_successor hback hstart.entered)
  have hin := inDegree_of_predecessor hpred
  have hone : Collecting config g start [start] := by
    refine ⟨rfl, List.nodup_singleton _, fun v hv => List.mem_singleton.mp hv ▸ hstart.range,
      fun e he => absurd he (by simp [links]), fun l hl => ?_⟩
    obtain rfl : start = l := Option.some.inj hl
    rw [hs, ne_eq, Option.some.injEq]
    exact hne
  obtain ⟨c, hc, hcollecting, hcomplete⟩ := checkToReplace_collects hwf g.order
    (c := { chain := [start]
            newName := (vertexAt g start).member .name
            newLabel := (vertexAt g start).member .label }) hone rfl hs (by simp)
  refine ⟨c, ?_, hcollecting, hcomplete, ?_⟩
  · rw [checkToReplace, if_pos rfl, hs]
    simp only [hin, hout, and_self, if_true]
    exact hc
  · by_contra hshort
    have hchain : c.chain = [start] := by
      obtain ⟨l, hl⟩ := List.head?_eq_some_iff.mp hcollecting.head
      rw [hl] at hshort ⊢
      cases l with
      | nil => rfl
      | cons u l => exact absurd hshort (by simp)
    refine hcomplete start s (by rw [hchain]; rfl) hs ⟨?_, hin, hout, hback⟩
    rw [hchain, List.mem_singleton]
    exact hne

theorem Collecting.sameKind {start : Nat} {c : List Nat} (h : Collecting config g start c)
    (hv : v ∈ c) : SameKind config g start v := by
  obtain ⟨c, rfl⟩ := List.head?_eq_some_iff.mp h.head
  have hall : ∀ (l : List Nat) (u : Nat), (∀ e ∈ links (u :: l), SameKind config g e.1 e.2) →
      ∀ w ∈ u :: l, SameKind config g u w := by
    intro l
    induction l with
    | nil => exact fun u _ w hw _ => by rw [List.mem_singleton.mp hw]
    | cons u' l ih =>
      intro u hlinks w hw
      rcases List.mem_cons.mp hw with rfl | hw
      · exact fun _ => rfl
      · exact (hlinks (u, u') List.mem_cons_self).trans
          (ih u' (fun e he => hlinks e (List.mem_cons_of_mem _ he)) w hw)
  exact hall c start (fun e he => (successorInChain_iff.mp (h.linked e he).1).2) v hv

theorem Collecting.chain {start : Nat} {c : List Nat} (hstart : IsStart config g start)
    (h : Collecting config g start c) (hlong : 2 ≤ c.length) : Chain g c := by
  -- no edge leads from the last vertex into the chain
  have hlast : ∀ l, c.getLast? = some l → l ≠ start ∧ g.outDegree l ≤ 1 ∧
      ∀ e ∈ g.outEdges l, e.2.1 ∉ c := by
    intro l hl
    have hlc := List.mem_of_getLast? hl
    have hne : l ≠ start := by
      rintro rfl
      obtain ⟨c, rfl⟩ := List.head?_eq_some_iff.mp h.head
      cases c with
      | nil => exact absurd hlong (by simp)
      | cons v c =>
        rw [List.getLast?_cons_cons] at hl
        exact (List.nodup_cons.mp h.nodup).1 (List.mem_of_getLast? hl)
    have hout : g.outDegree l ≤ 1 := by
      rcases link_of_ne_head hlc with hhead | ⟨x, hx⟩
      · exact absurd (Option.some.inj (hhead.symm.trans h.head)) hne
      · exact (h.linked _ hx).2.2
    refine ⟨hne, hout, fun e he htarget => ?_⟩
    obtain ⟨hedge, hsource⟩ := mem_outEdges.mp he
    have hsucc : ∃ b, g.outEdges l = [(l, e.2.1, b)] := by
      subst hsource
      exact ⟨e.2.2, outEdges_of_mem hout hedge⟩
    rcases link_of_ne_head htarget with hhead | ⟨x, hx⟩
    · have hfirst := Option.some.inj (hhead.symm.trans h.head)
      refine h.notClosed l hl (successorInChain_iff.mpr ⟨?_, (h.sameKind hlc).symm⟩)
      exact hfirst ▸ hsucc
    · have hpred := predecessor_of_successor (h.linked _ hx).1 (Nat.le_of_eq (h.linked _ hx).2.1)
      obtain ⟨⟨b, hb⟩, -⟩ := predecessorInChain_iff.mp hpred
      have hmem : e ∈ g.inEdges e.2.1 := mem_inEdges.mpr ⟨hedge, rfl⟩
      rw [hb, List.mem_singleton] at hmem
      have hxl : x = l := by rw [← hsource, hmem]
      exact link_fst_ne_last h.nodup hl hx hxl
  refine ⟨h.nodup, h.range, hlong, fun e he => ?_, fun v hv => ?_, fun v hv => (hlast v hv).2⟩
  · have hlink := h.linked e he
    obtain ⟨⟨b, hb⟩, -⟩ := successorInChain_iff.mp hlink.1
    obtain ⟨⟨b', hb'⟩, -⟩ := predecessorInChain_iff.mp
      (predecessor_of_successor hlink.1 (Nat.le_of_eq hlink.2.1))
    have hmem : (e.1, e.2, b) ∈ g.inEdges e.2 :=
      mem_inEdges.mpr ⟨(mem_outEdges.mp (hb ▸ List.mem_singleton_self _ :
        (e.1, e.2, b) ∈ g.outEdges e.1)).1, rfl⟩
    refine ⟨b, hb, ?_⟩
    rw [hb', List.mem_singleton] at hmem
    rw [hb', hmem]
  · obtain rfl := Option.some.inj (hv.symm.trans h.head)
    refine ⟨hstart.entered, fun e he hsource => ?_⟩
    obtain ⟨hedge, htarget⟩ := mem_inEdges.mp he
    have hout : e ∈ g.outEdges e.1 := mem_outEdges.mpr ⟨hedge, rfl⟩
    rcases link_of_ne_last hsource with hend | ⟨y, hy⟩
    · exact (hlast _ hend).2.2 e hout (htarget ▸ List.mem_of_head? hv)
    · obtain ⟨⟨b, hb⟩, -⟩ := successorInChain_iff.mp (h.linked _ hy).1
      rw [hb, List.mem_singleton] at hout
      have hyv : y = v := by rw [← htarget, hout]
      exact link_snd_ne_head h.nodup hv hy hyv

theorem Complete.closes {start p l : Nat} {c : List Nat} (hcomplete : Complete config g start c)
    (hc : Collecting config g start c) (hlast : c.getLast? = some l)
    (hcycle : Relation.ReflTransGen (Step config g) start p) (hp : p ∉ c) :
    successorInChain config g l = some p := by
  have hreach : p ∈ c ∨
      successorInChain config g l = some p ∧ successorInChain config g p = some start := by
    induction hcycle with
    | refl => exact Or.inl (List.mem_of_head? hc.head)
    | @tail y z _ hstep ih =>
      by_cases hy : y ∈ c
      · rcases link_of_ne_last hy with hend | ⟨z', hz'⟩
        · obtain rfl := Option.some.inj (hend.symm.trans hlast)
          by_cases hz : z ∈ c
          · exact Or.inl hz
          · refine Or.inr ⟨hstep.1, ?_⟩
            by_contra hopen
            exact hcomplete y z hlast hstep.1 ⟨hz, hstep.2.1, hstep.2.2, hopen⟩
        · obtain rfl : z' = z := Option.some.inj ((hc.linked _ hz').1.symm.trans hstep.1)
          exact Or.inl (links_subset hz').2
      · obtain ⟨-, hclosed⟩ := (ih hy).resolve_left hy
        obtain rfl := Option.some.inj (hclosed.symm.trans hstep.1)
        exact Or.inl (List.mem_of_head? hc.head)
  exact (hreach.resolve_left hp).1

end Search

end ScheduleCompare
