import BelProjects.DataMaster.CarpeDM.Tables

/-!
# The neighbourhood check

A table says which edges a node of a type may have, of what type the children at their
ends are, and how many there are at least and at most.  The check looks up the edges that
a node has: it counts them by type and compares each count with the bounds of its rule.
Some constellations that the table admits are refused before: events without children,
meta nodes without parents, an edge drawn twice, and commands to a queue that the target
does not have.
-/

namespace DataMaster

namespace Dot

def NodeData.isEvent : NodeData → Bool
  | .timingMsg .. | .noop .. | .flow .. | .switch .. | .origin .. | .startThread .. | .flush ..
  | .wait .. => true
  | _ => false

def NodeData.isBlock : NodeData → Bool
  | .blockFixed .. | .blockAlign .. => true
  | _ => false

/-- The action word of a command; other nodes are no commands. -/
def NodeData.cmdAct : NodeData → Option Word
  | .noop _ _ act | .flow _ _ act | .wait _ _ act _ => some act
  | .flush _ _ act .. => some act
  | _ => none

end Dot

namespace CarpeDM

/-! ### Rules -/

structure ConstellationRule where
  parent : NodeType
  edge : EdgeType
  children : List NodeType
  min : Nat
  max : Nat
  deriving DecidableEq, Repr

def cNonMeta : List NodeType :=
  [.tmsg, .cnoop, .cflow, .origin, .startthread, .cswitch, .cflush, .cwait, .blockFixed, .blockAlign]

def blockTypes : List NodeType := [.blockFixed, .blockAlign]

def cRules : List ConstellationRule :=
  [⟨.tmsg, .defDst, cNonMeta, 1, 1⟩, ⟨.tmsg, .dynPar0, cNonMeta, 0, 1⟩, ⟨.tmsg, .dynPar1, cNonMeta, 0, 1⟩,
    ⟨.cnoop, .defDst, cNonMeta, 0, 1⟩, ⟨.cnoop, .target, blockTypes, 0, 1⟩,
    ⟨.cflow, .defDst, cNonMeta, 0, 1⟩, ⟨.cflow, .target, blockTypes, 0, 1⟩,
    ⟨.cflow, .flowDst, cNonMeta, 0, 1⟩,
    ⟨.cswitch, .defDst, cNonMeta, 0, 1⟩, ⟨.cswitch, .target, blockTypes, 0, 1⟩,
    ⟨.cswitch, .switchDst, cNonMeta, 0, 1⟩,
    ⟨.origin, .defDst, cNonMeta, 0, 1⟩, ⟨.origin, .originDst, cNonMeta, 1, 1⟩,
    ⟨.startthread, .defDst, cNonMeta, 0, 1⟩,
    ⟨.cflush, .defDst, cNonMeta, 1, 1⟩, ⟨.cflush, .target, blockTypes, 0, 1⟩,
    ⟨.cflush, .flushOvr, cNonMeta, 0, 1⟩,
    ⟨.cwait, .defDst, cNonMeta, 0, 1⟩, ⟨.cwait, .target, blockTypes, 0, 1⟩,
    ⟨.blockFixed, .defDst, cNonMeta, 0, 1⟩, ⟨.blockFixed, .altDst, cNonMeta, 0, 9⟩,
    ⟨.blockFixed, .dstList, [.altdst], 0, 1⟩, ⟨.blockFixed, .qPrio prioIl, [.queue], 0, 1⟩,
    ⟨.blockFixed, .qPrio prioHi, [.queue], 0, 1⟩, ⟨.blockFixed, .qPrio prioLo, [.queue], 0, 1⟩,
    ⟨.blockAlign, .defDst, cNonMeta, 0, 1⟩, ⟨.blockAlign, .altDst, cNonMeta, 0, 9⟩,
    ⟨.blockAlign, .dstList, [.altdst], 0, 1⟩, ⟨.blockAlign, .qPrio prioIl, [.queue], 0, 1⟩,
    ⟨.blockAlign, .qPrio prioHi, [.queue], 0, 1⟩, ⟨.blockAlign, .qPrio prioLo, [.queue], 0, 1⟩,
    ⟨.queue, .metaChild, [.qbuf], 2, 2⟩]

/-- The lookup by the composite key of the container. -/
def findRule (parent : Option NodeType) (edge : EdgeType) : Option ConstellationRule :=
  cRules.find? fun r => some r.parent == parent && r.edge == edge

/-! ### The check -/

/-- What is thrown about a node. For the last two C++ leaves it undefined what happens. -/
inductive NeighbourFault where
  | unallocated
  | childless
  | orphan
  | noQueue (prio : Nat) (target : String)
  | multipleEdges (edge : EdgeType) (target : String)
  | edgeType (edge : EdgeType)
  | childType (edge : EdgeType) (child : Option NodeType)
  | occurrence (edge : EdgeType) (found : Nat)
  | nullPointer
  | pastQPrio (prio : Nat)
  deriving DecidableEq, Repr

/-- The exception, which begins with the name and the type of the node. -/
structure NeighbourError where
  name : String
  type : Option NodeType
  fault : NeighbourFault
  deriving DecidableEq, Repr

namespace HostGraph

variable (g : HostGraph)

def nameOf (v : Nat) : String := ((g.vertices[v]?).map HostVertex.name).getD ""

def typeOf (v : Nat) : Option NodeType := (g.vertices[v]?).bind fun x => x.v.type

def npOf (v : Nat) : Option Dot.Node := (g.vertices[v]?).bind HostVertex.np

/-- A command needs a queue of its priority at the block it targets. The source makes the
test once for every pair of edges, always with the same result. -/
def checkPriority (act : Option Word) (e : HostEdge) : Except NeighbourFault Unit :=
  match act with
  | none => .ok ()
  | some act =>
    match g.npOf e.target with
    | none => .error .nullPointer
    | some chk =>
      let prio := (Dot.getPrio act).toNat
      if chk.data.isBlock = true ∧ e.type = .target then
        if 3 ≤ prio then .error (.pastQPrio prio)
        else if (g.outEdges e.target).any fun x => x.type == .qPrio prio then .ok ()
        else .error (.noQueue prio (g.nameOf e.target))
      else .ok ()

/-- The loop over the edges `es` that looks for duplicates among all edges `outs`. -/
def checkConnections (act : Option Word) (outs : List HostEdge) :
    List HostEdge → Except NeighbourFault Unit
  | [] => .ok ()
  | e :: es =>
    match g.checkPriority act e with
    | .error what => .error what
    | .ok () =>
      if 1 < outs.countP fun x => x.target == e.target && x.type == e.type then
        .error (.multipleEdges e.type (g.nameOf e.target))
      else checkConnections act outs es

/-- Counts one more edge of a type, whose counter is added if it is the first. -/
def bump (cCnt : List (EdgeType × Nat)) (edge : EdgeType) : List (EdgeType × Nat) :=
  if cCnt.any fun c => c.1 == edge then
    cCnt.map fun c => if c.1 = edge then (c.1, c.2 + 1) else c
  else cCnt ++ [(edge, 1)]

/-- The loop over the edges that looks up their rules and counts them. -/
def countConstellations (parent : Option NodeType) :
    List HostEdge → List (EdgeType × Nat) → Except NeighbourFault (List (EdgeType × Nat))
  | [], cCnt => .ok cCnt
  | e :: es, cCnt =>
    match findRule parent e.type with
    | none => .error (.edgeType e.type)
    | some rule =>
      if (g.typeOf e.target).any rule.children.contains then
        countConstellations parent es (bump cCnt e.type)
      else .error (.childType e.type (g.typeOf e.target))

def checkOccurrences (parent : Option NodeType) :
    List (EdgeType × Nat) → Except NeighbourFault Unit
  | [] => .ok ()
  | c :: cs =>
    match findRule parent c.1 with
    | none => .error .nullPointer
    | some rule =>
      if c.2 < rule.min ∨ rule.max < c.2 then .error (.occurrence c.1 c.2)
      else checkOccurrences parent cs

def neighbourhoodFault (v : Nat) : Except NeighbourFault Unit :=
  match g.npOf v with
  | none => .error .unallocated
  | some n =>
    if (g.outEdges v).isEmpty ∧ (n.data.isEvent = true ∨ g.typeOf v = some .queue) then .error .childless
    else if (g.inEdges v).isEmpty ∧ n.data.isMeta = true then .error .orphan
    else
      match g.checkConnections n.data.cmdAct (g.outEdges v) (g.outEdges v) with
      | .error what => .error what
      | .ok () =>
        match g.countConstellations (g.typeOf v) (g.outEdges v) [] with
        | .error what => .error what
        | .ok cCnt => checkOccurrences (g.typeOf v) cCnt

def neighbourhoodCheck (v : Nat) : Except NeighbourError Unit :=
  (g.neighbourhoodFault v).mapError fun what => ⟨g.nameOf v, g.typeOf v, what⟩

/-! ### What the check demands -/

def degree (v : Nat) (edge : EdgeType) : Nat := (g.outEdges v).countP fun e => e.type == edge

/-- Every edge has a rule, and the child at its end is of a type the rule lists. -/
structure EdgesAdmitted (v : Nat) : Prop where
  allowed : ∀ e ∈ g.outEdges v, ∃ r ∈ cRules, some r.parent = g.typeOf v ∧ r.edge = e.type
  children : ∀ e ∈ g.outEdges v, ∀ r ∈ cRules, some r.parent = g.typeOf v → r.edge = e.type →
    ∃ t ∈ r.children, g.typeOf e.target = some t

structure RulesMet (v : Nat) : Prop extends g.EdgesAdmitted v where
  bounds : ∀ r ∈ cRules, some r.parent = g.typeOf v →
    r.min ≤ g.degree v r.edge ∧ g.degree v r.edge ≤ r.max

/-- The table is obeyed as far as there are edges: a minimum is not asked for if there is no
edge at all. -/
structure RulesKept (v : Nat) : Prop extends g.EdgesAdmitted v where
  bounds : ∀ r ∈ cRules, some r.parent = g.typeOf v →
    (0 < g.degree v r.edge → r.min ≤ g.degree v r.edge) ∧ g.degree v r.edge ≤ r.max

/-- An edge of a command leads to a node object, and the queue of the command is there. -/
def QueueThere (act : Word) (e : HostEdge) : Prop :=
  ∃ chk, g.npOf e.target = some chk ∧ (chk.data.isBlock = true → e.type = .target →
    (Dot.getPrio act).toNat < 3 ∧ ∃ x ∈ g.outEdges e.target, x.type = .qPrio (Dot.getPrio act).toNat)

/-- What the check demands besides the table. -/
structure WellPlaced (v : Nat) : Prop where
  allocated : ∃ n, g.npOf v = some n
  children : ∀ n, g.npOf v = some n → g.outEdges v = [] →
    n.data.isEvent = false ∧ g.typeOf v ≠ some .queue
  parents : ∀ n, g.npOf v = some n → g.inEdges v = [] → n.data.isMeta = false
  once : ∀ e ∈ g.outEdges v,
    ((g.outEdges v).countP fun x => x.target == e.target && x.type == e.type) ≤ 1
  queues : ∀ n act, g.npOf v = some n → n.data.cmdAct = some act → ∀ e ∈ g.outEdges v, g.QueueThere act e

variable {g}

/-! ### The lookups -/

theorem findRule_eq_some_iff {parent : Option NodeType} {edge : EdgeType} {r : ConstellationRule} :
    findRule parent edge = some r ↔ r ∈ cRules ∧ some r.parent = parent ∧ r.edge = edge := by
  have hunique : ∀ r ∈ cRules, ∀ r' ∈ cRules, r.parent = r'.parent → r.edge = r'.edge → r = r' := by
    decide
  constructor
  · intro h
    have hkey := List.find?_some h
    simp only [Bool.and_eq_true, beq_iff_eq] at hkey
    exact ⟨List.mem_of_find?_eq_some h, hkey⟩
  · rintro ⟨hmem, hparent, hedge⟩
    cases hfind : findRule parent edge with
    | none =>
      have hno := List.find?_eq_none.1 hfind r hmem
      simp [hparent, hedge] at hno
    | some r' =>
      have hkey := List.find?_some hfind
      simp only [Bool.and_eq_true, beq_iff_eq] at hkey
      rw [hunique r hmem r' (List.mem_of_find?_eq_some hfind)
        (Option.some.inj (hparent.trans hkey.1.symm)) (hedge.trans hkey.2.symm)]

theorem checkPriority_ok_iff {act : Option Word} {e : HostEdge} :
    g.checkPriority act e = .ok () ↔ ∀ a, act = some a → g.QueueThere a e := by
  cases act with
  | none => simp [checkPriority]
  | some act =>
    simp only [checkPriority, Option.some.injEq, forall_eq', QueueThere]
    cases hnp : g.npOf e.target with
    | none => simp
    | some chk =>
      simp only [Option.some.injEq, exists_eq_left', List.any_eq_true, beq_iff_eq]
      by_cases hcmd : chk.data.isBlock = true ∧ e.type = .target
      · by_cases hprio : 3 ≤ (Dot.getPrio act).toNat
        · simp [hcmd, hprio]
        · by_cases hqueue : ∃ x ∈ g.outEdges e.target, x.type = .qPrio (Dot.getPrio act).toNat
          · simp [hcmd, hprio, hqueue, Nat.lt_of_not_le hprio]
          · simp [hcmd, hprio, hqueue]
      · rw [if_neg hcmd]
        exact iff_of_true rfl fun hblock htype => absurd ⟨hblock, htype⟩ hcmd

theorem checkConnections_ok_iff {act : Option Word} {outs es : List HostEdge} :
    g.checkConnections act outs es = .ok () ↔
      ∀ e ∈ es, (∀ a, act = some a → g.QueueThere a e) ∧
        (outs.countP fun x => x.target == e.target && x.type == e.type) ≤ 1 := by
  induction es with
  | nil => simp [checkConnections]
  | cons e es ih =>
    rw [checkConnections, List.forall_mem_cons, ← ih, ← checkPriority_ok_iff]
    cases hprio : g.checkPriority act e with
    | error what => simp
    | ok u =>
      by_cases hmany : 1 < outs.countP fun x => x.target == e.target && x.type == e.type
      · simp only [if_pos hmany, reduceCtorEq, false_iff]
        rintro ⟨⟨-, hle⟩, -⟩
        exact absurd hmany (Nat.not_lt_of_le hle)
      · simp only [if_neg hmany, Nat.le_of_not_lt hmany, and_self, true_and]

/-! ### The counters -/

/-- There is a counter for each type of edge that occurs, and it tells how often. -/
def Counts (cCnt : List (EdgeType × Nat)) (es : List HostEdge) : Prop :=
  ∀ t n, (t, n) ∈ cCnt ↔ n = (es.countP fun e => e.type == t) ∧ 0 < n

theorem Counts.bump {cCnt : List (EdgeType × Nat)} {es : List HostEdge} (h : Counts cCnt es)
    (e : HostEdge) : Counts (bump cCnt e.type) (es ++ [e]) := by
  intro t n
  have hcount : ((es ++ [e]).countP fun x => x.type == t) =
      (es.countP fun x => x.type == t) + if e.type = t then 1 else 0 := by
    simp [List.countP_append, List.countP_cons]
  unfold HostGraph.bump
  by_cases hany : (cCnt.any fun c => c.1 == e.type) = true
  · rw [if_pos hany, List.mem_map, hcount]
    obtain ⟨c, hc, hkey⟩ := List.any_eq_true.1 hany
    have hhas : 0 < es.countP fun x => x.type == e.type := by
      have hc' : (e.type, c.2) ∈ cCnt := by
        rw [← beq_iff_eq.1 hkey]
        exact hc
      obtain ⟨heq, hpos⟩ := (h _ _).1 hc'
      omega
    constructor
    · rintro ⟨⟨t', m⟩, hm, heq⟩
      obtain ⟨hval, hpos⟩ := (h _ _).1 hm
      by_cases ht : t' = e.type
      · rw [if_pos ht] at heq
        obtain ⟨rfl, rfl⟩ := Prod.mk.inj heq
        rw [if_pos ht.symm, ← hval]
        exact ⟨rfl, Nat.succ_pos m⟩
      · rw [if_neg ht] at heq
        obtain ⟨rfl, rfl⟩ := Prod.mk.inj heq
        rw [if_neg (Ne.symm ht)]
        exact ⟨hval, hpos⟩
    · rintro ⟨hval, hpos⟩
      by_cases ht : e.type = t
      · subst ht
        rw [if_pos rfl] at hval
        exact ⟨_, (h e.type _).2 ⟨rfl, hhas⟩, by rw [if_pos rfl, hval]⟩
      · rw [if_neg ht] at hval
        exact ⟨_, (h t n).2 ⟨hval, hpos⟩, if_neg (Ne.symm ht)⟩
  · have hnone : (es.countP fun x => x.type == e.type) = 0 := by
      rcases Nat.eq_zero_or_pos (es.countP fun x => x.type == e.type) with hzero | hpos
      · exact hzero
      · exact absurd (List.any_eq_true.2 ⟨_, (h e.type _).2 ⟨rfl, hpos⟩, beq_self_eq_true e.type⟩) hany
    rw [if_neg hany, List.mem_append, List.mem_singleton, h, hcount]
    by_cases ht : e.type = t
    · subst ht
      rw [if_pos rfl, hnone]
      constructor
      · rintro (⟨rfl, hpos⟩ | heq)
        · exact absurd hpos (Nat.lt_irrefl 0)
        · exact ⟨(Prod.mk.inj heq).2, by rw [(Prod.mk.inj heq).2]; exact Nat.one_pos⟩
      · rintro ⟨rfl, -⟩
        exact Or.inr rfl
    · rw [if_neg ht]
      constructor
      · rintro (hold | heq)
        · exact hold
        · exact absurd (Prod.mk.inj heq).1.symm ht
      · exact Or.inl

/-- The edge has a rule that lists the type of the child. -/
def Admitted (g : HostGraph) (parent : Option NodeType) (e : HostEdge) : Prop :=
  ∃ r, findRule parent e.type = some r ∧ ∃ t ∈ r.children, g.typeOf e.target = some t

theorem any_contains_iff {o : Option NodeType} {ts : List NodeType} :
    o.any ts.contains = true ↔ ∃ t ∈ ts, o = some t := by
  cases o with
  | none => simp
  | some t => simp

theorem countConstellations_ok {parent : Option NodeType} : ∀ {es outs : List HostEdge}
    {cCnt : List (EdgeType × Nat)}, Counts cCnt outs → (∀ e ∈ es, g.Admitted parent e) →
    ∃ cCnt', g.countConstellations parent es cCnt = .ok cCnt' ∧ Counts cCnt' (outs ++ es) := by
  intro es
  induction es with
  | nil =>
    intro outs cCnt h _
    exact ⟨cCnt, rfl, by rwa [List.append_nil]⟩
  | cons e es ih =>
    intro outs cCnt h hadm
    obtain ⟨r, hrule, hchild⟩ := hadm e List.mem_cons_self
    obtain ⟨cCnt', hok, hcounts⟩ := ih (h.bump e) fun x hx => hadm x (List.mem_cons_of_mem e hx)
    refine ⟨cCnt', ?_, by rwa [List.append_assoc] at hcounts⟩
    simp only [countConstellations, hrule, if_pos (any_contains_iff.2 hchild)]
    exact hok

theorem admitted_of_countConstellations {parent : Option NodeType} : ∀ {es : List HostEdge}
    {cCnt cCnt' : List (EdgeType × Nat)}, g.countConstellations parent es cCnt = .ok cCnt' →
    ∀ e ∈ es, g.Admitted parent e := by
  intro es
  induction es with
  | nil => simp
  | cons e es ih =>
    intro cCnt cCnt' hok
    rw [countConstellations] at hok
    cases hrule : findRule parent e.type with
    | none => simp [hrule] at hok
    | some r =>
      by_cases hchild : (g.typeOf e.target).any r.children.contains = true
      · simp only [hrule, if_pos hchild] at hok
        rw [List.forall_mem_cons]
        exact ⟨⟨r, hrule, any_contains_iff.1 hchild⟩, ih hok⟩
      · simp [hrule, hchild] at hok

theorem checkOccurrences_ok_iff {parent : Option NodeType} {cs : List (EdgeType × Nat)} :
    checkOccurrences parent cs = .ok () ↔
      ∀ c ∈ cs, ∃ r, findRule parent c.1 = some r ∧ r.min ≤ c.2 ∧ c.2 ≤ r.max := by
  induction cs with
  | nil => simp [checkOccurrences]
  | cons c cs ih =>
    rw [checkOccurrences, List.forall_mem_cons, ← ih]
    cases hrule : findRule parent c.1 with
    | none => simp
    | some r =>
      simp only [Option.some.injEq, exists_eq_left']
      by_cases hout : c.2 < r.min ∨ r.max < c.2
      · simp only [if_pos hout, reduceCtorEq, false_iff]
        rintro ⟨⟨hmin, hmax⟩, -⟩
        omega
      · rw [if_neg hout]
        exact ⟨fun h => ⟨by omega, h⟩, fun h => h.2⟩

theorem edgesAdmitted_iff {v : Nat} :
    g.EdgesAdmitted v ↔ ∀ e ∈ g.outEdges v, g.Admitted (g.typeOf v) e := by
  constructor
  · intro h e he
    obtain ⟨r, hr, hparent, hedge⟩ := h.allowed e he
    exact ⟨r, findRule_eq_some_iff.2 ⟨hr, hparent, hedge⟩, h.children e he r hr hparent hedge⟩
  · intro h
    refine ⟨fun e he => ?_, fun e he r hr hparent hedge => ?_⟩
    · obtain ⟨r, hrule, -⟩ := h e he
      exact ⟨r, findRule_eq_some_iff.1 hrule⟩
    · obtain ⟨r', hrule, hchild⟩ := h e he
      rw [findRule_eq_some_iff.2 ⟨hr, hparent, hedge⟩] at hrule
      obtain rfl := Option.some.inj hrule
      exact hchild

/-! ### The check as a whole -/

theorem checkOccurrences_of_counts {v : Nat} {cCnt : List (EdgeType × Nat)}
    (hcounts : Counts cCnt (g.outEdges v)) (hadm : g.EdgesAdmitted v) :
    checkOccurrences (g.typeOf v) cCnt = .ok () ↔ g.RulesKept v := by
  rw [checkOccurrences_ok_iff]
  constructor
  · intro h
    refine ⟨hadm, fun r hr hparent => ?_⟩
    have hrule := findRule_eq_some_iff.2 ⟨hr, hparent, rfl⟩
    have hbounds : 0 < g.degree v r.edge → r.min ≤ g.degree v r.edge ∧ g.degree v r.edge ≤ r.max := by
      intro hpos
      obtain ⟨r', hrule', hmin, hmax⟩ := h _ ((hcounts r.edge _).2 ⟨rfl, hpos⟩)
      rw [hrule] at hrule'
      obtain rfl := Option.some.inj hrule'
      exact ⟨hmin, hmax⟩
    refine ⟨fun hpos => (hbounds hpos).1, ?_⟩
    rcases Nat.eq_zero_or_pos (g.degree v r.edge) with hzero | hpos
    · rw [hzero]
      exact Nat.zero_le _
    · exact (hbounds hpos).2
  · rintro h ⟨t, n⟩ hc
    obtain ⟨rfl, hpos⟩ := (hcounts t n).1 hc
    obtain ⟨e, he, htype⟩ := List.countP_pos_iff.1 hpos
    obtain ⟨r, hr, hparent, hedge⟩ := h.allowed e he
    rw [beq_iff_eq] at htype
    obtain rfl := hedge.trans htype
    have hb := h.bounds r hr hparent
    exact ⟨r, findRule_eq_some_iff.2 ⟨hr, hparent, rfl⟩, hb.1 hpos, hb.2⟩

/-- **What the check accepts.** -/
theorem neighbourhoodCheck_ok_iff {v : Nat} :
    g.neighbourhoodCheck v = .ok () ↔ g.WellPlaced v ∧ g.RulesKept v := by
  have hfault : g.neighbourhoodCheck v = .ok () ↔ g.neighbourhoodFault v = .ok () := by
    unfold neighbourhoodCheck
    cases g.neighbourhoodFault v with
    | error what => simp [Except.mapError]
    | ok u => simp [Except.mapError]
  rw [hfault, neighbourhoodFault]
  cases hnp : g.npOf v with
  | none =>
    simp only [reduceCtorEq, false_iff]
    rintro ⟨hplaced, -⟩
    obtain ⟨n, hn⟩ := hplaced.allocated
    rw [hnp] at hn
    cases hn
  | some n =>
    simp only [List.isEmpty_iff]
    by_cases hchild : g.outEdges v = [] ∧ (n.data.isEvent = true ∨ g.typeOf v = some .queue)
    · simp only [if_pos hchild, reduceCtorEq, false_iff]
      rintro ⟨hplaced, -⟩
      obtain ⟨hevent, hqueue⟩ := hplaced.children n hnp hchild.1
      rcases hchild.2 with h | h
      · rw [hevent] at h
        cases h
      · exact hqueue h
    rw [if_neg hchild]
    by_cases hparent : g.inEdges v = [] ∧ n.data.isMeta = true
    · simp only [if_pos hparent, reduceCtorEq, false_iff]
      rintro ⟨hplaced, -⟩
      have hmeta := hplaced.parents n hnp hparent.1
      rw [hparent.2] at hmeta
      cases hmeta
    rw [if_neg hparent]
    cases hconn : g.checkConnections n.data.cmdAct (g.outEdges v) (g.outEdges v) with
    | error what =>
      simp only [reduceCtorEq, false_iff]
      rintro ⟨hplaced, -⟩
      have hok := checkConnections_ok_iff.2 fun e he =>
        ⟨fun a ha => hplaced.queues n a hnp ha e he, hplaced.once e he⟩
      rw [hconn] at hok
      cases hok
    | ok u =>
      have hconn' := checkConnections_ok_iff.1 hconn
      have hplaced : g.WellPlaced v := by
        refine ⟨⟨n, hnp⟩, fun m hm hout => ?_, fun m hm hin => ?_, fun e he => (hconn' e he).2,
          fun m a hm ha e he => ?_⟩
        · obtain rfl := Option.some.inj (hnp.symm.trans hm)
          exact ⟨Bool.eq_false_iff.2 fun h => hchild ⟨hout, Or.inl h⟩, fun h => hchild ⟨hout, Or.inr h⟩⟩
        · obtain rfl := Option.some.inj (hnp.symm.trans hm)
          exact Bool.eq_false_iff.2 fun h => hparent ⟨hin, h⟩
        · obtain rfl := Option.some.inj (hnp.symm.trans hm)
          exact (hconn' e he).1 a ha
      simp only [hplaced, true_and]
      have hstart : Counts [] [] := by
        intro t m
        simp only [List.not_mem_nil, List.countP_nil, false_iff]
        omega
      cases hcount : g.countConstellations (g.typeOf v) (g.outEdges v) [] with
      | error what =>
        simp only [reduceCtorEq, false_iff]
        intro h
        obtain ⟨cCnt', hok, -⟩ := countConstellations_ok hstart (edgesAdmitted_iff.1 h.toEdgesAdmitted)
        rw [hcount] at hok
        cases hok
      | ok cCnt =>
        have hadm := admitted_of_countConstellations hcount
        obtain ⟨cCnt', hok, hcounts⟩ := countConstellations_ok hstart hadm
        rw [hcount] at hok
        obtain rfl := Except.ok.inj hok
        exact checkOccurrences_of_counts hcounts (edgesAdmitted_iff.2 hadm)

/-- **The check is exact up to its own demands**: a well-placed node that obeys the table is
accepted, and an accepted node is well placed and obeys the table in all types of edges
that it has. -/
theorem neighbourhoodCheck_exact (g : HostGraph) (v : Nat) :
    (g.WellPlaced v → g.RulesMet v → g.neighbourhoodCheck v = .ok ()) ∧
      (g.neighbourhoodCheck v = .ok () → g.WellPlaced v ∧ g.RulesKept v) := by
  refine ⟨fun hplaced hmet => ?_, neighbourhoodCheck_ok_iff.1⟩
  refine neighbourhoodCheck_ok_iff.2 ⟨hplaced, hmet.toEdgesAdmitted, fun r hr hparent => ?_⟩
  exact ⟨fun _ => (hmet.bounds r hr hparent).1, (hmet.bounds r hr hparent).2⟩

/-! ### Refusals and omissions -/

def sampleVertex (name : String) (data : Dot.NodeData) : HostVertex :=
  { v := ⟨name, some data.type, Dot.Property.initial⟩
    hash := 0
    np := some { name, pattern := "", beamproc := "", hash := 0, cpu := 0
                 flags := Dot.withType 0 data.type, data } }

def loneCommand : HostGraph := { vertices := [sampleVertex "noop" (.noop 0 0 0)] }

/-- **The table does not tell everything**: a command without children obeys it and is
refused. -/
theorem neighbourhoodCheck_not_table : ¬ ∀ (g : HostGraph) (v : Nat) (n : Dot.Node),
    g.npOf v = some n → (g.neighbourhoodCheck v = .ok () ↔ g.RulesMet v) := by
  intro h
  have hnone : loneCommand.outEdges 0 = [] := rfl
  have hmet : loneCommand.RulesMet 0 :=
    { allowed := by rw [hnone]; simp
      children := by rw [hnone]; simp
      bounds := by decide }
  have hok := (h loneCommand 0 _ rfl).2 hmet
  revert hok
  decide

end HostGraph

end CarpeDM

end DataMaster
