import BelProjects.ScheduleCompare.Chains

/-!
# The rounds of the replacement

In a round the chain that is found becomes a new vertex, with the edges that enter and leave it.
The new vertices have no type, so that with blocks separated they can get into the chains of
later rounds together.
-/

namespace ScheduleCompare

open AdjacencyList

/-! ### The new vertex -/

theorem modify_concat {γ : Type*} (l : List γ) (a : γ) (f : γ → γ) :
    (l ++ [a]).modify l.length f = l ++ [f a] := by
  induction l with
  | nil => rfl
  | cons x l ih => rw [List.cons_append, List.length_cons, List.modify_succ_cons, ih, List.cons_append]

section Insert

variable {config : ChainConfig} {g : ChainGraph} {c : List Nat} {start u v : Nat}

/-- The members that are left as `createVertexProperties` sets them. -/
def SameBut (a a' : ScheduleVertex) : Prop :=
  ∀ m, m ≠ .name → m ≠ .label → a'.member m = a.member m

theorem SameBut.setMember {a a' : ScheduleVertex} (h : SameBut a a') {m : Member} {s : String}
    (hm : m = .name ∨ m = .label) : SameBut a (a'.setMember m s) := by
  intro m' hname hlabel
  rcases hm with rfl | rfl
  · exact (Function.update_of_ne hname _ _).trans (h m' hname hlabel)
  · exact (Function.update_of_ne hlabel _ _).trans (h m' hname hlabel)

theorem SameBut.closeChain {a a' last : ScheduleVertex} (h : SameBut a a') :
    SameBut a (a'.closeChain c last) :=
  (h.setMember (Or.inl rfl)).setMember (Or.inr rfl)

/-- The edges that start in the chain are those of `g`. -/
def SameSources (c : List Nat) (g g' : ChainGraph) : Prop :=
  ∀ v ∈ c, g'.outEdges v = g.outEdges v

theorem anySuccessor_congr {g' : ChainGraph} (h : g'.outEdges v = g.outEdges v) :
    anySuccessor config g' v = anySuccessor config g v := by
  unfold anySuccessor successor
  rw [h]
  simp only [Bool.and_false, Bool.false_eq_true, if_false]

theorem outEdges_addEdge {b : ScheduleEdge} {w : Nat} (h : u ≠ v) :
    (g.addEdge u w b).outEdges v = g.outEdges v := by
  rw [outEdges, edges_addEdge, List.filter_append, outEdges]
  simp [h]

theorem createEdgeProperties_true {g' : ChainGraph} {b : ScheduleEdge} {w : Nat}
    (h : g'.inEdges v = [(u, v, b)]) :
    createEdgeProperties g' u v w true = g'.addEdge u w (copiedEdge b) := by
  simp [createEdgeProperties, h]

theorem createEdgeProperties_false {g' : ChainGraph} {b : ScheduleEdge} {w : Nat}
    (h : g'.outEdges v = [(v, u, b)]) :
    createEdgeProperties g' w v u false = g'.addEdge w u (copiedEdge b) := by
  simp [createEdgeProperties, h]

theorem anySuccessor_nil (h : g.outEdges v = []) : anySuccessor config g v = none := by
  simp [anySuccessor, successor, h]

/-- What the loop of `insertEdges` leaves when it is at the vertex `v` of the chain. -/
structure Inserted (g : ChainGraph) (c : List Nat) (x x' : Insertion) : Prop where
  newVertexNum : x'.newVertexNum = x.newVertexNum
  vertices : ∃ f, x'.graph.vertices = x.graph.vertices.modify x.newVertexNum f ∧
    ∀ a, SameBut a (f a)
  edges : ∀ last, c.getLast? = some last → x'.graph.edges = x.graph.edges ++
    (g.outEdges last).map fun e => (x.newVertexNum, e.2.1, copiedEdge e.2.2)

theorem insertLoop_last (hchain : Chain g c) {x : Insertion} {fuel : Nat}
    (hlast : c.getLast? = some v) (hstart : v ≠ start) (hsame : SameSources c g x.graph)
    (hnew : x.newVertexNum ∉ c) :
    ∃ x', insertLoop config c start (fuel + 2) (some v) x = some x' ∧ Inserted g c x x' := by
  have hmem := List.mem_of_getLast? hlast
  have hout := hchain.left v hlast
  have hsuccessor : anySuccessor config x.graph v = anySuccessor config g v :=
    anySuccessor_congr (hsame v hmem)
  have hf : ∀ a last : ScheduleVertex, SameBut a (a.closeChain c last) := fun a last =>
    SameBut.closeChain fun _ _ _ => rfl
  rcases outEdges_cases hout.1 with hnone | ⟨s, b, hsome⟩
  · have hx : anySuccessor config x.graph v = none := hsuccessor.trans (anySuccessor_nil hnone)
    let x' : Insertion := { x with
      graph := x.graph.modifyVertex x.newVertexNum fun new =>
        new.closeChain c (vertexAt x.graph v) }
    have hnext : anySuccessor config x'.graph v = none := by
      rw [← hx]
      exact anySuccessor_congr rfl
    have hcreate : createVertexAndEdges config c start v x = x' := by
      simp only [createVertexAndEdges, hstart, if_false, hx]
      rfl
    refine ⟨x', ?_, rfl, ⟨_, rfl, fun a => hf a _⟩, fun last hl => ?_⟩
    · simp only [insertLoop, hmem, if_true, hcreate, hnext]
    · rw [← Option.some.inj (hlast.symm.trans hl), hnone, List.map_nil, List.append_nil]
      rfl
  · have hs : s ∉ c := hout.2 (v, s, b) (hsome ▸ List.mem_singleton_self _)
    have hx : anySuccessor config x.graph v = some s :=
      hsuccessor.trans (anySuccessor_iff.mpr ⟨b, hsome⟩)
    have hedge : createEdgeProperties x.graph x.newVertexNum v s false =
        x.graph.addEdge x.newVertexNum s (copiedEdge b) :=
      createEdgeProperties_false ((hsame v hmem).trans hsome)
    have hne : x.newVertexNum ≠ v := fun heq => hnew (heq ▸ hmem)
    let g' := x.graph.addEdge x.newVertexNum s (copiedEdge b)
    let x' : Insertion := { x with
      graph := g'.modifyVertex x.newVertexNum fun new => new.closeChain c (vertexAt g' v) }
    have hnext : anySuccessor config x'.graph v = some s := by
      rw [← hx]
      exact anySuccessor_congr (outEdges_addEdge hne)
    have hcreate : createVertexAndEdges config c start v x = x' := by
      simp only [createVertexAndEdges, hstart, if_false, hx, hs, not_false_eq_true, if_true, hedge]
      rfl
    refine ⟨x', ?_, rfl, ⟨_, rfl, fun a => hf a _⟩, fun last hl => ?_⟩
    · simp only [insertLoop, hmem, if_true, hcreate, hnext, hs, if_false]
    · rw [← Option.some.inj (hlast.symm.trans hl), hsome]
      rfl

theorem insertLoop_rest (hchain : Chain g c) {x : Insertion} (fuel : Nat)
    (before : List Nat) {behind : List Nat}
    (hc : c = before ++ v :: behind) (hstart : start ∉ v :: behind)
    (hsame : SameSources c g x.graph) (hnew : x.newVertexNum ∉ c)
    (hfuel : behind.length + 2 ≤ fuel) :
    ∃ x', insertLoop config c start fuel (some v) x = some x' ∧ Inserted g c x x' := by
  induction behind generalizing before v fuel with
  | nil =>
    obtain ⟨fuel, rfl⟩ : ∃ n, fuel = n + 2 := ⟨fuel - 2, by simp at hfuel; omega⟩
    refine insertLoop_last hchain ?_ (fun heq => hstart (heq ▸ List.mem_cons_self)) hsame hnew
    rw [hc, List.getLast?_concat]
  | cons y behind ih =>
    obtain ⟨fuel, rfl⟩ : ∃ n, fuel = n + 1 := ⟨fuel - 1, by simp at hfuel; omega⟩
    have hv : v ≠ start := fun heq => hstart (heq ▸ List.mem_cons_self)
    have hmem : v ∈ c := by simp [hc]
    have hy : y ∈ c := by simp [hc]
    have hlink : (v, y) ∈ links c := by
      have hsplit : c = (before ++ [v]) ++ (y :: behind) := by simp [hc]
      rw [hsplit, links_append (List.getLast?_concat) rfl]
      simp
    obtain ⟨b, hout, -⟩ := hchain.linked _ hlink
    have hx : anySuccessor config x.graph v = some y :=
      (anySuccessor_congr (hsame v hmem)).trans (anySuccessor_iff.mpr ⟨b, hout⟩)
    have hcreate : createVertexAndEdges config c start v x = x := by
      simp only [createVertexAndEdges, hv, if_false, hx, hy, not_true_eq_false]
    obtain ⟨x', hx', hinserted⟩ := ih fuel (before ++ [v]) (by simp [hc])
      (fun hmem => hstart (List.mem_cons_of_mem _ hmem)) (by simp at hfuel; omega)
    refine ⟨x', ?_, hinserted⟩
    simp only [insertLoop, hmem, if_true, hcreate, hx]
    exact hx'

/-- The loop at the first vertex adds the new vertex and the edge that enters it. -/
theorem createVertexAndEdges_start (config : ChainConfig) (hchain : Chain g c) {behind : List Nat}
    (hc : c = start :: v :: behind) : ∃ g₁,
      createVertexAndEdges config c start start ⟨g, g.order⟩ = ⟨g₁, g.order⟩ ∧
        g₁.vertices = g.vertices ++ [createVertexProperties (vertexAt g start)] ∧
          g₁.edges = g.edges ++
            (g.inEdges start).map (fun e => (e.1, g.order, copiedEdge e.2.2)) ∧
            SameSources c g g₁ := by
  have hentered := hchain.entered start (by rw [hc]; rfl)
  have hlink : (start, v) ∈ links c := by
    rw [hc]
    exact List.mem_cons_self
  obtain ⟨b, hout, -⟩ := hchain.linked _ hlink
  have hv : v ∈ c := (links_subset hlink).2
  have hnext : ∀ g₁, SameSources c g g₁ → anySuccessor config g₁ start = some v := fun g₁ hsame =>
    (anySuccessor_congr (hsame start (links_subset hlink).1)).trans
      (anySuccessor_iff.mpr ⟨b, hout⟩)
  generalize hg₀ : g.addVertex (createVertexProperties (vertexAt g start)) = g₀
  have hin₀ : g₀.inEdges start = g.inEdges start := by
    rw [← hg₀]
    rfl
  have hsame₀ : SameSources c g g₀ := by
    rw [← hg₀]
    exact fun _ _ => rfl
  rcases inEdges_cases hentered.1 with hnone | ⟨p, bIn, hsome⟩
  · have hpred : anyPredecessor config g₀ start = none := by
      simp [anyPredecessor, predecessor, hin₀.trans hnone]
    refine ⟨g₀, ?_, by rw [← hg₀]; rfl, ?_, hsame₀⟩
    · unfold createVertexAndEdges
      simp only [if_true, hg₀, hpred, hnext g₀ hsame₀, hv, not_true_eq_false, if_false]
    · rw [hnone, List.map_nil, List.append_nil, ← hg₀]
      rfl
  · have hpred : anyPredecessor config g₀ start = some p :=
      anyPredecessor_iff.mpr ⟨bIn, hin₀.trans hsome⟩
    have hp : p ∉ c := hentered.2 (p, start, bIn) (hsome ▸ List.mem_singleton_self _)
    have hedge : createEdgeProperties g₀ p start g.order true =
        g₀.addEdge p g.order (copiedEdge bIn) :=
      createEdgeProperties_true (hin₀.trans hsome)
    have hsame : SameSources c g (g₀.addEdge p g.order (copiedEdge bIn)) := by
      intro u hu
      have hpu : p ≠ u := fun heq => hp (heq ▸ hu)
      exact (outEdges_addEdge hpu).trans (hsame₀ u hu)
    refine ⟨g₀.addEdge p g.order (copiedEdge bIn), ?_, by rw [← hg₀]; rfl, ?_, hsame⟩
    · unfold createVertexAndEdges
      simp only [if_true, hg₀, hpred, hedge, hnext _ hsame, hv, not_true_eq_false, if_false]
    · rw [hsome, ← hg₀]
      rfl

theorem descending_pairwise (hnodup : c.Nodup) : (descending c).Pairwise (· > ·) := by
  have hsorted : (descending c).Pairwise (· ≥ ·) := List.pairwise_insertionSort _ _
  have hne : (descending c).Pairwise (· ≠ ·) := (List.perm_insertionSort _ _).nodup_iff.mpr hnodup
  exact (hsorted.and hne).imp fun h => lt_of_le_of_ne h.1 h.2.symm

theorem mem_descending : v ∈ descending c ↔ v ∈ c := (List.perm_insertionSort _ _).mem_iff

theorem insertEdges_spec (config : ChainConfig) {collected : Collected} (hchain : Chain g collected.chain)
    (hhead : collected.chain.head? = some start) : ∃ g' h,
      insertEdges config g start collected = some h ∧
        Contracted copiedEdge g g' collected.chain ∧ Removed collected.chain g' h ∧
          ∃ a, g'.vertices = g.vertices ++ [a] ∧
            SameBut (createVertexProperties (vertexAt g start)) a := by
  obtain ⟨behind, hc⟩ := List.head?_eq_some_iff.mp hhead
  obtain ⟨v, behind, rfl⟩ : ∃ v l, behind = v :: l := by
    cases behind with
    | nil => exact absurd hchain.long (by rw [hc]; simp)
    | cons v l => exact ⟨v, l, rfl⟩
  have hlength : collected.chain.length ≤ g.order := by
    have hsub := (hchain.nodup.subperm fun u hu =>
      List.mem_range.mpr (hchain.range u hu)).length_le
    rwa [List.length_range] at hsub
  obtain ⟨g₁, hfirst, hvertices, hedges, hsame⟩ :=
    createVertexAndEdges_start config hchain hc
  have hlink : (start, v) ∈ links collected.chain := by
    rw [hc]
    exact List.mem_cons_self
  obtain ⟨b, hout, -⟩ := hchain.linked _ hlink
  have hnext : anySuccessor config g₁ start = some v :=
    (anySuccessor_congr (hsame start (links_subset hlink).1)).trans
      (anySuccessor_iff.mpr ⟨b, hout⟩)
  have hrest : start ∉ v :: behind := by
    have hnodup := hchain.nodup
    rw [hc] at hnodup
    exact (List.nodup_cons.mp hnodup).1
  obtain ⟨x', hloop, hinserted⟩ := insertLoop_rest (x := ⟨g₁, g.order⟩)
    hchain g.order [start] hc hrest hsame hchain.order_not_mem (by
      rwa [hc, List.length_cons, List.length_cons] at hlength)
  obtain ⟨f, hf, hfSame⟩ := hinserted.vertices
  obtain ⟨last, hlast⟩ : ∃ last, collected.chain.getLast? = some last :=
    ⟨_, List.getLast?_eq_some_getLast (by rw [hc]; exact List.cons_ne_nil _ _)⟩
  have hnew : x'.newVertexNum = g.order := hinserted.newVertexNum
  have hx' : x'.graph.vertices =
      g.vertices ++ [f (createVertexProperties (vertexAt g start))] := by
    rw [hf]
    change g₁.vertices.modify g.vertices.length f = _
    rw [hvertices, modify_concat]
  -- short chains get the names of all their vertices
  obtain ⟨g', hg', hg'edges, a, hg'vertices, ha⟩ : ∃ g' : ChainGraph,
      (if collected.chain.length < 4 then
        x'.graph.modifyVertex x'.newVertexNum fun new =>
          (new.setMember .name collected.newName).setMember .label collected.newLabel
      else x'.graph) = g' ∧ g'.edges = x'.graph.edges ∧
        ∃ a, g'.vertices = g.vertices ++ [a] ∧
          SameBut (createVertexProperties (vertexAt g start)) a := by
    have hsameBut := hfSame (createVertexProperties (vertexAt g start))
    refine ⟨_, rfl, ?_, ?_⟩
    · split <;> rfl
    · split
      · refine ⟨((f (createVertexProperties (vertexAt g start))).setMember .name
          collected.newName).setMember .label collected.newLabel, ?_,
          (hsameBut.setMember (Or.inl rfl)).setMember (Or.inr rfl)⟩
        rw [modifyVertex, hx', hnew]
        exact modify_concat _ _ _
      · exact ⟨_, hx', hsameBut⟩
  refine ⟨g', g'.removeAll (descending collected.chain), ?_, ⟨⟨a, hg'vertices⟩, start, last, hhead,
    hlast, ?_⟩, ?_, a, hg'vertices, ha⟩
  · have hwhole : insertLoop config collected.chain start (g.order + 1) (some start)
        ⟨g, g.order⟩ = some x' := by
      rw [insertLoop]
      simp only [(links_subset hlink).1, if_true, hfirst, hnext]
      exact hloop
    rw [insertEdges, hwhole, ← hg']
    rfl
  · rw [hg'edges, hinserted.edges last hlast, hedges, List.append_assoc]
  · refine (removed_removeAll (descending_pairwise hchain.nodup) fun d hd => ?_).congr fun d =>
      mem_descending
    rw [order, hg'vertices, List.length_append]
    exact Nat.lt_add_right _ (hchain.range d (mem_descending.mp hd))

end Insert

/-! ### One round -/

def replacement (config : ChainConfig) (g : ChainGraph) : Option (List Nat × ChainGraph) := do
  match ← findStartOfChain config g with
  | some start =>
    let c ← checkToReplace config g start (g.order + 1) start {}
    if c.chain = [] then none else some (c.chain, ← insertEdges config g start c)
  | none => none

structure Round (config : ChainConfig) (g : ChainGraph) (start : Nat) (c : List Nat)
    (h : ChainGraph) : Prop where
  isStart : IsStart config g start
  first : FirstFound config g start
  collecting : Collecting config g start c
  complete : Complete config g start c
  chain : Chain g c
  inserted : ∃ g', Contracted copiedEdge g g' c ∧ Removed c g' h ∧ ∃ a,
    g'.vertices = g.vertices ++ [a] ∧ SameBut (createVertexProperties (vertexAt g start)) a

theorem replaceSingleChain_spec (config : ChainConfig) {g : ChainGraph} (hwf : g.WellFormed) :
    (replacement config g = none ∧ replaceSingleChain config g = some (g, false) ∧
      ∀ u v, ¬ Replaceable config g u v) ∨
    ∃ start c h, replacement config g = some (c, h) ∧
      replaceSingleChain config g = some (h, true) ∧ Round config g start c h := by
  obtain ⟨r, hr, hstart, hfirst, hfound⟩ := findStartOfChain_spec config hwf
  have hchained : ∀ u v, Replaceable config g u v → ∃ start, r = some start ∧
      breaksAt config g start = true := fun u v huv =>
    hfound v (lt_order_of_successor hwf huv.1) ⟨u, Or.inl huv⟩
  cases r with
  | none =>
    refine Or.inl ⟨by simp [replacement, hr], by simp [replaceSingleChain, hr], fun u v huv => ?_⟩
    obtain ⟨start, hnone, -⟩ := hchained u v huv
    cases hnone
  | some start =>
    by_cases hbreaks : breaksAt config g start = true
    · obtain ⟨c, hc, hcollecting, hcomplete, hlong⟩ :=
        checkToReplace_spec hwf (hstart start rfl) hbreaks
      have hchain := hcollecting.chain (hstart start rfl) hlong
      obtain ⟨g', h, hinsert, hcontracted, hremoved, ha⟩ :=
        insertEdges_spec config hchain hcollecting.head
      have hnil : c.chain ≠ [] := by
        intro hnil
        rw [hnil] at hlong
        exact absurd hlong (by simp)
      refine Or.inr ⟨start, c.chain, h, by simp [replacement, hr, hc, hnil, hinsert],
        by simp [replaceSingleChain, hr, hc, hnil, hinsert], ?_⟩
      exact ⟨hstart start rfl, hfirst start rfl hbreaks, hcollecting, hcomplete, hchain, g',
        hcontracted, hremoved, ha⟩
    · obtain ⟨c, hc, hnil⟩ := checkToReplace_nil g.order
        (Bool.not_eq_true _ ▸ hbreaks : breaksAt config g start = false)
      refine Or.inl ⟨by simp [replacement, hr, hc, hnil],
        by simp [replaceSingleChain, hr, hc, hnil], fun u v huv => ?_⟩
      obtain ⟨start', heq, hb⟩ := hchained u v huv
      exact hbreaks (Option.some.inj heq ▸ hb)

/-- All members of an edge but its name are kept. -/
def CopiedFrom (e e' : ScheduleEdge) : Prop := e'.member = e.member

section Rounds

variable {config : ChainConfig} {g g₀ h : ChainGraph} {c : List Nat} {start n : Nat}
  {path : Nat → List Nat}

theorem Round.contraction (hround : Round config g start c h) (hwf : g.WellFormed) :
    Contraction CopiedFrom g h (chainPath c g.order) := by
  obtain ⟨g', hcontracted, hremoved, -⟩ := hround.inserted
  have hcopy : ∀ e, CopiedFrom e (copiedEdge e) := fun _ => rfl
  exact hround.chain.contraction hwf (fun _ => rfl) hcopy hcontracted hremoved

/-- The vertices of the input behind each vertex when `c` becomes one vertex. -/
def nextPath (c : List Nat) (g : ChainGraph) (path : Nat → List Nat) (w : Nat) : List Nat :=
  (chainPath c g.order w).flatMap path

theorem Round.next (hround : Round config g start c h) (hwf : g.WellFormed)
    (hpath : Contraction CopiedFrom g₀ g path) :
    Contraction CopiedFrom g₀ h (nextPath c g path) :=
  hpath.trans (fun _ _ _ hxy hyz => hyz.trans hxy) (hround.contraction hwf)

/-! ### All rounds -/

/-- The vertices of the input behind each vertex of the result. -/
def contractedPaths (config : ChainConfig) : Nat → ChainGraph → (Nat → List Nat) → Nat → List Nat
  | 0, _, path => path
  | n + 1, g, path =>
    match replacement config g with
    | some (c, h) => contractedPaths config n h (nextPath c g path)
    | none => path

/-- Each round replaces a chain of vertices of the input, none of which a round before made. -/
def ReplacesInput (config : ChainConfig) : Nat → ChainGraph → (Nat → List Nat) → Prop
  | 0, _, _ => True
  | n + 1, g, path =>
    match replacement config g with
    | some (c, h) => (∀ v ∈ c, (path v).length = 1) ∧ ReplacesInput config n h (nextPath c g path)
    | none => True

theorem replaceRounds_spec (config : ChainConfig) (n : Nat) (hwf : g.WellFormed) (hpath : Contraction CopiedFrom g₀ g path) :
    ∃ h result, replaceRounds config n g = some (h, result) ∧
      Contraction CopiedFrom g₀ h (contractedPaths config n g path) ∧
        (result = false → ∀ u v, ¬ Replaceable config h u v) := by
  induction n generalizing g path with
  | zero => exact ⟨g, true, rfl, hpath, fun hfalse => nomatch hfalse⟩
  | succ n ih =>
    rcases replaceSingleChain_spec config hwf with ⟨hnone, hsingle, hleft⟩ |
      ⟨start, c, h, hsome, hsingle, hround⟩
    · refine ⟨g, false, by simp [replaceRounds, hsingle], ?_, fun _ => hleft⟩
      simp only [contractedPaths, hnone]
      exact hpath
    · have hnext := hround.next hwf hpath
      obtain ⟨k, result, hk, hcontraction, hresult⟩ := ih hnext.wellFormed hnext
      refine ⟨k, result, by simp [replaceRounds, hsingle, hk], ?_, hresult⟩
      simp only [contractedPaths, hsome]
      exact hcontraction

end Rounds

end ScheduleCompare
