import BelProjects.DataMaster.Layout
import Mathlib.Logic.Relation

/-!
# Resident flow edges

Before a pattern is removed, the host adds an edge for every flow or switch command that a
cursor can reach, from the command's target block to its destination.  New edges can make
more commands reachable, so this is done in rounds until one adds nothing.
-/

namespace DataMaster.CarpeDM

inductive EqEdgeType where
  | defDst | badDefDst | target | switchDst | flowDst | resFlowDst | dynFlowDst | domFlowDst
  | other (name : String)
  deriving DecidableEq, Repr

structure EqVertex where
  name : String
  type : NodeType
  deriving DecidableEq, Repr

structure EqEdge where
  source : Nat
  target : Nat
  type : EqEdgeType
  deriving DecidableEq, Repr

structure EqGraph where
  vertices : List EqVertex
  edges : List EqEdge
  deriving DecidableEq, Repr

namespace EqGraph

variable (g : EqGraph)

def outEdges (v : Nat) : List EqEdge := g.edges.filter fun e => e.source = v

def inEdges (v : Nat) : List EqEdge := g.edges.filter fun e => e.target = v

def name (v : Nat) : String := (g.vertices[v]?.map EqVertex.name).getD ""

end EqGraph

/-- What a crawl has found, and the covenants with which it has come to each vertex. No covenant
is `null_vertex`. -/
structure Tree where
  sV : List Nat := []
  covenantsPerVertex : List (Nat × Option Nat) := []
  deriving DecidableEq, Repr

/-- The types over which a reverse tree may go on without a limit. -/
def EqEdgeType.isTraversable : EqEdgeType → Bool
  | .defDst | .resFlowDst | .dynFlowDst => true
  | _ => false

/-- No edge but a bad default destination leads from its source to its target. -/
def isOptimisableEdge (e : EqEdge) (g : EqGraph) : Bool :=
  (g.inEdges e.target).all fun cur => !(cur.source == e.source && cur.type != .badDefDst)

/-- The loop of `getReverseNodeTree` over the edges into a vertex; `crawl` is the call for their
sources. -/
def reverseEdges (crawl : Nat → Option Nat → Int → Tree → Option Tree) (g : EqGraph)
    (covenant : Option Nat) (maxNtEdges : Int) : List EqEdge → Int → Tree → Option Tree
  | [], _, tree => some tree
  | e :: es, tNtEdges, tree =>
    if e.type.isTraversable = false ∧ 0 < maxNtEdges ∧ maxNtEdges ≤ tNtEdges then
      reverseEdges crawl g covenant maxNtEdges es tNtEdges tree
    else
      let tNtEdges := if e.type.isTraversable = true then tNtEdges else tNtEdges + 1
      let tree := { tree with sV := e.source :: tree.sV }
      if (e.source, covenant) ∈ tree.covenantsPerVertex then
        reverseEdges crawl g covenant maxNtEdges es tNtEdges tree
      else
        let nextCovenant := if isOptimisableEdge e g = true then some e.source else covenant
        let tree := { tree with covenantsPerVertex := (e.source, nextCovenant) :: tree.covenantsPerVertex }
        (crawl e.source nextCovenant tNtEdges tree).bind
          (reverseEdges crawl g covenant maxNtEdges es tNtEdges)

/-- `getReverseNodeTree`, with a bound for the depth of the calls. -/
def getReverseNodeTree (g : EqGraph) (maxNtEdges : Int) : (fuel : Nat) → (v : Nat) → (covenant : Option Nat) →
    (tNtEdges : Int) → Tree → Option Tree
  | 0, _, _, _, _ => none
  | fuel + 1, v, covenant, tNtEdges, tree =>
    reverseEdges (getReverseNodeTree g maxNtEdges fuel) g covenant maxNtEdges (g.inEdges v) tNtEdges tree

structure ResidentLoop where
  gEq : EqGraph
  dummy : List (Nat × Option Nat)
  addEdge : Bool
  didWork : Bool

/-- `resCmds`, in the order of a set of vertex numbers. -/
def resCmds (gEq : EqGraph) : List Nat :=
  (List.range gEq.vertices.length).filter fun v =>
    gEq.vertices[v]?.any fun x => x.type = .cflow ∨ x.type = .cswitch

def blockOfCommand (gOrig : EqGraph) (vRc : Nat) : Option Nat :=
  ((gOrig.outEdges vRc).filter fun e => e.type = .target).getLast?.map EqEdge.target

def dstOf (gOrig : EqGraph) (vRc : Nat) : Option Nat :=
  ((gOrig.outEdges vRc).filter fun e => e.type = .flowDst ∨ e.type = .switchDst).getLast?.map EqEdge.target

/-- Some resident edge leads out of the block. -/
def hasResident (g : EqGraph) (vBlock : Nat) : Bool := (g.outEdges vBlock).any fun e => e.type = .resFlowDst

def ResidentLoop.start (gEq : EqGraph) : ResidentLoop :=
  { gEq, dummy := [], addEdge := !(resCmds gEq).isEmpty, didWork := false }

/-- Some edge leads from `u` to `v`. -/
def EqGraph.Adj (g : EqGraph) (u v : Nat) : Prop := ∃ e ∈ g.edges, e.source = u ∧ e.target = v

def Marked (covs : List (Nat × Option Nat)) (v : Nat) : Prop := ∃ x, (v, x) ∈ covs

/-- A path of at least one edge, with no marked vertices between its ends. -/
inductive OpenPath (g : EqGraph) (covs : List (Nat × Option Nat)) : Nat → Nat → Prop
  | edge {u v : Nat} : g.Adj u v → OpenPath g covs u v
  | cons {u w v : Nat} : g.Adj u w → ¬ Marked covs w → OpenPath g covs w v → OpenPath g covs u v

/-- All sources of edges into the vertex have been found and marked. -/
def Expanded (g : EqGraph) (tree : Tree) (v : Nat) : Prop :=
  ∀ u, g.Adj u v → u ∈ tree.sV ∧ Marked tree.covenantsPerVertex u

/-- A later tree, in which every new mark is on a vertex that is expanded. -/
structure Grows (g : EqGraph) (tree tree' : Tree) : Prop where
  sV : tree.sV ⊆ tree'.sV
  covs : tree.covenantsPerVertex ⊆ tree'.covenantsPerVertex
  expanded : ∀ w, Marked tree'.covenantsPerVertex w → ¬ Marked tree.covenantsPerVertex w →
    Expanded g tree' w

theorem Marked.mono {covs covs' : List (Nat × Option Nat)} {v : Nat} (hsub : covs ⊆ covs')
    (h : Marked covs v) : Marked covs' v := by
  obtain ⟨x, hx⟩ := h
  exact ⟨x, hsub hx⟩

variable {g : EqGraph} {tree tree' tree'' : Tree}

theorem Expanded.mono {v : Nat} (h : Expanded g tree v) (hsV : tree.sV ⊆ tree'.sV)
    (hcovs : tree.covenantsPerVertex ⊆ tree'.covenantsPerVertex) : Expanded g tree' v := by
  intro u hu
  obtain ⟨hfound, hmarked⟩ := h u hu
  exact ⟨hsV hfound, hmarked.mono hcovs⟩

theorem Grows.refl : Grows g tree tree :=
  ⟨List.Subset.refl _, List.Subset.refl _, fun _ hw hnot => absurd hw hnot⟩

theorem Grows.trans (h : Grows g tree tree') (h' : Grows g tree' tree'') : Grows g tree tree'' := by
  refine ⟨List.Subset.trans h.sV h'.sV, List.Subset.trans h.covs h'.covs, fun w hw hnot => ?_⟩
  by_cases hmid : Marked tree'.covenantsPerVertex w
  · exact (h.expanded w hmid hnot).mono h'.sV h'.covs
  · exact h'.expanded w hw hmid

theorem reverseEdges_grows {crawl : Nat → Option Nat → Int → Tree → Option Tree} {covenant : Option Nat}
    (hcrawl : ∀ v x n tree tree', crawl v x n tree = some tree' →
      Grows g tree tree' ∧ Expanded g tree' v) :
    ∀ (es : List EqEdge) (n : Int) (tree tree' : Tree),
      reverseEdges crawl g covenant (-1) es n tree = some tree' →
      Grows g tree tree' ∧
        ∀ e ∈ es, e.source ∈ tree'.sV ∧ Marked tree'.covenantsPerVertex e.source := by
  intro es
  induction es with
  | nil =>
      intro n tree tree' h
      obtain rfl := Option.some.inj h
      exact ⟨Grows.refl, fun e he => absurd he List.not_mem_nil⟩
  | cons e es ih =>
      intro n tree tree' h
      have hlimit : ¬ (e.type.isTraversable = false ∧ 0 < (-1 : Int) ∧ -1 ≤ n) := by
        rintro ⟨-, hpos, -⟩
        exact absurd hpos (by decide)
      rw [reverseEdges, if_neg hlimit] at h
      dsimp only at h
      have hfound : Grows g tree { tree with sV := e.source :: tree.sV } :=
        ⟨List.subset_cons_self _ _, List.Subset.refl _,
          fun _ hw hnot => absurd hw hnot⟩
      by_cases hvisited : (e.source, covenant) ∈ tree.covenantsPerVertex
      · rw [if_pos hvisited] at h
        obtain ⟨hgrows, hrest⟩ := ih _ _ _ h
        refine ⟨hfound.trans hgrows, fun e' he' => ?_⟩
        rcases List.mem_cons.mp he' with rfl | he'
        · exact ⟨hgrows.sV List.mem_cons_self, Marked.mono hgrows.covs ⟨covenant, hvisited⟩⟩
        · exact hrest e' he'
      · rw [if_neg hvisited] at h
        obtain ⟨mid, hcall, hloop⟩ := Option.bind_eq_some_iff.mp h
        obtain ⟨hmid, hsource⟩ := hcrawl _ _ _ _ _ hcall
        obtain ⟨hgrows, hrest⟩ := ih _ _ _ hloop
        have hmarked : Marked mid.covenantsPerVertex e.source :=
          ⟨_, hmid.covs List.mem_cons_self⟩
        have hstep : Grows g tree mid := by
          refine ⟨List.Subset.trans (List.subset_cons_self _ _) hmid.sV,
            List.Subset.trans (List.subset_cons_self _ _) hmid.covs, fun w hw hnot => ?_⟩
          by_cases hw' : w = e.source
          · rw [hw']
            exact hsource
          · refine hmid.expanded w hw ?_
            rintro ⟨x, hx⟩
            rcases List.mem_cons.mp hx with heq | hx
            · exact hw' (congrArg Prod.fst heq)
            · exact hnot ⟨x, hx⟩
        refine ⟨hstep.trans hgrows, fun e' he' => ?_⟩
        rcases List.mem_cons.mp he' with rfl | he'
        · exact ⟨hgrows.sV (hmid.sV List.mem_cons_self), hmarked.mono hgrows.covs⟩
        · exact hrest e' he'

theorem getReverseNodeTree_grows (fuel : Nat) : ∀ (v : Nat) (x : Option Nat) (n : Int) (tree tree' : Tree),
    getReverseNodeTree g (-1) fuel v x n tree = some tree' → Grows g tree tree' ∧ Expanded g tree' v := by
  induction fuel with
  | zero =>
      intro v x n tree tree' h
      exact absurd h.symm (Option.some_ne_none tree')
  | succ fuel ih =>
      intro v x n tree tree' h
      obtain ⟨hgrows, hedges⟩ := reverseEdges_grows ih _ _ _ _ h
      refine ⟨hgrows, ?_⟩
      rintro u ⟨e, he, rfl, htarget⟩
      exact hedges e (List.mem_filter.mpr ⟨he, decide_eq_true htarget⟩)

/-- **A crawl finds** every vertex from which a path leads over vertices without marks. -/
theorem OpenPath.found {fuel v k : Nat} {x : Option Nat} {n : Int}
    (h : OpenPath g tree.covenantsPerVertex k v)
    (hcrawl : getReverseNodeTree g (-1) fuel v x n tree = some tree') : k ∈ tree'.sV := by
  obtain ⟨hgrows, hexpanded⟩ := getReverseNodeTree_grows fuel _ _ _ _ _ hcrawl
  have hboth : k ∈ tree'.sV ∧ Marked tree'.covenantsPerVertex k := by
    induction h with
    | edge hadj => exact hexpanded _ hadj
    | cons hadj hnot _ ih => exact hgrows.expanded _ (ih hcrawl hexpanded).2 hnot _ hadj
  exact hboth.1

/-! ### Complete graphs -/

/-- A default, dynamic or resident edge. -/
def EqGraph.Flow (g : EqGraph) (u v : Nat) : Prop :=
  ∃ e ∈ g.edges, e.source = u ∧ e.target = v ∧ e.type.isTraversable = true

/-- The vertex is a cursor or can be reached from one. -/
def Live (g : EqGraph) (cursors : List Nat) (v : Nat) : Prop :=
  ∃ k ∈ cursors, Relation.ReflTransGen g.Flow k v

def HasOwnEdge (g gOrig : EqGraph) (vRc : Nat) : Prop :=
  ∃ vBlock vDst, blockOfCommand gOrig vRc = some vBlock ∧ dstOf gOrig vRc = some vDst ∧
    ⟨vBlock, vDst, .resFlowDst⟩ ∈ g.edges

/-- Every live command has its resident edge. -/
def Complete (g gOrig : EqGraph) (cursors cmds : List Nat) : Prop :=
  ∀ vRc ∈ cmds, Live g cursors vRc → HasOwnEdge g gOrig vRc

/-- A crawl for the command does not miss it.  If the command is live and its block has resident
edges, one of them goes to its destination; and if its block has none, a cursor reaches the
command over vertices that no crawl has marked before. -/
def Clear (s : ResidentLoop) (gOrig : EqGraph) (cursors : List Nat) (vRc : Nat) : Prop :=
  Live s.gEq cursors vRc →
    (∀ vBlock, blockOfCommand gOrig vRc = some vBlock → hasResident s.gEq vBlock = true →
      ∃ vDst, dstOf gOrig vRc = some vDst ∧ ⟨vBlock, vDst, .resFlowDst⟩ ∈ s.gEq.edges) ∧
    ((∀ vBlock, blockOfCommand gOrig vRc = some vBlock → hasResident s.gEq vBlock = false) →
      ∃ k ∈ cursors, OpenPath s.gEq s.dummy k vRc)

section Rounds

variable {gOrig : EqGraph} {cursors : List Nat} {fuel vRc : Nat} {s s' : ResidentLoop}

end Rounds

end DataMaster.CarpeDM
