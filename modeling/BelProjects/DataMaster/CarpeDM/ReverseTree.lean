import BelProjects.DataMaster.CarpeDM.ResidentEdges
import BelProjects.Library.Ranks
import Mathlib.Data.Finset.Prod
import Mathlib.Data.Finset.Image

/-!
# Reverse trees

The check of a removal crawls a graph backward.  Which edges a vertex has first is up to the
container, so a crawl should find and mark the same, whatever the order of the edges.
-/

namespace DataMaster.CarpeDM

open Relation

/-- The arguments of the outermost call of `getReverseNodeTree`. -/
structure ReverseCall where
  v : Nat
  covenant : Option Nat
  maxNtEdges : Int
  tNtEdges : Int
  tree : Tree

/-- The limit does not keep the crawl from an edge, `n` crossed edges behind the start. -/
def Crosses (maxNtEdges : Int) (e : EqEdge) (n : Int) : Prop :=
  e.type.isTraversable = true ∨ maxNtEdges ≤ 0 ∨ n < maxNtEdges

def nextCovenant (g : EqGraph) (e : EqEdge) (covenant : Option Nat) : Option Nat :=
  if isOptimisableEdge e g = true then some e.source else covenant

section Orderly

variable (g : EqGraph) (s : ReverseCall) (count : Nat → Option Nat → Int)

/-- The crawl comes to the vertex with the covenant, if `count` edges that are not traversable
are crossed by then. -/
inductive Comes : Nat → Option Nat → Prop
  | start : Comes s.v s.covenant
  | step {v : Nat} {covenant : Option Nat} {e : EqEdge} : Comes v covenant → e ∈ g.inEdges v →
      Crosses s.maxNtEdges e (count v covenant) → (e.source, covenant) ∉ s.tree.covenantsPerVertex →
      Comes e.source (nextCovenant g e covenant)

/-- The crawl finds the source of the edge. -/
structure Uses (v : Nat) (covenant : Option Nat) (e : EqEdge) : Prop where
  comes : Comes g s count v covenant
  edge : e ∈ g.inEdges v
  crosses : Crosses s.maxNtEdges e (count v covenant)

/-- The crawl goes on from the source of the edge. -/
structure Enters (v : Nat) (covenant : Option Nat) (e : EqEdge) : Prop extends
    Uses g s count v covenant e where
  unmarked : (e.source, covenant) ∉ s.tree.covenantsPerVertex

/-- From a vertex that is a covenant itself, the crawl goes on to another one. -/
def Optimised (u w : Nat) : Prop :=
  ∃ e, Enters g s count u (some u) e ∧ isOptimisableEdge e g = true ∧ e.source = w ∧ w ≠ u

/-- Nothing that the crawl does depends on the order of the edges. -/
structure Orderly : Prop where
  start : count s.v s.covenant = s.tNtEdges
  /-- A counted edge has no siblings that would be counted on. -/
  alone : 0 < s.maxNtEdges → ∀ v covenant e, Uses g s count v covenant e →
    e.type.isTraversable = false → g.inEdges v = [e]
  /-- All ways to a vertex cross equally many edges that are counted. -/
  joined : 0 < s.maxNtEdges → ∀ v covenant e, Enters g s count v covenant e →
    count e.source (nextCovenant g e covenant) =
      if e.type.isTraversable = true then count v covenant else count v covenant + 1
  /-- A vertex that is entered as a covenant is not entered in another way under the covenant
  that is looked for. -/
  unmixed : ∀ v w covenant e e', Enters g s count v covenant e → isOptimisableEdge e g = true →
    covenant ≠ some e.source → Uses g s count w covenant e' → e'.source = e.source →
    isOptimisableEdge e' g = true
  /-- The crawl does not go around in covenants. -/
  acyclic : ∀ u, ¬ TransGen (Optimised g s count) u u

end Orderly

/-! ### What has been started -/

section Crawl

variable {g g' : EqGraph} {s : ReverseCall} {count : Nat → Option Nat → Int}
variable {tree tree' tree'' : Tree} {S S' S'' : Set (Nat × Option Nat)}

/-- What a crawl may have found and marked once the pairs of `S` are started. -/
structure Within (g : EqGraph) (s : ReverseCall) (count : Nat → Option Nat → Int) (tree : Tree)
    (S : Set (Nat × Option Nat)) : Prop where
  comes : ∀ p ∈ S, Comes g s count p.1 p.2
  keeps : s.tree.sV ⊆ tree.sV ∧ s.tree.covenantsPerVertex ⊆ tree.covenantsPerVertex
  sV : ∀ x ∈ tree.sV, x ∈ s.tree.sV ∨ ∃ v covenant e, Uses g s count v covenant e ∧ e.source = x
  covs : ∀ p ∈ tree.covenantsPerVertex, p ∈ s.tree.covenantsPerVertex ∨
    (p ∈ S ∧ ∃ v covenant e, Enters g s count v covenant e ∧ (e.source, nextCovenant g e covenant) = p)

/-- The source of the edge is found, and marked unless it was marked before. -/
def Followed (g : EqGraph) (s : ReverseCall) (tree : Tree) (S : Set (Nat × Option Nat))
    (covenant : Option Nat) (e : EqEdge) : Prop :=
  e.source ∈ tree.sV ∧ ((e.source, covenant) ∈ s.tree.covenantsPerVertex ∨
    ((e.source, nextCovenant g e covenant) ∈ tree.covenantsPerVertex ∧
      (e.source, nextCovenant g e covenant) ∈ S))

def Done (g : EqGraph) (s : ReverseCall) (count : Nat → Option Nat → Int) (tree : Tree)
    (S : Set (Nat × Option Nat)) (v : Nat) (covenant : Option Nat) : Prop :=
  ∀ e, Uses g s count v covenant e → Followed g s tree S covenant e

/-- A later tree, in which all that has been started since is done. -/
structure Extends (g : EqGraph) (s : ReverseCall) (count : Nat → Option Nat → Int) (tree : Tree)
    (S : Set (Nat × Option Nat)) (tree' : Tree) (S' : Set (Nat × Option Nat)) : Prop where
  sV : tree.sV ⊆ tree'.sV
  covs : tree.covenantsPerVertex ⊆ tree'.covenantsPerVertex
  started : S ⊆ S'
  done : ∀ p ∈ S', p ∈ S ∨ Done g s count tree' S' p.1 p.2

theorem Followed.mono {covenant : Option Nat} {e : EqEdge} (h : Followed g s tree S covenant e)
    (hsV : tree.sV ⊆ tree'.sV) (hcovs : tree.covenantsPerVertex ⊆ tree'.covenantsPerVertex)
    (hS : S ⊆ S') : Followed g s tree' S' covenant e := by
  obtain ⟨hfound, hmarked⟩ := h
  refine ⟨hsV hfound, ?_⟩
  rcases hmarked with hbefore | ⟨hmark, hstarted⟩
  · exact Or.inl hbefore
  · exact Or.inr ⟨hcovs hmark, hS hstarted⟩

theorem Extends.refl : Extends g s count tree S tree S :=
  ⟨List.Subset.refl _, List.Subset.refl _, subset_rfl, fun _ hp => Or.inl hp⟩

theorem Extends.trans (h : Extends g s count tree S tree' S')
    (h' : Extends g s count tree' S' tree'' S'') : Extends g s count tree S tree'' S'' := by
  refine ⟨List.Subset.trans h.sV h'.sV, List.Subset.trans h.covs h'.covs,
    h.started.trans h'.started, ?_⟩
  intro p hp
  rcases h'.done p hp with hp' | hdone
  · rcases h.done p hp' with hp'' | hdone
    · exact Or.inl hp''
    · exact Or.inr fun e he => (hdone e he).mono h'.sV h'.covs h'.started
  · exact Or.inr hdone

theorem Extends.drop {p : Nat × Option Nat} (h : Extends g s count tree (insert p S) tree' S')
    (hdone : Done g s count tree' S' p.1 p.2) : Extends g s count tree S tree' S' := by
  refine ⟨h.sV, h.covs, (Set.subset_insert p S).trans h.started, ?_⟩
  intro q hq
  rcases h.done q hq with (rfl | hq') | hdone'
  · exact Or.inr hdone
  · exact Or.inl hq'
  · exact Or.inr hdone'

theorem Within.start_pair (h : Within g s count tree S) {p : Nat × Option Nat}
    (hp : Comes g s count p.1 p.2) : Within g s count tree (insert p S) := by
  refine ⟨?_, h.keeps, h.sV, ?_⟩
  · rintro q (rfl | hq)
    · exact hp
    · exact h.comes q hq
  · intro q hq
    rcases h.covs q hq with hbefore | ⟨hstarted, hentered⟩
    · exact Or.inl hbefore
    · exact Or.inr ⟨Or.inr hstarted, hentered⟩

theorem Within.find (h : Within g s count tree S) {v : Nat} {covenant : Option Nat} {e : EqEdge}
    (he : Uses g s count v covenant e) :
    Within g s count { tree with sV := e.source :: tree.sV } S := by
  refine ⟨h.comes, ⟨List.Subset.trans h.keeps.1 (List.subset_cons_self _ _), h.keeps.2⟩, ?_, h.covs⟩
  intro x hx
  rcases List.mem_cons.1 hx with rfl | hx
  · exact Or.inr ⟨v, covenant, e, he, rfl⟩
  · exact h.sV x hx

theorem Within.mark (h : Within g s count tree S) {v : Nat} {covenant : Option Nat} {e : EqEdge}
    (he : Enters g s count v covenant e) :
    Within g s count
      { tree with
        covenantsPerVertex := (e.source, nextCovenant g e covenant) :: tree.covenantsPerVertex }
      (insert (e.source, nextCovenant g e covenant) S) := by
  have hcomes : Comes g s count e.source (nextCovenant g e covenant) :=
    .step he.comes he.edge he.crosses he.unmarked
  have hstart := h.start_pair (p := (e.source, nextCovenant g e covenant)) hcomes
  refine ⟨hstart.comes, ⟨h.keeps.1, List.Subset.trans h.keeps.2 (List.subset_cons_self _ _)⟩,
    h.sV, ?_⟩
  intro p hp
  rcases List.mem_cons.1 hp with rfl | hp
  · exact Or.inr ⟨Or.inl rfl, v, covenant, e, he, rfl⟩
  · exact hstart.covs p hp

/-- A source that is marked with the covenant was marked before, or the crawl has gone on from
it in the way it would go on now. -/
theorem Within.followed (h : Within g s count tree S) (ho : Orderly g s count) {v : Nat}
    {covenant : Option Nat} {e : EqEdge} (he : Uses g s count v covenant e)
    (hfound : e.source ∈ tree.sV) (hmarked : (e.source, covenant) ∈ tree.covenantsPerVertex) :
    Followed g s tree S covenant e := by
  refine ⟨hfound, ?_⟩
  by_cases hbefore : (e.source, covenant) ∈ s.tree.covenantsPerVertex
  · exact Or.inl hbefore
  · right
    obtain ⟨hstarted, w, d, e', he', heq⟩ := (h.covs _ hmarked).resolve_left hbefore
    obtain ⟨hsource, hnext⟩ := Prod.mk.inj heq
    have hsame : nextCovenant g e covenant = covenant := by
      unfold nextCovenant
      split
      next hopt =>
        by_contra hne
        -- the mark is not the one of an optimisable edge, so its edge is of another kind
        by_cases hopt' : isOptimisableEdge e' g = true
        · rw [nextCovenant, if_pos hopt', hsource] at hnext
          exact hne hnext
        · rw [nextCovenant, if_neg hopt'] at hnext
          rw [hnext] at he'
          exact hopt' (ho.unmixed v w covenant e e' ⟨he, hbefore⟩ hopt (Ne.symm hne)
            he'.toUses hsource)
      next => rfl
    rw [hsame]
    exact ⟨hmarked, hstarted⟩

/-! ### How far a crawl is from its end -/

def EqGraph.sources (g : EqGraph) : Finset Nat := (g.edges.map EqEdge.source).toFinset

def allMarks (g : EqGraph) (s : ReverseCall) : Finset (Nat × Option Nat) :=
  g.sources ×ˢ insert s.covenant (g.sources.image some)

local instance lawfulBEq_mark : LawfulBEq (Nat × Option Nat) := inferInstance

def unset (g : EqGraph) (s : ReverseCall) (tree : Tree) : Nat :=
  ((allMarks g s).filter fun p => p ∉ tree.covenantsPerVertex).card

def pairRank (g : EqGraph) (rank : Nat → Nat) (v : Nat) (covenant : Option Nat) : Nat :=
  if covenant = some v then rank v else g.sources.card + 1

/-- Calls set a mark or go down in rank. -/
def callSize (g : EqGraph) (s : ReverseCall) (rank : Nat → Nat) (tree : Tree) (v : Nat)
    (covenant : Option Nat) : Nat :=
  unset g s tree * (g.sources.card + 2) + pairRank g rank v covenant

theorem mem_sources {v : Nat} {e : EqEdge} (he : e ∈ g.inEdges v) : e.source ∈ g.sources :=
  List.mem_toFinset.2 (List.mem_map_of_mem (List.mem_filter.1 he).1)

theorem Comes.covenant_mem {v : Nat} {covenant : Option Nat} (h : Comes g s count v covenant) :
    covenant ∈ insert s.covenant (g.sources.image some) := by
  induction h with
  | start => exact Finset.mem_insert_self _ _
  | step _ he _ _ ih =>
    unfold nextCovenant
    split
    · exact Finset.mem_insert_of_mem (Finset.mem_image_of_mem some (mem_sources he))
    · exact ih

theorem Enters.mem_allMarks {v : Nat} {covenant : Option Nat} {e : EqEdge}
    (h : Enters g s count v covenant e) : (e.source, nextCovenant g e covenant) ∈ allMarks g s := by
  have hcomes : Comes g s count e.source (nextCovenant g e covenant) :=
    .step h.comes h.edge h.crosses h.unmarked
  exact Finset.mem_product.2 ⟨mem_sources h.edge, hcomes.covenant_mem⟩

theorem unset_mono (h : tree.covenantsPerVertex ⊆ tree'.covenantsPerVertex) :
    unset g s tree' ≤ unset g s tree := by
  apply Finset.card_le_card
  intro p hp
  obtain ⟨hin, hnot⟩ := Finset.mem_filter.1 hp
  exact Finset.mem_filter.2 ⟨hin, fun hp' => hnot (h hp')⟩

theorem unset_lt {p : Nat × Option Nat} (hp : p ∈ allMarks g s) (hnew : p ∉ tree.covenantsPerVertex)
    (hmarks : tree'.covenantsPerVertex = p :: tree.covenantsPerVertex) :
    unset g s tree' < unset g s tree := by
  apply Finset.card_lt_card
  rw [Finset.ssubset_iff_of_subset]
  · refine ⟨p, Finset.mem_filter.2 ⟨hp, hnew⟩, ?_⟩
    intro hp'
    exact (Finset.mem_filter.1 hp').2 (hmarks ▸ List.mem_cons_self)
  · intro q hq
    obtain ⟨hin, hnot⟩ := Finset.mem_filter.1 hq
    exact Finset.mem_filter.2 ⟨hin, fun hq' => hnot (hmarks ▸ List.mem_cons_of_mem p hq')⟩

theorem callSize_lt {rank : Nat → Nat} (hle : ∀ v, rank v ≤ g.sources.card)
    (hrank : ∀ u w, Optimised g s count u w → rank w < rank u) {v : Nat} {covenant : Option Nat}
    {e : EqEdge} (he : Enters g s count v covenant e)
    (hnew : (e.source, covenant) ∉ tree.covenantsPerVertex)
    (hmarks : tree'.covenantsPerVertex =
      (e.source, nextCovenant g e covenant) :: tree.covenantsPerVertex) :
    callSize g s rank tree' e.source (nextCovenant g e covenant) < callSize g s rank tree v covenant := by
  unfold callSize
  have hbound : ∀ w d, pairRank g rank w d < g.sources.card + 2 := by
    intro w d
    unfold pairRank
    split
    · exact Nat.lt_of_le_of_lt (hle w) (by omega)
    · omega
  by_cases hset : (e.source, nextCovenant g e covenant) ∈ tree.covenantsPerVertex
  · -- the mark is there already, so the edge is optimisable
    have hopt : isOptimisableEdge e g = true := by
      by_contra hopt
      rw [nextCovenant, if_neg hopt] at hset
      exact hnew hset
    have hnext : nextCovenant g e covenant = some e.source := if_pos hopt
    have hne : covenant ≠ some e.source := by
      rintro rfl
      rw [hnext] at hset
      exact hnew hset
    have hsame : unset g s tree' ≤ unset g s tree := by
      apply unset_mono
      rw [hmarks]
      exact List.subset_cons_self _ _
    have hlt : pairRank g rank e.source (nextCovenant g e covenant) < pairRank g rank v covenant := by
      have hleft : pairRank g rank e.source (nextCovenant g e covenant) = rank e.source :=
        if_pos hnext
      rw [hleft]
      unfold pairRank
      split
      next hself =>
        subst hself
        exact hrank v e.source ⟨e, he, hopt, rfl, fun hv => hne (by rw [hv])⟩
      next => exact Nat.lt_succ_of_le (hle e.source)
    exact Nat.add_lt_add_of_le_of_lt (Nat.mul_le_mul_right _ hsame) hlt
  · have hlt := unset_lt he.mem_allMarks hset hmarks
    have hmul := Nat.mul_le_mul_right (g.sources.card + 2) (Nat.succ_le_of_lt hlt)
    rw [Nat.succ_mul] at hmul
    have hsmall := hbound e.source (nextCovenant g e covenant)
    omega

theorem callSize_mono {rank : Nat → Nat} {v : Nat} {covenant : Option Nat}
    (h : tree.covenantsPerVertex ⊆ tree'.covenantsPerVertex) :
    callSize g s rank tree' v covenant ≤ callSize g s rank tree v covenant :=
  Nat.add_le_add_right (Nat.mul_le_mul_right _ (unset_mono h)) _

/-! ### The crawl comes to its end -/

/-- The crawl of a graph, the edges of which are in another order, from one vertex that it comes
to, does all it should. -/
def Finishes (g : EqGraph) (s : ReverseCall) (count : Nat → Option Nat → Int)
    (crawl : Nat → Option Nat → Int → Tree → Option Tree) (v : Nat) (covenant : Option Nat) (n : Int)
    (tree : Tree) (S : Set (Nat × Option Nat)) : Prop :=
  ∃ tree' S', crawl v covenant n tree = some tree' ∧ Within g s count tree' S' ∧
    Extends g s count tree S tree' S' ∧ Done g s count tree' S' v covenant

section Loop

variable {rank : Nat → Nat} {size : Nat} {crawl : Nat → Option Nat → Int → Tree → Option Tree}

theorem reverseEdges_finishes (ho : Orderly g s count)
    (hsame : ∀ e, isOptimisableEdge e g' = isOptimisableEdge e g)
    (hle : ∀ v, rank v ≤ g.sources.card) (hrank : ∀ u w, Optimised g s count u w → rank w < rank u)
    (hcrawl : ∀ v covenant n tree S, (0 < s.maxNtEdges → n = count v covenant) →
      Within g s count tree S → (v, covenant) ∈ S → callSize g s rank tree v covenant < size →
      Finishes g s count crawl v covenant n tree S)
    {v : Nat} {covenant : Option Nat} (hv : Comes g s count v covenant) :
    ∀ (es : List EqEdge), (∀ e ∈ es, e ∈ g.inEdges v) → es.length ≤ (g.inEdges v).length →
      ∀ (n : Int) (tree : Tree) (S : Set (Nat × Option Nat)),
        (0 < s.maxNtEdges → n = count v covenant ∨ es = []) → Within g s count tree S →
        callSize g s rank tree v covenant < size + 1 →
        ∃ tree' S', reverseEdges crawl g' covenant s.maxNtEdges es n tree = some tree' ∧
          Within g s count tree' S' ∧ Extends g s count tree S tree' S' ∧
          ∀ e ∈ es, Uses g s count v covenant e → Followed g s tree' S' covenant e := by
  intro es
  induction es with
  | nil =>
    intro _ _ n tree S _ hwithin _
    exact ⟨tree, S, rfl, hwithin, Extends.refl, fun e he => absurd he List.not_mem_nil⟩
  | cons e es ih =>
    intro hedges hlen n tree S hcount hwithin hsize
    have hedge : e ∈ g.inEdges v := hedges e List.mem_cons_self
    have hedges' : ∀ e ∈ es, e ∈ g.inEdges v := fun e he => hedges e (List.mem_cons_of_mem _ he)
    have hlen' : es.length ≤ (g.inEdges v).length := Nat.le_of_succ_le hlen
    have hn : 0 < s.maxNtEdges → n = count v covenant := fun hpos =>
      (hcount hpos).resolve_right (List.cons_ne_nil e es)
    by_cases hrefused : e.type.isTraversable = false ∧ 0 < s.maxNtEdges ∧ s.maxNtEdges ≤ n
    · -- the limit is reached
      have hnot : ¬ Crosses s.maxNtEdges e (count v covenant) := by
        obtain ⟨htype, hpos, hlim⟩ := hrefused
        rw [hn hpos] at hlim
        rintro (htrav | hmax | hlt)
        · rw [htype] at htrav
          cases htrav
        · omega
        · omega
      obtain ⟨tree', S', hrun, hwithin', hext, hrest⟩ := ih hedges' hlen' n tree S
        (fun hpos => Or.inl (hn hpos)) hwithin hsize
      refine ⟨tree', S', ?_, hwithin', hext, ?_⟩
      · rw [reverseEdges, if_pos hrefused]
        exact hrun
      · intro e' he' huses
        rcases List.mem_cons.1 he' with rfl | he'
        · exact absurd huses.crosses hnot
        · exact hrest e' he' huses
    · have hcross : Crosses s.maxNtEdges e (count v covenant) := by
        by_contra hnot
        unfold Crosses at hnot
        push Not at hnot
        obtain ⟨htype, hpos, hlim⟩ := hnot
        exact hrefused ⟨Bool.eq_false_iff.2 htype, hpos, (hn hpos) ▸ hlim⟩
      have huses : Uses g s count v covenant e := ⟨hv, hedge, hcross⟩
      have hn' : 0 < s.maxNtEdges →
          (if e.type.isTraversable = true then n else n + 1) = count v covenant ∨ es = [] := by
        intro hpos
        by_cases htype : e.type.isTraversable = true
        · rw [if_pos htype]
          exact Or.inl (hn hpos)
        · right
          rw [ho.alone hpos v covenant e huses (Bool.eq_false_iff.2 htype)] at hlen
          exact List.length_eq_zero_iff.1 (Nat.le_zero.1 (Nat.le_of_succ_le_succ hlen))
      have hfind := hwithin.find huses
      have hgrows : Extends g s count tree S { tree with sV := e.source :: tree.sV } S :=
        ⟨List.subset_cons_self _ _, List.Subset.refl _, subset_rfl, fun _ hp => Or.inl hp⟩
      by_cases hmarked : (e.source, covenant) ∈ tree.covenantsPerVertex
      · have hfollowed : Followed g s { tree with sV := e.source :: tree.sV } S covenant e :=
          hfind.followed ho huses List.mem_cons_self hmarked
        obtain ⟨tree', S', hrun, hwithin', hext, hrest⟩ := ih hedges' hlen' _ _ S hn' hfind hsize
        refine ⟨tree', S', ?_, hwithin', hgrows.trans hext, ?_⟩
        · rw [reverseEdges, if_neg hrefused]
          dsimp only
          rw [if_pos hmarked]
          exact hrun
        · intro e' he' huses'
          rcases List.mem_cons.1 he' with rfl | he'
          · exact hfollowed.mono hext.sV hext.covs hext.started
          · exact hrest e' he' huses'
      · have henters : Enters g s count v covenant e :=
          ⟨huses, fun hbefore => hmarked (hwithin.keeps.2 hbefore)⟩
        obtain ⟨next, hnextdef⟩ : ∃ next, nextCovenant g e covenant = next := ⟨_, rfl⟩
        have hmark : Within g s count ⟨e.source :: tree.sV, (e.source, next) :: tree.covenantsPerVertex⟩
            (insert (e.source, next) S) := hnextdef ▸ hfind.mark henters
        have hcall : callSize g s rank
            ⟨e.source :: tree.sV, (e.source, next) :: tree.covenantsPerVertex⟩ e.source next <
              callSize g s rank tree v covenant := by
          rw [← hnextdef]
          exact callSize_lt hle hrank henters hmarked rfl
        have hnext : 0 < s.maxNtEdges → (if e.type.isTraversable = true then n else n + 1) =
            count e.source next := by
          intro hpos
          rw [← hnextdef, ho.joined hpos v covenant e henters, hn hpos]
        obtain ⟨mid, T, hrun, hwithinT, hextT, hdone⟩ := hcrawl e.source next _ _ _ hnext hmark
          (Set.mem_insert _ _) (by omega)
        have hgrows' : Extends g s count tree S mid T := by
          have hdrop : Extends g s count _ S mid T := hextT.drop hdone
          exact ⟨List.Subset.trans (List.subset_cons_self _ _) hdrop.sV,
            List.Subset.trans (List.subset_cons_self _ _) hdrop.covs, hdrop.started, hdrop.done⟩
        have hfollowed : Followed g s mid T covenant e := by
          refine ⟨hextT.sV List.mem_cons_self, Or.inr ?_⟩
          rw [hnextdef]
          exact ⟨hextT.covs List.mem_cons_self, hextT.started (Set.mem_insert _ _)⟩
        obtain ⟨tree', S', hloop, hwithin', hext, hrest⟩ := ih hedges' hlen' _ mid T hn' hwithinT
          (Nat.lt_of_le_of_lt (callSize_mono hgrows'.covs) hsize)
        refine ⟨tree', S', ?_, hwithin', hgrows'.trans hext, ?_⟩
        · have hcode : (if isOptimisableEdge e g' = true then some e.source else covenant) = next := by
            rw [hsame]
            exact hnextdef
          rw [reverseEdges, if_neg hrefused]
          dsimp only
          rw [if_neg hmarked, hcode, hrun]
          exact hloop
        · intro e' he' huses'
          rcases List.mem_cons.1 he' with rfl | he'
          · exact hfollowed.mono hext.sV hext.covs hext.started
          · exact hrest e' he' huses'

theorem getReverseNodeTree_finishes (ho : Orderly g s count) (hperm : g'.edges.Perm g.edges)
    (hle : ∀ v, rank v ≤ g.sources.card) (hrank : ∀ u w, Optimised g s count u w → rank w < rank u)
    (fuel : Nat) :
    ∀ v covenant n tree S, (0 < s.maxNtEdges → n = count v covenant) → Within g s count tree S →
      (v, covenant) ∈ S → callSize g s rank tree v covenant < fuel →
      Finishes g s count (getReverseNodeTree g' s.maxNtEdges fuel) v covenant n tree S := by
  induction fuel with
  | zero =>
    intro v covenant n tree S _ _ _ hsize
    exact absurd hsize (Nat.not_lt_zero _)
  | succ fuel ih =>
    intro v covenant n tree S hn hwithin hstarted hsize
    have hin : (g'.inEdges v).Perm (g.inEdges v) := hperm.filter _
    have hsame : ∀ e, isOptimisableEdge e g' = isOptimisableEdge e g := by
      intro e
      unfold isOptimisableEdge
      exact (hperm.filter _).all_eq
    obtain ⟨tree', S', hrun, hwithin', hext, hdone⟩ := reverseEdges_finishes ho hsame hle hrank ih
      (hwithin.comes _ hstarted) (g'.inEdges v) (fun e he => hin.mem_iff.1 he) hin.length_eq.le n tree S
      (fun hpos => Or.inl (hn hpos)) hwithin hsize
    exact ⟨tree', S', hrun, hwithin', hext, fun e he => hdone e (hin.mem_iff.2 he.edge) he⟩

end Loop

theorem Extends.comes (h : Extends g s count s.tree {(s.v, s.covenant)} tree S)
    (hdone : Done g s count tree S s.v s.covenant) {v : Nat} {covenant : Option Nat}
    (hv : Comes g s count v covenant) : (v, covenant) ∈ S ∧ Done g s count tree S v covenant := by
  have hall : ∀ p ∈ S, Done g s count tree S p.1 p.2 := by
    intro p hp
    rcases h.done p hp with rfl | hdone'
    · exact hdone
    · exact hdone'
  induction hv with
  | start => exact ⟨h.started rfl, hdone⟩
  | step hv he hcross hnot ih =>
    obtain ⟨-, hmarked⟩ := ih.2 _ ⟨hv, he, hcross⟩
    have hin := (hmarked.resolve_left hnot).2
    exact ⟨hin, hall _ hin⟩

def foundBy (g : EqGraph) (s : ReverseCall) (count : Nat → Option Nat → Int) : Set Nat :=
  {x | x ∈ s.tree.sV ∨ ∃ v covenant e, Uses g s count v covenant e ∧ e.source = x}

def markedBy (g : EqGraph) (s : ReverseCall) (count : Nat → Option Nat → Int) :
    Set (Nat × Option Nat) :=
  {p | p ∈ s.tree.covenantsPerVertex ∨
    ∃ v covenant e, Enters g s count v covenant e ∧ (e.source, nextCovenant g e covenant) = p}

/-- The result of a crawl that nothing of the order matters for. -/
theorem getReverseNodeTree_spec (ho : Orderly g s count) :
    ∃ fuel, ∀ g' : EqGraph, g'.edges.Perm g.edges →
      ∃ tree, getReverseNodeTree g' s.maxNtEdges fuel s.v s.covenant s.tNtEdges s.tree = some tree ∧
        {x | x ∈ tree.sV} = foundBy g s count ∧
        {p | p ∈ tree.covenantsPerVertex} = markedBy g s count := by
  obtain ⟨rank, hle, hrank⟩ := Ranks.exists_rank g.sources
    (fun u w (h : Optimised g s count u w) => by
      obtain ⟨e, he, -, rfl, -⟩ := h
      exact mem_sources he.edge) ho.acyclic
  have hstart : Within g s count s.tree {(s.v, s.covenant)} := by
    refine ⟨?_, ⟨List.Subset.refl _, List.Subset.refl _⟩, fun _ hx => Or.inl hx, fun _ hp => Or.inl hp⟩
    rintro p rfl
    exact .start
  refine ⟨callSize g s rank s.tree s.v s.covenant + 1, fun g' hperm => ?_⟩
  obtain ⟨tree, S, hrun, hwithin, hext, hdone⟩ := getReverseNodeTree_finishes ho hperm hle hrank _ _ _
    s.tNtEdges s.tree _ (fun _ => ho.start.symm) hstart rfl (Nat.lt_succ_self _)
  refine ⟨tree, hrun, Set.ext fun x => ⟨hwithin.sV x, ?_⟩, Set.ext fun p => ⟨fun hp => ?_, ?_⟩⟩
  · rintro (hbefore | ⟨v, covenant, e, he, rfl⟩)
    · exact hwithin.keeps.1 hbefore
    · exact ((hext.comes hdone he.comes).2 e he).1
  · rcases hwithin.covs p hp with hbefore | ⟨-, hentered⟩
    · exact Or.inl hbefore
    · exact Or.inr hentered
  · rintro (hbefore | ⟨v, covenant, e, he, rfl⟩)
    · exact hwithin.keeps.2 hbefore
    · obtain ⟨-, hmarked⟩ := (hext.comes hdone he.comes).2 e he.toUses
      exact (hmarked.resolve_left he.unmarked).1

/-- **A crawl that counts no edges against siblings, comes to every vertex in one way and does
not go around in covenants** ends, and finds and marks the same in every order of the edges. -/
theorem reverse_tree_order (ho : Orderly g s count) :
    ∃ (found : Set Nat) (marked : Set (Nat × Option Nat)), ∀ g' : EqGraph, g'.edges.Perm g.edges →
      ∃ fuel tree, getReverseNodeTree g' s.maxNtEdges fuel s.v s.covenant s.tNtEdges s.tree = some tree ∧
        {x | x ∈ tree.sV} = found ∧ {p | p ∈ tree.covenantsPerVertex} = marked := by
  obtain ⟨fuel, hall⟩ := getReverseNodeTree_spec ho
  refine ⟨foundBy g s count, markedBy g s count, fun g' hperm => ?_⟩
  exact ⟨fuel, hall g' hperm⟩

end Crawl

/-! ### A message behind two blocks -/

/-- A flow command that two blocks lead to has a message as its destination. -/
def commandTree : EqGraph :=
  { vertices := [⟨"msg", .tmsg⟩, ⟨"flow", .cflow⟩, ⟨"blockA", .blockFixed⟩, ⟨"blockB", .blockFixed⟩]
    edges := [⟨1, 0, .flowDst⟩, ⟨2, 1, .defDst⟩, ⟨3, 1, .dynFlowDst⟩] }

def commandCall : ReverseCall where
  v := 0
  covenant := none
  maxNtEdges := 1
  tNtEdges := 0
  tree := {}

theorem commandTree_orderly :
    Orderly commandTree commandCall fun v _ => if v = 0 then 0 else 1 := by
  have hedges : ∀ v e, e ∈ commandTree.inEdges v → e ∈ commandTree.edges ∧ e.target = v := by
    intro v e he
    obtain ⟨hin, htarget⟩ := List.mem_filter.1 he
    exact ⟨hin, of_decide_eq_true htarget⟩
  have hplain : ∀ e ∈ commandTree.edges, isOptimisableEdge e commandTree = false := by decide
  have hnever : ∀ v e, e ∈ commandTree.inEdges v → ¬ isOptimisableEdge e commandTree = true := by
    intro v e he
    rw [hplain e (hedges v e he).1]
    exact Bool.false_ne_true
  constructor
  · rfl
  · rintro - v covenant e he htype
    obtain ⟨hin, rfl⟩ := hedges v e he.edge
    have hall : ∀ e ∈ commandTree.edges, e.type.isTraversable = false →
        commandTree.inEdges e.target = [e] := by decide
    exact hall e hin htype
  · rintro - v covenant e he
    obtain ⟨hin, rfl⟩ := hedges v e he.edge
    have hall : ∀ e ∈ commandTree.edges, (if e.source = 0 then (0 : Int) else 1) =
        if e.type.isTraversable = true then (if e.target = 0 then 0 else 1)
        else (if e.target = 0 then 0 else 1) + 1 := by decide
    exact hall e hin
  · intro v w covenant e e' he hopt
    exact absurd hopt (hnever v e he.edge)
  · intro u hcycle
    obtain ⟨w, ⟨e, he, hopt, -⟩, -⟩ := TransGen.head'_iff.1 hcycle
    exact hnever u e he.edge hopt

theorem reverse_tree_order_command :
    ∃ (found : Set Nat) (marked : Set (Nat × Option Nat)), ∀ g' : EqGraph,
      g'.edges.Perm commandTree.edges → ∃ fuel tree,
        getReverseNodeTree g' 1 fuel 0 none 0 {} = some tree ∧
          {x | x ∈ tree.sV} = found ∧ {p | p ∈ tree.covenantsPerVertex} = marked :=
  reverse_tree_order commandTree_orderly

/-! ### Orders that matter -/

def twoParents : EqGraph :=
  { vertices := [⟨"msg", .tmsg⟩, ⟨"flowA", .cflow⟩, ⟨"flowB", .cflow⟩]
    edges := [⟨1, 0, .flowDst⟩, ⟨2, 0, .flowDst⟩] }

def staleBlocks : EqGraph :=
  { vertices := [⟨"blockA", .blockFixed⟩, ⟨"blockB", .blockFixed⟩]
    edges := [⟨0, 1, .badDefDst⟩, ⟨1, 0, .badDefDst⟩] }

/-- The crawl from one block to the other and back sets the same two marks again and again. -/
theorem staleBlocks_endless (fuel : Nat) :
    ∀ v covenant n (tree : Tree), v < 2 → covenant = none ∨ covenant = some v →
      (∀ p ∈ tree.covenantsPerVertex, p.2 = some p.1) →
      getReverseNodeTree staleBlocks (-1) fuel v covenant n tree = none := by
  induction fuel with
  | zero => exact fun _ _ _ _ _ _ _ => rfl
  | succ fuel ih =>
    intro v covenant n tree hv hcovenant hmarks
    have hin : staleBlocks.inEdges v = [⟨1 - v, v, .badDefDst⟩] := by
      rcases Nat.le_one_iff_eq_zero_or_eq_one.1 (Nat.le_of_lt_succ hv) with rfl | rfl <;> decide
    have hopt : isOptimisableEdge ⟨1 - v, v, .badDefDst⟩ staleBlocks = true := by
      rcases Nat.le_one_iff_eq_zero_or_eq_one.1 (Nat.le_of_lt_succ hv) with rfl | rfl <;> decide
    have hne : some (1 - v) ≠ covenant := by
      rcases hcovenant with rfl | rfl
      · exact Option.some_ne_none _
      · simp only [ne_eq, Option.some.injEq]
        omega
    have hnew : (1 - v, covenant) ∉ tree.covenantsPerVertex := fun hin => hne (hmarks _ hin).symm
    have hlimit : ¬ ((EqEdge.type ⟨1 - v, v, .badDefDst⟩).isTraversable = false ∧ 0 < (-1 : Int) ∧
        -1 ≤ n) := by
      rintro ⟨-, hpos, -⟩
      exact absurd hpos (by decide)
    have hcall := ih (1 - v) (some (1 - v)) (n + 1)
      ⟨(1 - v) :: tree.sV, (1 - v, some (1 - v)) :: tree.covenantsPerVertex⟩ (by omega) (Or.inr rfl)
      (fun p hp => by
        rcases List.mem_cons.1 hp with rfl | hp
        · rfl
        · exact hmarks p hp)
    rw [getReverseNodeTree, hin, reverseEdges, if_neg hlimit]
    dsimp only
    rw [if_neg hnew, if_pos hopt]
    have hcount : (if EqEdgeType.badDefDst.isTraversable = true then n else n + 1) = n + 1 := rfl
    rw [hcount, hcall]
    rfl

/-- With a limit of one, the first of two commands uses it up and only that one is found. And
without a limit, the crawl of two stale blocks does not end. -/
theorem reverse_tree_differs :
    (∃ g', g'.edges.Perm twoParents.edges ∧ ∃ fuel tree tree',
      getReverseNodeTree twoParents 1 fuel 0 none 0 {} = some tree ∧
      getReverseNodeTree g' 1 fuel 0 none 0 {} = some tree' ∧ 2 ∉ tree.sV ∧ 2 ∈ tree'.sV) ∧
    ∀ fuel, getReverseNodeTree staleBlocks (-1) fuel 0 none 0 {} = none := by
  refine ⟨⟨{ twoParents with edges := [⟨2, 0, .flowDst⟩, ⟨1, 0, .flowDst⟩] }, List.Perm.swap _ _ _, 3,
    ⟨[1], [(1, none)]⟩, ⟨[2], [(2, none)]⟩, by decide +kernel, by decide +kernel, by decide,
    by decide⟩, ?_⟩
  intro fuel
  exact staleBlocks_endless fuel 0 none 0 {} (by decide) (Or.inl rfl) fun p hp =>
    absurd hp List.not_mem_nil

end DataMaster.CarpeDM
