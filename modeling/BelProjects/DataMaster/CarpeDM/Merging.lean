import BelProjects.DataMaster.CarpeDM.Operations
import BelProjects.Library.Compaction
import BelProjects.Library.Permutations

/-!
# Merging two graphs

The vertices of one graph are put behind those of another one.  Some of them only stand for a
vertex that is there already: their edges go over to it, and then they are removed.  What tells
vertices apart is the hash of the name.
-/

namespace DataMaster.CarpeDM

open Compaction Permutations

/-! ### Edges under a change of the vertex numbers -/

/-- The edge between the new numbers of its vertices. -/
def HostEdge.along (f : Nat → Nat) (e : HostEdge) : HostEdge :=
  { e with
    source := f e.source
    target := f e.target }

theorem HostEdge.along_congr {f g : Nat → Nat} {e : HostEdge} (hsource : f e.source = g e.source)
    (htarget : f e.target = g e.target) : e.along f = e.along g := by
  unfold along
  rw [hsource, htarget]

theorem HostEdge.along_of_fixed {f : Nat → Nat} {e : HostEdge} (hsource : f e.source = e.source)
    (htarget : f e.target = e.target) : e.along f = e :=
  along_congr (g := id) hsource htarget

/-- What an addition keeps of a vertex. Its node object may still be made. -/
def HostVertex.node (x : HostVertex) : Dot.MyVertex × Word := (x.v, x.hash)

namespace HostGraph

def nodes (g : HostGraph) : List (Dot.MyVertex × Word) := g.vertices.map HostVertex.node

def hashes (g : HostGraph) : List Word := g.vertices.map HostVertex.hash

def names (g : HostGraph) : List String := g.vertices.map HostVertex.name

/-- Every edge joins two vertices. -/
def Closed (g : HostGraph) : Prop :=
  ∀ e ∈ g.edges, e.source < g.vertices.length ∧ e.target < g.vertices.length

instance (g : HostGraph) : Decidable g.Closed := inferInstanceAs (Decidable (∀ e ∈ g.edges, _))

/-- `g'` is `g` with further vertices and edges. -/
structure Extends (g' g : HostGraph) : Prop where
  vertices : g.vertices <+: g'.vertices
  edges : g.edges <+: g'.edges
  closed : g.Closed → g'.Closed

theorem Extends.refl (g : HostGraph) : g.Extends g := ⟨List.prefix_rfl, List.prefix_rfl, id⟩

theorem Extends.trans {g g' g'' : HostGraph} (h : g''.Extends g') (h' : g'.Extends g) :
    g''.Extends g :=
  ⟨h'.vertices.trans h.vertices, h'.edges.trans h.edges, h.closed ∘ h'.closed⟩

theorem Extends.length {g g' : HostGraph} (h : g'.Extends g) :
    g.vertices.length ≤ g'.vertices.length := h.vertices.length_le

theorem addVertex_extends (g : HostGraph) (x : HostVertex) : (g.addVertex x).Extends g := by
  refine ⟨List.prefix_append _ _, List.prefix_rfl, ?_⟩
  intro h e he
  obtain ⟨hs, ht⟩ := h e he
  have hlen : (g.addVertex x).vertices.length = g.vertices.length + 1 := List.length_append
  omega

theorem addEdge_extends {g : HostGraph} {e : HostEdge} (hs : e.source < g.vertices.length)
    (ht : e.target < g.vertices.length) : (g.addEdge e).Extends g := by
  refine ⟨List.prefix_rfl, List.prefix_append _ _, ?_⟩
  intro h e' he'
  rcases List.mem_append.1 he' with he' | he'
  · exact h e' he'
  · cases List.mem_singleton.1 he'
    exact ⟨hs, ht⟩

theorem length_addVertex (g : HostGraph) (x : HostVertex) :
    (g.addVertex x).vertices.length = g.vertices.length + 1 := List.length_append

@[simp] theorem vertices_addEdge (g : HostGraph) (e : HostEdge) :
    (g.addEdge e).vertices = g.vertices := rfl

end HostGraph

/-! ### Handing over edges -/

/-- The vertex that has the edges of a vertex once `victim` is merged into `borg`. -/
def redirected (borg victim u : Nat) : Nat := if u = victim then borg else u

theorem handed_perm {E : List HostEdge} {borg victim : Nat} (hne : borg ≠ victim)
    (hloop : ∀ e ∈ E, (e.source == victim) = true → (e.target == victim) = false) :
    let outs := E.filter fun e => e.source == victim
    let ins := E.filter fun e => e.target == victim
    ((E ++ outs.map fun e => ({ e with source := borg } : HostEdge)) ++
        ins.map fun e => ({ e with target := borg } : HostEdge)).filter
          (fun e => !(outs ++ ins).contains e)
      |>.Perm (E.map (HostEdge.along (redirected borg victim))) := by
  intro outs ins
  have hcontains (e : HostEdge) (he : e.source ≠ victim ∧ e.target ≠ victim) :
      (!(outs ++ ins).contains e) = true := by
    rw [Bool.not_eq_true', List.contains_eq_mem, decide_eq_false_iff_not, List.mem_append]
    rintro (h | h)
    · exact he.1 (by simpa using (List.mem_filter.1 h).2)
    · exact he.2 (by simpa using (List.mem_filter.1 h).2)
  have hkept : (E.filter fun e => !(outs ++ ins).contains e) =
      E.filter fun e => !(e.source == victim || e.target == victim) := by
    refine List.filter_congr fun e he => ?_
    rw [List.contains_eq_mem, Bool.eq_iff_iff]
    simp [outs, ins, List.mem_filter, he]
  have houts : (outs.map fun e => ({ e with source := borg } : HostEdge)) =
      outs.map (HostEdge.along (redirected borg victim)) := by
    refine List.map_congr_left fun e he => ?_
    obtain ⟨hin, hs⟩ := List.mem_filter.1 he
    have ht : e.target ≠ victim := by simpa using hloop e hin hs
    have hs' : e.source = victim := by simpa using hs
    unfold HostEdge.along redirected
    rw [if_pos hs', if_neg ht]
  have hins : (ins.map fun e => ({ e with target := borg } : HostEdge)) =
      ins.map (HostEdge.along (redirected borg victim)) := by
    refine List.map_congr_left fun e he => ?_
    obtain ⟨hin, ht⟩ := List.mem_filter.1 he
    have hs : e.source ≠ victim := by
      intro hs
      rw [hloop e hin (by simpa using hs)] at ht
      cases ht
    have ht' : e.target = victim := by simpa using ht
    unfold HostEdge.along redirected
    rw [if_neg hs, if_pos ht']
  -- no new edge has an end at `victim`
  have haway (l : List HostEdge) (hl : ∀ e ∈ l, e ∈ E) :
      ((l.map (HostEdge.along (redirected borg victim))).filter fun e =>
        !(outs ++ ins).contains e) = l.map (HostEdge.along (redirected borg victim)) := by
    refine List.filter_eq_self.2 fun e he => hcontains e ?_
    obtain ⟨e, -, rfl⟩ := List.mem_map.1 he
    have hr (u : Nat) : redirected borg victim u ≠ victim := by
      unfold redirected
      split
      · exact hne
      · assumption
    exact ⟨hr _, hr _⟩
  rw [houts, hins, List.filter_append, List.filter_append, hkept,
    haway outs fun e he => (List.mem_filter.1 he).1, haway ins fun e he => (List.mem_filter.1 he).1,
    List.append_assoc, ← List.map_append]
  have hincident : (outs ++ ins).Perm (E.filter fun e => e.source == victim || e.target == victim) :=
    (perm_filter_or hloop).symm
  refine ((hincident.map _).append_left _).trans (perm_map_of_fixed fun e he hp => ?_)
  obtain ⟨hs, ht⟩ := Bool.or_eq_false_iff.1 hp
  exact HostEdge.along_of_fixed (if_neg (by simpa using hs)) (if_neg (by simpa using ht))

/-! ### Removing what has been merged -/

/-- The vertices `D` of a graph are removed, which no edge of it has joined. -/
structure Shrunk (D : List Nat) (V : List HostVertex) (E : List HostEdge) (g : HostGraph) : Prop where
  vertices : Compacted D V g.vertices
  edges : g.edges = E.map (HostEdge.along (renumbered D))

/-- No edge of `E` joins the vertex. -/
def Apart (E : List HostEdge) (v : Nat) : Prop := ∀ e ∈ E, e.source ≠ v ∧ e.target ≠ v

section Shrunk

variable {D : List Nat} {V : List HostVertex} {E : List HostEdge} {g : HostGraph}

theorem Shrunk.step (h : Shrunk D V E g) {v : Nat} (hv : v ∉ D) (hlt : v < V.length)
    (hapart : ∀ u, u ∈ D ∨ u = v → Apart E u) :
    Shrunk (v :: D) V E
      ((g.clearVertex (renumbered D v)).removeVertex (renumbered D v)) := by
  -- an end of an edge stays where it is, or moves down with what is behind `v`
  have hsource : ∀ e ∈ E, e.source ∉ D ∧ e.source ≠ v := fun e he =>
    ⟨fun hin => (hapart _ (Or.inl hin) e he).1 rfl, (hapart v (Or.inr rfl) e he).1⟩
  have htarget : ∀ e ∈ E, e.target ∉ D ∧ e.target ≠ v := fun e he =>
    ⟨fun hin => (hapart _ (Or.inl hin) e he).2 rfl, (hapart v (Or.inr rfl) e he).2⟩
  have hne {u : Nat} (hu : u ∉ D ∧ u ≠ v) : renumbered D u ≠ renumbered D v := fun heq =>
    hu.2 (renumbered_inj hu.1 hv heq)
  have hdown {u : Nat} (hu : u ∉ D ∧ u ≠ v) :
      (if renumbered D v < renumbered D u then renumbered D u - 1 else renumbered D u) =
        renumbered (v :: D) u := by
    rw [renumbered_cons hv]
    rcases Nat.lt_or_gt_of_ne hu.2 with hlt | hgt
    · rw [if_neg (Nat.lt_asymm (renumbered_lt hu.1 hlt)), if_neg (Nat.lt_asymm hlt)]
    · rw [if_pos (renumbered_lt hv hgt), if_pos hgt]
  constructor
  · exact h.vertices.eraseIdx hv hlt
  · have hclear : (g.clearVertex (renumbered D v)).edges = g.edges := by
      refine List.filter_eq_self.2 fun e he => ?_
      rw [h.edges] at he
      obtain ⟨x, hx, rfl⟩ := List.mem_map.1 he
      rw [Bool.and_eq_true, bne_iff_ne, bne_iff_ne]
      exact ⟨hne (hsource x hx), hne (htarget x hx)⟩
    unfold HostGraph.removeVertex
    dsimp only
    rw [hclear, h.edges, List.map_map]
    refine List.map_congr_left fun e he => ?_
    unfold HostEdge.along
    dsimp only [Function.comp_apply]
    rw [hdown (hsource e he), hdown (htarget e he)]

theorem removeVertices_shrunk {n : Nat} {ws : List Nat} (h : Shrunk D V E g) (hnodup : ws.Nodup)
    (hfresh : ∀ w ∈ ws, n + w ∉ D ∧ n + w < V.length)
    (hapart : ∀ u, (u ∈ D ∨ ∃ w ∈ ws, n + w = u) → Apart E u) :
    ∃ D', (∀ u, u ∈ D' ↔ u ∈ D ∨ ∃ w ∈ ws, n + w = u) ∧
      Shrunk D' V E (removeVertices ws (fun k => renumbered D (n + k)) g) := by
  induction ws generalizing D g with
  | nil => exact ⟨D, fun u => by simp, h⟩
  | cons w ws ih =>
    obtain ⟨hnot, hnodup⟩ := List.nodup_cons.1 hnodup
    obtain ⟨hw, hlt⟩ := hfresh w List.mem_cons_self
    have hstep := h.step hw hlt fun u hu => hapart u (hu.imp_right fun hu =>
      ⟨w, List.mem_cons_self, hu.symm⟩)
    have hmap : (fun k => if w < k then renumbered D (n + k) - 1 else renumbered D (n + k)) =
        fun k => renumbered ((n + w) :: D) (n + k) := by
      funext k
      rw [renumbered_cons hw]
      simp only [Nat.add_lt_add_iff_left]
    have hmem (u : Nat) : (u ∈ (n + w) :: D ∨ ∃ w' ∈ ws, n + w' = u) ↔
        (u ∈ D ∨ ∃ w' ∈ w :: ws, n + w' = u) := by
      rw [List.mem_cons, List.exists_mem_cons_iff, eq_comm]
      tauto
    obtain ⟨D', hD', hrest⟩ := ih hstep hnodup
      (fun w' hw' => by
        obtain ⟨hout, hlt'⟩ := hfresh w' (List.mem_cons_of_mem w hw')
        refine ⟨?_, hlt'⟩
        rw [List.mem_cons, Nat.add_left_cancel_iff]
        rintro (rfl | hin)
        · exact hnot hw'
        · exact hout hin)
      (fun u hu => hapart u ((hmem u).1 hu))
    refine ⟨D', fun u => (hD' u).trans (hmem u), ?_⟩
    rw [removeVertices, hmap]
    exact hrest

end Shrunk

/-! ### The merged graph -/

/-- One vertex for every hash of both graphs. The vertices of the first one are all there, in
their places, and so are the edges of both, those of the second one between the vertices of the
same hashes. Nothing else is there. -/
structure MergedOnce (gDown gTmp g : HostGraph) : Prop where
  resident : gDown.nodes <+: g.nodes
  only : ∀ x ∈ g.nodes, x ∈ gDown.nodes ∨ x ∈ gTmp.nodes
  all : ∀ hash, hash ∈ gDown.hashes ∨ hash ∈ gTmp.hashes → hash ∈ g.hashes
  once : g.hashes.Nodup
  edges : ∃ place : Nat → Nat,
    (∀ v hash, gTmp.hashes[v]? = some hash → g.hashes[place v]? = some hash) ∧
      g.edges.Perm (gDown.edges ++ gTmp.edges.map (HostEdge.along place))

theorem copyTo_edges {g cpy : HostGraph} (hg : g.Closed) :
    (g.copyTo cpy).edges.Perm
      (cpy.edges ++ g.edges.map (HostEdge.along (cpy.vertices.length + ·))) := by
  refine List.Perm.append_left _ ?_
  have hmoved : ((List.range g.vertices.length).flatMap fun v => (g.outEdges v).map fun e =>
      ({ e with
          source := cpy.vertices.length + v
          target := cpy.vertices.length + e.target } : HostEdge)) =
      ((List.range g.vertices.length).flatMap g.outEdges).map
        (HostEdge.along (cpy.vertices.length + ·)) := by
    rw [List.map_flatMap]
    congr 1
    funext v
    refine List.map_congr_left fun e he => ?_
    have hv : e.source = v := by simpa using (List.mem_filter.1 he).2
    rw [← hv]
    rfl
  refine (List.Perm.of_eq hmoved).trans (List.Perm.map _ ?_)
  refine (perm_flatMap_filter HostEdge.source g.edges g.vertices.length).trans ?_
  refine List.Perm.of_eq (List.filter_eq_self.2 fun e he => ?_)
  exact decide_eq_true (hg e he).1

/-- In both graphs together, nodes have the same name exactly if they have the same hash. -/
def NamesTell (g g' : HostGraph) : Prop :=
  ∀ x ∈ g.nodes ++ g'.nodes, ∀ y ∈ g.nodes ++ g'.nodes, x.1.name = y.1.name ↔ x.2 = y.2

section Merged

variable {gUp gDown gTmp g g' : HostGraph} {D : List Nat} {E E₀ : List HostEdge} {f : Nat → Nat}

theorem merged_of_shrunk (hclosed : gUp.Closed) (hD : ∀ d ∈ D, gUp.vertices.length ≤ d)
    (hE₀ : E₀.Perm (gUp.edges ++ g.edges.map (HostEdge.along (gUp.vertices.length + ·))))
    (hE : E.Perm (E₀.map (HostEdge.along f)))
    (hhash : ∀ u, ((gUp.vertices ++ g.vertices)[f u]?).map HostVertex.hash =
      ((gUp.vertices ++ g.vertices)[u]?).map HostVertex.hash)
    (hfixed : ∀ u, u < gUp.vertices.length → f u = u) (haway : ∀ u, f u ∉ D)
    (h : Shrunk D (gUp.vertices ++ g.vertices) E g') (honce : g'.hashes.Nodup) :
    MergedOnce gUp g g' := by
  have hstays {u : Nat} (hu : u ≤ gUp.vertices.length) : renumbered D u = u :=
    renumbered_of_le fun d hd => hu.trans (hD d hd)
  -- where a hash of either graph is by now
  have hplace {u : Nat} {hash : Word}
      (hu : ((gUp.vertices ++ g.vertices)[u]?).map HostVertex.hash = some hash) :
      g'.hashes[renumbered D (f u)]? = some hash := by
    rw [← hhash] at hu
    obtain ⟨x, hx, rfl⟩ := Option.map_eq_some_iff.1 hu
    have hlt := (List.getElem?_eq_some_iff.1 hx).1
    rw [HostGraph.hashes, List.getElem?_map, h.vertices.get _ (haway u) hlt, hx]
    rfl
  have hnew {v : Nat} {hash : Word} (hv : g.hashes[v]? = some hash) :
      ((gUp.vertices ++ g.vertices)[gUp.vertices.length + v]?).map HostVertex.hash = some hash := by
    rw [List.getElem?_append_right (Nat.le_add_right _ _), Nat.add_sub_cancel_left,
      ← List.getElem?_map]
    exact hv
  have hlen : gUp.vertices.length ≤ (gUp.vertices ++ g.vertices).length := by
    rw [List.length_append]
    exact Nat.le_add_right _ _
  constructor
  · have hprefix : gUp.vertices <+: g'.vertices := by
      rw [List.prefix_iff_getElem?]
      intro i hi
      have hout : i ∉ D := fun hin => Nat.not_le.2 hi (hD i hin)
      have hget := h.vertices.get i hout (Nat.lt_of_lt_of_le hi hlen)
      rw [hstays (Nat.le_of_lt hi), List.getElem?_append_left hi, List.getElem?_eq_getElem hi] at hget
      exact hget
    exact hprefix.map HostVertex.node
  · intro x hx
    obtain ⟨y, hy, rfl⟩ := List.mem_map.1 hx
    obtain ⟨i, -, hi⟩ := h.vertices.mem hy
    rcases List.mem_append.1 (List.mem_of_getElem? hi) with hin | hin
    · exact Or.inl (List.mem_map_of_mem hin)
    · exact Or.inr (List.mem_map_of_mem hin)
  · rintro hash (hin | hin)
    · obtain ⟨i, hi⟩ := List.mem_iff_getElem?.1 hin
      rw [HostGraph.hashes, List.getElem?_map] at hi
      have hlt : i < gUp.vertices.length := by
        obtain ⟨x, hx, -⟩ := Option.map_eq_some_iff.1 hi
        exact (List.getElem?_eq_some_iff.1 hx).1
      refine List.mem_of_getElem? (hplace (u := i) ?_)
      rw [List.getElem?_append_left hlt]
      exact hi
    · obtain ⟨i, hi⟩ := List.mem_iff_getElem?.1 hin
      exact List.mem_of_getElem? (hplace (hnew hi))
  · exact honce
  · refine ⟨fun v => renumbered D (f (gUp.vertices.length + v)), ?_, ?_⟩
    · intro v hash hv
      exact hplace (hnew hv)
    · have hresident : gUp.edges.map (HostEdge.along (renumbered D ∘ f)) = gUp.edges := by
        refine (List.map_congr_left fun e he => ?_).trans (List.map_id _)
        obtain ⟨hs, ht⟩ := hclosed e he
        refine HostEdge.along_of_fixed ?_ ?_
        · rw [Function.comp_apply, hfixed _ hs, hstays (Nat.le_of_lt hs)]
        · rw [Function.comp_apply, hfixed _ ht, hstays (Nat.le_of_lt ht)]
      rw [h.edges]
      calc E.map (HostEdge.along (renumbered D))
        _ |>.Perm ((E₀.map (HostEdge.along f)).map (HostEdge.along (renumbered D))) := hE.map _
        _ = E₀.map (HostEdge.along (renumbered D ∘ f)) := by
          rw [List.map_map]
          rfl
        _ |>.Perm ((gUp.edges ++ g.edges.map (HostEdge.along (gUp.vertices.length + ·))).map
            (HostEdge.along (renumbered D ∘ f))) := hE₀.map _
        _ = _ := by
          rw [List.map_append, hresident, List.map_map]
          rfl

theorem hashes_of_nodes {g g' : HostGraph} (h : g'.nodes = g.nodes) : g'.hashes = g.hashes := by
  have hsnd (x : HostGraph) : x.nodes.map Prod.snd = x.hashes := List.map_map
  rw [← hsnd, ← hsnd, h]

theorem MergedOnce.congr (h : MergedOnce gDown gTmp g)
    (hnodes : g'.nodes = g.nodes) (hedges : g'.edges = g.edges) : MergedOnce gDown gTmp g' := by
  have hhashes := hashes_of_nodes hnodes
  constructor
  · exact hnodes ▸ h.resident
  · exact hnodes ▸ h.only
  · exact hhashes ▸ h.all
  · exact hhashes ▸ h.once
  · exact hhashes ▸ hedges ▸ h.edges

theorem MergedOnce.congr_left (h : MergedOnce gUp gTmp g)
    (hnodes : gUp.nodes = gDown.nodes) (hedges : gUp.edges.Perm gDown.edges) :
    MergedOnce gDown gTmp g := by
  obtain ⟨place, hplace, hperm⟩ := h.edges
  constructor
  · exact hnodes ▸ h.resident
  · exact hnodes ▸ h.only
  · exact hashes_of_nodes hnodes ▸ h.all
  · exact h.once
  · exact ⟨place, hplace, hperm.trans (hedges.append_right _)⟩

theorem MergedOnce.names_once (h : MergedOnce gDown gTmp g) (htell : NamesTell gDown gTmp) :
    g.names.Nodup ∧ ∀ name, name ∈ g.names ↔ name ∈ gDown.names ∨ name ∈ gTmp.names := by
  have hnames (g : HostGraph) : g.nodes.map (fun x => x.1.name) = g.names := List.map_map
  have hhashes (g : HostGraph) : g.nodes.map Prod.snd = g.hashes := List.map_map
  have hin : ∀ x ∈ g.nodes, x ∈ gDown.nodes ++ gTmp.nodes := fun x hx =>
    List.mem_append.2 (h.only x hx)
  constructor
  · have honce : g.nodes.Pairwise fun x y => x.2 ≠ y.2 :=
      List.pairwise_map.1 ((hhashes g).symm ▸ h.once)
    rw [← hnames]
    refine List.pairwise_map.2 (honce.imp_of_mem ?_)
    intro x y hx hy hne hname
    exact hne ((htell x (hin x hx) y (hin y hy)).1 hname)
  · intro name
    rw [← hnames, ← hnames, ← hnames, ← List.mem_append, ← List.map_append]
    constructor
    · intro hname
      obtain ⟨x, hx, rfl⟩ := List.mem_map.1 hname
      exact List.mem_map_of_mem (hin x hx)
    · intro hname
      obtain ⟨x, hx, rfl⟩ := List.mem_map.1 hname
      have hall := h.all x.2
      rw [← hhashes, ← hhashes, ← hhashes, ← List.mem_append, ← List.map_append] at hall
      obtain ⟨y, hy, hhash⟩ := List.mem_map.1 (hall (List.mem_map_of_mem hx))
      exact List.mem_map.2 ⟨y, hy, (htell y (hin y hy) x hx).2 hhash⟩

end Merged

end DataMaster.CarpeDM
