import BelProjects.Library.Compaction

/-!
# Adjacency lists

A directed graph with numbered vertices, where several edges may lead from one vertex to
another.  A new vertex gets the next number.  When a vertex is removed, the vertices behind it
move down, so that several vertices are removed from the last to the first.
-/

structure AdjacencyList (α β : Type*) where
  vertices : List α
  /-- Source, target and data, in the order in which the edges were added. -/
  edges : List (Nat × Nat × β)

namespace AdjacencyList

open Compaction

variable {α β : Type*}

def order (g : AdjacencyList α β) : Nat := g.vertices.length

/-- Edges lead from vertices to vertices. -/
def WellFormed (g : AdjacencyList α β) : Prop := ∀ e ∈ g.edges, e.1 < g.order ∧ e.2.1 < g.order

def inEdges (g : AdjacencyList α β) (v : Nat) : List (Nat × Nat × β) :=
  g.edges.filter fun e => e.2.1 = v

def outEdges (g : AdjacencyList α β) (v : Nat) : List (Nat × Nat × β) :=
  g.edges.filter fun e => e.1 = v

def inDegree (g : AdjacencyList α β) (v : Nat) : Nat := (g.inEdges v).length

def outDegree (g : AdjacencyList α β) (v : Nat) : Nat := (g.outEdges v).length

/-- The new vertex has the number `g.order`. -/
def addVertex (g : AdjacencyList α β) (a : α) : AdjacencyList α β :=
  { g with vertices := g.vertices ++ [a] }

def addEdge (g : AdjacencyList α β) (u v : Nat) (b : β) : AdjacencyList α β :=
  { g with edges := g.edges ++ [(u, v, b)] }

def modifyVertex (g : AdjacencyList α β) (v : Nat) (f : α → α) : AdjacencyList α β :=
  { g with vertices := g.vertices.modify v f }

def clearVertex (g : AdjacencyList α β) (v : Nat) : AdjacencyList α β :=
  { g with edges := g.edges.filter fun e => e.1 ≠ v ∧ e.2.1 ≠ v }

/-- The number of a vertex once `v` is removed. -/
def movedDown (v u : Nat) : Nat := if v < u then u - 1 else u

def removeVertex (g : AdjacencyList α β) (v : Nat) : AdjacencyList α β where
  vertices := g.vertices.eraseIdx v
  edges := g.edges.map fun e => (movedDown v e.1, movedDown v e.2.1, e.2.2)

variable {g : AdjacencyList α β} {u v : Nat} {a : α} {b : β} {e : Nat × Nat × β}

theorem mem_inEdges : e ∈ g.inEdges v ↔ e ∈ g.edges ∧ e.2.1 = v := by
  simp [inEdges]

theorem mem_outEdges : e ∈ g.outEdges v ↔ e ∈ g.edges ∧ e.1 = v := by
  simp [outEdges]

theorem outEdges_of_mem (hout : g.outDegree u ≤ 1) (he : (u, v, b) ∈ g.edges) :
    g.outEdges u = [(u, v, b)] := by
  have hmem : (u, v, b) ∈ g.outEdges u := mem_outEdges.mpr ⟨he, rfl⟩
  obtain ⟨e, hsingle⟩ :=
    List.length_eq_one_iff.mp (Nat.le_antisymm hout (List.length_pos_of_mem hmem))
  rw [hsingle, List.mem_singleton] at hmem
  rw [hsingle, hmem]

theorem inEdges_of_mem (hin : g.inDegree v ≤ 1) (he : (u, v, b) ∈ g.edges) :
    g.inEdges v = [(u, v, b)] := by
  have hmem : (u, v, b) ∈ g.inEdges v := mem_inEdges.mpr ⟨he, rfl⟩
  obtain ⟨e, hsingle⟩ :=
    List.length_eq_one_iff.mp (Nat.le_antisymm hin (List.length_pos_of_mem hmem))
  rw [hsingle, List.mem_singleton] at hmem
  rw [hsingle, hmem]

theorem outEdges_cases (hout : g.outDegree v ≤ 1) :
    g.outEdges v = [] ∨ ∃ w b, g.outEdges v = [(v, w, b)] := by
  by_cases hnil : g.outEdges v = []
  · exact Or.inl hnil
  · obtain ⟨⟨v', w, b⟩, he⟩ := List.exists_mem_of_ne_nil _ hnil
    obtain ⟨hedge, rfl⟩ := mem_outEdges.mp he
    exact Or.inr ⟨w, b, outEdges_of_mem hout hedge⟩

theorem inEdges_cases (hin : g.inDegree v ≤ 1) :
    g.inEdges v = [] ∨ ∃ u b, g.inEdges v = [(u, v, b)] := by
  by_cases hnil : g.inEdges v = []
  · exact Or.inl hnil
  · obtain ⟨⟨u, v', b⟩, he⟩ := List.exists_mem_of_ne_nil _ hnil
    obtain ⟨hedge, rfl⟩ := mem_inEdges.mp he
    exact Or.inr ⟨u, b, inEdges_of_mem hin hedge⟩

@[simp] theorem edges_addEdge : (g.addEdge u v b).edges = g.edges ++ [(u, v, b)] := rfl

/-! ### Removal of several vertices -/

def removeAll (g : AdjacencyList α β) (D : List Nat) : AdjacencyList α β :=
  D.foldl (fun g v => (g.clearVertex v).removeVertex v) g

def avoids (D : List Nat) (e : Nat × Nat × β) : Bool := e.1 ∉ D ∧ e.2.1 ∉ D

theorem avoids_iff {D : List Nat} : avoids D e = true ↔ e.1 ∉ D ∧ e.2.1 ∉ D := decide_eq_true_iff

/-- An edge between the vertices that are left when `D` is removed. -/
def renumberedEdge (D : List Nat) (e : Nat × Nat × β) : Nat × Nat × β :=
  (renumbered D e.1, renumbered D e.2.1, e.2.2)

theorem movedDown_renumbered {D : List Nat} (hv : ∀ d ∈ D, v < d) (hu : u ≠ v) (huD : u ∉ D) :
    movedDown v (renumbered D u) = renumbered (v :: D) u := by
  have hvD : v ∉ D := fun h => Nat.lt_irrefl v (hv v h)
  have hself : renumbered D v = v := renumbered_of_le fun d hd => Nat.le_of_lt (hv d hd)
  rw [renumbered_cons hvD, movedDown]
  rcases Nat.lt_or_gt_of_ne hu with hlt | hgt
  · have hbelow := renumbered_lt huD hlt
    rw [if_neg (by omega), if_neg (by omega)]
  · have habove := renumbered_lt hvD hgt
    rw [if_pos (by omega), if_pos hgt]

/-- What is left of `g` without the vertices `D`. -/
structure Removed (D : List Nat) (g g' : AdjacencyList α β) : Prop where
  vertices : Compacted D g.vertices g'.vertices
  edges : g'.edges = (g.edges.filter (avoids D)).map (renumberedEdge D)

theorem Removed.step {D : List Nat} {g' : AdjacencyList α β} (h : Removed D g g')
    (hv : ∀ d ∈ D, v < d) (hlt : v < g.order) :
    Removed (v :: D) g ((g'.clearVertex v).removeVertex v) := by
  have hvD : v ∉ D := fun hmem => Nat.lt_irrefl v (hv v hmem)
  have hself : renumbered D v = v := renumbered_of_le fun d hd => Nat.le_of_lt (hv d hd)
  constructor
  · have herase := h.vertices.eraseIdx hvD hlt
    rwa [hself] at herase
  · have hsame : ∀ u, u ∉ D → (renumbered D u ≠ v ↔ u ≠ v) := by
      intro u hu
      constructor
      · rintro hne rfl
        exact hne hself
      · intro hne heq
        exact hne (renumbered_inj hu hvD (heq.trans hself.symm))
    change ((g'.edges.filter _).map _) = _
    rw [h.edges, List.filter_map, List.map_map, List.filter_filter]
    have hkept : ∀ e ∈ g.edges, avoids (v :: D) e = true ↔
        (((fun e : Nat × Nat × β => decide (e.1 ≠ v ∧ e.2.1 ≠ v)) ∘ renumberedEdge D) e &&
          avoids D e) = true := by
      intro e _
      rw [Bool.and_eq_true, avoids_iff, avoids_iff, Function.comp_apply, decide_eq_true_iff]
      simp only [renumberedEdge, List.mem_cons, not_or]
      constructor
      · rintro ⟨⟨h1, h1D⟩, h2, h2D⟩
        exact ⟨⟨(hsame _ h1D).mpr h1, (hsame _ h2D).mpr h2⟩, h1D, h2D⟩
      · rintro ⟨⟨h1, h2⟩, h1D, h2D⟩
        exact ⟨⟨(hsame _ h1D).mp h1, h1D⟩, (hsame _ h2D).mp h2, h2D⟩
    rw [List.filter_congr fun e he => Bool.eq_iff_iff.mpr (hkept e he).symm]
    refine List.map_congr_left fun e he => ?_
    have havoid := avoids_iff.mp (List.mem_filter.mp he).2
    simp only [List.mem_cons, not_or] at havoid
    simp only [Function.comp_apply, renumberedEdge, Prod.mk.injEq, and_true]
    exact ⟨movedDown_renumbered hv havoid.1.1 havoid.1.2,
      movedDown_renumbered hv havoid.2.1 havoid.2.2⟩

theorem Removed.refl (g : AdjacencyList α β) : Removed [] g g := by
  refine ⟨Compacted.refl _, ?_⟩
  have hall : g.edges.filter (avoids []) = g.edges :=
    List.filter_eq_self.mpr fun e _ => by simp [avoids]
  have hid : renumberedEdge (β := β) [] = id := by
    funext e
    simp [renumberedEdge]
  rw [hall, hid, List.map_id]

theorem Removed.congr {D D' : List Nat} {g' : AdjacencyList α β} (h : Removed D g g')
    (hD : ∀ d, d ∈ D ↔ d ∈ D') : Removed D' g g' := by
  refine ⟨h.vertices.congr hD, ?_⟩
  have havoids : avoids (β := β) D = avoids D' := by
    funext e
    simp only [avoids, hD]
  have hrenumber : renumberedEdge (β := β) D = renumberedEdge D' := by
    funext e
    simp only [renumberedEdge, renumbered_congr hD]
  rw [h.edges, havoids, hrenumber]

theorem removed_removeAll {D : List Nat} (hdesc : D.Pairwise (· > ·)) (hlt : ∀ d ∈ D, d < g.order) :
    Removed D g (g.removeAll D) := by
  have hrun : ∀ (rest : List Nat) (before : List Nat) (g' : AdjacencyList α β), Removed before g g' →
      (∀ d ∈ before, ∀ r ∈ rest, r < d) → rest.Pairwise (· > ·) → (∀ r ∈ rest, r < g.order) →
      Removed (rest.reverse ++ before) g (g'.removeAll rest) := by
    intro rest
    induction rest with
    | nil =>
      intro before g' hg' _ _ _
      exact hg'
    | cons v rest ih =>
      intro before g' hg' hbefore hpair hrange
      have hstep := hg'.step (fun d hd => hbefore d hd v List.mem_cons_self)
        (hrange v List.mem_cons_self)
      have hnext := ih (v :: before) _ hstep (fun d hd r hr => ?_)
        (List.pairwise_cons.mp hpair).2 fun r hr => hrange r (List.mem_cons_of_mem _ hr)
      · rw [List.reverse_cons, List.append_assoc]
        exact hnext
      · rcases List.mem_cons.mp hd with rfl | hd
        · exact (List.pairwise_cons.mp hpair).1 r hr
        · exact hbefore d hd r (List.mem_cons_of_mem _ hr)
  have hremoved := hrun D [] g (Removed.refl g) (by simp) hdesc hlt
  exact hremoved.congr fun d => by simp

end AdjacencyList
