import Mathlib.Data.Fintype.Pi
import Mathlib.Data.List.Forall2
import Mathlib.Data.List.Permutation

/-!
# Labelled multigraphs

Directed graphs with labels on the vertices and the edges, where several edges may lead from
one vertex to another.  A match finds a graph as an induced subgraph of another one: vertices
are related by one predicate, and the parallel edges between two vertices are paired off by
another.
-/

structure Multigraph (α β : Type*) where
  order : Nat
  vertex : Fin order → α
  /-- Source, target and label. -/
  edges : List (Fin order × Fin order × β)

namespace Multigraph

variable {α β γ δ α' β' γ' δ' : Type*}

def size (g : Multigraph α β) : Nat := g.edges.length

def labels {n : Nat} (edges : List (Fin n × Fin n × β)) (u v : Fin n) : List β :=
  (edges.filter fun e => e.1 = u ∧ e.2.1 = v).map fun e => e.2.2

def map (p : α → γ) (q : β → δ) (g : Multigraph α β) : Multigraph γ δ where
  order := g.order
  vertex := fun v => p (g.vertex v)
  edges := g.edges.map fun e => (e.1, e.2.1, q e.2.2)

theorem size_map (p : α → γ) (q : β → δ) (g : Multigraph α β) : (g.map p q).size = g.size :=
  List.length_map _

theorem labels_map (q : β → δ) {n : Nat} (edges : List (Fin n × Fin n × β)) (u v : Fin n) :
    labels (edges.map fun e => (e.1, e.2.1, q e.2.2)) u v = (labels edges u v).map q := by
  unfold labels
  rw [List.filter_map, List.map_map, List.map_map]
  rfl

/-! ### Matches -/

/-- The elements of two lists can be paired off, in some order, into related ones. -/
def Paired (r : β → δ → Prop) (xs : List β) (ys : List δ) : Prop :=
  ∃ zs ∈ ys.permutations, List.Forall₂ r xs zs

instance {r : β → δ → Prop} [∀ x y, Decidable (r x y)] (xs : List β) (ys : List δ) :
    Decidable (Paired r xs ys) := by
  unfold Paired
  infer_instance

theorem paired_map {r : β' → δ' → Prop} (p : β → β') (q : δ → δ') (xs : List β) (ys : List δ) :
    Paired r (xs.map p) (ys.map q) ↔ Paired (fun x y => r (p x) (q y)) xs ys := by
  unfold Paired
  rw [← List.map_permutations]
  constructor
  · rintro ⟨_, hmem, h⟩
    obtain ⟨zs, hzs, rfl⟩ := List.mem_map.mp hmem
    exact ⟨zs, hzs, List.forall₂_map_left_iff.mp (List.forall₂_map_right_iff.mp h)⟩
  · rintro ⟨zs, hzs, h⟩
    exact ⟨zs.map q, List.mem_map_of_mem hzs,
      List.forall₂_map_right_iff.mpr (List.forall₂_map_left_iff.mpr h)⟩

theorem Paired.imp {r s : β → δ → Prop} {xs : List β} {ys : List δ}
    (hrs : ∀ x y, r x y → s x y) : Paired r xs ys → Paired s xs ys := by
  rintro ⟨zs, hzs, h⟩
  exact ⟨zs, hzs, h.imp hrs⟩

theorem Paired.symm {r : β → δ → Prop} {s : δ → β → Prop} {xs : List β} {ys : List δ}
    (hrs : ∀ x y, r x y → s y x) : Paired r xs ys → Paired s ys xs := by
  rintro ⟨zs, hzs, h⟩
  have hback : List.Forall₂ s zs xs := h.flip.imp fun y x hxy => hrs x y hxy
  obtain ⟨ws, hws, hperm⟩ := List.perm_comp_forall₂ (List.mem_permutations.mp hzs).symm hback
  exact ⟨ws, List.mem_permutations.mpr hperm, hws⟩

/-- A graph is an isomorphic image of an induced subgraph of another one. -/
structure InducedMatch (vc : α → γ → Prop) (ec : β → δ → Prop) (g : Multigraph α β)
    (g' : Multigraph γ δ) (f : Fin g.order → Fin g'.order) : Prop where
  injective : Function.Injective f
  vertices : ∀ v, vc (g.vertex v) (g'.vertex (f v))
  edges : ∀ u v, Paired ec (labels g.edges u v) (labels g'.edges (f u) (f v))

section Match

variable {vc : α → γ → Prop} {ec : β → δ → Prop} {g : Multigraph α β} {g' : Multigraph γ δ}
  {f : Fin g.order → Fin g'.order}

theorem inducedMatch_iff :
    InducedMatch vc ec g g' f ↔ Function.Injective f ∧ (∀ v, vc (g.vertex v) (g'.vertex (f v))) ∧
      ∀ u v, Paired ec (labels g.edges u v) (labels g'.edges (f u) (f v)) :=
  ⟨fun h => ⟨h.injective, h.vertices, h.edges⟩, fun h => ⟨h.1, h.2.1, h.2.2⟩⟩

instance [∀ x y, Decidable (vc x y)] [∀ x y, Decidable (ec x y)] :
    Decidable (InducedMatch vc ec g g' f) :=
  decidable_of_iff' _ inducedMatch_iff

/-- Weaker predicates have at least the same matches. -/
theorem InducedMatch.imp {vc' : α → γ → Prop} {ec' : β → δ → Prop}
    (hvc : ∀ x y, vc x y → vc' x y) (hec : ∀ x y, ec x y → ec' x y)
    (h : InducedMatch vc ec g g' f) : InducedMatch vc' ec' g g' f where
  injective := h.injective
  vertices v := hvc _ _ (h.vertices v)
  edges u v := (h.edges u v).imp hec

end Match

/-- The matches of relabelled graphs. -/
theorem inducedMatch_map {vc : α' → γ' → Prop} {ec : β' → δ' → Prop} (p : α → α') (q : β → β')
    (p' : γ → γ') (q' : δ → δ') {g : Multigraph α β} {g' : Multigraph γ δ}
    {f : Fin g.order → Fin g'.order} :
    InducedMatch vc ec (g.map p q) (g'.map p' q') f ↔
      InducedMatch (fun x y => vc (p x) (p' y)) (fun x y => ec (q x) (q' y)) g g' f := by
  constructor
  · intro h
    refine ⟨h.injective, h.vertices, fun u v => ?_⟩
    have hedges : Paired ec ((labels g.edges u v).map q)
        ((labels g'.edges (f u) (f v)).map q') := by
      rw [← labels_map, ← labels_map]
      exact h.edges u v
    exact (paired_map q q' _ _).mp hedges
  · intro h
    refine ⟨h.injective, h.vertices, fun (u v : Fin g.order) => ?_⟩
    have hedges := (paired_map (r := ec) q q' _ _).mpr (h.edges u v)
    rwa [← labels_map, ← labels_map] at hedges

def hasMatch (vc : α → γ → Prop) (ec : β → δ → Prop) [∀ x y, Decidable (vc x y)]
    [∀ x y, Decidable (ec x y)] (g : Multigraph α β) (g' : Multigraph γ δ) : Bool :=
  decide (∃ f : Fin g.order → Fin g'.order, InducedMatch vc ec g g' f)

end Multigraph
