import BelProjects.Library.AdjacencyList
import Mathlib.Data.List.Perm.Basic
import Mathlib.Data.List.Range
import Mathlib.Data.List.Lemmas

/-!
# Contraction of paths

A graph is contracted when disjoint paths of it become single vertices.  The inner vertices of
a path have no other edges, so that an edge to a contracted path leads to its first vertex and
an edge from it starts at its last one.  Contractions compose.
-/

namespace AdjacencyList

variable {α β γ : Type*}

/-! ### Paths -/

def links : List γ → List (γ × γ)
  | u :: v :: l => (u, v) :: links (v :: l)
  | _ => []

theorem links_subset {l : List γ} {e : γ × γ} (h : e ∈ links l) : e.1 ∈ l ∧ e.2 ∈ l := by
  induction l with
  | nil => cases h
  | cons u l ih =>
    cases l with
    | nil => cases h
    | cons v l =>
      rcases List.mem_cons.mp h with rfl | h
      · exact ⟨List.mem_cons_self, List.mem_cons_of_mem _ List.mem_cons_self⟩
      · exact ⟨List.mem_cons_of_mem _ (ih h).1, List.mem_cons_of_mem _ (ih h).2⟩

theorem links_append {l l' : List γ} {x y : γ} (hx : l.getLast? = some x) (hy : l'.head? = some y) :
    links (l ++ l') = links l ++ (x, y) :: links l' := by
  induction l with
  | nil => cases hx
  | cons u l ih =>
    cases l with
    | nil =>
      obtain ⟨l', rfl⟩ := List.head?_eq_some_iff.mp hy
      simp only [List.getLast?_singleton, Option.some.injEq] at hx
      rw [hx]
      rfl
    | cons v l =>
      rw [List.getLast?_cons_cons] at hx
      have hrest := ih hx
      rw [List.cons_append] at hrest
      rw [List.cons_append, List.cons_append, links, hrest]
      rfl

theorem getLast?_flatMap {δ : Type*} {l : List γ} {p : γ → List δ} {x : γ} {y : δ}
    (hl : l.getLast? = some x) (hp : (p x).getLast? = some y) :
    (l.flatMap p).getLast? = some y := by
  obtain ⟨l, rfl⟩ := List.getLast?_eq_some_iff.mp hl
  rw [List.flatMap_append, List.flatMap_singleton, List.getLast?_append, hp]
  rfl

theorem head?_flatMap {δ : Type*} {l : List γ} {p : γ → List δ} {x : γ} {y : δ}
    (hl : l.head? = some x) (hp : (p x).head? = some y) : (l.flatMap p).head? = some y := by
  obtain ⟨l, rfl⟩ := List.head?_eq_some_iff.mp hl
  rw [List.flatMap_cons, List.head?_append, hp]
  rfl

def joint (p : Nat → List Nat) (e : Nat × Nat) : Nat × Nat :=
  ((p e.1).getLast?.getD 0, (p e.2).head?.getD 0)

/-- The links of a path of paths lie within the paths or join two of them. -/
theorem links_flatMap {p : Nat → List Nat} {l : List Nat} (hp : ∀ u ∈ l, p u ≠ []) :
    (links (l.flatMap p)).Perm (l.flatMap (fun u => links (p u)) ++ (links l).map (joint p)) := by
  induction l with
  | nil => exact List.Perm.refl _
  | cons u l ih =>
    cases l with
    | nil => simp [links]
    | cons v l =>
      have hrest := ih fun w hw => hp w (List.mem_cons_of_mem _ hw)
      obtain ⟨x, hx⟩ : ∃ x, (p u).getLast? = some x :=
        ⟨_, List.getLast?_eq_some_getLast (hp u List.mem_cons_self)⟩
      obtain ⟨y, hy⟩ : ∃ y, (p v).head? = some y :=
        ⟨_, List.head?_eq_some_head (hp v (List.mem_cons_of_mem _ List.mem_cons_self))⟩
      have hjoint : joint p (u, v) = (x, y) := by
        rw [joint, hx, hy]
        rfl
      rw [List.flatMap_cons, links_append hx (head?_flatMap rfl hy),
        List.flatMap_cons (f := fun u => links (p u)), links, List.map_cons, hjoint,
        List.append_assoc]
      refine List.Perm.append_left _ ?_
      exact (List.Perm.cons _ hrest).trans List.perm_middle.symm

theorem link_snd_ne_head {l : List γ} {v : γ} (hnodup : l.Nodup) (hv : l.head? = some v)
    {e : γ × γ} (he : e ∈ links l) : e.2 ≠ v := by
  obtain ⟨l, rfl⟩ := List.head?_eq_some_iff.mp hv
  cases l with
  | nil => cases he
  | cons u l =>
    have hmem : e.2 ∈ u :: l := by
      rcases List.mem_cons.mp he with rfl | he
      · exact List.mem_cons_self
      · exact (links_subset he).2
    rintro rfl
    exact (List.nodup_cons.mp hnodup).1 hmem

theorem link_fst_ne_last {l : List γ} {v : γ} (hnodup : l.Nodup) (hv : l.getLast? = some v)
    {e : γ × γ} (he : e ∈ links l) : e.1 ≠ v := by
  induction l with
  | nil => cases he
  | cons u l ih =>
    cases l with
    | nil => cases he
    | cons w l =>
      rw [List.getLast?_cons_cons] at hv
      rcases List.mem_cons.mp he with rfl | he
      · rintro rfl
        exact (List.nodup_cons.mp hnodup).1 (List.mem_of_getLast? hv)
      · exact ih (List.nodup_cons.mp hnodup).2 hv he

/-! ### Contractions -/

def ends (e : Nat × Nat × β) : Nat × Nat := (e.1, e.2.1)

/-- An edge of the contracted graph leads from the end of one path to the start of another. -/
def Reattached (r : β → β → Prop) (path : Nat → List Nat) (e e' : Nat × Nat × β) : Prop :=
  (path e'.1).getLast? = some e.1 ∧ (path e'.2.1).head? = some e.2.1 ∧ r e.2.2 e'.2.2

/-- Each vertex of `h` is a path of `g`. -/
structure Contraction (r : β → β → Prop) (g h : AdjacencyList α β) (path : Nat → List Nat) :
    Prop where
  wellFormed : h.WellFormed
  cover : ((List.range h.order).flatMap path).Perm (List.range g.order)
  nonempty : ∀ w < h.order, path w ≠ []
  kept : ∀ w < h.order, ∀ v, path w = [v] → h.vertices[w]? = g.vertices[v]?
  degree : ∀ w < h.order, 2 ≤ (path w).length → ∀ v ∈ path w, g.inDegree v ≤ 1 ∧ g.outDegree v ≤ 1
  edges : ∃ inner outer, g.edges.Perm (inner ++ outer) ∧
    (inner.map ends).Perm ((List.range h.order).flatMap fun w => links (path w)) ∧
      List.Forall₂ (Reattached r path) outer h.edges

section Contraction

variable {r : β → β → Prop} {g h k : AdjacencyList α β} {p q : Nat → List Nat}

theorem Contraction.refl (hwf : g.WellFormed) (hr : ∀ b, r b b) :
    Contraction r g g fun w => [w] where
  wellFormed := hwf
  cover := by rw [List.flatMap_singleton']
  nonempty _ _ := List.cons_ne_nil _ _
  kept w _ v hv := by rw [List.singleton_inj.mp hv]
  degree w _ hlen := absurd hlen (by simp)
  edges := ⟨[], g.edges, List.Perm.refl _, by simp [links],
    List.forall₂_same.mpr fun e _ => ⟨rfl, rfl, hr _⟩⟩

theorem Contraction.disjoint (hc : Contraction r g h p) {w w' v : Nat} (hw : w < h.order)
    (hw' : w' < h.order) (hv : v ∈ p w) (hv' : v ∈ p w') : w = w' := by
  have hnodup : ((List.range h.order).flatMap p).Nodup :=
    hc.cover.nodup_iff.mpr List.nodup_range
  by_contra hne
  have hsymm : Std.Symm (Function.onFun List.Disjoint p) := ⟨fun _ _ hd => List.Disjoint.symm hd⟩
  have hdisjoint := (List.nodup_flatMap.mp hnodup).2.forall (List.mem_range.mpr hw)
    (List.mem_range.mpr hw') hne
  exact hdisjoint hv hv'

theorem Contraction.mem_lt (hc : Contraction r g h p) {w v : Nat} (hw : w < h.order)
    (hv : v ∈ p w) : v < g.order :=
  List.mem_range.mp (hc.cover.mem_iff.mp (List.mem_flatMap.mpr ⟨w, List.mem_range.mpr hw, hv⟩))

theorem Contraction.nodup (hc : Contraction r g h p) {w : Nat} (hw : w < h.order) : (p w).Nodup :=
  (List.nodup_flatMap.mp (hc.cover.nodup_iff.mpr List.nodup_range)).1 w (List.mem_range.mpr hw)

theorem Contraction.edge (hc : Contraction r g h p) {e' : Nat × Nat × β} (he' : e' ∈ h.edges) :
    ∃ e ∈ g.edges, Reattached r p e e' := by
  obtain ⟨inner, outer, hperm, -, houter⟩ := hc.edges
  obtain ⟨i, hi, rfl⟩ := List.mem_iff_getElem.mp he'
  have hlength := houter.length_eq
  refine ⟨outer[i], hperm.mem_iff.mpr (List.mem_append_right _ (List.getElem_mem _)), ?_⟩
  exact houter.get (by omega) hi

theorem Contraction.edge_of (hc : Contraction r g h p) {e : Nat × Nat × β} (he : e ∈ g.edges)
    {w w' : Nat} (hw : w < h.order) (hw' : w' < h.order) (hlast : (p w).getLast? = some e.1)
    (hhead : (p w').head? = some e.2.1) : ∃ b, (w, w', b) ∈ h.edges := by
  obtain ⟨inner, outer, hperm, hinner, houter⟩ := hc.edges
  rcases List.mem_append.mp (hperm.mem_iff.mp he) with he | he
  · have hends : ends e ∈ inner.map ends := List.mem_map_of_mem he
    obtain ⟨k, hk, hlink⟩ := List.mem_flatMap.mp (hinner.mem_iff.mp hends)
    obtain rfl := hc.disjoint (List.mem_range.mp hk) hw (links_subset hlink).1
      (List.mem_of_getLast? hlast)
    exact absurd rfl (link_fst_ne_last (hc.nodup hw) hlast hlink)
  · obtain ⟨i, hi, rfl⟩ := List.mem_iff_getElem.mp he
    have hlength := houter.length_eq
    have hatt : Reattached r p outer[i] h.edges[i] := houter.get hi (by omega)
    have hmem : h.edges[i] ∈ h.edges := List.getElem_mem _
    have hsource := hc.disjoint (hc.wellFormed _ hmem).1 hw (List.mem_of_getLast? hatt.1)
      (List.mem_of_getLast? hlast)
    have htarget := hc.disjoint (hc.wellFormed _ hmem).2 hw' (List.mem_of_head? hatt.2.1)
      (List.mem_of_head? hhead)
    refine ⟨h.edges[i].2.2, ?_⟩
    rw [← hsource, ← htarget]
    exact hmem

theorem countP_eq_of_forall₂ {δ : Type*} {R : γ → δ → Prop} {P : γ → Bool} {Q : δ → Bool}
    {l : List γ} {l' : List δ} (h : List.Forall₂ R l l')
    (hPQ : ∀ x y, y ∈ l' → R x y → (P x = true ↔ Q y = true)) : l.countP P = l'.countP Q := by
  induction h with
  | nil => rfl
  | cons hxy _ ih =>
    have hhead := Bool.eq_iff_iff.mpr (hPQ _ _ List.mem_cons_self hxy)
    rw [List.countP_cons, List.countP_cons, hhead,
      ih fun x y hy => hPQ x y (List.mem_cons_of_mem _ hy)]

theorem inDegree_eq_countP (g : AdjacencyList α β) (v : Nat) :
    g.inDegree v = g.edges.countP fun e => e.2.1 = v :=
  List.countP_eq_length_filter.symm

theorem outDegree_eq_countP (g : AdjacencyList α β) (v : Nat) :
    g.outDegree v = g.edges.countP fun e => e.1 = v :=
  List.countP_eq_length_filter.symm

/-- No link within a path leads to the start of a path. -/
theorem Contraction.inDegree_head (hc : Contraction r g h p) {w v : Nat} (hw : w < h.order)
    (hv : (p w).head? = some v) : g.inDegree v = h.inDegree w := by
  obtain ⟨inner, outer, hperm, hinner, houter⟩ := hc.edges
  have hmem := List.mem_of_head? hv
  have hnone : inner.countP (fun e => e.2.1 = v) = 0 := by
    have hmap : inner.countP (fun e => e.2.1 = v) =
        (inner.map ends).countP fun e => e.2 = v := by
      rw [List.countP_map]
      rfl
    rw [hmap, hinner.countP_eq, List.countP_eq_zero]
    intro e he
    obtain ⟨w', hw', hlink⟩ := List.mem_flatMap.mp he
    have hw' := List.mem_range.mp hw'
    by_contra htarget
    have htarget : e.2 = v := of_decide_eq_true (by simpa using htarget)
    obtain rfl := hc.disjoint hw' hw (links_subset hlink).2 (htarget ▸ hmem)
    exact link_snd_ne_head (hc.nodup hw') hv hlink htarget
  rw [inDegree_eq_countP, inDegree_eq_countP, hperm.countP_eq, List.countP_append, hnone, zero_add]
  refine countP_eq_of_forall₂ houter fun e e' he' hatt => ?_
  simp only [decide_eq_true_eq]
  constructor
  · intro htarget
    exact hc.disjoint (hc.wellFormed e' he').2 hw (List.mem_of_head? hatt.2.1) (htarget ▸ hmem)
  · intro htarget
    have hhead := hatt.2.1
    rw [htarget, hv] at hhead
    exact (Option.some.inj hhead).symm

/-- No link within a path starts at the end of a path. -/
theorem Contraction.outDegree_last (hc : Contraction r g h p) {w v : Nat} (hw : w < h.order)
    (hv : (p w).getLast? = some v) : g.outDegree v = h.outDegree w := by
  obtain ⟨inner, outer, hperm, hinner, houter⟩ := hc.edges
  have hmem := List.mem_of_getLast? hv
  have hnone : inner.countP (fun e => e.1 = v) = 0 := by
    have hmap : inner.countP (fun e => e.1 = v) = (inner.map ends).countP fun e => e.1 = v := by
      rw [List.countP_map]
      rfl
    rw [hmap, hinner.countP_eq, List.countP_eq_zero]
    intro e he
    obtain ⟨w', hw', hlink⟩ := List.mem_flatMap.mp he
    have hw' := List.mem_range.mp hw'
    by_contra hsource
    have hsource : e.1 = v := of_decide_eq_true (by simpa using hsource)
    obtain rfl := hc.disjoint hw' hw (links_subset hlink).1 (hsource ▸ hmem)
    exact link_fst_ne_last (hc.nodup hw') hv hlink hsource
  rw [outDegree_eq_countP, outDegree_eq_countP, hperm.countP_eq, List.countP_append, hnone, zero_add]
  refine countP_eq_of_forall₂ houter fun e e' he' hatt => ?_
  simp only [decide_eq_true_eq]
  constructor
  · intro hsource
    exact hc.disjoint (hc.wellFormed e' he').1 hw (List.mem_of_getLast? hatt.1) (hsource ▸ hmem)
  · intro hsource
    have hlast := hatt.1
    rw [hsource, hv] at hlast
    exact (Option.some.inj hlast).symm

theorem forall₂_trans {δ ε : Type*} {R : γ → δ → Prop} {S : δ → ε → Prop} {T : γ → ε → Prop}
    (hRST : ∀ x y z, R x y → S y z → T x z) {l : List γ} {l' : List δ} {l'' : List ε}
    (h : List.Forall₂ R l l') (h' : List.Forall₂ S l' l'') : List.Forall₂ T l l'' := by
  induction h generalizing l'' with
  | nil =>
    cases h'
    exact .nil
  | cons hxy _ ih =>
    cases h' with
    | cons hyz hrest => exact .cons (hRST _ _ _ hxy hyz) (ih hrest)

theorem Reattached.trans (hr : ∀ x y z, r x y → r y z → r x z) {e e' e'' : Nat × Nat × β}
    (h : Reattached r p e e') (h' : Reattached r q e' e'') :
    Reattached r (fun w => (q w).flatMap p) e e'' :=
  ⟨getLast?_flatMap h'.1 h.1, head?_flatMap h'.2.1 h.2.1, hr _ _ _ h.2.2 h'.2.2⟩

theorem Contraction.trans (hr : ∀ x y z, r x y → r y z → r x z) (hc : Contraction r g h p)
    (hc' : Contraction r h k q) : Contraction r g k fun w => (q w).flatMap p where
  wellFormed := hc'.wellFormed
  cover := by
    rw [← List.flatMap_assoc]
    exact (hc'.cover.flatMap_right p).trans hc.cover
  nonempty w hw hnil := by
    obtain ⟨u, us, hq⟩ := List.exists_cons_of_ne_nil (hc'.nonempty w hw)
    have hu : u < h.order := hc'.mem_lt hw (hq ▸ List.mem_cons_self)
    rw [List.flatMap_eq_nil_iff] at hnil
    exact hc.nonempty u hu (hnil u (hq ▸ List.mem_cons_self))
  kept w hw v hv := by
    obtain ⟨u, us, hq⟩ := List.exists_cons_of_ne_nil (hc'.nonempty w hw)
    have hmem : ∀ x ∈ u :: us, x < h.order := fun x hx => hc'.mem_lt hw (hq ▸ hx)
    rw [hq, List.flatMap_cons] at hv
    have hpu := hc.nonempty u (hmem u List.mem_cons_self)
    obtain ⟨y, ys, hy⟩ := List.exists_cons_of_ne_nil hpu
    rw [hy, List.cons_append, List.cons_eq_cons, List.append_eq_nil_iff] at hv
    obtain ⟨rfl, rfl, hus⟩ := hv
    have hnil : us = [] := by
      cases us with
      | nil => rfl
      | cons x xs =>
        have hx := hc.nonempty x (hmem x (by simp))
        simp only [List.flatMap_cons, List.append_eq_nil_iff] at hus
        exact absurd hus.1 hx
    rw [hnil] at hq
    exact (hc'.kept w hw u hq).trans (hc.kept u (hmem u List.mem_cons_self) y hy)
  degree w hw hlen v hv := by
    obtain ⟨u, hu, hvu⟩ := List.mem_flatMap.mp hv
    have hult := hc'.mem_lt hw hu
    by_cases hlong : 2 ≤ (p u).length
    · exact hc.degree u hult hlong v hvu
    · have hsingle : p u = [v] := by
        obtain ⟨y, ys, hy⟩ := List.exists_cons_of_ne_nil (hc.nonempty u hult)
        rw [hy] at hlong hvu ⊢
        cases ys with
        | nil => rw [List.mem_singleton.mp hvu]
        | cons z zs => exact absurd hlong (by simp)
      have hq : 2 ≤ (q w).length := by
        by_contra hshort
        obtain ⟨y, ys, hy⟩ := List.exists_cons_of_ne_nil (hc'.nonempty w hw)
        rw [hy] at hshort hu hlen
        cases ys with
        | nil =>
          obtain rfl := List.mem_singleton.mp hu
          simp [hsingle] at hlen
        | cons z zs => exact absurd hshort (by simp)
      have hdegree := hc'.degree w hw hq u hu
      rw [hc.inDegree_head hult (by rw [hsingle]; rfl), hc.outDegree_last hult (by rw [hsingle]; rfl)]
      exact hdegree
  edges := by
    obtain ⟨inner, outer, hperm, hinner, houter⟩ := hc.edges
    obtain ⟨inner', outer', hperm', hinner', houter'⟩ := hc'.edges
    -- the edges of `g` behind those of `h`, sorted as they are
    obtain ⟨mid, hmid, hmidperm⟩ := List.perm_comp_forall₂ hperm'.symm houter.flip
    have hmid := hmid.flip
    have hin := List.forall₂_take_append _ _ _ hmid
    have hout := List.forall₂_drop_append _ _ _ hmid
    refine ⟨inner ++ mid.take inner'.length, mid.drop inner'.length, ?_, ?_,
      forall₂_trans (fun _ _ _ => Reattached.trans hr) hout houter'⟩
    · rw [List.append_assoc, List.take_append_drop]
      exact hperm.trans (hmidperm.symm.append_left inner)
    · have hjoint : (mid.take inner'.length).map ends = (inner'.map ends).map (joint p) := by
        refine List.forall₂_eq_eq_eq ▸ ?_
        rw [List.forall₂_map_left_iff, List.forall₂_map_right_iff, List.forall₂_map_right_iff]
        refine hin.imp fun e e' hatt => ?_
        simp only [ends, joint, hatt.1, hatt.2.1, Option.getD_some]
      have hlinks : ((List.range k.order).flatMap fun w => links ((q w).flatMap p)).Perm
          (((List.range k.order).flatMap fun w => (q w).flatMap fun u => links (p u)) ++
            ((List.range k.order).flatMap fun w => (links (q w)).map (joint p))) := by
        refine List.Perm.trans (List.Perm.flatMap_left _ fun w hw => ?_)
          (List.flatMap_append_perm _ _ _).symm
        have hw := List.mem_range.mp hw
        exact links_flatMap fun u hu => hc.nonempty u (hc'.mem_lt hw hu)
      rw [List.map_append, hjoint]
      refine List.Perm.trans ?_ hlinks.symm
      refine List.Perm.append (hinner.trans ?_) ?_
      · rw [← List.flatMap_assoc]
        exact (hc'.cover.flatMap_right _).symm
      · rw [← List.map_flatMap]
        exact hinner'.map _

end Contraction

/-! ### One path -/

theorem link_of_ne_last {l : List γ} {x : γ} (hx : x ∈ l) : l.getLast? = some x ∨
    ∃ y, (x, y) ∈ links l := by
  induction l with
  | nil => cases hx
  | cons u l ih =>
    cases l with
    | nil => exact Or.inl (by rw [List.mem_singleton.mp hx]; rfl)
    | cons v l =>
      rw [List.getLast?_cons_cons]
      rcases List.mem_cons.mp hx with rfl | hx
      · exact Or.inr ⟨v, List.mem_cons_self⟩
      · exact (ih hx).imp_right fun ⟨y, hy⟩ => ⟨y, List.mem_cons_of_mem _ hy⟩

theorem link_of_ne_head {l : List γ} {y : γ} (hy : y ∈ l) : l.head? = some y ∨
    ∃ x, (x, y) ∈ links l := by
  induction l with
  | nil => cases hy
  | cons u l ih =>
    rcases List.mem_cons.mp hy with rfl | hy
    · exact Or.inl rfl
    · cases l with
      | nil => cases hy
      | cons v l =>
        right
        rcases ih hy with hhead | ⟨x, hx⟩
        · exact ⟨u, by rw [← Option.some.inj hhead]; exact List.mem_cons_self⟩
        · exact ⟨x, List.mem_cons_of_mem _ hx⟩

theorem nodup_links {l : List γ} (h : l.Nodup) : (links l).Nodup := by
  induction l with
  | nil => exact List.nodup_nil
  | cons u l ih =>
    cases l with
    | nil => exact List.nodup_nil
    | cons v l =>
      obtain ⟨hu, hl⟩ := List.nodup_cons.mp h
      exact List.nodup_cons.mpr ⟨fun hmem => hu (links_subset hmem).1, ih hl⟩

/-- A path of two vertices at least links each of its vertices. -/
theorem exists_link {l : List γ} {v : γ} (hlong : 2 ≤ l.length) (hv : v ∈ l) :
    ∃ w, (v, w) ∈ links l ∨ (w, v) ∈ links l := by
  rcases link_of_ne_head hv with hhead | ⟨x, hx⟩
  · obtain ⟨l, rfl⟩ := List.head?_eq_some_iff.mp hhead
    cases l with
    | nil => exact absurd hlong (by simp)
    | cons w l => exact ⟨w, Or.inl List.mem_cons_self⟩
  · exact ⟨x, Or.inr hx⟩

theorem links_asymm {l : List γ} {u v : γ} (hnodup : l.Nodup) (h : (u, v) ∈ links l) :
    (v, u) ∉ links l := by
  induction l with
  | nil => cases h
  | cons a l ih =>
    cases l with
    | nil => cases h
    | cons b l =>
      obtain ⟨ha, hl⟩ := List.nodup_cons.mp hnodup
      rcases List.mem_cons.mp h with heq | h <;> intro hback
      · obtain ⟨rfl, rfl⟩ := Prod.mk.inj heq
        rcases List.mem_cons.mp hback with heq | hback
        · exact ha ((Prod.mk.inj heq).2 ▸ List.mem_cons_self)
        · exact ha (links_subset hback).2
      · rcases List.mem_cons.mp hback with heq | hback
        · exact ha ((Prod.mk.inj heq).1 ▸ (links_subset h).2)
        · exact ih hl h hback

/-- A path that is left only at its last vertex and entered only at its first one. -/
structure Chain (g : AdjacencyList α β) (c : List Nat) : Prop where
  nodup : c.Nodup
  range : ∀ v ∈ c, v < g.order
  long : 2 ≤ c.length
  linked : ∀ e ∈ links c, ∃ b, g.outEdges e.1 = [(e.1, e.2, b)] ∧ g.inEdges e.2 = [(e.1, e.2, b)]
  entered : ∀ v, c.head? = some v → g.inDegree v ≤ 1 ∧ ∀ e ∈ g.inEdges v, e.1 ∉ c
  left : ∀ v, c.getLast? = some v → g.outDegree v ≤ 1 ∧ ∀ e ∈ g.outEdges v, e.2.1 ∉ c

section Chain

variable {g : AdjacencyList α β} {c : List Nat} {x y v : Nat} {e : Nat × Nat × β}

theorem Chain.degree (h : Chain g c) (hv : v ∈ c) : g.inDegree v ≤ 1 ∧ g.outDegree v ≤ 1 := by
  constructor
  · rcases link_of_ne_head hv with hhead | ⟨x, hx⟩
    · exact (h.entered v hhead).1
    · obtain ⟨b, -, hin⟩ := h.linked _ hx
      rw [inDegree, hin]
      exact Nat.le_refl 1
  · rcases link_of_ne_last hv with hlast | ⟨y, hy⟩
    · exact (h.left v hlast).1
    · obtain ⟨b, hout, -⟩ := h.linked _ hy
      rw [outDegree, hout]
      exact Nat.le_refl 1

theorem Chain.target_of_link (h : Chain g c) (hlink : (x, y) ∈ links c) (he : e ∈ g.edges)
    (hsource : e.1 = x) : e.2.1 = y := by
  obtain ⟨b, hout, -⟩ := h.linked _ hlink
  have hmem : e ∈ g.outEdges x := mem_outEdges.mpr ⟨he, hsource⟩
  rw [hout, List.mem_singleton] at hmem
  rw [hmem]

theorem Chain.source_of_link (h : Chain g c) (hlink : (x, y) ∈ links c) (he : e ∈ g.edges)
    (htarget : e.2.1 = y) : e.1 = x := by
  obtain ⟨b, -, hin⟩ := h.linked _ hlink
  have hmem : e ∈ g.inEdges y := mem_inEdges.mpr ⟨he, htarget⟩
  rw [hin, List.mem_singleton] at hmem
  rw [hmem]

theorem Chain.inner_perm (h : Chain g c) :
    ((g.edges.filter fun e => e.1 ∈ c ∧ e.2.1 ∈ c).map ends).Perm (links c) := by
  have hsources : ((g.edges.filter fun e => e.1 ∈ c ∧ e.2.1 ∈ c).map fun e => e.1).Nodup := by
    refine List.nodup_iff_count_le_one.mpr fun v => ?_
    rw [List.count_eq_countP, List.countP_map, List.countP_filter]
    by_cases hv : v ∈ c
    · have hdegree := (h.degree hv).2
      rw [outDegree_eq_countP] at hdegree
      refine Nat.le_trans (List.countP_mono_left fun e _ he => ?_) hdegree
      simp only [Function.comp_apply, Bool.and_eq_true, beq_iff_eq] at he
      exact decide_eq_true he.1
    · refine Nat.le_trans (Nat.le_of_eq (List.countP_eq_zero.mpr fun e _ he => ?_)) (Nat.zero_le 1)
      simp only [Function.comp_apply, Bool.and_eq_true, beq_iff_eq, decide_eq_true_eq] at he
      exact hv (he.1 ▸ he.2.1)
  have hinner : ((g.edges.filter fun e => e.1 ∈ c ∧ e.2.1 ∈ c).map ends).Nodup := by
    refine List.Nodup.of_map Prod.fst ?_
    rw [List.map_map]
    exact hsources
  refine (List.perm_ext_iff_of_nodup hinner (nodup_links h.nodup)).mpr fun e => ?_
  constructor
  · intro he
    obtain ⟨e', he', rfl⟩ := List.mem_map.mp he
    obtain ⟨hedge, hmem⟩ := List.mem_filter.mp he'
    obtain ⟨hsource, htarget⟩ := of_decide_eq_true hmem
    rcases link_of_ne_last hsource with hlast | ⟨y, hy⟩
    · exact absurd htarget ((h.left _ hlast).2 e' (mem_outEdges.mpr ⟨hedge, rfl⟩))
    · rw [ends, h.target_of_link hy hedge rfl]
      exact hy
  · intro he
    obtain ⟨b, hout, -⟩ := h.linked e he
    have hedge : (e.1, e.2, b) ∈ g.edges :=
      (mem_outEdges.mp (hout ▸ List.mem_singleton_self _ : (e.1, e.2, b) ∈ g.outEdges e.1)).1
    exact List.mem_map.mpr ⟨(e.1, e.2, b),
      List.mem_filter.mpr ⟨hedge, decide_eq_true (links_subset he)⟩, rfl⟩

theorem Chain.outer_perm (h : Chain g c) {first last : Nat} (hfirst : c.head? = some first)
    (hlast : c.getLast? = some last) :
    (g.edges.filter fun e => !decide (e.1 ∈ c ∧ e.2.1 ∈ c)).Perm
      (g.edges.filter (avoids c) ++ (g.inEdges first ++ g.outEdges last)) := by
  have hfirstMem := List.mem_of_head? hfirst
  have hlastMem := List.mem_of_getLast? hlast
  have hentered := (h.entered first hfirst).2
  have hleft := (h.left last hlast).2
  have hsplit := (List.filter_append_perm (avoids c)
    (g.edges.filter fun e => !decide (e.1 ∈ c ∧ e.2.1 ∈ c))).symm
  have hsplit' := (List.filter_append_perm (fun e => decide (e.2.1 = first))
    ((g.edges.filter fun e => !decide (e.1 ∈ c ∧ e.2.1 ∈ c)).filter fun e => !avoids c e)).symm
  have havoid : (g.edges.filter fun e => !decide (e.1 ∈ c ∧ e.2.1 ∈ c)).filter (avoids c) =
      g.edges.filter (avoids c) := by
    rw [List.filter_filter]
    refine List.filter_congr fun e _ => Bool.eq_iff_iff.mpr ?_
    simp only [avoids, Bool.and_eq_true, Bool.not_eq_true', decide_eq_true_eq,
      decide_eq_false_iff_not, not_and_or]
    exact ⟨fun hboth => hboth.1, fun hout => ⟨hout, Or.inl hout.1⟩⟩
  have henter : ((g.edges.filter fun e => !decide (e.1 ∈ c ∧ e.2.1 ∈ c)).filter
      fun e => !avoids c e).filter (fun e => decide (e.2.1 = first)) = g.inEdges first := by
    rw [List.filter_filter, List.filter_filter]
    refine List.filter_congr fun e he => Bool.eq_iff_iff.mpr ?_
    simp only [avoids, Bool.and_eq_true, Bool.not_eq_true', decide_eq_true_eq,
      decide_eq_false_iff_not, not_and_or, not_not]
    constructor
    · exact fun hboth => hboth.1.1
    · intro htarget
      exact ⟨⟨htarget, Or.inr (htarget ▸ hfirstMem)⟩,
        Or.inl (hentered e (mem_inEdges.mpr ⟨he, htarget⟩))⟩
  have hleave : ((g.edges.filter fun e => !decide (e.1 ∈ c ∧ e.2.1 ∈ c)).filter
      fun e => !avoids c e).filter (fun e => !decide (e.2.1 = first)) = g.outEdges last := by
    rw [List.filter_filter, List.filter_filter]
    refine List.filter_congr fun e he => Bool.eq_iff_iff.mpr ?_
    simp only [avoids, Bool.and_eq_true, Bool.not_eq_true', decide_eq_true_eq,
      decide_eq_false_iff_not, not_and_or, not_not]
    constructor
    · rintro ⟨⟨hne, htouch⟩, hcross⟩
      -- only the first vertex is entered from outside
      have hsource : e.1 ∈ c := by
        rcases htouch with hsource | htarget
        · exact hsource
        · rcases link_of_ne_head htarget with hhead | ⟨x, hx⟩
          · exact absurd (Option.some.inj (hhead.symm.trans hfirst)) hne
          · rw [h.source_of_link hx he rfl]
            exact (links_subset hx).1
      rcases link_of_ne_last hsource with hend | ⟨y, hy⟩
      · exact Option.some.inj (hend.symm.trans hlast)
      · have htarget : e.2.1 ∈ c := by
          rw [h.target_of_link hy he rfl]
          exact (links_subset hy).2
        exact absurd htarget (hcross.resolve_left (not_not.mpr hsource))
    · intro hsource
      have htarget := hleft e (mem_outEdges.mpr ⟨he, hsource⟩)
      exact ⟨⟨fun heq => htarget (heq ▸ hfirstMem), Or.inl (hsource ▸ hlastMem)⟩, Or.inr htarget⟩
  rw [havoid] at hsplit
  rw [henter, hleave] at hsplit'
  exact hsplit.trans (hsplit'.append_left _)

end Chain

/-! ### Contraction of one path -/

open Compaction

def keptList (D : List Nat) (n : Nat) : List Nat := (List.range n).filter fun v => v ∉ D

/-- The paths when `c` becomes the last vertex. -/
def chainPath (c : List Nat) (n w : Nat) : List Nat :=
  if w = (keptList c n).length then c else ((keptList c n)[w]?).toList

section Kept

variable {D : List Nat} {v n : Nat}

theorem length_keptList (D : List Nat) (n : Nat) : (keptList D n).length = renumbered D n := by
  induction n with
  | zero => rfl
  | succ n ih =>
    rw [keptList, List.range_succ, List.filter_append, List.length_append, ← keptList, ih,
      renumbered_succ]
    by_cases hn : n ∈ D <;> simp [hn]

theorem getElem?_keptList (hv : v ∉ D) (hlt : v < n) : (keptList D n)[renumbered D v]? = some v := by
  induction n with
  | zero => exact absurd hlt (Nat.not_lt_zero v)
  | succ n ih =>
    rw [keptList, List.range_succ, List.filter_append, ← keptList]
    rcases Nat.lt_succ_iff_lt_or_eq.mp hlt with hlt | rfl
    · have hlength : renumbered D v < (keptList D n).length := by
        rw [length_keptList]
        exact renumbered_lt hv hlt
      rw [List.getElem?_append_left hlength, ih hlt]
    · rw [List.getElem?_append_right (by rw [length_keptList]), length_keptList, Nat.sub_self]
      simp [hv]

theorem flatMap_getElem? {γ : Type*} (l : List γ) :
    ((List.range l.length).flatMap fun i => (l[i]?).toList) = l := by
  induction l with
  | nil => rfl
  | cons a l ih =>
    rw [List.length_cons, List.range_succ_eq_map, List.flatMap_cons, List.flatMap_map]
    simpa using ih

theorem chainPath_renumbered {c : List Nat} (hv : v ∉ c) (hlt : v < n) :
    chainPath c n (renumbered c v) = [v] := by
  have hne : renumbered c v ≠ (keptList c n).length := by
    rw [length_keptList]
    exact Nat.ne_of_lt (renumbered_lt hv hlt)
  rw [chainPath, if_neg hne, getElem?_keptList hv hlt]
  rfl

theorem chainPath_last {c : List Nat} : chainPath c n (renumbered c n) = c := by
  rw [chainPath, if_pos (length_keptList c n).symm]

end Kept

/-- The chain `c` becomes one vertex with the edges that enter and leave it. -/
structure Contracted (copy : β → β) (g g' : AdjacencyList α β) (c : List Nat) : Prop where
  vertices : ∃ a, g'.vertices = g.vertices ++ [a]
  edges : ∃ first last, c.head? = some first ∧ c.getLast? = some last ∧
    g'.edges = g.edges ++ ((g.inEdges first).map (fun e => (e.1, g.order, copy e.2.2)) ++
      (g.outEdges last).map fun e => (g.order, e.2.1, copy e.2.2))

section Step

variable {r : β → β → Prop} {copy : β → β} {g g' h : AdjacencyList α β} {c : List Nat}

theorem Chain.order_not_mem (hchain : Chain g c) : g.order ∉ c := fun hmem =>
  Nat.lt_irrefl _ (hchain.range _ hmem)

theorem Chain.order_contracted (hchain : Chain g c) (hnew : Contracted copy g g' c)
    (hremoved : Removed c g' h) : h.order = renumbered c g.order + 1 := by
  obtain ⟨a, ha⟩ := hnew.vertices
  have hlength : g'.vertices.length = g.order + 1 := by
    rw [ha, List.length_append, List.length_singleton, order]
  rw [order, hremoved.vertices.length, hlength, renumbered_succ, if_pos hchain.order_not_mem]

theorem Chain.vertex_cases (hchain : Chain g c) (hnew : Contracted copy g g' c)
    (hremoved : Removed c g' h) {w : Nat} (hw : w < h.order) :
    w = renumbered c g.order ∨ ∃ v, v < g.order ∧ v ∉ c ∧ renumbered c v = w := by
  rw [hchain.order_contracted hnew hremoved] at hw
  rcases Nat.lt_succ_iff_lt_or_eq.mp hw with hlt | heq
  · exact Or.inr (exists_renumbered hlt)
  · exact Or.inl heq

theorem Chain.cover_chainPath (hchain : Chain g c) :
    ((List.range (renumbered c g.order + 1)).flatMap (chainPath c g.order)).Perm
      (List.range g.order) := by
  have hkept : (List.range (renumbered c g.order)).flatMap (chainPath c g.order) =
      keptList c g.order := by
    rw [← length_keptList]
    refine Eq.trans ?_ (flatMap_getElem? (keptList c g.order))
    refine List.flatMap_congr fun w hw => ?_
    rw [chainPath, if_neg (Nat.ne_of_lt (List.mem_range.mp hw))]
  rw [List.range_succ, List.flatMap_append, List.flatMap_singleton, chainPath_last, hkept]
  have hc : ((List.range g.order).filter fun v => !decide (v ∉ c)).Perm c := by
    refine (List.perm_ext_iff_of_nodup (List.nodup_range.filter _) hchain.nodup).mpr fun v => ?_
    simp only [List.mem_filter, List.mem_range, Bool.not_eq_true', decide_eq_false_iff_not, not_not]
    exact ⟨fun hv => hv.2, fun hv => ⟨hchain.range v hv, hv⟩⟩
  exact (hc.symm.append_left _).trans (List.filter_append_perm _ _)

/-- The edges that are left, and those of the new vertex. -/
theorem Chain.edges_contracted (hchain : Chain g c) (hremoved : Removed c g' h) {first last : Nat}
    (hfirst : c.head? = some first) (hlast : c.getLast? = some last)
    (hedges : g'.edges = g.edges ++ ((g.inEdges first).map (fun e => (e.1, g.order, copy e.2.2)) ++
      (g.outEdges last).map fun e => (g.order, e.2.1, copy e.2.2))) :
    h.edges = (g.edges.filter (avoids c)).map (renumberedEdge c) ++
      ((g.inEdges first).map (fun e => (renumbered c e.1, renumbered c g.order, copy e.2.2)) ++
        (g.outEdges last).map fun e => (renumbered c g.order, renumbered c e.2.1, copy e.2.2)) := by
  have hnew := hchain.order_not_mem
  have henter : ∀ e ∈ (g.inEdges first).map (fun e => (e.1, g.order, copy e.2.2)),
      avoids c e = true := by
    intro e he
    obtain ⟨e', he', rfl⟩ := List.mem_map.mp he
    exact avoids_iff.mpr ⟨(hchain.entered first hfirst).2 e' he', hnew⟩
  have hleave : ∀ e ∈ (g.outEdges last).map (fun e => (g.order, e.2.1, copy e.2.2)),
      avoids c e = true := by
    intro e he
    obtain ⟨e', he', rfl⟩ := List.mem_map.mp he
    exact avoids_iff.mpr ⟨hnew, (hchain.left last hlast).2 e' he'⟩
  rw [hremoved.edges, hedges, List.filter_append, List.filter_append,
    List.filter_eq_self.mpr henter, List.filter_eq_self.mpr hleave, List.map_append,
    List.map_append, List.map_map, List.map_map]
  rfl

theorem Chain.reattached (hwf : g.WellFormed) (hchain : Chain g c) (hr : ∀ b, r b b)
    (hcopy : ∀ b, r b (copy b)) (hremoved : Removed c g' h) {first last : Nat}
    (hfirst : c.head? = some first) (hlast : c.getLast? = some last)
    (hedges : g'.edges = g.edges ++ ((g.inEdges first).map (fun e => (e.1, g.order, copy e.2.2)) ++
      (g.outEdges last).map fun e => (g.order, e.2.1, copy e.2.2))) :
    List.Forall₂ (Reattached r (chainPath c g.order))
      (g.edges.filter (avoids c) ++ (g.inEdges first ++ g.outEdges last)) h.edges := by
  have hkept : ∀ v, v ∉ c → v < g.order → chainPath c g.order (renumbered c v) = [v] :=
    fun v hv hlt => chainPath_renumbered hv hlt
  rw [hchain.edges_contracted hremoved hfirst hlast hedges]
  refine List.rel_append ?_ (List.rel_append ?_ ?_)
  · rw [List.forall₂_map_right_iff, List.forall₂_same]
    intro e he
    obtain ⟨hedge, havoid⟩ := List.mem_filter.mp he
    obtain ⟨hsource, htarget⟩ := avoids_iff.mp havoid
    refine ⟨?_, ?_, hr _⟩
    · rw [renumberedEdge, hkept _ hsource (hwf e hedge).1]
      rfl
    · rw [renumberedEdge, hkept _ htarget (hwf e hedge).2]
      rfl
  · rw [List.forall₂_map_right_iff, List.forall₂_same]
    intro e he
    obtain ⟨hedge, htarget⟩ := mem_inEdges.mp he
    refine ⟨?_, ?_, hcopy _⟩
    · rw [hkept _ ((hchain.entered first hfirst).2 e he) (hwf e hedge).1]
      rfl
    · rw [chainPath_last, hfirst, htarget]
  · rw [List.forall₂_map_right_iff, List.forall₂_same]
    intro e he
    obtain ⟨hedge, hsource⟩ := mem_outEdges.mp he
    refine ⟨?_, ?_, hcopy _⟩
    · rw [chainPath_last, hlast, hsource]
    · rw [hkept _ ((hchain.left last hlast).2 e he) (hwf e hedge).2]
      rfl

end Step

theorem Chain.contraction {r : β → β → Prop} {copy : β → β} {g g' h : AdjacencyList α β}
    {c : List Nat} (hwf : g.WellFormed) (hchain : Chain g c) (hr : ∀ b, r b b)
    (hcopy : ∀ b, r b (copy b)) (hnew : Contracted copy g g' c) (hremoved : Removed c g' h) :
    Contraction r g h (chainPath c g.order) := by
  have horder := hchain.order_contracted hnew hremoved
  obtain ⟨first, last, hfirst, hlast, hedges⟩ := hnew.edges
  obtain ⟨a, ha⟩ := hnew.vertices
  have hcases := fun w hw => hchain.vertex_cases (w := w) hnew hremoved hw
  have hlong : c ≠ [] := by
    rintro rfl
    exact absurd hchain.long (by simp)
  refine ⟨fun e he => ?_, ?_, fun w hw => ?_, fun w hw v hv => ?_, fun w hw hlen v hv => ?_, ?_⟩
  · have hkept : ∀ v, v ∉ c → v < g.order → renumbered c v < h.order := fun v hv hlt => by
      rw [horder]
      exact Nat.lt_succ_of_lt (renumbered_lt hv hlt)
    have hlt : renumbered c g.order < h.order := by
      rw [horder]
      exact Nat.lt_succ_self _
    rw [hchain.edges_contracted hremoved hfirst hlast hedges, List.mem_append, List.mem_append] at he
    rcases he with he | he | he
    · obtain ⟨e', he', rfl⟩ := List.mem_map.mp he
      obtain ⟨hedge, havoid⟩ := List.mem_filter.mp he'
      obtain ⟨hsource, htarget⟩ := avoids_iff.mp havoid
      exact ⟨hkept _ hsource (hwf e' hedge).1, hkept _ htarget (hwf e' hedge).2⟩
    · obtain ⟨e', he', rfl⟩ := List.mem_map.mp he
      have hedge := (mem_inEdges.mp he').1
      exact ⟨hkept _ ((hchain.entered first hfirst).2 e' he') (hwf e' hedge).1, hlt⟩
    · obtain ⟨e', he', rfl⟩ := List.mem_map.mp he
      have hedge := (mem_outEdges.mp he').1
      exact ⟨hlt, hkept _ ((hchain.left last hlast).2 e' he') (hwf e' hedge).2⟩
  · rw [horder]
    exact hchain.cover_chainPath
  · rcases hcases w hw with rfl | ⟨v, hlt, hv, rfl⟩
    · rw [chainPath_last]
      exact hlong
    · rw [chainPath_renumbered hv hlt]
      exact List.cons_ne_nil _ _
  · rcases hcases w hw with rfl | ⟨v', hlt, hv', rfl⟩
    · rw [chainPath_last] at hv
      exact absurd hchain.long (by rw [hv]; simp)
    · rw [chainPath_renumbered hv' hlt, List.singleton_inj] at hv
      subst hv
      have hlt' : v' < g'.vertices.length := by
        rw [ha, List.length_append]
        exact Nat.lt_add_right _ hlt
      rw [hremoved.vertices.get v' hv' hlt', ha, List.getElem?_append_left hlt]
  · rcases hcases w hw with rfl | ⟨v', hlt, hv', rfl⟩
    · rw [chainPath_last] at hv
      exact hchain.degree hv
    · rw [chainPath_renumbered hv' hlt] at hlen
      exact absurd hlen (by simp)
  · refine ⟨g.edges.filter fun e => e.1 ∈ c ∧ e.2.1 ∈ c, _, ?_, ?_,
      hchain.reattached hwf hr hcopy hremoved hfirst hlast hedges⟩
    · exact (List.filter_append_perm _ _).symm.trans
        ((hchain.outer_perm hfirst hlast).append_left _)
    · have hnone : (List.range (renumbered c g.order)).flatMap
          (fun w => links (chainPath c g.order w)) = [] := by
        refine List.flatMap_eq_nil_iff.mpr fun w hw => ?_
        obtain ⟨v, hlt, hv, rfl⟩ := exists_renumbered (List.mem_range.mp hw)
        rw [chainPath_renumbered hv hlt]
        rfl
      rw [horder, List.range_succ, List.flatMap_append, hnone, List.nil_append,
        List.flatMap_singleton, chainPath_last]
      exact hchain.inner_perm

end AdjacencyList
