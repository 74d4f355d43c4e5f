import BelProjects.ScheduleCompare.Replacement

/-!
# The types of the vertices in a chain

With blocks separated a chain that is collected has one type.  The vertex that takes its place
has none, and so it goes into a chain with the next such vertex.  Chains of vertices of the
input are separated by their types, since each of them is collected as far as its type goes.
-/

namespace ScheduleCompare

open AdjacencyList Compaction

def vertexType (g : ChainGraph) (v : Nat) : String := (vertexAt g v).member .type

/-- Each of the first `n` vertices stands for vertices of one type. -/
def OneType (g₀ : ChainGraph) (n : Nat) (path : Nat → List Nat) : Prop :=
  ∀ w < n, ∀ u ∈ path w, ∀ v ∈ path w, vertexType g₀ u = vertexType g₀ v

/-- Two chain vertices, one of which a round made, stand for vertices of different types. -/
def Separated (g₀ g : ChainGraph) (path : Nat → List Nat) : Prop :=
  ∀ u v, Replaceable {} g u v → 2 ≤ (path u).length ∨ 2 ≤ (path v).length →
    ∃ x ∈ path u, ∃ y ∈ path v, vertexType g₀ x ≠ vertexType g₀ y

section Rounds

variable {config : ChainConfig} {g g₀ h : ChainGraph} {c : List Nat} {start n u v w : Nat}
  {path : Nat → List Nat}

/-! ### Links of a chain -/

theorem replaceable_iff : Replaceable {} g u v ↔
    (∃ b, g.outEdges u = [(u, v, b)]) ∧ (¬ ∃ b, g.inEdges u = [(v, u, b)]) ∧
      g.inDegree u ≤ 1 ∧ g.inDegree v ≤ 1 ∧ g.outDegree v ≤ 1 := by
  have hkind : ∀ x y, SameKind {} g x y := fun _ _ hon => nomatch hon
  rw [Replaceable, ne_eq, successorInChain_iff, predecessorInChain_iff]
  simp [hkind]

theorem replaceable_of_link (hchain : Chain g c) (hlink : (u, v) ∈ links c) :
    Replaceable {} g u v := by
  obtain ⟨b, hout, hin⟩ := hchain.linked _ hlink
  have hu := hchain.degree (links_subset hlink).1
  have hv := hchain.degree (links_subset hlink).2
  refine replaceable_iff.mpr ⟨⟨b, hout⟩, ?_, hu.1, hv⟩
  rintro ⟨b', hin'⟩
  have hedge : (v, u, b') ∈ g.inEdges u := hin' ▸ List.mem_singleton_self _
  rcases link_of_ne_head (links_subset hlink).1 with hhead | ⟨x, hx⟩
  · exact (hchain.entered u hhead).2 _ hedge (links_subset hlink).2
  · obtain rfl := hchain.source_of_link hx (mem_inEdges.mp hedge).1 rfl
    exact links_asymm hchain.nodup hlink hx

/-! ### Paths of the next round -/

theorem nextPath_new : nextPath c g path (renumbered c g.order) = c.flatMap path := by
  rw [nextPath, chainPath_last]

theorem nextPath_kept (hv : v ∉ c) (hlt : v < g.order) :
    nextPath c g path (renumbered c v) = path v := by
  rw [nextPath, chainPath_renumbered hv hlt, List.flatMap_singleton]

theorem Round.vertex_cases (hround : Round config g start c h) (hw : w < h.order) :
    w = renumbered c g.order ∨ ∃ v, v < g.order ∧ v ∉ c ∧ renumbered c v = w := by
  obtain ⟨g', hcontracted, hremoved, -⟩ := hround.inserted
  exact hround.chain.vertex_cases hcontracted hremoved hw

theorem Round.new_lt (hround : Round config g start c h) : renumbered c g.order < h.order := by
  obtain ⟨g', hcontracted, hremoved, -⟩ := hround.inserted
  rw [hround.chain.order_contracted hcontracted hremoved]
  exact Nat.lt_succ_self _

theorem Round.kept_lt (hround : Round config g start c h) (hv : v ∉ c) (hlt : v < g.order) :
    renumbered c v < h.order :=
  Nat.lt_trans (renumbered_lt hv hlt) hround.new_lt

theorem vertexType_input (hpath : Contraction CopiedFrom g₀ g path) (hw : w < g.order)
    (hv : path w = [v]) : vertexType g w = vertexType g₀ v := by
  have hkept := hpath.kept w hw v hv
  rw [vertexType, vertexType, vertexAt, vertexAt, List.getD_eq_getElem?_getD, List.getD_eq_getElem?_getD,
    hkept]

theorem exists_input (hlength : (path w).length = 1) : ∃ v, path w = [v] :=
  List.length_eq_one_iff.mp hlength

theorem OneType.next (hone : OneType g₀ g.order path) (hround : Round config g start c h)
    (hpath : Contraction CopiedFrom g₀ g path) (hon : config.blocksSeparated = true)
    (hinput : ∀ v ∈ c, (path v).length = 1) : OneType g₀ h.order (nextPath c g path) := by
  intro w hw
  rcases hround.vertex_cases hw with rfl | ⟨v, hlt, hv, rfl⟩
  · rw [nextPath_new]
    have hstart : ∀ x ∈ c.flatMap path, vertexType g₀ x = vertexType g start := by
      intro x hx
      obtain ⟨v, hv, hxv⟩ := List.mem_flatMap.mp hx
      obtain ⟨y, hy⟩ := exists_input (hinput v hv)
      rw [hy, List.mem_singleton] at hxv
      have htype := vertexType_input hpath (hround.chain.range v hv) hy
      rw [hxv, ← htype]
      exact (hround.collecting.sameKind hv hon).symm
    intro x hx y hy
    rw [hstart x hx, hstart y hy]
  · rw [nextPath_kept hv hlt]
    exact hone v hlt

/-- The link behind two vertices of which the round may have made one. -/
theorem Round.link (hround : Round config g start c h) (hwf : g.WellFormed)
    (hrep : Replaceable {} h v w) : ∃ u x b, (u, x, b) ∈ g.edges ∧
      (chainPath c g.order v).getLast? = some u ∧ (chainPath c g.order w).head? = some x ∧
        Replaceable {} g u x := by
  have hcontraction := hround.contraction hwf
  obtain ⟨⟨b', hout'⟩, hback', hinv, hinw, houtw⟩ := replaceable_iff.mp hrep
  have hedge' : (v, w, b') ∈ h.edges :=
    (mem_outEdges.mp (hout' ▸ List.mem_singleton_self _ : (v, w, b') ∈ h.outEdges v)).1
  have hv := (hcontraction.wellFormed _ hedge').1
  have hw := (hcontraction.wellFormed _ hedge').2
  obtain ⟨⟨u, x, b⟩, hedge, hlast, hhead, -⟩ := hcontraction.edge hedge'
  have hloop : v ≠ w := by
    rintro rfl
    exact hback' ⟨b', inEdges_of_mem hinv hedge'⟩
  have hdegree : ∀ k < h.order, h.inDegree k ≤ 1 → h.outDegree k ≤ 1 → ∀ y ∈ chainPath c g.order k,
      g.inDegree y ≤ 1 ∧ g.outDegree y ≤ 1 := by
    intro k hk hin hout y hy
    rcases hround.vertex_cases hk with rfl | ⟨z, hlt, hz, rfl⟩
    · rw [chainPath_last] at hy
      exact hround.chain.degree hy
    · have hsingle := chainPath_renumbered hz hlt
      rw [hsingle, List.mem_singleton] at hy
      rw [hy, hcontraction.inDegree_head hk (by rw [hsingle]; rfl),
        hcontraction.outDegree_last hk (by rw [hsingle]; rfl)]
      exact ⟨hin, hout⟩
  have houtv : h.outDegree v ≤ 1 := by
    rw [outDegree, hout']
    exact Nat.le_refl 1
  have hu := hdegree v hv hinv houtv u (List.mem_of_getLast? hlast)
  have hx := hdegree w hw hinw houtw x (List.mem_of_head? hhead)
  refine ⟨u, x, b, hedge, hlast, hhead, replaceable_iff.mpr
    ⟨⟨b, outEdges_of_mem hu.2 hedge⟩, ?_, hu.1, hx⟩⟩
  rintro ⟨b₂, hin⟩
  have hback : (x, u, b₂) ∈ g.edges :=
    (mem_inEdges.mp (hin ▸ List.mem_singleton_self _ : (x, u, b₂) ∈ g.inEdges u)).1
  rcases hround.vertex_cases hv with rfl | ⟨u', hult, hu', rfl⟩
  · -- the vertex before the last one of the chain is in the chain
    rw [chainPath_last] at hlast
    rcases link_of_ne_head (List.mem_of_getLast? hlast) with hfirst | ⟨y, hy⟩
    · obtain ⟨y, hy⟩ := exists_link hround.chain.long (List.mem_of_getLast? hlast)
      rcases hy with hy | hy
      · exact link_fst_ne_last hround.chain.nodup hlast hy rfl
      · exact link_snd_ne_head hround.chain.nodup hfirst hy rfl
    · have hxc : x ∈ c := by
        have hsource : x = y := hround.chain.source_of_link hy hback rfl
        exact hsource ▸ (links_subset hy).1
      refine hloop (hcontraction.disjoint hv hw (v := x) ?_ (List.mem_of_head? hhead))
      rw [chainPath_last]
      exact hxc
  · rw [chainPath_renumbered hu' hult] at hlast
    obtain rfl : u' = u := Option.some.inj hlast
    rcases hround.vertex_cases hw with rfl | ⟨x', hxlt, hx', rfl⟩
    · -- the edge from the first vertex of the chain leads into the chain
      rw [chainPath_last] at hhead
      obtain ⟨y, hy⟩ := exists_link hround.chain.long (List.mem_of_head? hhead)
      rcases hy with hy | hy
      · have htarget : u' = y := hround.chain.target_of_link hy hback rfl
        exact hu' (htarget ▸ (links_subset hy).2)
      · exact link_snd_ne_head hround.chain.nodup hhead hy rfl
    · rw [chainPath_renumbered hx' hxlt] at hhead
      obtain rfl : x' = x := Option.some.inj hhead
      obtain ⟨b₃, hb₃⟩ := hcontraction.edge_of hback hw hv
        (by rw [chainPath_renumbered hx' hxlt]; rfl) (by rw [chainPath_renumbered hu' hult]; rfl)
      exact hback' ⟨b₃, inEdges_of_mem hinv hb₃⟩

theorem Separated.next (hsep : Separated g₀ g path) (hround : Round config g start c h)
    (hwf : g.WellFormed) (hpath : Contraction CopiedFrom g₀ g path)
    (hinput : ∀ v ∈ c, (path v).length = 1) : Separated g₀ h (nextPath c g path) := by
  intro v w hrep hlong
  have hcontraction := hround.contraction hwf
  obtain ⟨u, x, b, hedge, hlast, hhead, hlink⟩ := hround.link hwf hrep
  obtain ⟨⟨b', hout'⟩, hback', hinv, hinw, houtw⟩ := replaceable_iff.mp hrep
  obtain ⟨⟨b₁, hout⟩, -, hinu, hinx, houtx⟩ := replaceable_iff.mp hlink
  have hedge' : (v, w, b') ∈ h.edges :=
    (mem_outEdges.mp (hout' ▸ List.mem_singleton_self _ : (v, w, b') ∈ h.outEdges v)).1
  have hv := (hcontraction.wellFormed _ hedge').1
  have hw := (hcontraction.wellFormed _ hedge').2
  have hult := hcontraction.mem_lt hv (List.mem_of_getLast? hlast)
  have hxlt := hcontraction.mem_lt hw (List.mem_of_head? hhead)
  have hpathu : ∀ y ∈ path u, y ∈ nextPath c g path v := fun y hy =>
    List.mem_flatMap.mpr ⟨u, List.mem_of_getLast? hlast, hy⟩
  have hpathx : ∀ y ∈ path x, y ∈ nextPath c g path w := fun y hy =>
    List.mem_flatMap.mpr ⟨x, List.mem_of_head? hhead, hy⟩
  have hbefore : 2 ≤ (path u).length ∨ 2 ≤ (path x).length →
      ∃ y ∈ nextPath c g path v, ∃ z ∈ nextPath c g path w,
        vertexType g₀ y ≠ vertexType g₀ z := by
    intro hlong
    obtain ⟨y, hy, z, hz, hne⟩ := hsep u x hlink hlong
    exact ⟨y, hpathu y hy, z, hpathx z hz, hne⟩
  -- otherwise both stand for one vertex of the input, and the round would have gone on
  by_contra hsame
  push Not at hsame
  have hshort : ¬ (2 ≤ (path u).length ∨ 2 ≤ (path x).length) := fun hlong => by
    obtain ⟨y, hy, z, hz, hne⟩ := hbefore hlong
    exact hne (hsame y hy z hz)
  have hsingle : ∀ y < g.order, ¬ 2 ≤ (path y).length → ∃ z, path y = [z] := by
    intro y hy hlength
    refine exists_input (Nat.le_antisymm (by omega) ?_)
    exact List.length_pos_of_ne_nil (hpath.nonempty y hy)
  push Not at hshort
  obtain ⟨u₀, hu₀⟩ := hsingle u hult (by omega)
  obtain ⟨x₀, hx₀⟩ := hsingle x hxlt (by omega)
  have hkind : SameKind config g u x := by
    intro _
    have htype := hsame u₀ (hpathu u₀ (by rw [hu₀]; exact List.mem_singleton_self _)) x₀
      (hpathx x₀ (by rw [hx₀]; exact List.mem_singleton_self _))
    rw [← vertexType_input hpath hult hu₀, ← vertexType_input hpath hxlt hx₀] at htype
    exact htype
  have hsucc : successorInChain config g u = some x :=
    successorInChain_iff.mpr ⟨⟨b₁, hout⟩, hkind⟩
  have hpred := predecessor_of_successor hsucc hinx
  have hnoback : ∀ y z b₂, (chainPath c g.order w).getLast? = some y →
      (chainPath c g.order v).head? = some z → (y, z, b₂) ∉ g.edges := by
    intro y z b₂ hy hz hmem
    obtain ⟨b₃, hb₃⟩ := hcontraction.edge_of hmem hw hv hy hz
    exact hback' ⟨b₃, inEdges_of_mem hinv hb₃⟩
  rcases hround.vertex_cases hv with rfl | ⟨u', hult', hu', rfl⟩
  · -- the chain ends before `x`
    rcases hround.vertex_cases hw with rfl | ⟨x', hxlt', hx', rfl⟩
    · exact hback' ⟨b', inEdges_of_mem hinv hedge'⟩
    · rw [chainPath_renumbered hx' hxlt'] at hhead hnoback
      obtain rfl : x' = x := Option.some.inj hhead
      rw [chainPath_last] at hlast hnoback
      have hclosed : successorInChain config g x' = some start := by
        by_contra hopen
        exact hround.complete u x' hlast hsucc
          ⟨hx', inDegree_of_predecessor hpred, houtx, hopen⟩
      obtain ⟨⟨b₂, hb₂⟩, -⟩ := successorInChain_iff.mp hclosed
      exact hnoback x' start b₂ rfl hround.collecting.head
        (mem_outEdges.mp (hb₂ ▸ List.mem_singleton_self _ : _ ∈ g.outEdges x')).1
  · rw [chainPath_renumbered hu' hult'] at hlast hnoback
    obtain rfl : u' = u := Option.some.inj hlast
    rcases hround.vertex_cases hw with rfl | ⟨x', hxlt', hx', rfl⟩
    · -- the chain starts behind `u`
      rw [chainPath_last] at hhead hnoback
      obtain rfl := Option.some.inj (hhead.symm.trans hround.collecting.head)
      obtain ⟨l, hl⟩ : ∃ l, c.getLast? = some l :=
        ⟨_, List.getLast?_eq_some_getLast (List.ne_nil_of_length_pos
          (Nat.lt_of_lt_of_le Nat.zero_lt_two hround.chain.long))⟩
      have hcycle := hround.isStart.cycle hpred hinu
        (Nat.le_of_eq (outDegree_of_successor hsucc))
      have hclosed := hround.complete.closes hround.collecting hl hcycle hu'
      obtain ⟨⟨b₂, hb₂⟩, -⟩ := successorInChain_iff.mp hclosed
      exact hnoback l u' b₂ hl rfl
        (mem_outEdges.mp (hb₂ ▸ List.mem_singleton_self _ : _ ∈ g.outEdges l)).1
    · rw [nextPath_kept hu' hult', nextPath_kept hx' hxlt'] at hlong
      rw [chainPath_renumbered hx' hxlt'] at hhead
      obtain rfl : x' = x := Option.some.inj hhead
      rw [hu₀, hx₀] at hlong
      exact absurd hlong (by simp)

/-- Behind a vertex there are two types. -/
def Mixed (g₀ : ChainGraph) (l : List Nat) : Prop :=
  ∃ x ∈ l, ∃ y ∈ l, vertexType g₀ x ≠ vertexType g₀ y

/-- A chain with a vertex that a round made has two types. -/
theorem Separated.mixed (hsep : Separated g₀ g path) (hround : Round config g start c h)
    (hv : v ∈ c) (hlong : 2 ≤ (path v).length) : Mixed g₀ (c.flatMap path) := by
  obtain ⟨w, hlink⟩ := exists_link hround.chain.long hv
  rcases hlink with hlink | hlink
  · obtain ⟨x, hx, y, hy, hne⟩ :=
      hsep v w (replaceable_of_link hround.chain hlink) (Or.inl hlong)
    have hw := (links_subset hlink).2
    exact ⟨x, List.mem_flatMap.mpr ⟨v, hv, hx⟩, y, List.mem_flatMap.mpr ⟨w, hw, hy⟩, hne⟩
  · obtain ⟨x, hx, y, hy, hne⟩ :=
      hsep w v (replaceable_of_link hround.chain hlink) (Or.inr hlong)
    have hw := (links_subset hlink).1
    exact ⟨x, List.mem_flatMap.mpr ⟨w, hw, hx⟩, y, List.mem_flatMap.mpr ⟨v, hv, hy⟩, hne⟩

theorem Mixed.next (hround : Round config g start c h) (hw : w < g.order)
    (hmixed : Mixed g₀ (path w)) : ∃ w' < h.order, Mixed g₀ (nextPath c g path w') := by
  by_cases hwc : w ∈ c
  · refine ⟨renumbered c g.order, hround.new_lt, ?_⟩
    rw [nextPath_new]
    obtain ⟨x, hx, y, hy, hne⟩ := hmixed
    exact ⟨x, List.mem_flatMap.mpr ⟨w, hwc, hx⟩, y, List.mem_flatMap.mpr ⟨w, hwc, hy⟩, hne⟩
  · refine ⟨renumbered c w, hround.kept_lt hwc hw, ?_⟩
    rw [nextPath_kept hwc hw]
    exact hmixed

/-- Types that are mixed stay so. -/
theorem Mixed.rounds (hwf : g.WellFormed) {result : Bool}
    (hrun : replaceRounds config n g = some (h, result)) (hw : w < g.order)
    (hmixed : Mixed g₀ (path w)) :
    ∃ w' < h.order, Mixed g₀ (contractedPaths config n g path w') := by
  induction n generalizing g path w with
  | zero =>
    simp only [replaceRounds, Option.some.injEq, Prod.mk.injEq] at hrun
    exact ⟨w, hrun.1 ▸ hw, hmixed⟩
  | succ n ih =>
    rcases replaceSingleChain_spec config hwf with ⟨hnone, hsingle, -⟩ |
      ⟨start, c, k, hsome, hsingle, hround⟩
    · simp only [replaceRounds, hsingle, Option.bind_eq_bind, Option.bind_some, Bool.false_eq_true,
        if_false, Option.some.injEq, Prod.mk.injEq] at hrun
      simp only [contractedPaths, hnone]
      exact ⟨w, hrun.1 ▸ hw, hmixed⟩
    · simp only [replaceRounds, hsingle, Option.bind_eq_bind, Option.bind_some, if_true] at hrun
      simp only [contractedPaths, hsome]
      obtain ⟨w', hw', hmixed'⟩ := hmixed.next hround hw
      exact ih (hround.contraction hwf).wellFormed hrun hw' hmixed'

theorem oneType_iff (hwf : g.WellFormed) (hpath : Contraction CopiedFrom g₀ g path)
    (hon : config.blocksSeparated = true) (hone : OneType g₀ g.order path)
    (hsep : Separated g₀ g path) {result : Bool}
    (hrun : replaceRounds config n g = some (h, result)) :
    OneType g₀ h.order (contractedPaths config n g path) ↔ ReplacesInput config n g path := by
  induction n generalizing g path with
  | zero =>
    simp only [replaceRounds, Option.some.injEq, Prod.mk.injEq] at hrun
    obtain rfl := hrun.1
    exact iff_of_true hone trivial
  | succ n ih =>
    rcases replaceSingleChain_spec config hwf with ⟨hnone, hsingle, -⟩ |
      ⟨start, c, k, hsome, hsingle, hround⟩
    · simp only [replaceRounds, hsingle, Option.bind_eq_bind, Option.bind_some, Bool.false_eq_true,
        if_false, Option.some.injEq, Prod.mk.injEq] at hrun
      obtain rfl := hrun.1
      simp only [contractedPaths, ReplacesInput, hnone]
      exact iff_of_true hone trivial
    · simp only [replaceRounds, hsingle, Option.bind_eq_bind, Option.bind_some, if_true] at hrun
      simp only [contractedPaths, ReplacesInput, hsome]
      have hnext := hround.next hwf hpath
      by_cases hinput : ∀ v ∈ c, (path v).length = 1
      · rw [ih hnext.wellFormed hnext (hone.next hround hpath hon hinput)
          (hsep.next hround hwf hpath hinput) hrun]
        exact (and_iff_right hinput).symm
      · refine iff_of_false (fun hall => ?_) fun hboth => hinput hboth.1
        push Not at hinput
        obtain ⟨v, hv, hlength⟩ := hinput
        have hpos := List.length_pos_of_ne_nil (hpath.nonempty v (hround.chain.range v hv))
        have hmixed := hsep.mixed hround hv (by omega)
        rw [← nextPath_new (g := g)] at hmixed
        obtain ⟨w, hw, x, hx, y, hy, hne⟩ := Mixed.rounds hnext.wellFormed hrun hround.new_lt hmixed
        exact hne (hall w hw x hx y hy)

end Rounds

/-- The replacement of chains ends, for every graph and every number of rounds, and contracts
disjoint paths.  When the last round finds no chain, none is left.  With blocks separated, the
vertices of each path have one type if and only if each round replaces vertices of the input. -/
theorem replaceChainLoop_contracts (config : ChainConfig) (g : ChainGraph) (hwf : g.WellFormed) :
    ∃ h result, replaceChainLoop config g = some (h, result) ∧
      Contraction CopiedFrom g h (contractedPaths config config.chainCount g fun v => [v]) ∧
      (result = false → ∀ u v, ¬ Replaceable config h u v) ∧
      (config.blocksSeparated = true →
        (OneType g h.order (contractedPaths config config.chainCount g fun v => [v]) ↔
          ReplacesInput config config.chainCount g fun v => [v])) := by
  have hrefl : Contraction CopiedFrom g g fun v => [v] := Contraction.refl hwf fun _ => rfl
  obtain ⟨h, result, hrun, hcontraction, hresult⟩ :=
    replaceRounds_spec config config.chainCount hwf hrefl
  refine ⟨h, result, hrun, hcontraction, hresult, fun hon => ?_⟩
  refine oneType_iff hwf hrefl hon (fun w _ u hu v hv => ?_) (fun u v _ hlong => ?_) hrun
  · rw [List.mem_singleton.mp hu, List.mem_singleton.mp hv]
  · exact absurd hlong (by simp)

/-! ### Two chains that become one -/

namespace ChainSample

def vertex (type : String) : ScheduleVertex where
  member := fun m => if m = .type then type else ""

/-- Two messages before two flows. -/
def blocks : ChainGraph where
  vertices := [vertex "tmsg", vertex "tmsg", vertex "flow", vertex "flow"]
  edges := [(0, 1, {}), (1, 2, {}), (2, 3, {})]

def separated : ChainConfig where
  blocksSeparated := true

theorem blocks_wellFormed : blocks.WellFormed := by
  simp [AdjacencyList.WellFormed, blocks, AdjacencyList.order]

theorem blocks_replaced :
    (replaceChainLoop separated blocks).map (fun r => r.1.order) = some 1 := by
  decide +kernel

end ChainSample

/-- In the second round each of two chains is one vertex without a type, and the third makes one
vertex of all. -/
theorem chains_of_types_joined : ∃ h result,
    replaceChainLoop ChainSample.separated ChainSample.blocks = some (h, result) ∧
      ∀ path, Contraction CopiedFrom ChainSample.blocks h path →
        ¬ OneType ChainSample.blocks h.order path := by
  obtain ⟨⟨h, result⟩, hrun, horder⟩ := Option.map_eq_some_iff.mp ChainSample.blocks_replaced
  refine ⟨h, result, hrun, fun path hpath hone => ?_⟩
  have hcover := hpath.cover
  rw [horder, List.range_one, List.flatMap_singleton] at hcover
  have hmem : ∀ v < 4, v ∈ path 0 := fun v hv => hcover.mem_iff.mpr (List.mem_range.mpr hv)
  have htype := hone 0 (by rw [horder]; exact Nat.zero_lt_one) 0 (hmem 0 (by decide)) 2
    (hmem 2 (by decide))
  revert htype
  decide

theorem replaceChainLoop_contracts_blocks : ChainSample.blocks.WellFormed ∧ ∃ h result,
    replaceChainLoop ChainSample.separated ChainSample.blocks = some (h, result) ∧
      (result = false → ∀ u v, ¬ Replaceable ChainSample.separated h u v) := by
  obtain ⟨h, result, hrun, -, hresult, -⟩ := replaceChainLoop_contracts ChainSample.separated
    ChainSample.blocks ChainSample.blocks_wellFormed
  exact ⟨ChainSample.blocks_wellFormed, h, result, hrun, hresult⟩

end ScheduleCompare
