import BelProjects.DataMaster.CarpeDM.Merging
import BelProjects.DataMaster.CarpeDM.Renumbering

/-!
# Docking points of an addition

An addition makes the meta nodes of the new blocks and looks for new vertices whose hash is in
the allocation table.  These are the docking points: the edges of such a vertex go over to the
vertex of the entry.
-/

namespace DataMaster.CarpeDM

open Programs

/-! ### Meta nodes -/

section Meta

variable {g : HostGraph} {v : Nat}

theorem generateDstLst_extends (hv : v < g.vertices.length) (x : HostVertex) :
    Returns (HostGraph.Extends · g) (generateDstLst g v x) := by
  refine returns_bind fun _ => returns_bind fun vD => returns_bind fun _ => returns_pure ?_
  have hlen := g.length_addVertex vD
  refine (HostGraph.addEdge_extends ?_ ?_).trans (g.addVertex_extends vD)
  · change v < (g.addVertex vD).vertices.length
    omega
  · change g.vertices.length < (g.addVertex vD).vertices.length
    omega

theorem generateQmeta_extends (hv : v < g.vertices.length) (x : HostVertex) (prio : Nat) :
    Returns (HostGraph.Extends · g) (generateQmeta g v x prio) := by
  refine returns_bind fun _ => returns_bind fun _ => returns_bind fun _ => ?_
  refine returns_bind fun vBl => returns_bind fun vB0 => returns_bind fun vB1 => ?_
  refine returns_bind fun _ => returns_bind fun _ => returns_bind fun _ => returns_pure ?_
  have hvertices : (((g.addVertex vBl).addVertex vB0).addVertex vB1).Extends g :=
    ((HostGraph.addVertex_extends _ vB1).trans (HostGraph.addVertex_extends _ vB0)).trans
      (g.addVertex_extends vBl)
  have hlen : (((g.addVertex vBl).addVertex vB0).addVertex vB1).vertices.length =
      g.vertices.length + 3 := by
    rw [HostGraph.length_addVertex, HostGraph.length_addVertex, HostGraph.length_addVertex]
  refine (HostGraph.addEdge_extends ?_ ?_).trans ((HostGraph.addEdge_extends ?_ ?_).trans
    ((HostGraph.addEdge_extends ?_ ?_).trans hvertices))
  all_goals
    simp only [HostGraph.vertices_addEdge, hlen]
    omega

theorem generateQueue_extends (hv : v < g.vertices.length) (x : HostVertex) (prio : Nat)
    (gen has : Bool) : Returns (HostGraph.Extends · g) (generateQueue g v x prio gen has) :=
  returns_ite (generateQmeta_extends hv x prio) (returns_pure (.refl g))

theorem generateMetaOf_extends (hv : v < g.vertices.length) (x : HostVertex) :
    Returns (HostGraph.Extends · g) (generateMetaOf g v x) := by
  refine returns_bind fun genIl => returns_bind fun genHi => returns_bind fun genLo => ?_
  refine (generateQueue_extends hv x prioIl genIl _).bind fun g₁ h₁ => ?_
  have hv₁ : v < g₁.vertices.length := Nat.lt_of_lt_of_le hv h₁.length
  refine (generateQueue_extends hv₁ x prioHi genHi _).bind fun g₂ h₂ => ?_
  have hv₂ : v < g₂.vertices.length := Nat.lt_of_lt_of_le hv₁ h₂.length
  refine (generateQueue_extends hv₂ x prioLo genLo _).bind fun g₃ h₃ => ?_
  have hv₃ : v < g₃.vertices.length := Nat.lt_of_lt_of_le hv₂ h₃.length
  have h : g₃.Extends g := h₃.trans (h₂.trans h₁)
  apply returns_ite
  · intro s g' t hrun
    exact (generateDstLst_extends hv₃ x s g' t hrun).trans h
  · exact returns_pure h

theorem generateMetaAt_extends (g : HostGraph) (v : Nat) :
    Returns (HostGraph.Extends · g) (generateMetaAt g v) := by
  unfold generateMetaAt
  split
  next => exact returns_pure (.refl g)
  next x hx =>
    have hv : v < g.vertices.length := (List.getElem?_eq_some_iff.1 hx).1
    exact returns_ite (generateMetaOf_extends hv x) (returns_pure (.refl g))

theorem generateBlockMeta_extends (g : HostGraph) :
    Returns (HostGraph.Extends · g) (generateBlockMeta g) := by
  intro s g' t hrun
  refine foldlM_returns (P := (HostGraph.Extends · g)) ?_ (.refl g) hrun
  intro g₁ v s g₂ t h hstep
  exact (generateMetaAt_extends g₁ v s g₂ t hstep).trans h

end Meta

/-! ### Docking points -/

/-- Every key is the vertex of an entry, and its value a new vertex of the same hash. -/
structure Docked (K : Set NodeKey) (g : HostGraph) (duplicates : List (Nat × Nat)) : Prop where
  apart : (duplicates.map Prod.fst).Nodup
  entry : ∀ d ∈ duplicates, ∃ k ∈ K, k.v = d.1 ∧ g.hashes[d.2]? = some k.hash

theorem mem_mapSet {m : List (Nat × Nat)} {k v : Nat} {d : Nat × Nat} (h : d ∈ mapSet m k v) :
    d = (k, v) ∨ d ∈ m := by
  rcases List.mem_append.1 h with h | h
  · exact Or.inr (List.mem_filter.1 h).1
  · rcases List.mem_cons.1 h with rfl | h
    · exact Or.inl rfl
    · exact Or.inr (List.mem_filter.1 h).1

theorem nodup_mapSet {m : List (Nat × Nat)} (h : (m.map Prod.fst).Nodup) (k v : Nat) :
    ((mapSet m k v).map Prod.fst).Nodup := by
  have hpart (p : Nat × Nat → Bool) : ((m.filter p).map Prod.fst).Nodup :=
    h.sublist (List.filter_sublist.map Prod.fst)
  unfold mapSet
  rw [List.map_append, List.map_cons, List.nodup_append', List.nodup_cons]
  refine ⟨hpart _, ⟨?_, hpart _⟩, ?_⟩
  · intro hk
    obtain ⟨d, hd, rfl⟩ := List.mem_map.1 hk
    simpa using (List.mem_filter.1 hd).2
  · intro x hx hx'
    obtain ⟨d, hd, rfl⟩ := List.mem_map.1 hx
    have hlt : d.1 < k := by simpa using (List.mem_filter.1 hd).2
    rcases List.mem_cons.1 hx' with rfl | hx'
    · exact absurd hlt (Nat.lt_irrefl _)
    · obtain ⟨d', hd', heq⟩ := List.mem_map.1 hx'
      have hgt : k < d'.1 := by simpa using (List.mem_filter.1 hd').2
      omega

theorem Docked.mapSet {K : Set NodeKey} {g : HostGraph} {m : List (Nat × Nat)} (h : Docked K g m)
    {k : NodeKey} {w : Nat} (hk : k ∈ K) (hw : g.hashes[w]? = some k.hash) :
    Docked K g (mapSet m k.v w) := by
  constructor
  · exact nodup_mapSet h.apart k.v w
  · intro d hd
    rcases mem_mapSet hd with rfl | hd
    · exact ⟨k, hk, rfl, hw⟩
    · exact h.entry d hd

/-- Two docking points have two hashes, so no new vertex stands for both. -/
theorem Docked.nodup {t : AllocTable} {g : HostGraph} {m : List (Nat × Nat)}
    (h : Docked t.keys g m) : (m.map Prod.snd).Nodup := by
  have hpairs : m.Pairwise fun d d' => d.1 ≠ d'.1 := List.pairwise_map.1 h.apart
  refine List.pairwise_map.2 (hpairs.imp_of_mem ?_)
  intro d d' hd hd' hne heq
  obtain ⟨k, hk, hv, hhash⟩ := h.entry d hd
  obtain ⟨k', hk', hv', hhash'⟩ := h.entry d' hd'
  rw [heq, hhash', Option.some.injEq] at hhash
  have hsame := AllocTable.key_eq_of_hash hk hk' hhash.symm
  exact hne (hv.symm.trans ((congrArg NodeKey.v hsame).trans hv'))

theorem findDuplicate_ok {m m' : List (Nat × Nat)} {wi : HostVertex × Nat} {s t : Host}
    (h : findDuplicate m wi s = .ok m' t) :
    t.up = s.up ∧ (m' = m ∨ ∃ x ∈ s.atUp.a, x.hash = wi.1.hash ∧ m' = mapSet m x.v wi.2) := by
  obtain ⟨u, s₁, hadd, hrest⟩ := bind_ok_iff.1 h
  have hup : s₁.up = s.up := by
    have hkeeps := keeps_hashAdd wi.1.name s
    rwa [after_ok hadd] at hkeeps
  have hat : s₁.atUp = s.atUp := congrArg Prod.snd hup
  rw [bind_of_ok (rfl : (get : Prog Host) s₁ = .ok s₁ s₁), hat] at hrest
  cases hlook : s.atUp.lookupHash wi.1.hash with
  | none =>
    rw [hlook] at hrest
    cases hrest
    exact ⟨hup, Or.inl rfl⟩
  | some x =>
    obtain ⟨hx, hhash⟩ := AllocTable.mem_of_lookupHash hlook
    rw [hlook] at hrest
    dsimp only at hrest
    split at hrest
    next => cases hrest
    next =>
      cases hrest
      exact ⟨hup, Or.inr ⟨x, hx, hhash, rfl⟩⟩

theorem findDuplicates_ok {g : HostGraph} {m : List (Nat × Nat)} {s t : Host}
    (h : findDuplicates g s = .ok m t) : t.up = s.up ∧ Docked s.atUp.keys g m := by
  have hempty : Docked s.atUp.keys g [] := ⟨List.nodup_nil, fun d hd => absurd hd List.not_mem_nil⟩
  refine foldlM_ok (R := fun m t => t.up = s.up ∧ Docked s.atUp.keys g m) ?_ ⟨rfl, hempty⟩ h
  rintro m ⟨w, i⟩ hw s₁ m' t₁ ⟨hup, hdocked⟩ hstep
  have hat : s₁.atUp = s.atUp := congrArg Prod.snd hup
  obtain ⟨hkeep, hcases⟩ := findDuplicate_ok hstep
  refine ⟨hkeep.trans hup, ?_⟩
  rcases hcases with rfl | ⟨x, hx, hhash, rfl⟩
  · exact hdocked
  · have hi : g.vertices[i]? = some w := List.mem_zipIdx_iff_getElem?.1 hw
    refine hdocked.mapSet (k := x.key) ⟨x, hat ▸ hx, rfl⟩ ?_
    rw [HostGraph.hashes, List.getElem?_map, hi]
    exact congrArg some hhash.symm

/-! ### Handing over edges -/

section Handover

variable {o : Analyses} {borg victim : Nat} {s t : Host}

/-- What the loop over the edges out of `victim` leaves. -/
theorem handOuts_ok {outs : List HostEdge}
    (h : (outs.forM fun e => do
      modify fun s => { s with gUp := s.gUp.addEdge { e with source := borg } }
      updateStaging o borg e : Prog Unit) s = .ok () t) :
    t.gUp.vertices = s.gUp.vertices ∧ t.atUp.keys = s.atUp.keys ∧
      t.gUp.edges = s.gUp.edges ++ outs.map fun e => { e with source := borg } := by
  have hend := forM_ok (R := fun rest t => t.gUp.vertices = s.gUp.vertices ∧
    t.atUp.keys = s.atUp.keys ∧ (t.gUp.edges ++ rest.map fun e => { e with source := borg }) =
      s.gUp.edges ++ outs.map fun e => { e with source := borg }) ?_ ⟨rfl, rfl, rfl⟩ h
  · simpa using hend
  · rintro e rest s₁ t₁ ⟨hvertices, hkeys, hedges⟩ hstep
    obtain ⟨u, s₂, hadd, hstage⟩ := bind_ok_iff.1 hstep
    cases hadd
    have hsites := keeps_updateStaging o borg e
      { s₁ with gUp := s₁.gUp.addEdge { e with source := borg } }
    rw [after_ok hstage] at hsites
    obtain ⟨hg, hrest⟩ := Prod.mk.inj hsites
    obtain ⟨hkeys', -⟩ := Prod.mk.inj hrest
    rw [hg, hkeys']
    refine ⟨hvertices, hkeys, ?_⟩
    rw [← hedges, List.map_cons]
    exact List.append_assoc _ _ _

theorem mergeUploadDuplicates_ok (hne : borg ≠ victim)
    (h : mergeUploadDuplicates o borg victim s = .ok () t) :
    t.gUp.vertices = s.gUp.vertices ∧ t.atUp.keys = s.atUp.keys ∧
      t.gUp.edges.Perm (s.gUp.edges.map (HostEdge.along (redirected borg victim))) := by
  unfold mergeUploadDuplicates at h
  rw [bind_of_ok (rfl : (get : Prog Host) s = .ok s s)] at h
  obtain ⟨u, s₁, houts, hrest⟩ := bind_ok_iff.1 h
  obtain ⟨hvertices, hkeys, hedges⟩ := handOuts_ok houts
  rw [bind_of_ok (rfl : (get : Prog Host) s₁ = .ok s₁ s₁)] at hrest
  dsimp only at hrest
  split at hrest
  next => cases hrest
  next hnone =>
    have hloop : ∀ e ∈ s.gUp.edges, (e.source == victim) = true → (e.target == victim) = false := by
      intro e he hs
      rw [List.any_eq_true] at hnone
      rw [Bool.eq_false_iff]
      exact fun ht => hnone ⟨e, List.mem_filter.2 ⟨he, hs⟩, ht⟩
    have hins : s₁.gUp.inEdges victim = s.gUp.inEdges victim := by
      unfold HostGraph.inEdges
      rw [hedges, List.filter_append, List.append_right_eq_self, List.filter_eq_nil_iff]
      intro e he
      obtain ⟨x, hx, rfl⟩ := List.mem_map.1 he
      obtain ⟨hin, hs⟩ := List.mem_filter.1 hx
      rw [hloop x hin hs]
      decide
    cases hrest
    refine ⟨hvertices, hkeys, ?_⟩
    rw [hins, hedges]
    exact handed_perm hne hloop

end Handover

/-! ### All docking points -/

/-- The new vertices `ws` are merged: `f` tells which vertex has the edges of a vertex. -/
structure Docking (n : Nat) (V : List HostVertex) (K : Set NodeKey) (E : List HostEdge)
    (ws : List Nat) (f : Nat → Nat) (s : Host) : Prop where
  vertices : s.gUp.vertices = V
  keys : s.atUp.keys = K
  edges : s.gUp.edges.Perm (E.map (HostEdge.along f))
  hash : ∀ u, (V[f u]?).map HostVertex.hash = (V[u]?).map HostVertex.hash
  fixed : ∀ u, u < n → f u = u
  away : ∀ u, ∀ w ∈ ws, f u ≠ n + w

section Docking

variable {o : Analyses} {n : Nat} {V : List HostVertex} {K : Set NodeKey} {E : List HostEdge}
  {ws : List Nat} {f : Nat → Nat} {s t : Host}

theorem Docking.step (h : Docking n V K E ws f s) {b w : Nat} (hb : b < n)
    (hhash : (V[b]?).map HostVertex.hash = (V[n + w]?).map HostVertex.hash)
    (hrun : mergeUploadDuplicates o b (n + w) s = .ok () t) :
    Docking n V K E (w :: ws) (redirected b (n + w) ∘ f) t := by
  have hne : b ≠ n + w := by omega
  obtain ⟨hvertices, hkeys, hedges⟩ := mergeUploadDuplicates_ok hne hrun
  have hr (u : Nat) : redirected b (n + w) u = n + w → False := by
    unfold redirected
    split
    · exact hne
    · assumption
  constructor
  · exact hvertices.trans h.vertices
  · exact hkeys.trans h.keys
  · refine hedges.trans ((h.edges.map _).trans (List.Perm.of_eq ?_))
    rw [List.map_map]
    rfl
  · intro u
    rw [← h.hash u]
    unfold redirected
    dsimp only [Function.comp_apply]
    split
    next heq => rw [heq, hhash]
    next => rfl
  · intro u hu
    dsimp only [Function.comp_apply]
    rw [h.fixed u hu]
    exact if_neg (by omega)
  · intro u w' hw'
    dsimp only [Function.comp_apply]
    rcases List.mem_cons.1 hw' with rfl | hw'
    · exact hr (f u)
    · unfold redirected
      split
      · omega
      · exact h.away u w' hw'

/-- All docking points are merged. -/
theorem mergeAll_ok {duplicates : List (Nat × Nat)}
    (hdup : ∀ d ∈ duplicates, d.1 < n ∧
      (V[d.1]?).map HostVertex.hash = (V[n + d.2]?).map HostVertex.hash)
    (h : Docking n V K E ws f s)
    (hrun : (duplicates.forM fun d => mergeUploadDuplicates o d.1 (n + d.2) : Prog Unit) s =
      .ok () t) :
    ∃ ws' f', (∀ w, w ∈ ws' ↔ w ∈ ws ∨ w ∈ duplicates.map Prod.snd) ∧ Docking n V K E ws' f' t := by
  induction duplicates generalizing ws f s with
  | nil =>
    cases hrun
    refine ⟨ws, f, ?_, h⟩
    simp
  | cons d duplicates ih =>
    obtain ⟨u, s₁, hstep, hrest⟩ := bind_ok_iff.1 hrun
    obtain ⟨hb, hhash⟩ := hdup d List.mem_cons_self
    obtain ⟨ws', f', hmem, hend⟩ :=
      ih (fun d' hd' => hdup d' (List.mem_cons_of_mem d hd')) (h.step hb hhash hstep) hrest
    refine ⟨ws', f', ?_, hend⟩
    intro w
    rw [hmem, List.mem_cons, List.map_cons, List.mem_cons]
    tauto

end Docking

end DataMaster.CarpeDM
