import BelProjects.DataMaster.CarpeDM.Docking

/-!
# Additions

An addition copies the new graph, with the meta nodes of its blocks, behind the one that has
been downloaded, and merges the docking points.  A node of the device the tables have no name
for goes by a name made up from its hash.
-/

namespace DataMaster.CarpeDM

open Programs Compaction

/-! ### Node objects and buffers -/

section Upload

variable {o : Analyses} {s t : Host}

/-- Every entry of the table belongs to the vertex of its number. -/
def Host.Matched (s : Host) : Prop := ∀ k ∈ s.atUp.keys, s.hashes[k.v]? = some k.hash

theorem insert_keys {t t' : AllocTable} {cpu : CpuIdx} {adr hash : Word} {v : Nat}
    {staged ok : Bool} (h : t.insert cpu adr hash v staged = some (t', ok)) {k : NodeKey}
    (hk : k ∈ t'.keys) : k ∈ t.keys ∨ k.v = v ∧ k.hash = hash := by
  unfold AllocTable.insert at h
  split at h
  next vPool _ =>
    cases h
    obtain ⟨e, he, rfl⟩ := hk
    by_cases hacc : t.a.Accepts { cpu, adr, hash, v, staged }
    · rcases (UniqueSet.mem_insert_of_accepts hacc).1 he with rfl | he
      · exact Or.inr ⟨rfl, rfl⟩
      · exact Or.inl ⟨e, he, rfl⟩
    · dsimp only at he
      rw [UniqueSet.insert_of_not_accepts hacc] at he
      exact Or.inl ⟨e, he, rfl⟩
  next => cases h

theorem allocate_keys {t t' : AllocTable} {cpu : CpuIdx} {hash : Word} {v : Nat} {staged : Bool}
    {code : Int} (h : t.allocate cpu hash v staged = some (t', code)) {k : NodeKey}
    (hk : k ∈ t'.keys) : k ∈ t.keys ∨ k.v = v ∧ k.hash = hash := by
  unfold AllocTable.allocate at h
  split at h
  next =>
    cases h
    exact Or.inl hk
  next p _ =>
    split at h
    next =>
      cases h
      exact Or.inl hk
    next adr p' _ =>
      split at h
      next t₁ ok hins =>
        cases h
        exact insert_keys (t := { t with vPool := t.vPool.set cpu.toNat p' }) hins hk
      next => cases h

theorem keeps_edges_allocateVertex (cpu : CpuIdx) (v : Nat) (x : HostVertex) :
    Keeps (fun s => s.gUp.edges) (allocateVertex cpu v x) := by
  apply keeps_get.bind
  intro s
  cases s.atUp.lookupHash x.hash with
  | some e => exact keeps_pure _
  | none =>
    have hdefined : Keeps (fun s : Host => s.gUp.edges) (defined (s.atUp.allocate cpu x.hash v true)) := by
      cases s.atUp.allocate cpu x.hash v true with
      | none => exact keeps_throw _
      | some r => exact keeps_pure _
    refine hdefined.bind fun r => ?_
    have hmodify : Keeps (fun s : Host => s.gUp.edges)
        (modify fun s : Host => { s with atUp := r.1 } : Prog PUnit) := keeps_modify fun _ => rfl
    refine hmodify.bind fun _ => ?_
    exact keeps_ite (keeps_raise _) (keeps_ite (keeps_raise _) (keeps_pure _))

theorem keeps_edges_prepareVertex (v : Nat) :
    Keeps (fun s => s.gUp.edges) (prepareVertex v) := by
  apply keeps_get.bind
  intro s
  cases s.gUp.vertices[v]? with
  | none => exact keeps_pure _
  | some x =>
    refine (keeps_checkAs _ _).bind fun cpu => (keeps_checkAs _ _).bind fun flags => ?_
    refine (keeps_edges_allocateVertex cpu v x).bind fun _ => ?_
    dsimp only
    split
    · exact keeps_pure _
    · refine keeps_get.bind fun s => ?_
      cases s.atUp.lookupHash x.hash with
      | none => exact keeps_raise _
      | some e => exact (keeps_checkAs _ _).bind fun data => keeps_modify fun _ => rfl

theorem prepareAll_ok (hmatched : s.Matched)
    (h : (List.range s.gUp.vertices.length).forM prepareVertex s = .ok () t) :
    t.gUp.nodes = s.gUp.nodes ∧ t.gUp.edges = s.gUp.edges ∧ t.Matched := by
  have hnode : Maintains (Host.Carries HostVertex.node s.gUp.nodes fun a =>
      ∀ k ∈ a.keys, (s.gUp.nodes[k.v]?).map Prod.snd = some k.hash)
      ((List.range s.gUp.vertices.length).forM prepareVertex) := by
    refine maintains_forM fun v _ => maintains_prepareVertex (fun _ _ => rfl) v ?_
    intro cpu v x a a' code hx hkeys _ halloc k hk
    rcases allocate_keys halloc hk with hk | ⟨hv, hhash⟩
    · exact hkeys k hk
    · rw [hv, hhash, hx]
      rfl
  have hhashes (u : Host) (i : Nat) : (u.gUp.nodes[i]?).map Prod.snd = u.hashes[i]? := by
    unfold HostGraph.nodes Host.hashes
    rw [List.getElem?_map, List.getElem?_map, Option.map_map]
    rfl
  have hend := hnode s ⟨rfl, fun k hk => (hhashes s k.v).trans (hmatched k hk)⟩
  have hedges := keeps_forM keeps_edges_prepareVertex (List.range s.gUp.vertices.length) s
  rw [after_ok h] at hend hedges
  obtain ⟨hnodes, hkeys⟩ := hend
  refine ⟨hnodes, hedges, ?_⟩
  intro k hk
  rw [← hhashes, show t.gUp.nodes = s.gUp.nodes from hnodes]
  exact hkeys k hk

theorem serialiseVertex_ok {v : Nat} (h : serialiseVertex o v s = .ok () t) :
    t.gUp = s.gUp ∧ t.atUp.keys = s.atUp.keys ∧ ∃ k ∈ s.atUp.keys, k.v = v := by
  unfold serialiseVertex at h
  rw [bind_of_ok (rfl : (get : Prog Host) s = .ok s s)] at h
  obtain ⟨x, s₁, hcrawl, hrest⟩ := bind_ok_iff.1 h
  have hs₁ : s₁ = s := (after_ok hcrawl).symm.trans (keeps_check (f := id) _ s)
  rw [hs₁] at hrest
  obtain ⟨e, s₂, hlook, hfill⟩ := bind_ok_iff.1 hrest
  have hs₂ : s₂ = s := (after_ok hlook).symm.trans (keeps_check (f := id) _ s)
  rw [hs₂] at hfill
  obtain ⟨u, s₃, hset, hend⟩ := bind_ok_iff.1 hfill
  cases hset
  have hentry : ∃ k ∈ s.atUp.keys, k.v = v := by
    unfold AllocTable.lookupVertex at hlook
    cases hfind : s.atUp.a.entries.find? fun e => e.v == v with
    | none =>
      rw [hfind] at hlook
      cases hlook
    | some x =>
      have hv : x.v = v := by simpa using List.find?_some hfind
      exact ⟨x.key, ⟨x, List.mem_of_find?_eq_some hfind, rfl⟩, hv⟩
  have hkeys (b : Block) : (s.atUp.setBuffer e.hash b).keys = s.atUp.keys :=
    AllocTable.modify_keys_same e.hash fun _ => rfl
  dsimp only at hend
  split at hend
  next => cases hend
  next =>
    cases hend
    exact ⟨rfl, hkeys _, hentry⟩

/-- The part of `prepareUpload` that fills the buffers finds an entry for every vertex. -/
theorem serialiseAll_ok {vs : List Nat} (h : vs.forM (serialiseVertex o) s = .ok () t) :
    t.gUp = s.gUp ∧ t.atUp.keys = s.atUp.keys ∧ ∀ v ∈ vs, ∃ k ∈ s.atUp.keys, k.v = v := by
  induction vs generalizing s with
  | nil =>
    cases h
    exact ⟨rfl, rfl, fun v hv => absurd hv List.not_mem_nil⟩
  | cons v vs ih =>
    obtain ⟨u, s₁, hstep, hrest⟩ := bind_ok_iff.1 h
    obtain ⟨hg, hkeys, hv⟩ := serialiseVertex_ok hstep
    obtain ⟨hg', hkeys', hvs⟩ := ih hrest
    rw [hkeys] at hkeys' hvs
    refine ⟨hg'.trans hg, hkeys', ?_⟩
    intro w hw
    rcases List.mem_cons.1 hw with rfl | hw
    · exact hv
    · exact hvs w hw

/-- Two vertices of one hash would share an entry, which has only one number. -/
theorem prepareUpload_ok (hmatched : s.Matched) (h : prepareUpload o s = .ok () t) :
    t.gUp.nodes = s.gUp.nodes ∧ t.gUp.edges = s.gUp.edges ∧ t.hashes.Nodup := by
  unfold prepareUpload at h
  rw [bind_of_ok (rfl : (get : Prog Host) s = .ok s s)] at h
  obtain ⟨u, s₁, hprepare, hserialise⟩ := bind_ok_iff.1 h
  obtain ⟨hnodes, hedges, hmatched₁⟩ := prepareAll_ok hmatched hprepare
  obtain ⟨hg, hkeys, hall⟩ := serialiseAll_ok hserialise
  rw [hg]
  refine ⟨hnodes, hedges, ?_⟩
  have hlen : s₁.gUp.vertices.length = s.gUp.vertices.length := by
    simpa [HostGraph.nodes] using congrArg List.length hnodes
  have hentry (i : Nat) (hi : i < s₁.hashes.length) :
      ∃ k ∈ s₁.atUp.keys, k.v = i ∧ s₁.hashes[i]? = some k.hash := by
    have hlt : i < s.gUp.vertices.length := by
      rw [← hlen]
      simpa [Host.hashes] using hi
    obtain ⟨k, hk, rfl⟩ := hall i (List.mem_range.2 hlt)
    exact ⟨k, hk, rfl, hmatched₁ k hk⟩
  have hhashes : t.hashes = s₁.hashes := by
    unfold Host.hashes
    rw [hg]
  rw [hhashes]
  refine List.nodup_iff_injective_getElem.2 ?_
  rintro ⟨i, hi⟩ ⟨j, hj⟩ heq
  obtain ⟨k, hk, hki, hhash⟩ := hentry i hi
  obtain ⟨k', hk', hkj, hhash'⟩ := hentry j hj
  rw [List.getElem?_eq_getElem hi, Option.some.injEq] at hhash
  rw [List.getElem?_eq_getElem hj, Option.some.injEq] at hhash'
  have hsame : k = k' := AllocTable.key_eq_of_hash hk hk' (hhash.symm.trans (heq.trans hhash'))
  refine Fin.ext ?_
  exact hki.symm.trans ((congrArg NodeKey.v hsame).trans hkj)

end Upload

/-! ### Additions -/

section Addition

variable {o : Analyses} {s t : Host} {g gTmp : HostGraph} {duplicates : List (Nat × Nat)}

theorem keeps_updateGroups (x : HostVertex) : Keeps Host.up (updateGroups x) := by
  refine (keeps_checkAs _ _).bind fun bpEntry => (keeps_checkAs _ _).bind fun bpExit => ?_
  refine Keeps.bind ?_ fun _ => ?_
  · exact keeps_modify fun _ => rfl
  · refine (keeps_checkAs _ _).bind fun patEntry => (keeps_checkAs _ _).bind fun patExit => ?_
    exact keeps_modify fun _ => rfl

/-- The rest of an addition, behind the removal of the docking points. -/
theorem mergedOnce_of_rest {gDown : HostGraph} (hs : s.Matched)
    (h : s.gUp.hashes.Nodup → MergedOnce gDown g s.gUp)
    (hrun : (do
      let s ← get
      s.gUp.vertices.forM updateGroups
      prepareUpload o
      syncUpload : Prog Unit) s = .ok () t) : MergedOnce gDown g t.gUp := by
  rw [bind_of_ok (rfl : (get : Prog Host) s = .ok s s)] at hrun
  obtain ⟨u₁, s₁, hgroups, hrun₁⟩ := bind_ok_iff.1 hrun
  obtain ⟨u₂, s₂, hupload, hrun₂⟩ := bind_ok_iff.1 hrun₁
  have hup : s₁.up = s.up := by
    have hkeeps := keeps_forM keeps_updateGroups s.gUp.vertices s
    rwa [after_ok hgroups] at hkeeps
  have hg : s₁.gUp = s.gUp := congrArg Prod.fst hup
  have hat : s₁.atUp = s.atUp := congrArg Prod.snd hup
  have hmatched : s₁.Matched := by
    unfold Host.Matched Host.hashes
    rw [hg, hat]
    exact hs
  obtain ⟨hnodes, hedges, hnodup⟩ := prepareUpload_ok hmatched hupload
  rw [hg] at hnodes hedges
  cases hrun₂
  refine (h ?_).congr hnodes hedges
  rw [← hashes_of_nodes hnodes]
  exact hnodup

theorem merge_ok (hs : s.Matched) (hclosed : s.gUp.Closed) (hg : g.Closed)
    (hdocked : Docked s.atUp.keys g duplicates) (hrun : merge o g duplicates s = .ok () t) :
    MergedOnce s.gUp g t.gUp := by
  unfold merge at hrun
  rw [bind_of_ok (rfl : (get : Prog Host) s = .ok s s)] at hrun
  obtain ⟨u₁, s₁, hcopy, hrun₁⟩ := bind_ok_iff.1 hrun
  cases hcopy
  obtain ⟨u₂, s₂, hmerge, hrun₂⟩ := bind_ok_iff.1 hrun₁
  obtain ⟨u₃, s₃, hremove, hrun₃⟩ := bind_ok_iff.1 hrun₂
  cases hremove
  let V := s.gUp.vertices ++ g.vertices
  let n := s.gUp.vertices.length
  have hentry : ∀ d ∈ duplicates, d.1 < n ∧ n + d.2 < V.length ∧
      (V[d.1]?).map HostVertex.hash = (V[n + d.2]?).map HostVertex.hash := by
    intro d hd
    obtain ⟨k, hk, hv, hhash⟩ := hdocked.entry d hd
    have hold := hs k hk
    rw [hv, Host.hashes, List.getElem?_map] at hold
    rw [HostGraph.hashes, List.getElem?_map] at hhash
    obtain ⟨x, hx, hxk⟩ := Option.map_eq_some_iff.1 hold
    obtain ⟨y, hy, hyk⟩ := Option.map_eq_some_iff.1 hhash
    have hlt := (List.getElem?_eq_some_iff.1 hx).1
    have hlt' := (List.getElem?_eq_some_iff.1 hy).1
    refine ⟨hlt, ?_, ?_⟩
    · change n + d.2 < (s.gUp.vertices ++ g.vertices).length
      rw [List.length_append]
      omega
    · change ((s.gUp.vertices ++ g.vertices)[d.1]?).map _ =
        ((s.gUp.vertices ++ g.vertices)[n + d.2]?).map _
      rw [List.getElem?_append_left hlt, List.getElem?_append_right (Nat.le_add_right _ _),
        Nat.add_sub_cancel_left, hx, hy, Option.map_some, Option.map_some, hxk, hyk]
  have hstart : Docking n V s.atUp.keys (g.copyTo s.gUp).edges [] id
      { s with gUp := g.copyTo s.gUp } := by
    refine ⟨rfl, rfl, ?_, fun _ => rfl, fun _ _ => rfl, fun _ w hw => absurd hw List.not_mem_nil⟩
    exact List.Perm.of_eq (List.map_id _).symm
  obtain ⟨ws, f, hws, hdocking⟩ :=
    mergeAll_ok (fun d hd => ⟨(hentry d hd).1, (hentry d hd).2.2⟩) hstart hmerge
  have hws' (w : Nat) : w ∈ ws ↔ w ∈ duplicates.map Prod.snd := by
    rw [hws]
    simp
  have hshrunk : Shrunk [] V s₂.gUp.edges s₂.gUp := by
    refine ⟨hdocking.vertices ▸ Compacted.refl _, ?_⟩
    have hid : renumbered [] = id := funext renumbered_nil
    rw [hid]
    exact (List.map_id _).symm
  obtain ⟨D, hD, hend⟩ := removeVertices_shrunk (n := n) hshrunk hdocked.nodup
    (fun w hw => by
      obtain ⟨d, hd, rfl⟩ := List.mem_map.1 hw
      exact ⟨List.not_mem_nil, (hentry d hd).2.1⟩)
    (fun u hu e he => by
      obtain ⟨w, hw, rfl⟩ := hu.resolve_left List.not_mem_nil
      obtain ⟨e₀, -, rfl⟩ := List.mem_map.1 (hdocking.edges.mem_iff.1 he)
      exact ⟨hdocking.away _ w ((hws' w).2 hw), hdocking.away _ w ((hws' w).2 hw)⟩)
  simp only [renumbered_nil] at hend
  have hbehind : ∀ d ∈ D, n ≤ d := by
    intro d hd
    obtain ⟨w, -, rfl⟩ := ((hD d).1 hd).resolve_left List.not_mem_nil
    exact Nat.le_add_right n w
  have haway : ∀ u, f u ∉ D := by
    intro u hu
    obtain ⟨w, hw, heq⟩ := ((hD _).1 hu).resolve_left List.not_mem_nil
    exact hdocking.away u w ((hws' w).2 hw) heq.symm
  refine mergedOnce_of_rest ?_ ?_ hrun₃
  · intro k hk
    have hold := hs k (hdocking.keys ▸ hk)
    rw [Host.hashes, List.getElem?_map] at hold
    obtain ⟨x, hx, hxk⟩ := Option.map_eq_some_iff.1 hold
    have hlt : k.v < n := (List.getElem?_eq_some_iff.1 hx).1
    have hget := hend.vertices.get k.v (fun hin => Nat.not_le.2 hlt (hbehind _ hin)) (by
      rw [List.length_append]
      exact Nat.lt_add_right _ hlt)
    rw [renumbered_of_le fun d hd => (Nat.le_of_lt hlt).trans (hbehind d hd),
      List.getElem?_append_left hlt, hx] at hget
    rw [Host.hashes, List.getElem?_map, hget, Option.map_some, hxk]
  · intro honce
    exact merged_of_shrunk hclosed hbehind (copyTo_edges hg) hdocking.edges hdocking.hash
      hdocking.fixed haway hend honce

/-- An addition to a graph whose vertices the allocation table knows. -/
theorem addition_ok (hs : s.Matched) (hclosed : s.gUp.Closed) (hg : gTmp.Closed)
    (hrun : addition o gTmp s = .ok () t) :
    ∃ g s', generateBlockMeta gTmp s = .ok g s' ∧ g.Extends gTmp ∧ MergedOnce s.gUp g t.gUp := by
  obtain ⟨⟨g, duplicates⟩, s₂, hchecks, hmerge⟩ := bind_ok_iff.1 hrun
  obtain ⟨g₁, s₁, hmeta, hrest⟩ := bind_ok_iff.1 hchecks
  obtain ⟨m, s₃, hfind, hpure⟩ := bind_ok_iff.1 hrest
  cases hpure
  have hextends := generateBlockMeta_extends gTmp s g s₁ hmeta
  have hup₁ : s₁.up = s.up := by
    have hkeeps := keeps_generateBlockMeta gTmp s
    rwa [after_ok hmeta] at hkeeps
  obtain ⟨hup₂, hdocked⟩ := findDuplicates_ok hfind
  have hg₂ : s₂.gUp = s.gUp := congrArg Prod.fst (hup₂.trans hup₁)
  have hat₂ : s₂.atUp = s.atUp := congrArg Prod.snd (hup₂.trans hup₁)
  have hat₁ : s₁.atUp = s.atUp := congrArg Prod.snd hup₁
  refine ⟨g, s₁, hmeta, hextends, ?_⟩
  have hend := merge_ok (s := s₂) (g := g) ?_ (hg₂ ▸ hclosed) (hextends.closed hg)
    (by rw [hat₂, ← hat₁]; exact hdocked) hmerge
  · rwa [hg₂] at hend
  · unfold Host.Matched Host.hashes
    rw [hg₂, hat₂]
    exact hs

end Addition

/-! ### The downloaded graph -/

section Download

variable {o : Analyses} {s t : Host}

/-- Nothing is to be uploaded, and every downloaded entry belongs to the vertex of its number. -/
structure Host.Fetching (s : Host) : Prop where
  empty : s.gUp.vertices = [] ∧ s.gUp.edges = []
  matched : ∀ k ∈ s.atDown.keys, s.gDown.hashes[k.v]? = some k.hash

theorem maintains_defined {α : Type} {I : Host → Prop} (x : Option α) : Maintains I (defined x) := by
  cases x with
  | none => exact maintains_throw _
  | some a => exact maintains_pure a

theorem defined_ok {α : Type} {x : Option α} {a : α} (h : defined x s = .ok a t) :
    x = some a ∧ t = s := by
  cases x with
  | none => cases h
  | some b =>
    cases h
    exact ⟨rfl, rfl⟩

theorem setBmps_keys {t t' : AllocTable} {bmpData : List Bitmap.Byte} {ok : Bool}
    (h : t.setBmps bmpData = some (t', ok)) : t'.keys = t.keys := by
  unfold AllocTable.setBmps at h
  split at h
  next =>
    cases h
    rfl
  next =>
    split at h
    next =>
      cases h
      rfl
    next => cases h

theorem cpyWithoutMgmt_keys {t t' src : AllocTable} (h : t.cpyWithoutMgmt src = some t') :
    t'.keys = src.keys := by
  unfold AllocTable.cpyWithoutMgmt AllocTable.recreatePools at h
  cases hnodes : List.foldlM (fun vPool (e : AllocMeta) => occupyAt vPool e.cpu e.adr)
    (t.vPool.map MemPool.init) src.a.entries with
  | none => simp [hnodes] at h
  | some vPool =>
    simp only [hnodes, Option.some.injEq] at h
    rw [← h]
    rfl

theorem Host.Fetching.setTable (h : s.Fetching) {a : AllocTable} (ha : a.keys = s.atDown.keys) :
    ({ s with atDown := a } : Host).Fetching := ⟨h.empty, fun k hk => h.matched k (ha ▸ hk)⟩

theorem maintains_rebuildTables {I : Host → Prop}
    (htables : ∀ s gt ct hm, I s → I { s with gt, ct, hm })
    (x : Option (GroupTable × CovenantTable)) : Maintains I (rebuildTables x) := by
  cases x with
  | none => exact maintains_pure _
  | some x =>
    obtain ⟨gt, ct⟩ := x
    refine Maintains.bind (maintains_modify fun s h => htables s gt s.ct .empty h) fun _ => ?_
    refine Maintains.bind (maintains_forM fun it _ => ?_) fun _ => ?_
    · apply maintains_get_bind
      intro s hs
      refine Maintains.bind (maintains_check _) (fun hm => ?_) s hs
      exact maintains_modify fun s h => htables s s.gt s.ct hm h
    · exact maintains_modify fun s h => htables s s.gt ct s.hm h

theorem deallocateAllMgmt_stored {t t' : AllocTable} (h : t.deallocateAllMgmt = some t') :
    t'.stored = t.stored := by
  have hfree (es : List MgmtMeta) {vPool vPool' : List MemPool}
      (hpools : es.foldlM (fun vPool e => freeAt vPool e.cpu e.adr) vPool = some vPool') :
      marks vPool' = marks vPool := by
    induction es generalizing vPool with
    | nil =>
      cases hpools
      rfl
    | cons e es ih =>
      rw [List.foldlM_cons] at hpools
      obtain ⟨vPool₁, hone, hrest⟩ := Option.bind_eq_some_iff.1 hpools
      exact (ih hrest).trans (freeAt_marks hone)
  unfold AllocTable.deallocateAllMgmt at h
  split at h
  next vPool hpools =>
    cases h
    exact congrArg (Prod.mk t.a) (hfree _ hpools)
  next => cases h

/-- The chunks of the management data come and go, and the tables in it replace the host's. -/
theorem maintains_parseDownloadMgmt {I : Host → Prop}
    (htables : ∀ s gt ct hm, I s → I { s with gt, ct, hm })
    (halloc : ∀ s a, I s → a.stored = s.atDown.stored → I { s with atDown := a }) :
    Maintains I parseDownloadMgmt := by
  apply maintains_get_bind
  intro s hs
  refine Maintains.bind (maintains_forM fun c _ => ?_) (fun _ => ?_) s hs
  · apply maintains_get_bind
    intro s hs
    refine after_bind_maintains (maintains_defined _ s hs) ?_
    rintro ⟨a, ok⟩ t hdef ht
    obtain ⟨hins, rfl⟩ := defined_ok hdef
    refine after_bind_maintains (p := modify fun s : Host => { s with atDown := a })
      (halloc t a ht (insertMgmt_stored hins)) ?_
    rintro u t' hset hstep
    split
    · exact hstep
    · exact hstep
  · refine (maintains_rebuildTables htables _).bind fun _ => ?_
    apply maintains_get_bind
    intro s hs
    refine after_bind_maintains (maintains_defined _ s hs) ?_
    rintro x t hdef ht
    obtain ⟨hdealloc, rfl⟩ := defined_ok hdef
    exact halloc t x ht (deallocateAllMgmt_stored hdealloc)

theorem fetching_parseDownloadMgmt : Maintains Host.Fetching parseDownloadMgmt :=
  maintains_parseDownloadMgmt (fun s gt ct hm h => ⟨h.empty, h.matched⟩)
    fun s a h hstored => h.setTable <| by
      unfold AllocTable.keys
      rw [show a.a = s.atDown.a from congrArg Prod.fst hstored]

theorem fetching_parseNode (c : CpuIdx × Word) : Maintains Host.Fetching (parseNode c) := by
  apply maintains_get_bind
  intro s hs
  have hold {k : NodeKey} (hk : k ∈ s.atDown.keys) :
      (s.gDown.addVertex (downVertex s c)).hashes[k.v]? = some k.hash := by
    have hget := hs.matched k hk
    unfold HostGraph.hashes at hget ⊢
    have hlt := (List.getElem?_eq_some_iff.1 hget).1
    change ((s.gDown.vertices ++ [downVertex s c]).map HostVertex.hash)[k.v]? = _
    rw [List.map_append, List.getElem?_append_left hlt]
    exact hget
  have hnew : (s.gDown.addVertex (downVertex s c)).hashes[s.gDown.vertices.length]? =
      some (downVertex s c).hash := by
    change ((s.gDown.vertices ++ [downVertex s c]).map HostVertex.hash)[_]? = _
    rw [List.getElem?_map, List.getElem?_append_right (Nat.le_refl _), Nat.sub_self]
    rfl
  have hadd : ({ s with gDown := s.gDown.addVertex (downVertex s c) } : Host).Fetching :=
    ⟨hs.empty, fun k hk => hold hk⟩
  refine after_bind_maintains (p := modify fun s' : Host =>
    { s' with gDown := s'.gDown.addVertex (downVertex s c) }) hadd ?_
  rintro u t hset -
  cases hset
  refine after_bind_maintains (maintains_defined _ _ hadd) ?_
  rintro ⟨a, ok⟩ t hdef -
  obtain ⟨hins, rfl⟩ := defined_ok hdef
  have hinserted : ∀ k ∈ a.keys,
      (s.gDown.addVertex (downVertex s c)).hashes[k.v]? = some k.hash := by
    intro k hk
    rcases insert_keys hins hk with hk | ⟨hv, hhash⟩
    · exact hold hk
    · rw [hv, hhash]
      exact hnew
  refine after_bind_maintains (p := modify fun s' : Host => { s' with atDown := a })
    ⟨hs.empty, hinserted⟩ ?_
  rintro u t hset -
  cases hset
  split
  · refine ⟨hs.empty, fun k hk => hinserted k ?_⟩
    have hkeys : (a.setBuffer (downVertex s c).hash (s.dm.chunk c.1 c.2)).keys = a.keys :=
      AllocTable.modify_keys_same _ fun _ => rfl
    exact hkeys ▸ hk
  · exact ⟨hs.empty, hinserted⟩

theorem fetching_parseDownloadData : Maintains Host.Fetching (parseDownloadData o) := by
  apply maintains_get_bind
  intro s hs
  refine Maintains.bind (maintains_forM fun c _ => fetching_parseNode c) (fun _ => ?_) s hs
  apply maintains_get_bind
  intro s hs
  cases s.gDown.vertices.find? fun x => x.np.isNone with
  | some x => exact hs
  | none =>
    refine Maintains.bind (maintains_check _) (fun edges => ?_) s hs
    exact maintains_modify fun s h => ⟨h.empty, h.matched⟩

theorem maintains_updateCovenants {I : Host → Prop} (hct : ∀ s ct, I s → I { s with ct }) :
    Maintains I (updateCovenants o) := by
  apply maintains_get_bind
  intro s hs
  refine Maintains.bind ?_ (fun toDelete => ?_) s hs
  · refine Keeps.maintains (f := id) (keeps_filterM (fun cov => ?_) _) I
    exact (keeps_check _).bind fun pending => keeps_pure _
  · exact maintains_modify fun s h => hct s _ h

/-- A download gives every entry the number and the hash of its vertex. -/
theorem fetching_download (hs : s.gUp.vertices = [] ∧ s.gUp.edges = [])
    (h : download o s = .ok () t) : t.Fetching := by
  have hclear : ({ s with atDown := s.atDown.clear, gDown := s.gDown.clear } : Host).Fetching := by
    refine ⟨hs, ?_⟩
    rintro k ⟨e, he, -⟩
    exact absurd he (UniqueSet.notMem_empty e)
  obtain ⟨u₁, s₁, hset, h₁⟩ := bind_ok_iff.1 h
  cases hset
  rw [bind_of_ok (rfl : (get : Prog Host) _ = .ok _ _)] at h₁
  obtain ⟨⟨a, ok⟩, s₂, hdef, h₂⟩ := bind_ok_iff.1 h₁
  obtain ⟨hbmps, rfl⟩ := defined_ok hdef
  obtain ⟨u₃, s₃, hset, h₃⟩ := bind_ok_iff.1 h₂
  cases hset
  have hkeys : a.keys = s.atDown.clear.keys := setBmps_keys hbmps
  have hrest : Maintains Host.Fetching (do
      parseDownloadMgmt
      parseDownloadData o
      updateCovenants o : Prog Unit) :=
    fetching_parseDownloadMgmt.bind fun _ => fetching_parseDownloadData.bind fun _ =>
      maintains_updateCovenants fun s ct h => ⟨h.empty, h.matched⟩
  have hend := hrest _ (hclear.setTable hkeys)
  rwa [after_ok h₃] at hend

theorem baseUploadOnDownload_ok (h : baseUploadOnDownload o s = .ok () t) :
    t.Matched ∧ t.gUp.nodes = t.gDown.nodes ∧
      (t.gDown.Closed → t.gUp.Closed ∧ t.gUp.edges.Perm t.gDown.edges) := by
  obtain ⟨u₁, s₁, hset, h₁⟩ := bind_ok_iff.1 h
  cases hset
  obtain ⟨u₂, s₂, hdown, h₂⟩ := bind_ok_iff.1 h₁
  have hfetching := fetching_download ⟨rfl, rfl⟩ hdown
  rw [bind_of_ok (rfl : (get : Prog Host) _ = .ok _ _)] at h₂
  obtain ⟨a, s₃, hdef, h₃⟩ := bind_ok_iff.1 h₂
  obtain ⟨hcopy, rfl⟩ := defined_ok hdef
  cases h₃
  have hvertices : (s₃.gDown.copyTo s₃.gUp).vertices = s₃.gDown.vertices := by
    unfold HostGraph.copyTo
    rw [hfetching.empty.1, List.nil_append]
  refine ⟨?_, congrArg (List.map HostVertex.node) hvertices, ?_⟩
  · intro k hk
    change ((s₃.gDown.copyTo s₃.gUp).vertices.map HostVertex.hash)[k.v]? = _
    rw [hvertices]
    exact hfetching.matched k (cpyWithoutMgmt_keys hcopy ▸ hk)
  · intro hclosed
    have hedges : (s₃.gDown.copyTo s₃.gUp).edges.Perm s₃.gDown.edges := by
      refine (copyTo_edges hclosed).trans (List.Perm.of_eq ?_)
      rw [hfetching.empty.1, hfetching.empty.2, List.nil_append]
      exact (List.map_congr_left fun e _ =>
        HostEdge.along_of_fixed (Nat.zero_add _) (Nat.zero_add _)).trans (List.map_id _)
    refine ⟨fun e he => ?_, hedges⟩
    rw [hvertices]
    exact hclosed e (hedges.mem_iff.1 he)

end Download

/-! ### Adding to the downloaded graph -/

/-- **An addition keeps everything once.** If it returns, the downloaded vertices and edges are
all there, every edge of the new graph and of its meta nodes is there between the vertices of
the same hashes, and every hash of either graph has one vertex; so has every name, where names
and hashes tell the nodes apart alike. -/
theorem addition_merges_once (o : Analyses) {s s₁ s₂ : Host} {gTmp : HostGraph}
    (hbase : baseUploadOnDownload o s = .ok () s₁) (hdown : s₁.gDown.Closed) (hg : gTmp.Closed)
    (hadd : addition o gTmp s₁ = .ok () s₂) :
    ∃ g s', generateBlockMeta gTmp s₁ = .ok g s' ∧ g.Extends gTmp ∧
      MergedOnce s₁.gDown g s₂.gUp ∧
      (NamesTell s₁.gDown g → s₂.gUp.names.Nodup ∧
        ∀ name, name ∈ s₂.gUp.names ↔ name ∈ s₁.gDown.names ∨ name ∈ g.names) := by
  obtain ⟨hmatched, hnodes, hedges⟩ := baseUploadOnDownload_ok hbase
  obtain ⟨hclosed, hperm⟩ := hedges hdown
  obtain ⟨g, s', hmeta, hextends, hmerged⟩ := addition_ok hmatched hclosed hg hadd
  have hend := hmerged.congr_left hnodes hperm
  exact ⟨g, s', hmeta, hextends, hend, hend.names_once⟩

/-- A new block that goes on to `B`, which only the edge names. -/
def ontoB : HostGraph where
  vertices :=
    [{ v := Dot.readVertex
        { name := "A", type := .blockFixed, attrs := [(.cpu, "0"), (.tPeriod, "1000")] }
       hash := Dot.fnvHash "A"
       np := none },
      { v := { name := "B", type := none, prop := Dot.Property.initial }
        hash := Dot.fnvHash "B"
        np := none }]
  edges := [⟨0, 1, .defDst⟩]

/-- The crawlers for blocks without queues, where the one on the device repeats itself. -/
def loopBack : Analyses := { lenient with crawlDown := fun _ _ _ => .ok [⟨0, 0, .defDst⟩] }

def uploaded : Option Host :=
  (Host.fresh [AllocTable.fourBlocks]).after loopBack
    [{ dm := idleDevice, op := .overwrite oneBlock false }]

def Host.added (o : Analyses) (gTmp : HostGraph) (s : Host) : Option (Host × Host) :=
  match baseUploadOnDownload o s with
  | .ok _ s₁ =>
    match addition o gTmp s₁ with
    | .ok _ s₂ => some (s₁, s₂)
    | .error _ _ => none
  | .error _ _ => none

theorem added_eq_some {o : Analyses} {gTmp : HostGraph} {s s₁ s₂ : Host}
    (h : s.added o gTmp = some (s₁, s₂)) :
    baseUploadOnDownload o s = .ok () s₁ ∧ addition o gTmp s₁ = .ok () s₂ := by
  unfold Host.added at h
  split at h
  next u t hbase =>
    split at h
    next u' t' hadd =>
      cases h
      exact ⟨hbase, hadd⟩
    next => cases h
  next => cases h

/-- The new block comes behind the one on the device, and its edge leads there. -/
theorem addition_merges_once_ontoB :
    ∃ s s₁ s₂ g, baseUploadOnDownload loopBack s = .ok () s₁ ∧
      addition loopBack ontoB s₁ = .ok () s₂ ∧ MergedOnce s₁.gDown g s₂.gUp ∧
      s₁.gDown.names = ["B"] ∧ s₂.gUp.names = ["B", "A"] ∧
      s₂.gUp.edges = [⟨0, 0, .defDst⟩, ⟨1, 0, .defDst⟩] := by
  have hrun : (uploaded.bind fun s => s.added loopBack ontoB).any (fun x =>
      decide (x.1.gDown.Closed ∧ x.1.gDown.names = ["B"] ∧ x.2.gUp.names = ["B", "A"] ∧
        x.2.gUp.edges = [⟨0, 0, .defDst⟩, ⟨1, 0, .defDst⟩])) = true := by
    decide +kernel
  obtain ⟨⟨s₁, s₂⟩, hadded, hrest⟩ := (Option.any_eq_true _ _).1 hrun
  obtain ⟨s, -, hs⟩ := Option.bind_eq_some_iff.1 hadded
  obtain ⟨hbase, hadd⟩ := added_eq_some hs
  obtain ⟨hclosed, hdown, hnames, hedges⟩ := of_decide_eq_true hrest
  obtain ⟨g, -, -, -, hmerged, -⟩ :=
    addition_merges_once loopBack hbase hclosed (by decide) hadd
  exact ⟨s, s₁, s₂, g, hbase, hadd, hmerged, hdown, hnames, hedges⟩

/-- A host that has lost the names makes one up for the block on the device. The node `B` of the
new graph has the same hash, so it is that block, and no vertex is called `B`. -/
theorem addition_forgets_name :
    ∃ s s₁ s₂, baseUploadOnDownload loopBack s = .ok () s₁ ∧
      addition loopBack ontoB s₁ = .ok () s₂ ∧ "B" ∈ ontoB.names ∧
      s₁.gDown.names = ["HASH_0xdcdcf25f"] ∧ s₂.gUp.names = ["HASH_0xdcdcf25f", "A"] := by
  have hrun : (uploaded.bind fun s =>
      ({ Host.fresh [AllocTable.fourBlocks] with dm := { s.dm with mgmt := none } } : Host).added
        loopBack ontoB).any (fun x =>
      decide (x.1.gDown.names = ["HASH_0xdcdcf25f"] ∧
        x.2.gUp.names = ["HASH_0xdcdcf25f", "A"])) = true := by
    decide +kernel
  obtain ⟨⟨s₁, s₂⟩, hadded, hrest⟩ := (Option.any_eq_true _ _).1 hrun
  obtain ⟨s, -, hs⟩ := Option.bind_eq_some_iff.1 hadded
  obtain ⟨hbase, hadd⟩ := added_eq_some hs
  obtain ⟨hdown, hnames⟩ := of_decide_eq_true hrest
  exact ⟨_, s₁, s₂, hbase, hadd, by decide, hdown, hnames⟩

end DataMaster.CarpeDM
