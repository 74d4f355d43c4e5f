import BelProjects.DataMaster.Alloc.Holding

/-!
# Conservation of chunks

What every operation of the allocation table does to the owners of the chunks, and for
which of them every chunk of the pools keeps exactly one owner.
-/

namespace DataMaster

namespace AllocTable

variable {t t' : AllocTable}

/-! ### Entries -/

theorem nodeOf_insert {a : UniqueSet AllocMeta AllocMeta.Collide} {e : AllocMeta}
    (he : a.Accepts e) : nodeOf (a.insert e).1 = {e.place} ∪ nodeOf a := by
  ext k
  unfold nodeOf
  simp only [UniqueSet.mem_insert_of_accepts he, Set.mem_ofPred_eq, Set.mem_union,
    Set.mem_singleton_iff]
  constructor
  · rintro ⟨x, rfl | hx, rfl⟩
    · exact Or.inl rfl
    · exact Or.inr ⟨x, hx, rfl⟩
  · rintro (rfl | ⟨x, hx, rfl⟩)
    · exact ⟨e, Or.inl rfl, rfl⟩
    · exact ⟨x, Or.inr hx, rfl⟩

/-- The management table refuses only chunks it has. -/
theorem mgmtOf_insert (m : UniqueSet MgmtMeta MgmtMeta.Collide) (e : MgmtMeta) :
    mgmtOf (m.insert e).1 = {e.place} ∪ mgmtOf m := by
  by_cases he : m.Accepts e
  · ext k
    unfold mgmtOf
    simp only [UniqueSet.mem_insert_of_accepts he, Set.mem_ofPred_eq, Set.mem_union,
      Set.mem_singleton_iff]
    constructor
    · rintro ⟨x, rfl | hx, rfl⟩
      · exact Or.inl rfl
      · exact Or.inr ⟨x, hx, rfl⟩
    · rintro (rfl | ⟨x, hx, rfl⟩)
      · exact ⟨e, Or.inl rfl, rfl⟩
      · exact ⟨x, Or.inr hx, rfl⟩
  · rw [UniqueSet.insert_of_not_accepts he]
    unfold UniqueSet.Accepts at he
    push Not at he
    obtain ⟨x, hx, hplace⟩ := he
    have hheld : e.place ∈ mgmtOf m := ⟨x, hx, hplace.symm⟩
    exact (Set.union_eq_right.2 (Set.singleton_subset_iff.2 hheld)).symm

/-- Chunks of the entries that satisfy `p`. -/
def placesIf (a : UniqueSet AllocMeta AllocMeta.Collide) (p : AllocMeta → Bool) : Set Chunk :=
  {k | ∃ e ∈ a, p e = true ∧ e.place = k}

theorem placesIf_subset (a : UniqueSet AllocMeta AllocMeta.Collide) (p : AllocMeta → Bool) :
    placesIf a p ⊆ nodeOf a := by
  rintro k ⟨e, he, -, hplace⟩
  exact ⟨e, he, hplace⟩

theorem nodeOf_eraseIf (a : UniqueSet AllocMeta AllocMeta.Collide) (p : AllocMeta → Bool) :
    nodeOf (a.eraseIf p) = nodeOf a \ placesIf a p := by
  ext k
  constructor
  · rintro ⟨e, he, rfl⟩
    obtain ⟨hmem, hp⟩ := UniqueSet.mem_eraseIf.1 he
    refine ⟨⟨e, hmem, rfl⟩, ?_⟩
    rintro ⟨x, hx, hpx, hplace⟩
    rw [UniqueSet.eq_of_collide hx hmem (Or.inr (Or.inr hplace)), hp] at hpx
    cases hpx
  · rintro ⟨⟨e, he, rfl⟩, hout⟩
    refine ⟨e, UniqueSet.mem_eraseIf.2 ⟨he, ?_⟩, rfl⟩
    rw [Bool.eq_false_iff]
    intro hp
    exact hout ⟨e, he, hp, rfl⟩

/-! ### What the operations do -/

theorem insert_holding {cpu : CpuIdx} {adr hash : Word} {v : Nat} {staged ok : Bool}
    (h : t.insert cpu adr hash v staged = some (t', ok)) :
    if t.a.Accepts { cpu, adr, hash, v, staged } then
      t'.holding =
        { t.holding with
          free := t.holding.free \ {(cpu.toNat, adr)}
          node := {(cpu.toNat, adr)} ∪ t.holding.node }
    else t'.holding = { t.holding with free := t.holding.free \ {(cpu.toNat, adr)} } := by
  unfold AllocTable.insert at h
  split at h
  next vPool hocc =>
    obtain ⟨hrange, hfree⟩ := occupyAt_spec hocc
    cases h
    split
    next hacc =>
      have hnode := nodeOf_insert hacc
      unfold holding
      rw [hrange, hfree, hnode]
      rfl
    next hacc =>
      unfold holding
      rw [hrange, hfree, UniqueSet.insert_of_not_accepts hacc]
  next => cases h

theorem insertMgmt_holding {cpu : CpuIdx} {adr : Word} {buf : Option Block} {ok : Bool}
    (h : t.insertMgmt cpu adr buf = some (t', ok)) :
    t'.holding =
      { t.holding with
        free := t.holding.free \ {(cpu.toNat, adr)}
        mgmt := {(cpu.toNat, adr)} ∪ t.holding.mgmt } := by
  unfold AllocTable.insertMgmt at h
  split at h
  next vPool hocc =>
    obtain ⟨hrange, hfree⟩ := occupyAt_spec hocc
    cases h
    unfold holding
    rw [hrange, hfree]
    cases buf with
    | none =>
      have hmgmt := mgmtOf_insert t.m { cpu, adr }
      simp only [hmgmt]
      rfl
    | some b =>
      have hmgmt := mgmtOf_insert t.m { cpu, adr, b }
      simp only [hmgmt]
      rfl
  next => cases h

theorem acquire_free {vPool : List MemPool} {cpu : CpuIdx} {p p' : MemPool} {adr : Word}
    (hp : vPool[cpu.toNat]? = some p) (h : p.acquireChunk = some (adr, p')) :
    (cpu.toNat, adr) ∈ freeOf vPool ∧
    rangeOf (vPool.set cpu.toNat p') = rangeOf vPool ∧
    freeOf (vPool.set cpu.toNat p') = freeOf vPool \ {(cpu.toNat, adr)} := by
  obtain ⟨hfree, rfl⟩ := MemPool.acquireChunk_spec h
  exact ⟨(mem_freeOf hp adr).2 hfree, occupy_set hp adr⟩

theorem not_acquire_free {vPool : List MemPool} {cpu : CpuIdx} {p : MemPool}
    (hp : vPool[cpu.toNat]? = some p) (h : p.acquireChunk = none) (adr : Word) :
    (cpu.toNat, adr) ∉ freeOf vPool := by
  rw [mem_freeOf hp]
  exact OrderedSet.begin?_eq_none.1 (Option.map_eq_none_iff.1 h) adr

/-- `allocate` finds no free chunk and changes nothing, or takes one and inserts it. -/
theorem allocate_cases {cpu : CpuIdx} {hash : Word} {v : Nat} {staged : Bool} {code : Int}
    (h : t.allocate cpu hash v staged = some (t', code)) :
    (t' = t ∧ ∀ adr, (cpu.toNat, adr) ∉ t.holding.free) ∨
    ∃ adr, (cpu.toNat, adr) ∈ t.holding.free ∧
      if t.a.Accepts { cpu, adr, hash, v, staged } then
        t'.holding =
          { t.holding with
            free := t.holding.free \ {(cpu.toNat, adr)}
            node := {(cpu.toNat, adr)} ∪ t.holding.node }
      else t'.holding = { t.holding with free := t.holding.free \ {(cpu.toNat, adr)} } := by
  unfold AllocTable.allocate at h
  split at h
  next hp =>
    cases h
    left
    refine ⟨rfl, ?_⟩
    rintro adr ⟨p, hp', -⟩
    rw [hp] at hp'
    cases hp'
  next p hp =>
    split at h
    next hacq =>
      cases h
      exact Or.inl ⟨rfl, not_acquire_free hp hacq⟩
    next adr p' hacq =>
      obtain ⟨hfree, hrange, hrest⟩ := acquire_free hp hacq
      right
      refine ⟨adr, hfree, ?_⟩
      split at h
      next t₁ ok hins =>
        cases h
        have hhold := insert_holding hins
        have hstart : ({ t with vPool := t.vPool.set cpu.toNat p' } : AllocTable).holding =
            { t.holding with free := t.holding.free \ {(cpu.toNat, adr)} } := by
          unfold holding
          rw [hrange, hrest]
        rw [hstart] at hhold
        simpa only [sdiff_idem] using hhold
      next => cases h

theorem allocateMgmt_cases {cpu : CpuIdx} {code : Int}
    (h : t.allocateMgmt cpu = some (t', code)) :
    t' = t ∨
    ∃ adr, (cpu.toNat, adr) ∈ t.holding.free ∧
      t'.holding =
        { t.holding with
          free := t.holding.free \ {(cpu.toNat, adr)}
          mgmt := {(cpu.toNat, adr)} ∪ t.holding.mgmt } := by
  unfold AllocTable.allocateMgmt at h
  split at h
  next =>
    cases h
    exact Or.inl rfl
  next p hp =>
    split at h
    next =>
      cases h
      exact Or.inl rfl
    next adr p' hacq =>
      obtain ⟨hfree, hrange, hrest⟩ := acquire_free hp hacq
      right
      refine ⟨adr, hfree, ?_⟩
      split at h
      next t₁ ok hins =>
        cases h
        have hhold := insertMgmt_holding hins
        have hstart : ({ t with vPool := t.vPool.set cpu.toNat p' } : AllocTable).holding =
            { t.holding with free := t.holding.free \ {(cpu.toNat, adr)} } := by
          unfold holding
          rw [hrange, hrest]
        rw [hstart] at hhold
        simpa only [sdiff_idem] using hhold
      next => cases h

theorem deallocate_cases {hash : Word} {report : Report}
    (h : t.deallocate hash = (t', report)) :
    t' = t ∨
    ∃ k ∈ t.holding.node,
      t'.holding =
        { t.holding with free := {k} ∪ t.holding.free, node := t.holding.node \ {k} } := by
  unfold deallocate at h
  split at h
  next =>
    cases h
    exact Or.inl rfl
  next x hx =>
    split at h
    next =>
      cases h
      exact Or.inl rfl
    next p hp =>
      split at h
      next hfreed =>
        cases h
        right
        have hmem : x ∈ t.a := List.mem_of_find?_eq_some hx
        have hhash : x.hash = hash := by simpa using List.find?_some hx
        have hnode : x.place ∈ t.holding.node := ⟨x, hmem, rfl⟩
        have hrange : x.place ∈ t.holding.range := by
          rcases (em (p.Freeable x.adr)) with hable | hable
          · exact (mem_rangeOf hp x.adr).2 (p.isChunk_of_freeable hable)
          · rw [MemPool.freeChunk_of_not_freeable hable] at hfreed
            cases hfreed
        have hplaces : placesIf t.a (fun e => e.hash == hash) = {x.place} := by
          ext k
          constructor
          · rintro ⟨e, he, heq, rfl⟩
            have hsame : e = x :=
              UniqueSet.eq_of_collide he hmem (Or.inr (Or.inl ((beq_iff_eq.1 heq).trans hhash.symm)))
            rw [hsame]
            rfl
          · rintro rfl
            exact ⟨x, hmem, beq_iff_eq.2 hhash, rfl⟩
        obtain ⟨hsame, hfree⟩ := free_set hp x.adr
        refine ⟨x.place, hnode, ?_⟩
        unfold holding removeByHash
        simp only [hsame, hfree, nodeOf_eraseIf, hplaces]
        have hin : ({(x.cpu.toNat, x.adr)} : Set Chunk) ∩ rangeOf t.vPool = {x.place} :=
          Set.inter_eq_left.2 (Set.singleton_subset_iff.2 hrange)
        rw [hin, Set.union_comm]
      next =>
        cases h
        exact Or.inl rfl

theorem freeAll_spec {es : List MgmtMeta} {vPool vPool' : List MemPool}
    (h : es.foldlM (fun vPool e => freeAt vPool e.cpu e.adr) vPool = some vPool') :
    rangeOf vPool' = rangeOf vPool ∧
    freeOf vPool' = freeOf vPool ∪ ({k | ∃ e ∈ es, e.place = k} ∩ rangeOf vPool) := by
  induction es generalizing vPool with
  | nil =>
    cases h
    refine ⟨rfl, ?_⟩
    simp
  | cons e es ih =>
    obtain ⟨vPool₁, hfirst, hrest⟩ := Option.bind_eq_some_iff.1 h
    obtain ⟨hrange₁, hfree₁⟩ := freeAt_spec hfirst
    obtain ⟨hrange, hfree⟩ := ih hrest
    refine ⟨hrange.trans hrange₁, ?_⟩
    rw [hfree, hfree₁, hrange₁, Set.union_assoc, ← Set.union_inter_distrib_right]
    congr 2
    ext k
    simp only [Set.mem_union, Set.mem_singleton_iff, Set.mem_ofPred_eq, List.exists_mem_cons_iff]
    exact or_congr eq_comm Iff.rfl

theorem deallocateAllMgmt_holding (h : t.deallocateAllMgmt = some t') :
    t'.holding =
      { t.holding with
        free := t.holding.free ∪ (t.holding.mgmt ∩ t.holding.range), mgmt := ∅ } := by
  unfold deallocateAllMgmt at h
  split at h
  next vPool hfreed =>
    obtain ⟨hrange, hfree⟩ := freeAll_spec hfreed
    cases h
    have hnone : mgmtOf .empty = ∅ := by
      ext k
      simp [mgmtOf]
    unfold holding
    rw [hrange, hfree, hnone]
    rfl
  next => cases h

theorem occupyAll_spec {α : Type} {cpu : α → CpuIdx} {adr : α → Word} {es : List α}
    {vPool vPool' : List MemPool}
    (h : es.foldlM (fun vPool e => occupyAt vPool (cpu e) (adr e)) vPool = some vPool') :
    rangeOf vPool' = rangeOf vPool ∧
    freeOf vPool' = freeOf vPool \ {k | ∃ e ∈ es, ((cpu e).toNat, adr e) = k} := by
  induction es generalizing vPool with
  | nil =>
    cases h
    refine ⟨rfl, ?_⟩
    simp
  | cons e es ih =>
    obtain ⟨vPool₁, hfirst, hrest⟩ := Option.bind_eq_some_iff.1 h
    obtain ⟨hrange₁, hfree₁⟩ := occupyAt_spec hfirst
    obtain ⟨hrange, hfree⟩ := ih hrest
    refine ⟨hrange.trans hrange₁, ?_⟩
    rw [hfree, hfree₁, sdiff_sdiff_left]
    congr 1
    ext k
    simp only [Set.sup_eq_union, Set.mem_union, Set.mem_singleton_iff, Set.mem_ofPred_eq,
      List.exists_mem_cons_iff]
    exact or_congr eq_comm Iff.rfl

theorem rangeOf_congr {vPool vPool' : List MemPool}
    (hconsts : vPool'.map MemPool.consts = vPool.map MemPool.consts) :
    rangeOf vPool' = rangeOf vPool := by
  have hrange : ∀ v : List MemPool,
      rangeOf v = {k | ∃ S, (v.map MemPool.consts)[k.1]? = some S ∧ S.IsChunk k.2} := by
    intro v
    ext k
    simp [rangeOf, List.getElem?_map]
  rw [hrange, hconsts, ← hrange]

theorem pools_congr {vPool vPool' : List MemPool}
    (hconsts : vPool'.map MemPool.consts = vPool.map MemPool.consts)
    (hpool : vPool'.map MemPool.pool = vPool.map MemPool.pool) :
    rangeOf vPool' = rangeOf vPool ∧ freeOf vPool' = freeOf vPool := by
  have hfree : ∀ v : List MemPool,
      freeOf v = {k | ∃ s, (v.map MemPool.pool)[k.1]? = some s ∧ k.2 ∈ s} := by
    intro v
    ext k
    simp [freeOf, List.getElem?_map]
  exact ⟨rangeOf_congr hconsts, by rw [hfree, hpool, ← hfree]⟩

/-- What a mode of `recreatePools` takes from the pools. -/
def occupiedBy (t : AllocTable) : AllocPoolMode → Set Chunk
  | .WITHOUT_MGMT => t.holding.node
  | .WITH_MGMT => t.holding.node ∪ t.holding.mgmt

theorem recreatePools_holding {mode : AllocPoolMode} (h : t.recreatePools mode = some t') :
    t'.holding = { t.holding with free := t.holding.range \ t.occupiedBy mode } := by
  obtain ⟨hinit, hall⟩ := initPools_spec t.vPool
  unfold recreatePools at h
  dsimp only at h
  split at h
  next => cases h
  next nodes hnodes =>
    obtain ⟨hrange, hfree⟩ := occupyAll_spec hnodes
    rw [hinit] at hrange
    rw [hall] at hfree
    cases mode with
    | WITHOUT_MGMT =>
      cases h
      unfold holding
      rw [hrange, hfree]
      rfl
    | WITH_MGMT =>
      dsimp only at h
      split at h
      next vPool hvPool =>
        obtain ⟨hrange', hfree'⟩ := occupyAll_spec hvPool
        cases h
        unfold holding
        rw [hrange', hfree', hrange, hfree, sdiff_sdiff_left]
        rfl
      next => cases h

theorem syncBmpsToPools_holding (t : AllocTable) : t.syncBmpsToPools.holding = t.holding := by
  obtain ⟨hrange, hfree⟩ := syncPools_spec t.vPool
  unfold holding syncBmpsToPools
  rw [hrange, hfree]

theorem splitBmps_spec {vPool vPool' : List MemPool} {bmpData : List Bitmap.Byte}
    (h : splitBmps vPool bmpData = some vPool') :
    vPool'.map MemPool.consts = vPool.map MemPool.consts ∧
    vPool'.map MemPool.pool = vPool.map MemPool.pool := by
  induction vPool generalizing bmpData vPool' with
  | nil =>
    cases h
    exact ⟨rfl, rfl⟩
  | cons p ps ih =>
    unfold splitBmps at h
    split at h
    next hlen =>
      split at h
      next rest hrest =>
        cases h
        obtain ⟨hconsts, hpool⟩ := ih hrest
        rw [List.map_cons, List.map_cons, List.map_cons, List.map_cons, hconsts, hpool]
        exact ⟨rfl, rfl⟩
      next => cases h
    next => cases h

theorem setBmps_holding {bmpData : List Bitmap.Byte} {ok : Bool}
    (h : t.setBmps bmpData = some (t', ok)) : t'.holding = t.holding := by
  unfold setBmps at h
  split at h
  next =>
    cases h
    rfl
  next =>
    split at h
    next vPool hsplit =>
      cases h
      have hview := pools_congr (splitBmps_spec hsplit).1 (splitBmps_spec hsplit).2
      unfold holding
      rw [hview.1, hview.2]
    next => cases h

end AllocTable
end DataMaster
