import BelProjects.DataMaster.Alloc.Conservation

/-!
# Sequences of allocator operations

Every chunk keeps exactly one owner exactly as long as no operation takes a chunk and
then fails to enter it, drops an entry of the node table without freeing its chunk, or
puts a chunk into both tables.  Synchronising always makes the bitmaps exact.
-/

namespace DataMaster

def AllocOp.Syncs : AllocOp → Prop
  | .copy | .assign _ | .cpyWithoutMgmt _ | .syncBmpsToPools => True
  | _ => False

namespace AllocTable

variable {t t' : AllocTable}

/-- Entries of both tables at a chunk. -/
def holders (t : AllocTable) (k : Chunk) : Nat :=
  t.a.entries.countP (fun e => e.place = k) + t.m.entries.countP (fun e => e.place = k)

/-- Every chunk of the pool ranges is either free or held by exactly one entry. -/
def Conserved (t : AllocTable) : Prop :=
  ∀ k ∈ rangeOf t.vPool,
    (k ∈ freeOf t.vPool ∧ t.holders k = 0) ∨ (k ∉ freeOf t.vPool ∧ t.holders k = 1)

def Synced (t : AllocTable) : Prop := ∀ p ∈ t.vPool, p.Synced

/-- The operation, on the table it finds, leaves no chunk without an owner and none
with two. -/
def Keeps (t : AllocTable) : AllocOp → Prop
  | .insert cpu adr hash v staged =>
    -- a refused entry has already cost the pool its chunk
    if t.a.Accepts { cpu, adr, hash, v, staged } then
      ¬ ((cpu.toNat, adr) ∈ rangeOf t.vPool ∧ (cpu.toNat, adr) ∈ mgmtOf t.m)
    else (cpu.toNat, adr) ∉ freeOf t.vPool
  | .allocate cpu hash v _ =>
    (∀ e ∈ t.a, e.v ≠ v ∧ e.hash ≠ hash) ∨ ∀ adr, (cpu.toNat, adr) ∉ freeOf t.vPool
  | .insertMgmt cpu adr _ =>
    ¬ ((cpu.toNat, adr) ∈ rangeOf t.vPool ∧ (cpu.toNat, adr) ∈ nodeOf t.a)
  | .removeByVertex v => ∀ e ∈ t.a, e.v = v → e.place ∉ rangeOf t.vPool
  | .removeByHash hash => ∀ e ∈ t.a, e.hash = hash → e.place ∉ rangeOf t.vPool
  | .recreatePools .WITHOUT_MGMT => ∀ e ∈ t.m, e.place ∉ rangeOf t.vPool
  | .assign src => ∀ k ∈ rangeOf t.vPool, ¬ (k ∈ nodeOf src.a ∧ k ∈ mgmtOf src.m)
  | _ => True

theorem conserved_iff (t : AllocTable) : t.Conserved ↔ t.holding.Conserved := by
  have ha := fun k : Chunk => UniqueSet.countP_key_le_one t.a AllocMeta.place
    (fun _ _ h => Or.inr (Or.inr h)) k
  have hm := fun k : Chunk => UniqueSet.countP_key_le_one t.m MgmtMeta.place (fun _ _ h => h) k
  have hnode : ∀ k : Chunk,
      k ∈ t.holding.node ↔ 0 < t.a.entries.countP (fun e => e.place = k) := by
    intro k
    rw [List.countP_pos_iff]
    simp only [decide_eq_true_eq]
    rfl
  have hmgmt : ∀ k : Chunk,
      k ∈ t.holding.mgmt ↔ 0 < t.m.entries.countP (fun e => e.place = k) := by
    intro k
    rw [List.countP_pos_iff]
    simp only [decide_eq_true_eq]
    rfl
  apply forall₂_congr
  intro k _
  have hak := ha k
  have hmk := hm k
  unfold Holding.Owned holders
  rw [hnode, hmgmt]
  change (k ∈ t.holding.free ∧ _) ∨ (k ∉ t.holding.free ∧ _) ↔ _
  constructor
  · rintro (⟨hfree, hnone⟩ | ⟨hfree, hone⟩)
    · exact Or.inl ⟨hfree, by omega, by omega⟩
    · by_cases hpos : 0 < t.a.entries.countP (fun e => e.place = k)
      · exact Or.inr (Or.inl ⟨hfree, hpos, by omega⟩)
      · exact Or.inr (Or.inr ⟨hfree, hpos, by omega⟩)
  · rintro (⟨hfree, hna, hnm⟩ | ⟨hfree, hna, hnm⟩ | ⟨hfree, hna, hnm⟩)
    · exact Or.inl ⟨hfree, by omega⟩
    · exact Or.inr ⟨hfree, by omega⟩
    · exact Or.inr ⟨hfree, by omega⟩

/-! ### One operation -/

theorem removeIf_iff (hc : t.holding.Conserved) (p : AllocMeta → Bool) :
    ({ t with a := t.a.eraseIf p } : AllocTable).holding.Conserved ↔
      ∀ e ∈ t.a, p e = true → e.place ∉ rangeOf t.vPool := by
  have hhold : ({ t with a := t.a.eraseIf p } : AllocTable).holding =
      { t.holding with node := t.holding.node \ placesIf t.a p } := by
    unfold holding
    rw [nodeOf_eraseIf]
  rw [hhold, Holding.remove_node_iff hc (placesIf_subset t.a p)]
  constructor
  · intro h e he hp
    exact h e.place ⟨e, he, hp, rfl⟩
  · rintro h k ⟨e, he, hp, rfl⟩
    exact h e he hp

theorem insert_iff (hc : t.holding.Conserved) {cpu : CpuIdx} {adr hash : Word} {v : Nat}
    {staged ok : Bool} (h : t.insert cpu adr hash v staged = some (t', ok)) :
    t'.holding.Conserved ↔ t.Keeps (.insert cpu adr hash v staged) := by
  have hhold := insert_holding h
  dsimp only [Keeps]
  split at hhold
  next hacc =>
    rw [if_pos hacc, hhold]
    exact Holding.occupy_node_iff hc _
  next hacc =>
    rw [if_neg hacc, hhold]
    exact Holding.occupy_lost_iff hc (freeOf_subset t.vPool) _

theorem allocate_iff (hc : t.holding.Conserved) {cpu : CpuIdx} {hash : Word} {v : Nat}
    {staged : Bool} {code : Int} (h : t.allocate cpu hash v staged = some (t', code)) :
    t'.holding.Conserved ↔ t.Keeps (.allocate cpu hash v staged) := by
  dsimp only [Keeps]
  rcases allocate_cases h with ⟨rfl, hnone⟩ | ⟨adr, hfree, hhold⟩
  · exact iff_of_true hc (Or.inr hnone)
  · have hrange := freeOf_subset t.vPool hfree
    have hown := hc _ hrange
    unfold Holding.Owned at hown
    have hnotNode : (cpu.toNat, adr) ∉ nodeOf t.a := by tauto
    have hnotMgmt : (cpu.toNat, adr) ∉ mgmtOf t.m := by tauto
    -- a free chunk is in no table, so only the other two keys can be taken
    have hkeys : t.a.Accepts { cpu, adr, hash, v, staged } ↔
        ∀ e ∈ t.a, e.v ≠ v ∧ e.hash ≠ hash := by
      constructor
      · intro hacc e he
        have hne := hacc e he
        unfold AllocMeta.Collide at hne
        push Not at hne
        exact ⟨Ne.symm hne.1, Ne.symm hne.2.1⟩
      · intro hfresh e he hcol
        rcases hcol with hv | hhash | hplace
        · exact (hfresh e he).1 hv.symm
        · exact (hfresh e he).2 hhash.symm
        · exact hnotNode ⟨e, he, hplace.symm⟩
    rw [← hkeys]
    split at hhold
    next hacc =>
      rw [hhold]
      refine (Holding.occupy_node_iff hc _).trans ?_
      exact iff_of_true (fun hboth => hnotMgmt hboth.2) (Or.inl hacc)
    next hacc =>
      rw [hhold]
      refine (Holding.occupy_lost_iff hc (freeOf_subset t.vPool) _).trans ?_
      refine iff_of_false (not_not_intro hfree) ?_
      rintro (h | h)
      · exact hacc h
      · exact h adr hfree

theorem allocateMgmt_conserved (hc : t.holding.Conserved) {cpu : CpuIdx} {code : Int}
    (h : t.allocateMgmt cpu = some (t', code)) : t'.holding.Conserved := by
  rcases allocateMgmt_cases h with rfl | ⟨adr, hfree, hhold⟩
  · exact hc
  · have hown := hc _ (freeOf_subset t.vPool hfree)
    unfold Holding.Owned at hown
    rw [hhold, Holding.occupy_mgmt_iff hc]
    tauto

theorem allocateMgmtLoop_conserved {chunks : Nat} {report : Report} (hc : t.holding.Conserved)
    (h : allocateMgmtLoop chunks t = some (t', report)) : t'.holding.Conserved := by
  induction chunks generalizing t with
  | zero =>
    cases h
    exact hc
  | succ chunks ih =>
    unfold allocateMgmtLoop at h
    split at h
    next t₁ allocState hone =>
      have hc₁ := allocateMgmt_conserved hc hone
      split at h
      next => exact ih hc₁ h
      next =>
        cases h
        exact hc₁
    next => cases h

theorem allocateMgmtFor_conserved (hc : t.holding.Conserved) {container : List Bitmap.Byte}
    {report : Report} (h : t.allocateMgmtFor container = some (t', report)) :
    t'.holding.Conserved := by
  unfold allocateMgmtFor at h
  dsimp only at h
  split at h
  next => cases h
  next =>
    split at h
    next =>
      cases h
      exact hc
    next => exact allocateMgmtLoop_conserved hc h

theorem recreate_iff {mode : AllocPoolMode} (h : t.recreatePools mode = some t') :
    t'.holding.Conserved ↔
      ∀ k ∈ rangeOf t.vPool, (mode = .WITHOUT_MGMT → k ∉ mgmtOf t.m) ∧
        ¬ (k ∈ nodeOf t.a ∧ k ∈ mgmtOf t.m) := by
  have hsub : t.occupiedBy mode ⊆ t.holding.node ∪ t.holding.mgmt := by
    cases mode with
    | WITHOUT_MGMT => exact Set.subset_union_left
    | WITH_MGMT => exact subset_rfl
  rw [recreatePools_holding h, Holding.rebuild_iff hsub]
  apply forall₂_congr
  intro k _
  cases mode with
  | WITHOUT_MGMT =>
    change (k ∈ nodeOf t.a ∨ k ∈ mgmtOf t.m → k ∈ nodeOf t.a) ∧ _ ↔ _
    simp only [forall_const]
    change _ ∧ ¬ (k ∈ nodeOf t.a ∧ k ∈ mgmtOf t.m) ↔ _
    tauto
  | WITH_MGMT =>
    change (k ∈ nodeOf t.a ∨ k ∈ mgmtOf t.m → k ∈ nodeOf t.a ∪ mgmtOf t.m) ∧ _ ↔ _
    simp only [Set.mem_union, imp_self, true_and]
    change ¬ (k ∈ nodeOf t.a ∧ k ∈ mgmtOf t.m) ↔ _
    simp

theorem insertMgmt_iff (hc : t.holding.Conserved) {cpu : CpuIdx} {adr : Word}
    {buf : Option Block} {ok : Bool} (h : t.insertMgmt cpu adr buf = some (t', ok)) :
    t'.holding.Conserved ↔ t.Keeps (.insertMgmt cpu adr buf) := by
  rw [insertMgmt_holding h]
  exact Holding.occupy_mgmt_iff hc _

theorem deallocate_conserved (hc : t.holding.Conserved) {hash : Word} {report : Report}
    (h : t.deallocate hash = (t', report)) : t'.holding.Conserved := by
  rcases deallocate_cases h with rfl | ⟨k, hk, hhold⟩
  · exact hc
  · rw [hhold]
    exact Holding.free_node hc hk

theorem not_both (hc : t.holding.Conserved) {k : Chunk} (hk : k ∈ rangeOf t.vPool) :
    ¬ (k ∈ nodeOf t.a ∧ k ∈ mgmtOf t.m) := by
  have hown := hc k hk
  unfold Holding.Owned at hown
  rintro ⟨hnode, hmgmt⟩
  rcases hown with ⟨-, hno, -⟩ | ⟨-, -, hno⟩ | ⟨-, hno, -⟩
  · exact hno hnode
  · exact hno hmgmt
  · exact hno hnode

theorem recreatePools_iff (hc : t.holding.Conserved) {mode : AllocPoolMode}
    (h : t.recreatePools mode = some t') :
    t'.holding.Conserved ↔ t.Keeps (.recreatePools mode) := by
  rw [recreate_iff h]
  cases mode with
  | WITHOUT_MGMT =>
    constructor
    · rintro hout e he hrange
      exact (hout _ hrange).1 rfl ⟨e, he, rfl⟩
    · intro hout k hk
      refine ⟨?_, not_both hc hk⟩
      rintro - ⟨e, he, rfl⟩
      exact hout e he hk
  | WITH_MGMT =>
    refine iff_of_true ?_ trivial
    intro k hk
    exact ⟨nofun, not_both hc hk⟩

theorem mgmtOf_empty : mgmtOf .empty = ∅ := by
  ext k
  simp [mgmtOf]

theorem copy_conserved (h : t.copy = some t') : t'.holding.Conserved := by
  unfold copy at h
  split at h
  next t₁ hrec =>
    cases h
    rw [syncBmpsToPools_holding, recreatePools_holding hrec]
    rintro k ⟨p, hp, -⟩
    cases hp
  next => cases h

theorem assign_iff {src : AllocTable} (h : t.assign src = some t') :
    t'.holding.Conserved ↔ t.Keeps (.assign src) := by
  unfold assign at h
  split at h
  next t₁ hrec =>
    cases h
    rw [syncBmpsToPools_holding, recreate_iff hrec]
    apply forall₂_congr
    intro k _
    simp
  next => cases h

theorem cpyWithoutMgmt_conserved {src : AllocTable} (h : t.cpyWithoutMgmt src = some t') :
    t'.holding.Conserved := by
  unfold cpyWithoutMgmt at h
  split at h
  next t₁ hrec =>
    cases h
    rw [syncBmpsToPools_holding, recreate_iff hrec]
    intro k _
    rw [mgmtOf_empty]
    exact ⟨fun _ hk => hk, fun hk => hk.2⟩
  next => cases h

theorem fresh_conserved {vPool : List MemPool} (hall : freeOf vPool = rangeOf vPool) :
    ({ a := .empty, m := .empty, vPool } : AllocTable).holding.Conserved := by
  intro k hk
  left
  have hnode : k ∉ nodeOf .empty := by
    rintro ⟨e, he, -⟩
    exact UniqueSet.notMem_empty e he
  have hmgmt : k ∉ mgmtOf .empty := by
    rw [mgmtOf_empty]
    exact id
  have hfree : k ∈ freeOf vPool := hall.symm.subset hk
  exact ⟨hfree, hnode, hmgmt⟩

/-- **One operation** keeps every chunk with exactly one owner exactly under its
condition. -/
theorem step_conserved_iff (hc : t.Conserved) {op : AllocOp} {report : Report}
    (h : t.step op = some (t', report)) : t'.Conserved ↔ t.Keeps op := by
  rw [conserved_iff] at hc ⊢
  cases op with
  | insert cpu adr hash v staged =>
    obtain ⟨r, hr, heq⟩ := Option.map_eq_some_iff.1 h
    cases heq
    exact insert_iff hc hr
  | allocate cpu hash v staged =>
    obtain ⟨r, hr, heq⟩ := Option.map_eq_some_iff.1 h
    cases heq
    exact allocate_iff hc hr
  | allocateMgmt cpu =>
    obtain ⟨r, hr, heq⟩ := Option.map_eq_some_iff.1 h
    cases heq
    exact iff_of_true (allocateMgmt_conserved hc hr) trivial
  | allocateMgmtFor container =>
    exact iff_of_true (allocateMgmtFor_conserved hc h) trivial
  | insertMgmt cpu adr buf =>
    obtain ⟨r, hr, heq⟩ := Option.map_eq_some_iff.1 h
    cases heq
    exact insertMgmt_iff hc hr
  | deallocate hash =>
    exact iff_of_true (deallocate_conserved hc (Option.some.inj h)) trivial
  | deallocateAllMgmt =>
    obtain ⟨r, hr, heq⟩ := Option.map_eq_some_iff.1 h
    cases heq
    rw [deallocateAllMgmt_holding hr]
    exact iff_of_true (Holding.free_mgmt hc) trivial
  | removeByVertex v =>
    cases h
    refine (removeIf_iff hc _).trans ?_
    simp only [beq_iff_eq]
    rfl
  | removeByAdr cpu adr =>
    cases h
    exact iff_of_true hc trivial
  | removeByHash hash =>
    cases h
    refine (removeIf_iff hc _).trans ?_
    simp only [beq_iff_eq]
    rfl
  | recreatePools mode =>
    obtain ⟨r, hr, heq⟩ := Option.map_eq_some_iff.1 h
    cases heq
    exact recreatePools_iff hc hr
  | setBmps bmpData =>
    obtain ⟨r, hr, heq⟩ := Option.map_eq_some_iff.1 h
    cases heq
    rw [setBmps_holding hr]
    exact iff_of_true hc trivial
  | copy =>
    obtain ⟨r, hr, heq⟩ := Option.map_eq_some_iff.1 h
    cases heq
    exact iff_of_true (copy_conserved hr) trivial
  | assign src =>
    obtain ⟨r, hr, heq⟩ := Option.map_eq_some_iff.1 h
    cases heq
    exact assign_iff hr
  | cpyWithoutMgmt src =>
    obtain ⟨r, hr, heq⟩ := Option.map_eq_some_iff.1 h
    cases heq
    exact iff_of_true (cpyWithoutMgmt_conserved hr) trivial
  | syncBmpsToPools =>
    cases h
    rw [syncBmpsToPools_holding]
    exact iff_of_true hc trivial
  | clear =>
    cases h
    refine iff_of_true (fresh_conserved ?_) trivial
    rw [(initPools_spec t.vPool).1, (initPools_spec t.vPool).2]

theorem syncBmpsToPools_synced (t : AllocTable) : t.syncBmpsToPools.Synced := by
  intro p hp
  obtain ⟨q, -, rfl⟩ := List.mem_map.1 hp
  exact q.syncBmpToPool_synced.2

theorem step_synced {op : AllocOp} (hop : op.Syncs) {report : Report}
    (h : t.step op = some (t', report)) : t'.Synced := by
  cases op with
  | copy =>
    obtain ⟨r, hr, heq⟩ := Option.map_eq_some_iff.1 h
    cases heq
    unfold copy at hr
    split at hr
    next t₁ _ =>
      cases hr
      exact syncBmpsToPools_synced t₁
    next => cases hr
  | assign src =>
    obtain ⟨r, hr, heq⟩ := Option.map_eq_some_iff.1 h
    cases heq
    unfold assign at hr
    split at hr
    next t₁ _ =>
      cases hr
      exact syncBmpsToPools_synced t₁
    next => cases hr
  | cpyWithoutMgmt src =>
    obtain ⟨r, hr, heq⟩ := Option.map_eq_some_iff.1 h
    cases heq
    unfold cpyWithoutMgmt at hr
    split at hr
    next t₁ _ =>
      cases hr
      exact syncBmpsToPools_synced t₁
    next => cases hr
  | syncBmpsToPools =>
    cases h
    exact syncBmpsToPools_synced t
  | insert | allocate | allocateMgmt | allocateMgmtFor | insertMgmt | deallocate
  | deallocateAllMgmt | removeByVertex | removeByAdr | removeByHash | recreatePools | setBmps
  | clear => exact hop.elim

/-! ### Sequences -/

theorem after_append (t : AllocTable) (ops ops' : List AllocOp) :
    t.after (ops ++ ops') = (t.after ops).bind fun t => t.after ops' := by
  induction ops generalizing t with
  | nil => rfl
  | cons op ops ih =>
    rw [List.cons_append, after, after]
    split
    next t₁ _ _ => exact ih t₁
    next => rfl

theorem after_take_succ {t : AllocTable} {ops : List AllocOp} {n : Nat} {op : AllocOp}
    (hop : ops[n]? = some op) :
    t.after (ops.take (n + 1)) = (t.after (ops.take n)).bind fun t => t.after [op] := by
  rw [List.take_add_one, hop, ← after_append]
  rfl

theorem after_single {t t' : AllocTable} {op : AllocOp} :
    t.after [op] = some t' ↔ ∃ report, t.step op = some (t', report) := by
  unfold after
  cases hstep : t.step op with
  | none => simp
  | some r =>
    obtain ⟨t₁, report⟩ := r
    simp [after]

theorem initPools_free (memories : List Space) :
    freeOf (memories.map MemPool.new) = rangeOf (memories.map MemPool.new) := by
  refine Set.Subset.antisymm (freeOf_subset _) ?_
  rintro k ⟨p, hp, hchunk⟩
  refine ⟨p, hp, ?_⟩
  rw [List.getElem?_map] at hp
  obtain ⟨S, -, rfl⟩ := Option.map_eq_some_iff.1 hp
  exact MemPool.mem_init.2 hchunk

/-- In every sequence of operations on a fresh table, every chunk always has exactly one
owner if and only if every operation meets its condition in the table it finds; and every
operation that synchronises leaves bitmaps that tell which chunks are free. -/
theorem chunks_conserved_iff (memories : List Space) (ops : List AllocOp) :
    ((∀ n t, (fresh memories).after (ops.take n) = some t → t.Conserved) ↔
      ∀ n t op, (fresh memories).after (ops.take n) = some t → ops[n]? = some op →
        (t.step op).isSome → t.Keeps op) ∧
    ∀ n t op t' report, (fresh memories).after (ops.take n) = some t → ops[n]? = some op →
      op.Syncs → t.step op = some (t', report) → t'.Synced := by
  refine ⟨⟨?_, ?_⟩, ?_⟩
  · intro hall n t op hafter hop hsome
    obtain ⟨⟨t', report⟩, hstep⟩ := Option.isSome_iff_exists.1 hsome
    have hnext : (fresh memories).after (ops.take (n + 1)) = some t' := by
      rw [after_take_succ hop, hafter]
      exact after_single.2 ⟨report, hstep⟩
    exact (step_conserved_iff (hall n t hafter) hstep).1 (hall (n + 1) t' hnext)
  · intro hkeeps n
    induction n with
    | zero =>
      intro t hafter
      cases hafter
      exact (conserved_iff _).2 (fresh_conserved (initPools_free memories))
    | succ n ih =>
      intro t' hafter
      cases hop : ops[n]? with
      | none =>
        rw [List.take_add_one, hop] at hafter
        exact ih t' (by simpa using hafter)
      | some op =>
        rw [after_take_succ hop] at hafter
        obtain ⟨t, ht, hone⟩ := Option.bind_eq_some_iff.1 hafter
        obtain ⟨report, hstep⟩ := after_single.1 hone
        refine (step_conserved_iff (ih t ht) hstep).2 (hkeeps n t op ht hop ?_)
        rw [hstep]
        rfl
  · intro n t op t' report _ _ hsyncs hstep
    exact step_synced hsyncs hstep

/-- A chunk of the range that nobody holds. -/
def lost (t : AllocTable) (k : Chunk) : Bool :=
  (t.vPool[k.1]?.any fun p => decide (p.consts.IsChunk k.2) && !decide (k.2 ∈ p.pool)) &&
    t.holders k == 0

theorem not_conserved_of_lost {k : Chunk} (h : t.lost k = true) : ¬ t.Conserved := by
  unfold lost at h
  rw [Bool.and_eq_true, Option.any_eq_true] at h
  obtain ⟨⟨p, hp, hpk⟩, hnone⟩ := h
  rw [Bool.and_eq_true, decide_eq_true_iff, Bool.not_eq_true', decide_eq_false_iff_not] at hpk
  intro hc
  rcases hc k ⟨p, hp, hpk.1⟩ with ⟨hfree, -⟩ | ⟨-, hone⟩
  · exact hpk.2 ((mem_freeOf hp k.2).1 hfree)
  · rw [beq_iff_eq] at hnone
    omega

/-- Four blocks of node memory, one of them for the bitmap. -/
def fourBlocks : Space where
  extBaseAdr := 0x4120000
  intBaseAdr := 0x10000000
  peerBaseAdr := 0x84120000
  sharedOffs := 0x500
  space := 208
  rawSize := 0x1ffff
  sharedInRam := by decide
  intLow := by decide
  peerHigh := by decide
  peerFits := by decide

/-- Allocating two nodes of one hash fails the second time, and takes a chunk no entry
holds. -/
theorem chunk_lost :
    ∃ t, (fresh [fourBlocks]).after [.allocate 0 7 1 true, .allocate 0 7 2 true] = some t ∧
      ¬ t.Conserved := by
  have hlost : (((fresh [fourBlocks]).after [.allocate 0 7 1 true, .allocate 0 7 2 true]).map
      fun t => t.lost (0, 0x89c)) = some true := by
    decide +kernel
  obtain ⟨t, ht, hk⟩ := Option.map_eq_some_iff.1 hlost
  exact ⟨t, ht, not_conserved_of_lost hk⟩

end AllocTable
end DataMaster
