import BelProjects.DataMaster.Alloc.Table
import Mathlib.Data.Set.Insert

/-!
# Who holds a chunk

The operations of the allocation table move chunks between three owners: the free
pool of the CPU, the node table and the management table.  A chunk is named by the
index of its pool and its address.
-/

namespace DataMaster

/-- The chunks of the pools, and what each owner holds of them. -/
structure Holding (κ : Type*) where
  range : Set κ
  free : Set κ
  node : Set κ
  mgmt : Set κ

namespace Holding

variable {κ : Type*} {h h' : Holding κ}

def Owned (h : Holding κ) (k : κ) : Prop :=
  (k ∈ h.free ∧ k ∉ h.node ∧ k ∉ h.mgmt) ∨ (k ∉ h.free ∧ k ∈ h.node ∧ k ∉ h.mgmt) ∨
    (k ∉ h.free ∧ k ∉ h.node ∧ k ∈ h.mgmt)

def Conserved (h : Holding κ) : Prop := ∀ k ∈ h.range, h.Owned k

/-- Where only one chunk changes hands, only that chunk can end up without an owner
or with two. -/
theorem conserved_iff_at (hc : h.Conserved) (k : κ) (hrange : h'.range = h.range)
    (hsame : ∀ x, x ≠ k →
      (x ∈ h'.free ↔ x ∈ h.free) ∧ (x ∈ h'.node ↔ x ∈ h.node) ∧ (x ∈ h'.mgmt ↔ x ∈ h.mgmt)) :
    h'.Conserved ↔ (k ∈ h.range → h'.Owned k) := by
  unfold Conserved
  rw [hrange]
  constructor
  · intro h' hk
    exact h' k hk
  · intro hown x hx
    by_cases hxk : x = k
    · subst hxk
      exact hown hx
    · obtain ⟨hfree, hnode, hmgmt⟩ := hsame x hxk
      unfold Owned
      rw [hfree, hnode, hmgmt]
      exact hc x hx

theorem occupy_node_iff (hc : h.Conserved) (k : κ) :
    ({ h with free := h.free \ {k}, node := {k} ∪ h.node } : Holding κ).Conserved ↔
      ¬ (k ∈ h.range ∧ k ∈ h.mgmt) := by
  refine (conserved_iff_at hc k ?_ ?_).trans ?_
  · rfl
  · intro x hx
    simp [hx]
  · unfold Owned
    simp

/-- Taking a chunk for the management table. -/
theorem occupy_mgmt_iff (hc : h.Conserved) (k : κ) :
    ({ h with free := h.free \ {k}, mgmt := {k} ∪ h.mgmt } : Holding κ).Conserved ↔
      ¬ (k ∈ h.range ∧ k ∈ h.node) := by
  refine (conserved_iff_at hc k ?_ ?_).trans ?_
  · rfl
  · intro x hx
    simp [hx]
  · unfold Owned
    simp

/-- Taking a chunk for nobody. -/
theorem occupy_lost_iff (hc : h.Conserved) (hsub : h.free ⊆ h.range) (k : κ) :
    ({ h with free := h.free \ {k} } : Holding κ).Conserved ↔ k ∉ h.free := by
  constructor
  · intro hcons hfree
    have hown := hc k (hsub hfree)
    have hlost := hcons k (hsub hfree)
    unfold Owned at hown hlost
    simp only [Set.mem_sdiff, Set.mem_singleton_iff] at hlost
    tauto
  · intro hfree
    rw [Set.sdiff_singleton_eq_self hfree]
    exact hc

/-- Giving up chunks of the node table without freeing them. -/
theorem remove_node_iff (hc : h.Conserved) {r : Set κ} (hr : r ⊆ h.node) :
    ({ h with node := h.node \ r } : Holding κ).Conserved ↔ ∀ k ∈ r, k ∉ h.range := by
  constructor
  · intro hcons k hk hrange
    have hown := hc k hrange
    have hlost := hcons k hrange
    unfold Owned at hown hlost
    simp only [Set.mem_sdiff] at hlost
    have hnode := hr hk
    tauto
  · intro hout k hk
    have hown := hc k hk
    have hkr : k ∉ r := fun hkr => hout k hkr hk
    unfold Owned at hown ⊢
    simp only [Set.mem_sdiff]
    tauto

/-- Returning a chunk of the node table to the pool. -/
theorem free_node (hc : h.Conserved) {k : κ} (hk : k ∈ h.node) :
    ({ h with free := {k} ∪ h.free, node := h.node \ {k} } : Holding κ).Conserved := by
  refine (conserved_iff_at hc k ?_ ?_).2 ?_
  · rfl
  · intro x hx
    simp [hx]
  · intro hrange
    have hown := hc k hrange
    unfold Owned at hown ⊢
    simp only [Set.mem_union, Set.mem_sdiff, Set.mem_singleton_iff]
    tauto

/-- Returning all chunks of the management table to the pool. -/
theorem free_mgmt (hc : h.Conserved) :
    ({ h with free := h.free ∪ (h.mgmt ∩ h.range), mgmt := ∅ } : Holding κ).Conserved := by
  intro k hk
  have hown := hc k hk
  unfold Owned at hown ⊢
  simp only [Set.mem_union, Set.mem_inter_iff, Set.mem_empty_iff_false]
  tauto

/-- Building the pool anew from what the tables occupy. -/
theorem rebuild_iff {occupied : Set κ} (hoccupied : occupied ⊆ h.node ∪ h.mgmt) :
    ({ h with free := h.range \ occupied } : Holding κ).Conserved ↔
      ∀ k ∈ h.range, (k ∈ h.node ∨ k ∈ h.mgmt → k ∈ occupied) ∧ ¬ (k ∈ h.node ∧ k ∈ h.mgmt) := by
  constructor
  · intro hcons k hk
    have hown := hcons k hk
    unfold Owned at hown
    simp only [Set.mem_sdiff] at hown
    tauto
  · intro hcons k hk
    have hown := hcons k hk
    have hsub : k ∈ occupied → k ∈ h.node ∨ k ∈ h.mgmt := fun h => hoccupied h
    unfold Owned
    simp only [Set.mem_sdiff]
    tauto

end Holding

abbrev Chunk := Nat × Word

def rangeOf (vPool : List MemPool) : Set Chunk :=
  {k | ∃ p, vPool[k.1]? = some p ∧ p.consts.IsChunk k.2}

def freeOf (vPool : List MemPool) : Set Chunk :=
  {k | ∃ p, vPool[k.1]? = some p ∧ k.2 ∈ p.pool}

def nodeOf (a : UniqueSet AllocMeta AllocMeta.Collide) : Set Chunk :=
  {k | ∃ e ∈ a, e.place = k}

def mgmtOf (m : UniqueSet MgmtMeta MgmtMeta.Collide) : Set Chunk :=
  {k | ∃ e ∈ m, e.place = k}

def AllocTable.holding (t : AllocTable) : Holding Chunk where
  range := rangeOf t.vPool
  free := freeOf t.vPool
  node := nodeOf t.a
  mgmt := mgmtOf t.m

/-! ### Pools -/

theorem freeOf_subset (vPool : List MemPool) : freeOf vPool ⊆ rangeOf vPool := by
  rintro k ⟨p, hp, hfree⟩
  exact ⟨p, hp, p.pool_chunks _ hfree⟩

theorem pools_set {vPool : List MemPool} {c : Nat} {p p' : MemPool} (hp : vPool[c]? = some p)
    (hconsts : p'.consts = p.consts) :
    rangeOf (vPool.set c p') = rangeOf vPool ∧
    ∀ k, k ∈ freeOf (vPool.set c p') ↔
      (k.1 = c ∧ k.2 ∈ p'.pool) ∨ (k.1 ≠ c ∧ k ∈ freeOf vPool) := by
  have hget : ∀ i, (vPool.set c p')[i]? = if i = c then some p' else vPool[i]? := by
    intro i
    have hlt : c < vPool.length := (List.getElem?_eq_some_iff.1 hp).1
    by_cases hi : i = c
    · subst hi
      simp [hlt]
    · simp [hi, Ne.symm hi]
  constructor
  · ext ⟨i, adr⟩
    change (∃ q, (vPool.set c p')[i]? = some q ∧ q.consts.IsChunk adr) ↔
      ∃ q, vPool[i]? = some q ∧ q.consts.IsChunk adr
    rw [hget]
    by_cases hi : i = c
    · subst hi
      rw [if_pos rfl, hp]
      simp [hconsts]
    · rw [if_neg hi]
  · rintro ⟨i, adr⟩
    change (∃ q, (vPool.set c p')[i]? = some q ∧ adr ∈ q.pool) ↔
      (i = c ∧ adr ∈ p'.pool) ∨ (i ≠ c ∧ ∃ q, vPool[i]? = some q ∧ adr ∈ q.pool)
    rw [hget]
    by_cases hi : i = c
    · simp [hi]
    · simp [hi]

theorem mem_freeOf {vPool : List MemPool} {c : Nat} {p : MemPool} (hp : vPool[c]? = some p)
    (adr : Word) : (c, adr) ∈ freeOf vPool ↔ adr ∈ p.pool := by
  constructor
  · rintro ⟨q, hq, hadr⟩
    rw [hp, Option.some.injEq] at hq
    rwa [hq]
  · intro hadr
    exact ⟨p, hp, hadr⟩

theorem mem_rangeOf {vPool : List MemPool} {c : Nat} {p : MemPool} (hp : vPool[c]? = some p)
    (adr : Word) : (c, adr) ∈ rangeOf vPool ↔ p.consts.IsChunk adr := by
  constructor
  · rintro ⟨q, hq, hadr⟩
    rw [hp, Option.some.injEq] at hq
    rwa [hq]
  · intro hadr
    exact ⟨p, hp, hadr⟩

theorem occupy_set {vPool : List MemPool} {c : Nat} {p : MemPool} (hp : vPool[c]? = some p)
    (adr : Word) :
    rangeOf (vPool.set c (p.occupyChunk adr)) = rangeOf vPool ∧
    freeOf (vPool.set c (p.occupyChunk adr)) = freeOf vPool \ {(c, adr)} := by
  obtain ⟨hrange, hfree⟩ := pools_set hp (@MemPool.occupyChunk_consts p adr)
  refine ⟨hrange, ?_⟩
  ext ⟨i, x⟩
  rw [hfree, Set.mem_sdiff, Set.mem_singleton_iff, Prod.mk.injEq]
  by_cases hi : i = c
  · subst hi
    simp [mem_freeOf hp, and_comm]
  · simp [hi]

theorem occupyAt_spec {vPool vPool' : List MemPool} {cpu : CpuIdx} {adr : Word}
    (h : occupyAt vPool cpu adr = some vPool') :
    rangeOf vPool' = rangeOf vPool ∧ freeOf vPool' = freeOf vPool \ {(cpu.toNat, adr)} := by
  unfold occupyAt at h
  split at h
  next p hp =>
    cases h
    exact occupy_set hp adr
  next => cases h

theorem free_set {vPool : List MemPool} {c : Nat} {p : MemPool} (hp : vPool[c]? = some p)
    (adr : Word) :
    rangeOf (vPool.set c (p.freeChunk adr).1) = rangeOf vPool ∧
    freeOf (vPool.set c (p.freeChunk adr).1) = freeOf vPool ∪ ({(c, adr)} ∩ rangeOf vPool) := by
  by_cases hable : p.Freeable adr
  · obtain ⟨-, hconsts, hmem⟩ := MemPool.freeChunk_of_freeable hable
    obtain ⟨hrange, hfree⟩ := pools_set hp hconsts
    refine ⟨hrange, ?_⟩
    have hchunk := (mem_rangeOf hp adr).2 (p.isChunk_of_freeable hable)
    ext ⟨i, x⟩
    rw [hfree, Set.mem_union, Set.mem_inter_iff, Set.mem_singleton_iff, Prod.mk.injEq]
    by_cases hi : i = c
    · subst hi
      simp only [hmem, mem_freeOf hp, true_and, ne_eq, not_true_eq_false, false_and, or_false]
      constructor
      · rintro (rfl | hx)
        · exact Or.inr ⟨rfl, hchunk⟩
        · exact Or.inl hx
      · rintro (hx | ⟨rfl, -⟩)
        · exact Or.inr hx
        · exact Or.inl rfl
    · simp [hi]
  · have hsame : vPool.set c (p.freeChunk adr).1 = vPool := by
      rw [MemPool.freeChunk_of_not_freeable hable]
      obtain ⟨hlt, hget⟩ := List.getElem?_eq_some_iff.1 hp
      rw [← hget]
      exact List.set_getElem_self hlt
    rw [hsame]
    refine ⟨rfl, (Set.union_eq_left.2 ?_).symm⟩
    rintro k ⟨rfl, hk⟩
    rw [mem_rangeOf hp] at hk
    rw [p.freeable_iff, not_and, not_not] at hable
    exact (mem_freeOf hp adr).2 (hable hk)

theorem freeAt_spec {vPool vPool' : List MemPool} {cpu : CpuIdx} {adr : Word}
    (h : freeAt vPool cpu adr = some vPool') :
    rangeOf vPool' = rangeOf vPool ∧
    freeOf vPool' = freeOf vPool ∪ ({(cpu.toNat, adr)} ∩ rangeOf vPool) := by
  unfold freeAt at h
  split at h
  next p hp =>
    cases h
    exact free_set hp adr
  next => cases h

theorem pools_map {vPool : List MemPool} {f : MemPool → MemPool}
    (hconsts : ∀ p, (f p).consts = p.consts) :
    rangeOf (vPool.map f) = rangeOf vPool ∧
    ∀ k, k ∈ freeOf (vPool.map f) ↔ ∃ p, vPool[k.1]? = some p ∧ k.2 ∈ (f p).pool := by
  constructor
  · ext ⟨i, adr⟩
    simp [rangeOf, List.getElem?_map, hconsts]
  · rintro ⟨i, adr⟩
    simp [freeOf, List.getElem?_map]

theorem initPools_spec (vPool : List MemPool) :
    rangeOf (vPool.map MemPool.init) = rangeOf vPool ∧
    freeOf (vPool.map MemPool.init) = rangeOf vPool := by
  obtain ⟨hrange, hfree⟩ := @pools_map vPool MemPool.init fun _ => MemPool.init_consts
  refine ⟨hrange, Set.ext fun k => ?_⟩
  rw [hfree]
  simp only [MemPool.mem_init]
  rfl

/-- What the device has of the pools: memories and bitmaps. -/
def marks (vPool : List MemPool) : List (Space × List Bitmap.Byte) :=
  vPool.map fun p => (p.consts, p.bmp)

/-- The node table, and what the device has of the pools. -/
def AllocTable.stored (t : AllocTable) :
    UniqueSet AllocMeta AllocMeta.Collide × List (Space × List Bitmap.Byte) :=
  (t.a, marks t.vPool)

theorem marks_set {vPool : List MemPool} {c : Nat} {p p' : MemPool} (hp : vPool[c]? = some p)
    (hconsts : p'.consts = p.consts) (hbmp : p'.bmp = p.bmp) :
    marks (vPool.set c p') = marks vPool := by
  obtain ⟨hlt, rfl⟩ := List.getElem?_eq_some_iff.1 hp
  unfold marks
  rw [List.map_set, hconsts, hbmp]
  exact (List.map_set (f := fun p : MemPool => (p.consts, p.bmp))).symm.trans
    (congrArg _ (List.set_getElem_self hlt))

theorem occupyAt_marks {vPool vPool' : List MemPool} {cpu : CpuIdx} {adr : Word}
    (h : occupyAt vPool cpu adr = some vPool') : marks vPool' = marks vPool := by
  unfold occupyAt at h
  split at h
  next p hp =>
    cases h
    exact marks_set hp rfl rfl
  next => cases h

theorem freeAt_marks {vPool vPool' : List MemPool} {cpu : CpuIdx} {adr : Word}
    (h : freeAt vPool cpu adr = some vPool') : marks vPool' = marks vPool := by
  unfold freeAt at h
  split at h
  next p hp =>
    cases h
    unfold MemPool.freeChunk
    split
    · exact marks_set hp rfl rfl
    · exact marks_set hp rfl rfl
  next => cases h

theorem syncPools_spec (vPool : List MemPool) :
    rangeOf (vPool.map fun p => p.syncBmpToPool.1) = rangeOf vPool ∧
    freeOf (vPool.map fun p => p.syncBmpToPool.1) = freeOf vPool := by
  obtain ⟨hrange, hfree⟩ := @pools_map vPool (fun p => p.syncBmpToPool.1)
    fun _ => MemPool.syncBmpToPool_consts
  refine ⟨hrange, Set.ext fun k => ?_⟩
  rw [hfree]
  rfl

end DataMaster
