import Mathlib.Algebra.BigOperators.Group.Finset.Basic
import Mathlib.Algebra.BigOperators.Ring.List
import Mathlib.Algebra.Order.BigOperators.Group.List
import Mathlib.Algebra.Order.Ring.Nat
import Mathlib.Order.Interval.Finset.Nat
import BelProjects.DataMaster.Alloc.Sequences
import BelProjects.DataMaster.Alloc.MgmtList

/-!
# Space for management data

`allocateMgmt` compares the free space of all CPUs with the space of the chunks it needs, and
then takes the chunks one by one from the CPU that has the most space.  It counts the chunks
in 32 bits, and their bytes, too.
-/

namespace DataMaster

open BigEndian AllocTable

/-! ### Free chunks -/

namespace MemPool

variable (p : MemPool)

theorem size_le : p.pool.size ≤ p.consts.nodeQty.toNat := by
  have hnodup : p.pool.elems.Nodup := p.pool.increasing.imp ne_of_lt
  have hcard : p.pool.elems.toFinset.card ≤ (Finset.range p.consts.nodeQty.toNat).card := by
    refine Finset.card_le_card_of_injOn p.consts.bitIdx ?_ ?_
    · intro adr hadr
      obtain ⟨i, -, hi, hval⟩ := p.consts.isChunk_iff.1 (p.pool_chunks adr (List.mem_toFinset.1 hadr))
      have hbit := p.consts.bitIdx_toNat (show p.consts.bmpOffs ≤ adr by rw [BitVec.le_def]; omega)
      rw [Finset.coe_range, Set.mem_Iio, hbit]
      omega
    · intro adr hadr adr' hadr' heq
      obtain ⟨i, -, hi, hval⟩ := p.consts.isChunk_iff.1 (p.pool_chunks adr (List.mem_toFinset.1 hadr))
      obtain ⟨j, -, hj, hval'⟩ :=
        p.consts.isChunk_iff.1 (p.pool_chunks adr' (List.mem_toFinset.1 hadr'))
      have hbit := p.consts.bitIdx_toNat (show p.consts.bmpOffs ≤ adr by rw [BitVec.le_def]; omega)
      have hbit' := p.consts.bitIdx_toNat (show p.consts.bmpOffs ≤ adr' by rw [BitVec.le_def]; omega)
      apply BitVec.eq_of_toNat_eq
      omega
  rw [List.toFinset_card_of_nodup hnodup, Finset.card_range] at hcard
  exact hcard

theorem getFreeSpace_toNat : p.getFreeSpace.toNat = 52 * p.pool.size := by
  have hsize := p.size_le
  have hqty := p.consts.nodeQty_le
  have hspace := p.consts.space.isLt
  unfold getFreeSpace
  rw [BitVec.toNat_mul, BitVec.toNat_ofNat, Nat.mod_eq_of_lt (show p.pool.size < 2 ^ 32 by omega),
    show memBlock.toNat = 52 from rfl, Nat.mod_eq_of_lt (by omega), Nat.mul_comm]

variable {p}

/-- Taking a free chunk leaves one less. -/
theorem size_occupyChunk {adr : Word} (h : adr ∈ p.pool) :
    (p.occupyChunk adr).pool.size + 1 = p.pool.size := OrderedSet.size_erase h

theorem occupyChunk_of_notMem {adr : Word} (h : adr ∉ p.pool) :
    (p.occupyChunk adr).pool = p.pool := OrderedSet.erase_of_notMem h

theorem acquireChunk_isSome (h : 0 < p.pool.size) :
    ∃ adr, p.acquireChunk = some (adr, p.occupyChunk adr) := by
  unfold OrderedSet.size at h
  unfold acquireChunk OrderedSet.begin?
  rcases helems : p.pool.elems with _ | ⟨adr, rest⟩
  · rw [helems] at h
    exact absurd h (Nat.lt_irrefl 0)
  · exact ⟨adr, rfl⟩

theorem acquireChunk_eq_none (h : p.pool.size = 0) : p.acquireChunk = none := by
  unfold OrderedSet.size at h
  unfold acquireChunk OrderedSet.begin?
  rw [List.length_eq_zero_iff.1 h]
  rfl

end MemPool

def AllocTable.freeChunks (t : AllocTable) : Nat := (t.vPool.map fun p => p.pool.size).sum

theorem availableSpace_eq (t : AllocTable) : t.availableSpace = 52 * t.freeChunks := by
  unfold AllocTable.availableSpace AllocTable.freeChunks
  rw [← List.sum_map_mul_left]
  simp only [MemPool.getFreeSpace_toNat]

theorem sum_map_set {α : Type} (f : α → Nat) {l : List α} {i : Nat} {x : α} (h : l[i]? = some x)
    (y : α) : ((l.set i y).map f).sum + f x = (l.map f).sum + f y := by
  induction l generalizing i with
  | nil => cases h
  | cons a l ih =>
    cases i with
    | zero =>
      cases h
      simp only [List.set_cons_zero, List.map_cons, List.sum_cons]
      omega
    | succ i =>
      have hrest := ih h
      simp only [List.set_cons_succ, List.map_cons, List.sum_cons]
      omega

/-- Looking for the largest value, and where it was found first. -/
theorem foldl_largest {α : Type} (f : α → Nat) (g : α → CpuIdx) (l : List α) (best : CpuIdx × Nat) :
    let r := l.foldl (fun best x => if best.2 < f x then (g x, f x) else best) best
    best.2 ≤ r.2 ∧ (∀ x ∈ l, f x ≤ r.2) ∧ (r = best ∨ ∃ x ∈ l, r = (g x, f x)) := by
  induction l generalizing best with
  | nil => exact ⟨Nat.le_refl _, fun x hx => absurd hx List.not_mem_nil, Or.inl rfl⟩
  | cons a l ih =>
    rw [List.foldl_cons]
    by_cases hlt : best.2 < f a
    · rw [if_pos hlt]
      obtain ⟨hle, hall, hfrom⟩ := ih (g a, f a)
      refine ⟨Nat.le_trans (Nat.le_of_lt hlt) hle, ?_, Or.inr ?_⟩
      · rintro x (_ | ⟨_, hx⟩)
        · exact hle
        · exact hall x hx
      · rcases hfrom with heq | ⟨x, hx, heq⟩
        · exact ⟨a, List.mem_cons_self, heq⟩
        · exact ⟨x, List.mem_cons_of_mem a hx, heq⟩
    · rw [if_neg hlt]
      obtain ⟨hle, hall, hfrom⟩ := ih best
      refine ⟨hle, ?_, ?_⟩
      · rintro x (_ | ⟨_, hx⟩)
        · exact Nat.le_trans (Nat.le_of_not_lt hlt) hle
        · exact hall x hx
      · rcases hfrom with heq | ⟨x, hx, heq⟩
        · exact Or.inl heq
        · exact Or.inr ⟨x, List.mem_cons_of_mem a hx, heq⟩

section Space

variable {t : AllocTable}

theorem freeChunks_eq_zero (h : t.freeChunks = 0) {p : MemPool} (hp : p ∈ t.vPool) :
    p.pool.size = 0 :=
  List.sum_eq_zero_iff_forall_eq_nat.1 h _ (List.mem_map_of_mem hp)

theorem chosen_spec (hcpus : t.vPool.length ≤ 255) (hfree : 0 < t.freeChunks) :
    ∃ p, t.vPool[t.chosen.toNat]? = some p ∧ 0 < p.pool.size := by
  obtain ⟨-, hall, hfrom⟩ := foldl_largest (fun pi : MemPool × Nat => pi.1.getFreeSpace.toNat)
    (fun pi => BitVec.ofNat 8 pi.2) t.vPool.zipIdx (0, 0)
  -- some pool has a free chunk, so the largest space is not zero
  have hsome : ∃ p ∈ t.vPool, 0 < p.pool.size := by
    by_contra hnone
    push Not at hnone
    refine absurd (List.sum_eq_zero_iff_forall_eq_nat.2 fun n hn => ?_) (Nat.ne_of_gt hfree)
    obtain ⟨p, hp, rfl⟩ := List.mem_map.1 hn
    exact Nat.le_zero.1 (hnone p hp)
  obtain ⟨p, hp, hpos⟩ := hsome
  obtain ⟨i, hi, rfl⟩ := List.getElem_of_mem hp
  have hle := hall (t.vPool[i], i) (List.mk_mem_zipIdx_iff_getElem?.2 (List.getElem?_eq_getElem hi))
  rw [MemPool.getFreeSpace_toNat] at hle
  rcases hfrom with heq | ⟨⟨q, j⟩, hj, heq⟩
  · rw [heq] at hle
    dsimp only at hle
    omega
  · have hget := List.mk_mem_zipIdx_iff_getElem?.1 hj
    have hlt := (List.getElem?_eq_some_iff.1 hget).1
    rw [heq] at hle
    dsimp only at hle
    rw [MemPool.getFreeSpace_toNat] at hle
    refine ⟨q, ?_, by omega⟩
    unfold AllocTable.chosen
    rw [heq, BitVec.toNat_ofNat, Nat.mod_eq_of_lt (by omega)]
    exact hget

theorem allocateMgmt_takes (hc : t.holding.Conserved) {c : CpuIdx} {p : MemPool}
    (hp : t.vPool[c.toNat]? = some p) (hpos : 0 < p.pool.size) :
    ∃ t', t.allocateMgmt c = some (t', allocOk) ∧ t'.freeChunks + 1 = t.freeChunks ∧
      t'.m.entries.length = t.m.entries.length + 1 ∧
      t'.vPool.map MemPool.consts = t.vPool.map MemPool.consts := by
  obtain ⟨adr, hacq⟩ := MemPool.acquireChunk_isSome hpos
  obtain ⟨hadr, -⟩ := MemPool.acquireChunk_spec hacq
  have hlt := (List.getElem?_eq_some_iff.1 hp).1
  have hfree : (c.toNat, adr) ∈ t.holding.free := (mem_freeOf hp adr).2 hadr
  have hnew : t.m.Accepts { cpu := c, adr } := by
    intro e he hcollide
    have hmgmt : (c.toNat, adr) ∈ t.holding.mgmt := ⟨e, he, hcollide.symm⟩
    have hown := hc _ (freeOf_subset t.vPool hfree)
    unfold Holding.Owned at hown
    tauto
  have hset : (t.vPool.set c.toNat (p.occupyChunk adr))[c.toNat]? = some (p.occupyChunk adr) :=
    List.getElem?_set_self hlt
  obtain ⟨hins, hentries⟩ := UniqueSet.insert_of_accepts hnew
  have hagain : ((p.occupyChunk adr).occupyChunk adr).pool = (p.occupyChunk adr).pool :=
    MemPool.occupyChunk_of_notMem fun hmem => (MemPool.mem_occupyChunk.1 hmem).1 rfl
  refine ⟨{ t with
      vPool := t.vPool.set c.toNat ((p.occupyChunk adr).occupyChunk adr)
      m := (t.m.insert { cpu := c, adr }).1 }, ?_, ?_, ?_, ?_⟩
  · unfold AllocTable.allocateMgmt
    rw [hp]
    dsimp only
    rw [hacq]
    dsimp only
    unfold AllocTable.insertMgmt occupyAt
    dsimp only
    rw [hset]
    dsimp only
    rw [hins, if_pos rfl, List.set_set]
  · have hsum := sum_map_set (fun q : MemPool => q.pool.size) hp ((p.occupyChunk adr).occupyChunk adr)
    have hsize := MemPool.size_occupyChunk hadr
    rw [hagain] at hsum
    unfold AllocTable.freeChunks
    dsimp only
    omega
  · dsimp only
    rw [hentries, List.length_cons]
  · dsimp only
    rw [List.map_set, MemPool.occupyChunk_consts, MemPool.occupyChunk_consts]
    have hget : (t.vPool.map MemPool.consts)[c.toNat]? = some p.consts := by
      rw [List.getElem?_map, hp]
      rfl
    obtain ⟨hlt', hval⟩ := List.getElem?_eq_some_iff.1 hget
    rw [← hval, List.set_getElem_self]

theorem allocateMgmt_none (h : t.freeChunks = 0) (c : CpuIdx) :
    t.allocateMgmt c = some (t, allocNoSpace) := by
  unfold AllocTable.allocateMgmt
  split
  next => rfl
  next p hp =>
    rw [MemPool.acquireChunk_eq_none (freeChunks_eq_zero h (List.mem_of_getElem? hp))]

end Space

/-! ### The loop -/

/-- A table whose chunks have one owner each, with CPUs that a `uint8_t` can count. -/
structure SoundTable (t : AllocTable) : Prop where
  conserved : t.holding.Conserved
  inRange : t.holding.mgmt ⊆ t.holding.range
  windows : ExtWindows t.vPool
  cpus : t.vPool.length ≤ 255

theorem ExtWindows.congr {vPool vPool' : List MemPool} (hw : ExtWindows vPool)
    (h : vPool'.map MemPool.consts = vPool.map MemPool.consts) : ExtWindows vPool' := by
  have hiff : ∀ v : List MemPool, ExtWindows v ↔
      (∀ S ∈ v.map MemPool.consts, S.extBaseAdr.toNat + S.rawSize.toNat < 2 ^ 32) ∧
        (v.map MemPool.consts).Pairwise fun S T =>
          S.extBaseAdr.toNat + S.rawSize.toNat < T.extBaseAdr.toNat ∨
            T.extBaseAdr.toNat + T.rawSize.toNat < S.extBaseAdr.toNat := by
    intro v
    rw [List.forall_mem_map, List.pairwise_map]
    exact ⟨fun h => ⟨h.fits, h.apart⟩, fun h => ⟨h.1, h.2⟩⟩
  rw [hiff, h, ← hiff]
  exact hw

namespace SoundTable

variable {t : AllocTable} (hs : SoundTable t)
include hs

theorem take (hfree : 0 < t.freeChunks) :
    ∃ t', t.allocateMgmt t.chosen = some (t', allocOk) ∧ SoundTable t' ∧
      t'.freeChunks + 1 = t.freeChunks ∧ t'.m.entries.length = t.m.entries.length + 1 := by
  obtain ⟨p, hp, hpos⟩ := chosen_spec hs.cpus hfree
  obtain ⟨t', htake, hfree', hlen, hconsts⟩ := allocateMgmt_takes hs.conserved hp hpos
  refine ⟨t', htake, ?_, hfree', hlen⟩
  have hsame : t'.vPool.length = t.vPool.length := by
    have hmap := congrArg List.length hconsts
    rwa [List.length_map, List.length_map] at hmap
  have hwindows := hs.windows.congr hconsts
  have hcpus : t'.vPool.length ≤ 255 := by rw [hsame]; exact hs.cpus
  rcases allocateMgmt_cases htake with rfl | ⟨adr, hadr, hhold⟩
  · omega
  · have hrange := freeOf_subset t.vPool hadr
    have hown := hs.conserved _ hrange
    refine ⟨?_, ?_, hwindows, hcpus⟩
    · rw [hhold, Holding.occupy_mgmt_iff hs.conserved]
      unfold Holding.Owned at hown
      tauto
    · rw [hhold]
      exact Set.union_subset (Set.singleton_subset_iff.2 hrange) hs.inRange

theorem loop_done {k : Nat} (h : k ≤ t.freeChunks) :
    ∃ t', allocateMgmtLoop k t = some (t', .code 0) ∧ SoundTable t' ∧
      t'.m.entries.length = t.m.entries.length + k := by
  induction k generalizing t with
  | zero => exact ⟨t, rfl, hs, rfl⟩
  | succ k ih =>
    obtain ⟨u, htake, hu, hfree, hlen⟩ := hs.take (by omega)
    obtain ⟨t', hloop, ht', hlen'⟩ := ih hu (by omega)
    refine ⟨t', ?_, ht', by omega⟩
    rw [allocateMgmtLoop, htake]
    exact hloop

theorem loop_fails {k : Nat} (h : t.freeChunks < k) :
    ∃ t' what, allocateMgmtLoop k t = some (t', .error what) ∧
      t'.m.entries.length = t.m.entries.length + t.freeChunks ∧ (t.freeChunks = 0 → t' = t) := by
  induction k generalizing t with
  | zero => exact absurd h (Nat.not_lt_zero _)
  | succ k ih =>
    rcases Nat.eq_zero_or_pos t.freeChunks with hzero | hpos
    · refine ⟨t, "MgmtTable: Could not allocate node\n", ?_, by rw [hzero]; rfl, fun _ => rfl⟩
      rw [allocateMgmtLoop, allocateMgmt_none hzero]
      rfl
    · obtain ⟨u, htake, hu, hfree, hlen⟩ := hs.take hpos
      obtain ⟨t', what, hloop, hlen', -⟩ := ih hu (by omega)
      refine ⟨t', what, ?_, by omega, fun hzero => by omega⟩
      rw [allocateMgmtLoop, htake]
      exact hloop

end SoundTable

/-! ### The address space -/

/-- Intervals that lie apart below a bound are together no longer than it. -/
theorem sum_lengths_le {l : List (Nat × Nat)} {n : Nat} (hfits : ∀ x ∈ l, x.1 + x.2 ≤ n)
    (hapart : l.Pairwise fun x y => x.1 + x.2 ≤ y.1 ∨ y.1 + y.2 ≤ x.1) :
    (l.map Prod.snd).sum ≤ n := by
  have hcard : ∀ {l : List (Nat × Nat)},
      (l.Pairwise fun x y => x.1 + x.2 ≤ y.1 ∨ y.1 + y.2 ≤ x.1) →
      (l.foldr (fun x s => Finset.Ico x.1 (x.1 + x.2) ∪ s) ∅).card = (l.map Prod.snd).sum ∧
        ∀ i, i ∈ l.foldr (fun x s => Finset.Ico x.1 (x.1 + x.2) ∪ s) ∅ →
          ∃ x ∈ l, x.1 ≤ i ∧ i < x.1 + x.2 := by
    intro l
    induction l with
    | nil => exact fun _ => ⟨rfl, fun i hi => absurd hi (Finset.notMem_empty i)⟩
    | cons x l ih =>
      intro hap
      obtain ⟨hx, hl⟩ := List.pairwise_cons.1 hap
      obtain ⟨hsum, hmem⟩ := ih hl
      rw [List.foldr_cons]
      constructor
      · rw [Finset.card_union_of_disjoint, hsum, Nat.card_Ico, List.map_cons, List.sum_cons]
        · omega
        · rw [Finset.disjoint_left]
          intro i hi hrest
          obtain ⟨y, hy, hge, hlt⟩ := hmem i hrest
          have hxy := hx y hy
          rw [Finset.mem_Ico] at hi
          omega
      · intro i hi
        rcases Finset.mem_union.1 hi with hi | hi
        · exact ⟨x, List.mem_cons_self, Finset.mem_Ico.1 hi⟩
        · obtain ⟨y, hy, hin⟩ := hmem i hi
          exact ⟨y, List.mem_cons_of_mem x hy, hin⟩
  obtain ⟨hsum, hmem⟩ := hcard hapart
  rw [← hsum, ← Finset.card_range n]
  refine Finset.card_le_card fun i hi => ?_
  obtain ⟨x, hx, -, hlt⟩ := hmem i hi
  have hle := hfits x hx
  exact Finset.mem_range.2 (by omega)

theorem ExtWindows.freeChunks_le {t : AllocTable} (hw : ExtWindows t.vPool) :
    52 * t.freeChunks ≤ 2 ^ 32 := by
  have hlengths := sum_lengths_le (n := 2 ^ 32)
    (l := t.vPool.map fun p => (p.consts.extBaseAdr.toNat, p.consts.rawSize.toNat + 1))
    (by
      intro x hx
      obtain ⟨p, hp, rfl⟩ := List.mem_map.1 hx
      exact hw.fits p hp)
    (List.pairwise_map.2 (hw.apart.imp fun h => by omega))
  rw [List.map_map] at hlengths
  refine Nat.le_trans ?_ hlengths
  rw [← availableSpace_eq]
  unfold AllocTable.availableSpace
  refine List.sum_le_sum fun p _ => ?_
  have hsize := p.size_le
  have hqty := p.consts.nodeQty_le
  have hram := p.consts.sharedInRam
  rw [MemPool.getFreeSpace_toNat]
  unfold shctlEnd at hram
  dsimp only [Function.comp]
  omega

/-! ### Storing management data -/

/-- An `AllocTable` in use: while it has no management chunk, the list is empty. -/
structure MgmtState extends MgmtStore where
  sound : SoundTable table
  start : table.m.entries = [] → mgmtStartAdr = lm32NullPtr

def chunksFor (serialisedContainer : List Octet) : Nat :=
  (serialisedContainer.length + payloadPerChunk - 1) / payloadPerChunk

theorem le_chunksFor (s : List Octet) : s.length ≤ payloadPerChunk * chunksFor s := by
  rw [chunksFor, show payloadPerChunk = 47 from rfl]
  omega

/-- `allocateMgmt` succeeds exactly if enough chunks are free; then the data comes back, and
otherwise the table is as before. -/
def MgmtState.Stores (T : MgmtState) (s : List Octet) : Prop :=
  ∃ t r, T.table.allocateMgmtFor s = some (t, r) ∧
    ((r = .code 0 ∧ chunksFor s ≤ T.table.freeChunks ∧
        ({ T.toMgmtStore with table := t } : MgmtStore).Recovers s) ∨
      ((∃ what, r = .error what) ∧ T.table.freeChunks < chunksFor s ∧ t = T.table))

/-- The comparison of sizes is not led astray: enough chunks are free, or the needed space is
too large even modulo 2³², or no chunk is free and the loop is entered. -/
def MgmtState.Compares (T : MgmtState) (s : List Octet) : Prop :=
  chunksFor s ≤ T.table.freeChunks ∨ 52 * T.table.freeChunks < 52 * chunksFor s % 2 ^ 32 ∨
    (T.table.freeChunks = 0 ∧ chunksFor s % 2 ^ 32 ≠ 0)

theorem neededSpace_toNat (s : List Octet) :
    (neededChunks s * memBlock).toNat = 52 * chunksFor s % 2 ^ 32 := by
  rw [BitVec.toNat_mul, show memBlock.toNat = 52 from rfl]
  unfold neededChunks
  rw [BitVec.toNat_ofNat]
  change chunksFor s % 2 ^ 32 * 52 % 2 ^ 32 = _
  omega

section Stores

variable {T : MgmtState} {s : List Octet}

theorem allocateMgmtFor_eq : T.table.allocateMgmtFor s =
    if 52 * T.table.freeChunks < 52 * chunksFor s % 2 ^ 32 then
      some (T.table, .error ("MgmtTable: Not enough space for management data. "
        ++ toString T.table.availableSpace ++ " available across all cores, needed "
        ++ toString (neededChunks s * memBlock).toNat ++ ". Pro Tip: Remove some schedules.\n"))
    else allocateMgmtLoop (chunksFor s % 2 ^ 32) T.table := by
  have hcpus := T.sound.cpus
  have hneeded : (neededChunks s).toNat = chunksFor s % 2 ^ 32 := BitVec.toNat_ofNat ..
  unfold AllocTable.allocateMgmtFor
  rw [if_neg (by omega)]
  dsimp only
  rw [hneeded, neededSpace_toNat, availableSpace_eq]

theorem MgmtState.Compares.stores (h : T.Compares s) : T.Stores s := by
  unfold Stores
  rw [allocateMgmtFor_eq]
  by_cases hless : 52 * T.table.freeChunks < 52 * chunksFor s % 2 ^ 32
  · rw [if_pos hless]
    exact ⟨_, _, rfl, Or.inr ⟨⟨_, rfl⟩, by omega, rfl⟩⟩
  · rw [if_neg hless]
    rcases h with henough | hmod | ⟨hzero, hloop⟩
    · have hspace := T.sound.windows.freeChunks_le
      have hmod : chunksFor s % 2 ^ 32 = chunksFor s := Nat.mod_eq_of_lt (by omega)
      rw [hmod]
      obtain ⟨t, hdone, hsound, hlen⟩ := T.sound.loop_done henough
      have hfits := le_chunksFor s
      rw [show payloadPerChunk = 47 from rfl] at hfits
      refine ⟨t, _, hdone, Or.inl ⟨rfl, henough, ?_⟩⟩
      refine MgmtStore.recovers_of_fits hsound.windows hsound.inRange ?_ ?_ (by omega)
      · intro hnone
        change t.m.entries = [] at hnone
        rw [hnone, List.length_nil] at hlen
        exact T.start (List.length_eq_zero_iff.1 (by omega))
      · change s.length ≤ payloadPerChunk * t.m.entries.length
        rw [hlen, show payloadPerChunk = 47 from rfl]
        omega
    · exact absurd hmod hless
    · have hlt : T.table.freeChunks < chunksFor s % 2 ^ 32 := by
        rw [hzero]
        exact Nat.pos_of_ne_zero hloop
      obtain ⟨t, what, hfails, -, hsame⟩ := T.sound.loop_fails hlt
      exact ⟨t, _, hfails, Or.inr ⟨⟨what, rfl⟩, Nat.lt_of_lt_of_le hlt (Nat.mod_le _ _), hsame hzero⟩⟩

theorem MgmtState.Stores.compares (h : T.Stores s) : T.Compares s := by
  obtain ⟨t, r, hrun, hcases⟩ := h
  rcases hcases with ⟨-, henough, -⟩ | ⟨⟨what, rfl⟩, hshort, rfl⟩
  · exact Or.inl henough
  · rw [allocateMgmtFor_eq] at hrun
    by_cases hless : 52 * T.table.freeChunks < 52 * chunksFor s % 2 ^ 32
    · exact Or.inr (Or.inl hless)
    · rw [if_neg hless] at hrun
      rcases Nat.lt_or_ge T.table.freeChunks (chunksFor s % 2 ^ 32) with hlt | hge
      · -- the loop fails, and takes no chunk only if there was none
        obtain ⟨t', what', hfails, hlen, -⟩ := T.sound.loop_fails hlt
        rw [hrun] at hfails
        cases hfails
        exact Or.inr (Or.inr ⟨by omega, by omega⟩)
      · obtain ⟨t', hdone, -, -⟩ := T.sound.loop_done hge
        rw [hrun] at hdone
        cases hdone

end Stores

/-- **Management data is stored and comes back** where there is space for it, and is refused
without a change of the table elsewhere, exactly where the comparison of the sizes in 32 bits
is not led astray. -/
theorem stores_iff (T : MgmtState) (s : List Octet) : T.Stores s ↔ T.Compares s :=
  ⟨MgmtState.Stores.compares, MgmtState.Compares.stores⟩

def threeFree : MgmtState where
  table := fresh [fourBlocks]
  mgmtStartAdr := lm32NullPtr
  mgmtTotalSize := 0
  sound :=
    { conserved := fresh_conserved (initPools_free [fourBlocks])
      inRange := by
        rintro k ⟨e, he, -⟩
        exact absurd he (UniqueSet.notMem_empty e)
      windows :=
        { fits := by
            intro p hp
            rw [List.mem_singleton.1 hp]
            decide
          apart := List.pairwise_singleton ..  }
      cpus := by decide }
  start _ := rfl

theorem exists_data (n : Nat) : ∃ s : List Octet, s.length = n :=
  ⟨List.replicate n 0, List.length_replicate⟩

/-- The space that 3881989629 bytes need is 4 modulo 2³²; three chunks are taken before the
host notices. -/
theorem not_stores_wrapped : ¬ ∀ (T : MgmtState) (s : List Octet), T.Stores s := by
  intro h
  obtain ⟨s, hlen⟩ := exists_data 3881989629
  have hfree : threeFree.table.freeChunks = 3 := by decide +kernel
  have hcompares := (h threeFree s).compares
  unfold MgmtState.Compares chunksFor at hcompares
  rw [hlen, hfree, show payloadPerChunk = 47 from rfl] at hcompares
  omega

end DataMaster
