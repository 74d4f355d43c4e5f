import BelProjects.DataMaster.CarpeDM.Failures
import BelProjects.Library.Compaction

/-!
# Vertex numbers after a removal

Removing vertices from the graph of a schedule moves the vertices behind them down.  The
allocation table refers to vertices by their numbers, which are a unique key of it, so the
numbers are repaired one entry after the other.  An entry that takes a number another entry
still has is dropped by the container.
-/

namespace DataMaster

/-! ### What the entries are found by -/

/-- The unique keys of an entry of the node table. -/
structure NodeKey where
  cpu : CpuIdx
  adr : Word
  hash : Word
  v : Nat
  deriving DecidableEq, Repr

def NodeKey.place (k : NodeKey) : Chunk := (k.cpu.toNat, k.adr)

def AllocMeta.key (e : AllocMeta) : NodeKey := { cpu := e.cpu, adr := e.adr, hash := e.hash, v := e.v }

theorem AllocMeta.collide_congr {e e' x : AllocMeta} (h : e'.key = e.key) :
    e'.Collide x ↔ e.Collide x := by
  have hcpu : e'.cpu = e.cpu := congrArg NodeKey.cpu h
  have hadr : e'.adr = e.adr := congrArg NodeKey.adr h
  have hhash : e'.hash = e.hash := congrArg NodeKey.hash h
  have hv : e'.v = e.v := congrArg NodeKey.v h
  unfold AllocMeta.Collide AllocMeta.place
  rw [hcpu, hadr, hhash, hv]

open Compaction

/-- The keys of an entry whose node has got its new number. -/
def NodeKey.moved (D : List Nat) (k : NodeKey) : NodeKey := { k with v := renumbered D k.v }

/-- In this order of vertices none is moved to a number that is still to be moved itself. -/
def InOrder (D : List Nat) (vs : List Nat) : Prop := vs.Pairwise fun v w => w ≠ renumbered D v

instance (D vs : List Nat) : Decidable (InOrder D vs) := inferInstanceAs (Decidable (List.Pairwise _ _))

namespace AllocTable

variable {t t' : AllocTable} {e : AllocMeta} {hash : Word} {f : AllocMeta → AllocMeta}

def keys (t : AllocTable) : Set NodeKey := {k | ∃ e ∈ t.a, e.key = k}

theorem nodeOf_eq (t : AllocTable) : t.holding.node = NodeKey.place '' t.keys := by
  ext p
  constructor
  · rintro ⟨e, he, rfl⟩
    exact ⟨e.key, ⟨e, he, rfl⟩, rfl⟩
  · rintro ⟨k, ⟨e, he, rfl⟩, rfl⟩
    exact ⟨e, he, rfl⟩

theorem eq_of_hash {x : AllocMeta} (he : e ∈ t.a) (hx : x ∈ t.a) (h : e.hash = x.hash) : e = x :=
  UniqueSet.eq_of_collide he hx (Or.inr (Or.inl h))

theorem lookupHash_of_mem (he : e ∈ t.a) : t.lookupHash e.hash = some e := by
  unfold lookupHash
  cases h : t.a.entries.find? (fun x => x.hash == e.hash) with
  | none => simpa using List.find?_eq_none.1 h e he
  | some x =>
    have hx : x.hash = e.hash := by simpa using List.find?_some h
    rw [eq_of_hash (List.mem_of_find?_eq_some h) he hx]

theorem mem_of_lookupHash (h : t.lookupHash hash = some e) : e ∈ t.a ∧ e.hash = hash :=
  ⟨List.mem_of_find?_eq_some h, by simpa using List.find?_some h⟩

theorem keys_erase (he : e ∈ t.a) :
    {k | ∃ x ∈ t.a.eraseIf fun x => x.hash == e.hash, x.key = k} = t.keys \ {e.key} := by
  ext k
  constructor
  · rintro ⟨x, hx, rfl⟩
    obtain ⟨hmem, hhash⟩ := UniqueSet.mem_eraseIf.1 hx
    refine ⟨⟨x, hmem, rfl⟩, ?_⟩
    intro hkey
    have hsame : x.hash = e.hash := congrArg NodeKey.hash hkey
    exact absurd (beq_iff_eq.2 hsame) (ne_true_of_eq_false hhash)
  · rintro ⟨⟨x, hx, rfl⟩, hne⟩
    refine ⟨x, UniqueSet.mem_eraseIf.2 ⟨hx, ?_⟩, rfl⟩
    rw [beq_eq_false_iff_ne]
    intro hhash
    exact hne (congrArg AllocMeta.key (eq_of_hash hx he hhash))

/-- A changed entry stays where no other entry has one of its keys. -/
theorem modify_keys (he : e ∈ t.a) :
    (t.modify e.hash f).keys =
      if (t.a.eraseIf fun x => x.hash == e.hash).Accepts (f e) then {(f e).key} ∪ (t.keys \ {e.key})
      else t.keys \ {e.key} := by
  have hmod : t.modify e.hash f =
      { t with a := ((t.a.eraseIf fun x => x.hash == e.hash).insert (f e)).1 } := by
    unfold modify
    rw [lookupHash_of_mem he]
  rw [hmod, ← keys_erase he]
  split
  next hacc =>
    ext k
    constructor
    · rintro ⟨x, hx, rfl⟩
      rcases (UniqueSet.mem_insert_of_accepts hacc).1 hx with rfl | hmem
      · exact Or.inl rfl
      · exact Or.inr ⟨x, hmem, rfl⟩
    · rintro (rfl | ⟨x, hx, rfl⟩)
      · exact ⟨f e, (UniqueSet.mem_insert_of_accepts hacc).2 (Or.inl rfl), rfl⟩
      · exact ⟨x, (UniqueSet.mem_insert_of_accepts hacc).2 (Or.inr hx), rfl⟩
  next hacc =>
    unfold keys
    rw [UniqueSet.insert_of_not_accepts hacc]

/-- A change of an entry's other data. -/
theorem modify_keys_same (hash : Word) (hf : ∀ e, (f e).key = e.key) :
    (t.modify hash f).keys = t.keys := by
  cases hlook : t.lookupHash hash with
  | none =>
    unfold modify
    rw [hlook]
  | some e =>
    obtain ⟨he, rfl⟩ := mem_of_lookupHash hlook
    have hacc : (t.a.eraseIf fun x => x.hash == e.hash).Accepts (f e) := by
      intro x hx hcollide
      obtain ⟨hmem, hhash⟩ := UniqueSet.mem_eraseIf.1 hx
      rw [UniqueSet.eq_of_collide he hmem ((AllocMeta.collide_congr (hf e)).1 hcollide)] at hhash
      simp at hhash
    rw [modify_keys he, if_pos hacc, hf e, Set.union_sdiff_self, Set.union_eq_right]
    exact Set.singleton_subset_iff.2 ⟨e, he, rfl⟩

theorem modify_pools (hash : Word) : (t.modify hash f).vPool = t.vPool := by
  unfold modify
  split <;> rfl

/-- Every entry's chunk is one of its pool and not free. -/
def Held (t : AllocTable) : Prop :=
  ∀ k ∈ t.keys, k.place ∈ rangeOf t.vPool ∧ k.place ∉ freeOf t.vPool

theorem deallocate_held (hheld : t.Held) (he : e ∈ t.a) :
    ∃ t', t.deallocate e.hash = (t', .success true) ∧ t'.keys = t.keys \ {e.key} ∧
      rangeOf t'.vPool = rangeOf t.vPool ∧ freeOf t'.vPool ⊆ freeOf t.vPool ∪ {e.place} := by
  obtain ⟨⟨p, hp, hchunk⟩, hfree⟩ := hheld e.key ⟨e, he, rfl⟩
  have hp' : t.vPool[e.cpu.toNat]? = some p := hp
  have hable : p.Freeable e.adr := by
    rw [p.freeable_iff]
    refine ⟨hchunk, ?_⟩
    intro hadr
    exact hfree ((mem_freeOf hp' e.adr).2 hadr)
  have hfreed : (p.freeChunk e.adr).2 = true := by
    obtain ⟨hok, -, -⟩ := MemPool.freeChunk_of_freeable hable
    exact hok
  have hany : (t.a.entries.any fun x => x.hash == e.hash) = true :=
    List.any_eq_true.2 ⟨e, he, beq_self_eq_true _⟩
  obtain ⟨hrange, hfree'⟩ := free_set hp' e.adr
  refine ⟨{ t with
      a := t.a.eraseIf fun x => x.hash == e.hash
      vPool := t.vPool.set e.cpu.toNat (p.freeChunk e.adr).1 }, ?_, keys_erase he, hrange, ?_⟩
  · unfold deallocate
    simp only [lookupHash_of_mem he, hp', hfreed, if_true, removeByHash, hany]
  · rw [hfree']
    exact Set.union_subset_union_right _ Set.inter_subset_left

/-! ### The repair -/

section Repair

variable {D : List Nat} {ks : List NodeKey} {done : Set NodeKey} {k k' : NodeKey}

theorem key_eq_of_hash (hk : k ∈ t.keys) (hk' : k' ∈ t.keys) (h : k.hash = k'.hash) : k = k' := by
  obtain ⟨e, he, rfl⟩ := hk
  obtain ⟨x, hx, rfl⟩ := hk'
  exact congrArg AllocMeta.key (eq_of_hash he hx h)

theorem key_eq_of_place (hk : k ∈ t.keys) (hk' : k' ∈ t.keys) (h : k.place = k'.place) : k = k' := by
  obtain ⟨e, he, rfl⟩ := hk
  obtain ⟨x, hx, rfl⟩ := hk'
  exact congrArg AllocMeta.key (UniqueSet.eq_of_collide he hx (Or.inr (Or.inr h)))

/-- Where no other entry has the new number, the entry gets it. -/
theorem modV_keys (hk : k ∈ t.keys) {vNew : Nat} (hfree : ∀ x ∈ t.keys, x.v = vNew → x = k) :
    (t.modV k.hash vNew).keys = {{ k with v := vNew }} ∪ (t.keys \ {k}) := by
  obtain ⟨e, he, rfl⟩ := hk
  have hacc : (t.a.eraseIf fun x => x.hash == e.hash).Accepts { e with v := vNew } := by
    intro x hx hcollide
    obtain ⟨hmem, hhash⟩ := UniqueSet.mem_eraseIf.1 hx
    have hne : x.hash ≠ e.hash := beq_eq_false_iff_ne.1 hhash
    rcases hcollide with hv | hhash' | hplace
    · exact hne (congrArg NodeKey.hash (hfree x.key ⟨x, hmem, rfl⟩ hv.symm))
    · exact hne hhash'.symm
    · exact hne (congrArg _ (UniqueSet.eq_of_collide hmem he (Or.inr (Or.inr hplace.symm))))
  exact (modify_keys he).trans (if_pos hacc)

/-- An entry that takes the number of another entry is dropped. -/
theorem modV_drops (hk : k ∈ t.keys) (hk' : k' ∈ t.keys) (hne : k' ≠ k) :
    (t.modV k.hash k'.v).keys = t.keys \ {k} := by
  obtain ⟨e, he, rfl⟩ := hk
  obtain ⟨x, hx, rfl⟩ := hk'
  have hacc : ¬ (t.a.eraseIf fun x => x.hash == e.hash).Accepts { e with v := x.v } := by
    intro hacc
    refine hacc x (UniqueSet.mem_eraseIf.2 ⟨hx, ?_⟩) (Or.inl rfl)
    rw [beq_eq_false_iff_ne]
    intro hhash
    exact hne (congrArg AllocMeta.key (eq_of_hash hx he hhash))
  exact (modify_keys he).trans (if_neg hacc)

/-- The repair moves no entry to another chunk. -/
theorem modV_places (t : AllocTable) (hash : Word) (vNew : Nat) :
    NodeKey.place '' (t.modV hash vNew).keys ⊆ NodeKey.place '' t.keys := by
  cases hlook : t.lookupHash hash with
  | none =>
    unfold modV modify
    rw [hlook]
  | some e =>
    obtain ⟨he, rfl⟩ := mem_of_lookupHash hlook
    have hkeep : NodeKey.place '' (t.keys \ {e.key}) ⊆ NodeKey.place '' t.keys :=
      Set.image_mono Set.sdiff_subset
    unfold modV
    rw [modify_keys he]
    split
    · rw [Set.image_union, Set.image_singleton, Set.union_subset_iff]
      refine ⟨?_, hkeep⟩
      rintro p rfl
      exact ⟨e.key, ⟨e, he, rfl⟩, rfl⟩
    · exact hkeep

theorem repair_places (vertexMap : Nat → Nat) (ks : List NodeKey) (t : AllocTable) :
    NodeKey.place '' (ks.foldl (fun t k => t.modV k.hash (vertexMap k.v)) t).keys ⊆
      NodeKey.place '' t.keys := by
  induction ks generalizing t with
  | nil => exact subset_rfl
  | cons k ks ih => exact (ih _).trans (modV_places t _ _)

/-- The entries of `ks` are still to be repaired, those of `done` have their new numbers. -/
structure Repairing (D : List Nat) (t : AllocTable) (ks : List NodeKey) (done : Set NodeKey) :
    Prop where
  keys : t.keys = {k | k ∈ ks} ∪ done
  done : ∀ k ∈ done, k ∉ ks ∧ ∃ i, i ∉ D ∧ k.v = renumbered D i ∧ ∀ x ∈ ks, x.v ≠ i
  kept : ∀ k ∈ ks, k.v ∉ D
  apart : (ks.map NodeKey.v).Nodup

/-- An entry whose new number no later one has gets it. -/
theorem Repairing.step (h : Repairing D t (k :: ks) done)
    (hfirst : ∀ w ∈ ks.map NodeKey.v, w ≠ renumbered D k.v) :
    Repairing D (t.modV k.hash (renumbered D k.v)) ks ({k.moved D} ∪ done) := by
  obtain ⟨hfresh, hapart⟩ := List.nodup_cons.1 h.apart
  have hnot : k ∉ ks := fun hin => hfresh (List.mem_map_of_mem hin)
  have hmem : k ∈ t.keys := h.keys ▸ Or.inl List.mem_cons_self
  have hkept : k.v ∉ D := h.kept k List.mem_cons_self
  have hfree : ∀ x ∈ t.keys, x.v = renumbered D k.v → x = k := by
    intro x hx hv
    rw [h.keys] at hx
    rcases hx with hx | hx
    · rcases List.mem_cons.1 hx with rfl | hx
      · rfl
      · exact absurd hv (hfirst _ (List.mem_map_of_mem hx))
    · -- two kept vertices have two new numbers
      obtain ⟨-, i, hi, hvi, hother⟩ := h.done x hx
      have hsame : k.v = i := renumbered_inj hkept hi (hv.symm.trans hvi)
      exact absurd hsame (hother k List.mem_cons_self)
  constructor
  · rw [modV_keys hmem hfree, h.keys]
    ext x
    constructor
    · rintro (hx | ⟨hx | hx, hne⟩)
      · exact Or.inr (Or.inl hx)
      · rcases List.mem_cons.1 hx with rfl | hx
        · exact absurd rfl hne
        · exact Or.inl hx
      · exact Or.inr (Or.inr hx)
    · rintro (hx | hx | hx)
      · refine Or.inr ⟨Or.inl (List.mem_cons_of_mem k hx), ?_⟩
        rintro rfl
        exact hnot hx
      · exact Or.inl hx
      · refine Or.inr ⟨Or.inr hx, ?_⟩
        rintro rfl
        exact (h.done x hx).1 List.mem_cons_self
  · rintro x (rfl | hx)
    · refine ⟨fun hin => hfirst _ (List.mem_map_of_mem hin) rfl, k.v, hkept, rfl, ?_⟩
      intro y hy hv
      exact hfresh (hv ▸ List.mem_map_of_mem hy)
    · obtain ⟨hout, i, hi, hv, hother⟩ := h.done x hx
      exact ⟨fun hin => hout (List.mem_cons_of_mem k hin), i, hi, hv,
        fun y hy => hother y (List.mem_cons_of_mem k hy)⟩
  · intro x hx
    exact h.kept x (List.mem_cons_of_mem _ hx)
  · exact hapart

/-- An entry whose new number a later one has is dropped. -/
theorem Repairing.drops (h : Repairing D t (k :: ks) done)
    (hfirst : ¬ ∀ w ∈ ks.map NodeKey.v, w ≠ renumbered D k.v) :
    k.place ∉ NodeKey.place '' (t.modV k.hash (renumbered D k.v)).keys := by
  push Not at hfirst
  obtain ⟨w, hw, hv⟩ := hfirst
  obtain ⟨x, hx, rfl⟩ := List.mem_map.1 hw
  have hmem : k ∈ t.keys := h.keys ▸ Or.inl List.mem_cons_self
  have hmem' : x ∈ t.keys := h.keys ▸ Or.inl (List.mem_cons_of_mem k hx)
  have hne : x ≠ k := by
    rintro rfl
    exact (List.nodup_cons.1 h.apart).1 hw
  rw [← hv, modV_drops hmem hmem' hne]
  rintro ⟨y, ⟨hy, hyk⟩, hplace⟩
  exact hyk (key_eq_of_place hy hmem hplace)

/-- If none takes the number of a later one, all entries get theirs, else one is dropped. -/
theorem Repairing.cases (h : Repairing D t ks done) :
    if InOrder D (ks.map NodeKey.v) then
      (ks.foldl (fun t k => t.modV k.hash (renumbered D k.v)) t).keys =
        {k | ∃ x ∈ ks, x.moved D = k} ∪ done
    else ∃ k ∈ ks, k.place ∉
      NodeKey.place '' (ks.foldl (fun t k => t.modV k.hash (renumbered D k.v)) t).keys := by
  induction ks generalizing t done with
  | nil =>
    have hnil : InOrder D ([].map NodeKey.v) := List.Pairwise.nil
    rw [if_pos hnil]
    simpa using h.keys
  | cons k ks ih =>
    have hcons : InOrder D ((k :: ks).map NodeKey.v) ↔
        (∀ w ∈ ks.map NodeKey.v, w ≠ renumbered D k.v) ∧ InOrder D (ks.map NodeKey.v) :=
      List.pairwise_cons
    rw [List.foldl_cons]
    by_cases hfirst : ∀ w ∈ ks.map NodeKey.v, w ≠ renumbered D k.v
    · have hrest := ih (h.step hfirst)
      by_cases hlater : InOrder D (ks.map NodeKey.v)
      · rw [if_pos hlater] at hrest
        rw [if_pos (hcons.2 ⟨hfirst, hlater⟩), hrest]
        ext x
        simp only [Set.mem_union, Set.mem_ofPred_eq, Set.mem_singleton_iff, List.exists_mem_cons_iff,
          or_assoc, or_left_comm, eq_comm]
      · rw [if_neg hlater] at hrest
        obtain ⟨x, hx, hout⟩ := hrest
        rw [if_neg fun hall => hlater (hcons.1 hall).2]
        exact ⟨x, List.mem_cons_of_mem k hx, hout⟩
    · rw [if_neg fun hall => hfirst (hcons.1 hall).1]
      refine ⟨k, List.mem_cons_self, ?_⟩
      intro hin
      exact h.drops hfirst (repair_places (renumbered D) ks _ hin)

end Repair

end AllocTable

namespace CarpeDM

open Programs Compaction

/-! ### Graph and table -/

def Host.hashes (s : Host) : List Word := s.gUp.vertices.map HostVertex.hash

/-- The table has one entry for every vertex of the graph, with its number and its hash, and
every entry holds its chunk. -/
structure Host.Allocated (s : Host) : Prop where
  entry : ∀ v hash, s.hashes[v]? = some hash → ∃ k ∈ s.atUp.keys, k.v = v ∧ k.hash = hash
  vertex : ∀ k ∈ s.atUp.keys, s.hashes[k.v]? = some k.hash
  held : s.atUp.Held

def Host.sites (s : Host) : HostGraph × Set NodeKey × List MemPool :=
  (s.gUp, s.atUp.keys, s.atUp.vPool)

theorem keeps_setStaged (hash : Word) : Keeps Host.sites (setStaged hash) := by
  apply keeps_modify
  intro s
  have hkeys : (s.atUp.setStaged hash).keys = s.atUp.keys :=
    AllocTable.modify_keys_same hash fun _ => rfl
  have hpools : (s.atUp.setStaged hash).vPool = s.atUp.vPool := AllocTable.modify_pools hash
  unfold Host.sites
  rw [hkeys, hpools]

variable (o : Analyses)

theorem keeps_updateListDstStaging (v : Nat) : Keeps Host.sites (updateListDstStaging v) := by
  apply keeps_get.bind
  intro s
  cases (s.gUp.outEdges v).find? fun e => e.type == .dstList with
  | none => exact keeps_pure _
  | some e => exact (keeps_check _).bind fun _ => keeps_setStaged _

theorem keeps_covenantPending (name : String) : Keeps Host.sites (covenantPending o name) := by
  apply keeps_get.bind
  intro s
  cases s.ct.lookup name with
  | none => exact keeps_pure _
  | some cov => exact keeps_check _

theorem keeps_updateStaging (v : Nat) (e : HostEdge) : Keeps Host.sites (updateStaging o v e) := by
  have hnode : Keeps Host.sites
      (if e.type ≠ .altDst then do
        let s ← get
        let x ← check (s.atUp.lookupVertex v)
        let pending ← covenantPending o ((s.gUp.vertices[x.v]?.map HostVertex.name).getD "")
        if pending then pure () else setStaged x.hash
      else pure () : Prog Unit) := by
    apply keeps_ite
    · refine keeps_get.bind fun s => (keeps_check _).bind fun x => ?_
      refine (keeps_covenantPending o _).bind fun pending => ?_
      exact keeps_ite (keeps_pure _) (keeps_setStaged _)
    · exact keeps_pure _
  exact keeps_ite ((keeps_updateListDstStaging v).bind fun _ => hnode) hnode

/-! ### Removing the vertices -/

def stageParents (g : HostGraph) (vs : List Nat) : Prog Unit :=
  vs.forM fun vd => (g.inEdges vd).forM fun e => updateStaging o e.source e

theorem keeps_stageParents (g : HostGraph) (vs : List Nat) :
    Keeps Host.sites (stageParents o g vs) := by
  apply keeps_forM
  intro vd
  apply keeps_forM
  intro e
  exact keeps_updateStaging o e.source e

/-- The part of `subtraction` that removes vertices, and where the others are by then. -/
def removeSet (toDelete : OrderedSet Nat) : Prog (Nat → Nat) := do
  let s ← get
  stageParents o s.gUp toDelete.elems
  removeNodes toDelete.elems id

/-- The repair of the vertex numbers in the allocation table. -/
def Host.repaired (vertexMap : Nat → Nat) (s : Host) : Host :=
  { s with
    atUp := (o.beginToEnd s.atUp.a.entries).foldl (fun t e => t.modV e.hash (vertexMap e.v)) s.atUp }

def subtractSet (toDelete : OrderedSet Nat) : Prog Unit := do
  let vertexMap ← removeSet o toDelete
  modify (Host.repaired o vertexMap)
  prepareUpload o
  syncUpload

theorem subtraction_eq (gTmp : HostGraph) :
    subtraction o gTmp = findToDelete gTmp >>= subtractSet o := by
  unfold subtraction subtractSet removeSet stageParents
  simp only [bind_assoc]
  rfl

/-- The vertices of `done` are removed. -/
structure Partway (s₀ : Host) (done : List Nat) (s : Host) : Prop where
  graph : Compacted done s₀.hashes s.hashes
  keys : s.atUp.keys = {k ∈ s₀.atUp.keys | k.v ∉ done}
  held : s.atUp.Held

def Host.without (s : Host) (x : HostVertex) (v : Nat) (atUp : AllocTable) : Host :=
  { s with
    atUp
    hm := s.hm.remove x.name
    gt := s.gt.remove x.name
    gUp := (s.gUp.clearVertex v).removeVertex v }

theorem removeNodes_cons {vd : Nat} {vs : List Nat} {vertexMap : Nat → Nat} {s : Host}
    {x : HostVertex} {t : AllocTable} (hx : s.gUp.vertices[vertexMap vd]? = some x)
    (hdealloc : s.atUp.deallocate x.hash = (t, .success true)) :
    removeNodes (vd :: vs) vertexMap s =
      removeNodes vs (fun k => if vd < k then vertexMap k - 1 else vertexMap k)
        (s.without x (vertexMap vd) t) := by
  rw [removeNodes, bind_of_ok (rfl : (get : Prog Host) s = .ok s s), hx]
  dsimp only
  rw [hdealloc]
  rfl

section Removal

variable {s₀ s s' : Host} {vd : Nat} {vs done : List Nat}

theorem Partway.refl (h : s₀.Allocated) (hsites : s.sites = s₀.sites) : Partway s₀ [] s := by
  obtain ⟨hg, hrest⟩ := Prod.mk.inj hsites
  obtain ⟨hkeys, hpools⟩ := Prod.mk.inj hrest
  constructor
  · unfold Host.hashes
    rw [hg]
    exact Compacted.refl _
  · rw [hkeys]
    simp only [List.not_mem_nil, not_false_eq_true, and_true, Set.ofPred_mem_eq]
  · unfold AllocTable.Held
    rw [hkeys, hpools]
    exact h.held

/-- The removal of one vertex, which has an entry. -/
theorem Partway.step (hs₀ : s₀.Allocated) (h : Partway s₀ done s) (hvd : vd < s₀.hashes.length)
    (hfresh : vd ∉ done) :
    ∃ x t, s.gUp.vertices[renumbered done vd]? = some x ∧
      s.atUp.deallocate x.hash = (t, .success true) ∧
      Partway s₀ (vd :: done) (s.without x (renumbered done vd) t) := by
  have hget := h.graph.get vd hfresh hvd
  obtain ⟨hash, hhash⟩ : ∃ hash, s₀.hashes[vd]? = some hash := ⟨_, List.getElem?_eq_getElem hvd⟩
  rw [hhash, Host.hashes, List.getElem?_map] at hget
  obtain ⟨x, hx, rfl⟩ := Option.map_eq_some_iff.1 hget
  obtain ⟨k, hk, rfl, hkx⟩ := hs₀.entry vd x.hash hhash
  have hmem : k ∈ s.atUp.keys := h.keys ▸ ⟨hk, hfresh⟩
  obtain ⟨e, he, rfl⟩ := hmem
  obtain ⟨t, hdealloc, hkeys, hrange, hfree⟩ := AllocTable.deallocate_held h.held he
  have hkx' : e.hash = x.hash := hkx
  rw [hkx'] at hdealloc
  refine ⟨x, t, hx, hdealloc, ?_⟩
  constructor
  · have hgraph := h.graph.eraseIdx hfresh hvd
    have hhashes : (s.without x (renumbered done e.key.v) t).hashes =
        s.hashes.eraseIdx (renumbered done e.key.v) := by
      unfold Host.hashes
      exact List.eraseIdx_map _ _ _ |>.symm
    rw [hhashes]
    exact hgraph
  · change t.keys = _
    rw [hkeys, h.keys]
    ext k
    constructor
    · rintro ⟨⟨hk', hout⟩, hne⟩
      refine ⟨hk', ?_⟩
      rintro hin
      rcases List.mem_cons.1 hin with hv | hin
      · -- two vertices of one number have one hash
        have hsame := hs₀.vertex k hk'
        rw [hv, hhash, Option.some.injEq] at hsame
        exact hne (AllocTable.key_eq_of_hash hk' hk (hsame.symm.trans hkx.symm))
      · exact hout hin
    · rintro ⟨hk', hout⟩
      obtain ⟨hne, hout⟩ := not_or.1 (mt List.mem_cons.2 hout)
      refine ⟨⟨hk', hout⟩, ?_⟩
      rintro rfl
      exact hne rfl
  · intro k hk'
    change k ∈ t.keys at hk'
    change k.place ∈ rangeOf t.vPool ∧ k.place ∉ freeOf t.vPool
    rw [hkeys] at hk'
    obtain ⟨hin, hne⟩ := hk'
    obtain ⟨hr, hf⟩ := h.held k hin
    refine ⟨hrange ▸ hr, ?_⟩
    intro hfree'
    rcases hfree hfree' with hfree' | hplace
    · exact hf hfree'
    · exact hne (AllocTable.key_eq_of_place hin ⟨e, he, rfl⟩ hplace)

theorem removeNodes_spec (hs₀ : s₀.Allocated) (hin : ∀ v ∈ vs, v < s₀.hashes.length)
    (hnodup : vs.Nodup) (hfresh : ∀ v ∈ vs, v ∉ done) (h : Partway s₀ done s) :
    ∃ s', removeNodes vs (renumbered done) s = .ok (renumbered (vs ++ done)) s' ∧
      Partway s₀ (vs ++ done) s' := by
  induction vs generalizing done s with
  | nil => exact ⟨s, rfl, h⟩
  | cons vd vs ih =>
    obtain ⟨hnot, hnodup⟩ := List.nodup_cons.1 hnodup
    have hvd := hfresh vd List.mem_cons_self
    obtain ⟨x, t, hx, hdealloc, hnext⟩ := h.step hs₀ (hin vd List.mem_cons_self) hvd
    have hmap : (fun k => if vd < k then renumbered done k - 1 else renumbered done k) =
        renumbered (vd :: done) := funext fun k => (renumbered_cons hvd k).symm
    have hmem : ∀ j, j ∈ vs ++ vd :: done ↔ j ∈ vd :: vs ++ done := by
      intro j
      simp only [List.mem_append, List.mem_cons, List.cons_append, or_left_comm]
    obtain ⟨s', hrun, hend⟩ := ih (fun v hv => hin v (List.mem_cons_of_mem vd hv)) hnodup
      (fun v hv hin' => by
        rcases List.mem_cons.1 hin' with rfl | hin'
        · exact hnot hv
        · exact hfresh v (List.mem_cons_of_mem vd hv) hin') hnext
    refine ⟨s', ?_, ?_⟩
    · rw [removeNodes_cons hx hdealloc, hmap, hrun, renumbered_congr hmem]
    · refine ⟨hend.graph.congr hmem, ?_, hend.held⟩
      rw [hend.keys]
      ext k
      simp only [Set.mem_ofPred_eq, hmem]

theorem removeSet_spec (hs₀ : s₀.Allocated) {toDelete : OrderedSet Nat} {vertexMap : Nat → Nat}
    (hin : ∀ v ∈ toDelete, v < s₀.hashes.length) (hrun : removeSet o toDelete s₀ = .ok vertexMap s') :
    vertexMap = renumbered toDelete.elems ∧ Partway s₀ toDelete.elems s' := by
  have hsites := keeps_stageParents o s₀.gUp toDelete.elems s₀
  cases hstaged : stageParents o s₀.gUp toDelete.elems s₀ with
  | ok u t =>
    rw [after_ok hstaged] at hsites
    have hnodup : toDelete.elems.Nodup := toDelete.increasing.imp ne_of_lt
    obtain ⟨s'', hremoved, hend⟩ := removeNodes_spec hs₀ hin hnodup
      (fun _ _ => List.not_mem_nil) (Partway.refl hs₀ hsites)
    rw [List.append_nil] at hremoved hend
    have hid : renumbered [] = id := funext renumbered_nil
    have hwhole : removeSet o toDelete s₀ = .ok (renumbered toDelete.elems) s'' := by
      unfold removeSet
      rw [bind_of_ok (rfl : (get : Prog Host) s₀ = .ok s₀ s₀), bind_of_ok hstaged, ← hid]
      exact hremoved
    cases hwhole.symm.trans hrun
    exact ⟨rfl, hend⟩
  | error f t =>
    have hwhole : removeSet o toDelete s₀ = .error f t := by
      unfold removeSet
      rw [bind_of_ok (rfl : (get : Prog Host) s₀ = .ok s₀ s₀), bind_of_error hstaged]
    cases hwhole.symm.trans hrun

end Removal

/-! ### Buffers -/

section Upload

variable {γ : Type} {f : HostVertex → γ} {K : List γ} {H : List Word} {Q : AllocTable → Prop}

/-- The vertices have the keys `K`, and `Q` holds of the table. -/
def Host.Carries (f : HostVertex → γ) (K : List γ) (Q : AllocTable → Prop) (s : Host) : Prop :=
  s.gUp.vertices.map f = K ∧ Q s.atUp

/-- The vertices have the hashes `H`, and `Q` holds of the table. -/
def Host.Has (H : List Word) (Q : AllocTable → Prop) (s : Host) : Prop := s.hashes = H ∧ Q s.atUp

theorem maintains_checkAs {α : Type} {I : Host → Prop} (intro : String) (x : Except String α) :
    Maintains I (checkAs intro x) := (keeps_checkAs (f := id) intro x).maintains I

theorem maintains_check {α : Type} {I : Host → Prop} (x : Except String α) :
    Maintains I (check x) := (keeps_check (f := id) x).maintains I

theorem maintains_allocateVertex (cpu : CpuIdx) (v : Nat) {x : HostVertex}
    (halloc : ∀ t t' code, Q t → t.lookupHash x.hash = none →
      t.allocate cpu x.hash v true = some (t', code) → Q t') :
    Maintains (Host.Carries f K Q) (allocateVertex cpu v x) := by
  apply maintains_get_bind
  intro s hs
  cases hlook : s.atUp.lookupHash x.hash with
  | some e => exact hs
  | none =>
    apply after_bind_maintains
    · cases s.atUp.allocate cpu x.hash v true with
      | none => exact hs
      | some r => exact hs
    · intro r t hdef ht
      have hr : s.atUp.allocate cpu x.hash v true = some r ∧ t = s := by
        cases hal : s.atUp.allocate cpu x.hash v true with
        | none =>
          rw [hal] at hdef
          cases hdef
        | some r' =>
          rw [hal] at hdef
          cases hdef
          exact ⟨rfl, rfl⟩
      obtain ⟨hal, rfl⟩ := hr
      have hnext : Host.Carries f K Q { t with atUp := r.1 } :=
        ⟨hs.1, halloc _ _ _ hs.2 hlook hal⟩
      refine after_bind_maintains hnext ?_
      rintro u t' hset -
      cases hset
      dsimp only
      split
      · exact hnext
      · split
        · exact hnext
        · exact hnext

theorem keys_set {g : HostGraph} {v : Nat} {x y : HostVertex} (hx : g.vertices[v]? = some x)
    (hkey : f y = f x) : (g.vertices.set v y).map f = g.vertices.map f := by
  obtain ⟨hlt, rfl⟩ := List.getElem?_eq_some_iff.1 hx
  rw [List.map_set, hkey]
  apply List.ext_getElem?
  intro i
  rw [List.getElem?_set]
  split
  next hi =>
    subst hi
    simp [hlt]
  next => rfl

/-- A new entry belongs to a vertex of the graph, and a node object is no part of the key. -/
theorem maintains_prepareVertex (hf : ∀ x np, f { x with np := np } = f x) (v : Nat)
    (halloc : ∀ cpu v x t t' code, K[v]? = some (f x) → Q t → t.lookupHash x.hash = none →
      t.allocate cpu x.hash v true = some (t', code) → Q t') :
    Maintains (Host.Carries f K Q) (prepareVertex v) := by
  apply maintains_get_bind
  intro s hs
  cases hv : s.gUp.vertices[v]? with
  | none => exact hs
  | some x =>
    have hx : K[v]? = some (f x) := by
      rw [← hs.1, List.getElem?_map, hv]
      rfl
    refine Maintains.bind (maintains_checkAs _ _) (fun cpu => ?_) s hs
    refine (maintains_checkAs _ _).bind fun flags => ?_
    refine (maintains_allocateVertex cpu v fun t t' code => halloc cpu v x t t' code hx).bind
      fun _ => ?_
    dsimp only
    split
    · exact maintains_pure _
    · apply maintains_get_bind
      intro s hs
      cases s.atUp.lookupHash x.hash with
      | none => exact hs
      | some e =>
        refine Maintains.bind (maintains_checkAs _ _) (fun data => ?_) s hs
        apply maintains_modify
        rintro s ⟨hkeys, hQ⟩
        refine ⟨?_, hQ⟩
        rw [← hkeys, List.getElem?_map] at hx
        obtain ⟨y, hy, hkey⟩ := Option.map_eq_some_iff.1 hx
        exact (keys_set hy ((hf x _).trans hkey.symm)).trans hkeys

theorem maintains_serialiseVertex (v : Nat) (hbuf : ∀ t hash b, Q t → Q (t.setBuffer hash b)) :
    Maintains (Host.Carries f K Q) (serialiseVertex o v) := by
  apply maintains_get_bind
  intro s hs
  refine Maintains.bind (maintains_check _) (fun x => ?_) s hs
  refine (maintains_check _).bind fun e => ?_
  dsimp only
  refine (maintains_modify fun s h => ⟨h.1, hbuf _ _ _ h.2⟩).bind fun _ => ?_
  split
  · exact maintains_throw _
  · exact maintains_pure _

theorem maintains_prepareUpload
    (halloc : ∀ cpu v hash t t' code, hash ∈ H → Q t → t.lookupHash hash = none →
      t.allocate cpu hash v true = some (t', code) → Q t')
    (hbuf : ∀ t hash b, Q t → Q (t.setBuffer hash b)) :
    Maintains (Host.Has H Q) (prepareUpload o) := by
  apply maintains_get_bind
  intro s hs
  have hprepare (v : Nat) : Maintains (Host.Has H Q) (prepareVertex v) := by
    refine maintains_prepareVertex (f := HostVertex.hash) (fun _ _ => rfl) v ?_
    intro cpu v x t t' code hx
    exact halloc cpu v x.hash t t' code (List.mem_of_getElem? hx)
  have hserialise (v : Nat) : Maintains (Host.Has H Q) (serialiseVertex o v) :=
    maintains_serialiseVertex (f := HostVertex.hash) o v hbuf
  refine Maintains.bind (maintains_forM fun v _ => hprepare v) (fun _ => ?_) s hs
  exact maintains_forM fun v _ => hserialise v

end Upload

/-! ### The vertex numbers -/

/-- The numbers of the entries, in the order in which they are repaired. -/
def visited (toDelete : OrderedSet Nat) (s : Host) : List Nat :=
  (o.beginToEnd (Programs.after (removeSet o toDelete) s).atUp.a.entries).map AllocMeta.v

/-- The graph is compacted. Every kept entry has exactly one successor, in the same chunk,
with the same hash and with the new number of its node, and there are no other entries. -/
structure Renumbers (D : List Nat) (s s' : Host) : Prop where
  graph : Compacted D s.hashes s'.hashes
  kept : ∀ e ∈ s.atUp.a, e.v ∉ D → ∃! e', e' ∈ s'.atUp.a ∧ e'.key = e.key.moved D
  only : ∀ e' ∈ s'.atUp.a, ∃ e ∈ s.atUp.a, e.v ∉ D ∧ e'.key = e.key.moved D

section Renumbering

variable {s₀ s s' t : Host} {D : List Nat}

/-- The keys tell all there is to say about the entries. -/
theorem renumbers_of_keys (hgraph : Compacted D s.hashes s'.hashes)
    (hkeys : s'.atUp.keys = {k | ∃ x ∈ s.atUp.keys, x.v ∉ D ∧ x.moved D = k}) : Renumbers D s s' := by
  refine ⟨hgraph, ?_, ?_⟩
  · intro e he hv
    have hmoved : e.key.moved D ∈ s'.atUp.keys := hkeys ▸ ⟨e.key, ⟨e, he, rfl⟩, hv, rfl⟩
    obtain ⟨e', he', hkey⟩ := hmoved
    refine ⟨e', ⟨he', hkey⟩, ?_⟩
    rintro y ⟨hy, hykey⟩
    exact AllocTable.eq_of_hash hy he' (congrArg NodeKey.hash (hykey.trans hkey.symm))
  · intro e' he'
    have hin : e'.key ∈ s'.atUp.keys := ⟨e', he', rfl⟩
    rw [hkeys] at hin
    obtain ⟨k, ⟨e, he, rfl⟩, hv, hkey⟩ := hin
    exact ⟨e, he, hv, hkey.symm⟩

theorem Partway.repairing (h : Partway s₀ D s) {es : List AllocMeta}
    (hes : es.Perm s.atUp.a.entries) : AllocTable.Repairing D s.atUp (es.map AllocMeta.key) ∅ := by
  have hmem : ∀ k, k ∈ es.map AllocMeta.key ↔ k ∈ s.atUp.keys := by
    intro k
    rw [List.mem_map]
    exact exists_congr fun e => and_congr hes.mem_iff Iff.rfl
  constructor
  · ext k
    rw [Set.union_empty]
    exact (hmem k).symm
  · intro k hk
    exact absurd hk (Set.notMem_empty k)
  · intro k hk
    have hk' := (hmem k).1 hk
    rw [h.keys] at hk'
    exact hk'.2
  · rw [List.map_map]
    refine ((hes.map _).nodup_iff).2 ?_
    exact List.pairwise_map.2 (s.atUp.a.apart.imp fun hne hv => hne (Or.inl hv))

/-- Behind the repair, the buffers are filled and the pools synchronised. -/
theorem subtractSet_parts {toDelete : OrderedSet Nat} (hrun : subtractSet o toDelete s = .ok () s') :
    ∃ vertexMap t u, removeSet o toDelete s = .ok vertexMap t ∧
      Programs.after (prepareUpload o) (t.repaired o vertexMap) = u ∧
      s' = { u with atUp := u.atUp.syncBmpsToPools } := by
  unfold subtractSet at hrun
  cases hremove : removeSet o toDelete s with
  | error f t =>
    rw [bind_of_error hremove] at hrun
    cases hrun
  | ok vertexMap t =>
    rw [bind_of_ok hremove] at hrun
    change (prepareUpload o >>= fun _ => syncUpload) (t.repaired o vertexMap) = _ at hrun
    refine ⟨vertexMap, t, _, rfl, rfl, ?_⟩
    cases hupload : prepareUpload o (t.repaired o vertexMap) with
    | error f u =>
      rw [bind_of_error hupload] at hrun
      cases hrun
    | ok x u =>
      rw [bind_of_ok hupload] at hrun
      rw [after_ok hupload]
      cases hrun
      rfl

theorem Partway.repaired_cases (horder : ∀ es, (o.beginToEnd es).Perm es) (h : Partway s₀ D t) :
    if InOrder D ((o.beginToEnd t.atUp.a.entries).map AllocMeta.v) then
      (t.repaired o (renumbered D)).atUp.keys = {k | ∃ x ∈ t.atUp.keys, x.moved D = k}
    else ∃ k ∈ t.atUp.keys, k.place ∉ (t.repaired o (renumbered D)).atUp.holding.node := by
  have hes := horder t.atUp.a.entries
  have hcases := (h.repairing hes).cases
  rw [List.map_map, List.foldl_map] at hcases
  have hmem : ∀ k, k ∈ (o.beginToEnd t.atUp.a.entries).map AllocMeta.key ↔ k ∈ t.atUp.keys := by
    intro k
    rw [List.mem_map]
    exact exists_congr fun e => and_congr hes.mem_iff Iff.rfl
  by_cases hin : InOrder D ((o.beginToEnd t.atUp.a.entries).map AllocMeta.v)
  · rw [if_pos hin]
    refine (Eq.trans (if_pos hin ▸ hcases) ?_)
    simp only [hmem, Set.union_empty]
  · rw [if_neg hin]
    obtain ⟨k, hk, hout⟩ := (if_neg hin ▸ hcases :)
    refine ⟨k, (hmem k).1 hk, ?_⟩
    rw [AllocTable.nodeOf_eq]
    exact hout

theorem repaired_pools (vertexMap : Nat → Nat) :
    (t.repaired o vertexMap).atUp.vPool = t.atUp.vPool := by
  unfold Host.repaired
  dsimp only
  generalize o.beginToEnd t.atUp.a.entries = es
  generalize t.atUp = a
  induction es generalizing a with
  | nil => rfl
  | cons e es ih =>
    rw [List.foldl_cons, ih]
    exact AllocTable.modify_pools _

/-- A table in which no vertex is without an entry stays as it is. -/
theorem prepareUpload_keys {H : List Word} {K : Set NodeKey} (hcover : ∀ hash ∈ H, ∃ k ∈ K, k.hash = hash)
    (ht : t.Has H fun a => a.keys = K) :
    (Programs.after (prepareUpload o) t).Has H fun a => a.keys = K := by
  refine maintains_prepareUpload o ?_ ?_ t ht
  · intro cpu v hash a a' code hhash hkeys hnone _
    obtain ⟨k, hk, rfl⟩ := hcover hash hhash
    obtain ⟨e, he, rfl⟩ := hkeys ▸ hk
    have hsome := AllocTable.lookupHash_of_mem he
    rw [show e.key.hash = e.hash from rfl, hsome] at hnone
    cases hnone
  · intro a hash b hkeys
    have hsame : (a.setBuffer hash b).keys = a.keys :=
      AllocTable.modify_keys_same hash fun _ => rfl
    exact hsame.trans hkeys

theorem prepareUpload_lost {p : Chunk}
    (ht : p ∉ t.atUp.holding.node ∧ p ∉ t.atUp.holding.free) :
    p ∉ (Programs.after (prepareUpload o) t).atUp.holding.node := by
  have hend : (Programs.after (prepareUpload o) t).Has t.hashes fun a =>
      p ∉ a.holding.node ∧ p ∉ a.holding.free := by
    refine maintains_prepareUpload o ?_ ?_ t ⟨rfl, ht⟩
    · rintro cpu v hash a a' code - ⟨hnode, hfree⟩ - halloc
      rcases AllocTable.allocate_cases halloc with ⟨rfl, -⟩ | ⟨adr, hadr, hhold⟩
      · exact ⟨hnode, hfree⟩
      · split at hhold
        · rw [hhold]
          refine ⟨?_, fun hin => hfree hin.1⟩
          rintro (rfl | hin)
          · exact hfree hadr
          · exact hnode hin
        · rw [hhold]
          exact ⟨hnode, fun hin => hfree hin.1⟩
    · rintro a hash b ⟨hnode, hfree⟩
      have hkeys : (a.setBuffer hash b).keys = a.keys :=
        AllocTable.modify_keys_same hash fun _ => rfl
      have hpools : (a.setBuffer hash b).vPool = a.vPool := AllocTable.modify_pools hash
      rw [AllocTable.nodeOf_eq] at hnode ⊢
      refine ⟨hkeys ▸ hnode, ?_⟩
      change p ∉ freeOf (a.setBuffer hash b).vPool
      rw [hpools]
      exact hfree
  exact hend.2.1

/-- Removing a set of vertices renumbers the others exactly if no entry is repaired before
the one whose number it takes. -/
theorem subtractSet_iff (horder : ∀ es, (o.beginToEnd es).Perm es) (hs : s.Allocated)
    {toDelete : OrderedSet Nat} (hin : ∀ v ∈ toDelete, v < s.gUp.vertices.length)
    (hrun : subtractSet o toDelete s = .ok () s') :
    Renumbers toDelete.elems s s' ↔ InOrder toDelete.elems (visited o toDelete s) := by
  obtain ⟨vertexMap, t, u, hremove, hu, rfl⟩ := subtractSet_parts o hrun
  have hlen : s.hashes.length = s.gUp.vertices.length := List.length_map _
  obtain ⟨rfl, hpart⟩ := removeSet_spec o hs (fun v hv => hlen ▸ hin v hv) hremove
  have hvisited : visited o toDelete s = (o.beginToEnd t.atUp.a.entries).map AllocMeta.v := by
    unfold visited
    rw [after_ok hremove]
  have hcases := hpart.repaired_cases o horder
  rw [hvisited]
  constructor
  · intro hrenumbers
    by_contra hout
    rw [if_neg hout] at hcases
    obtain ⟨k, hk, hnode⟩ := hcases
    have hfree : k.place ∉ (t.repaired o (renumbered toDelete.elems)).atUp.holding.free := by
      change k.place ∉ freeOf _
      rw [repaired_pools]
      exact (hpart.held k hk).2
    have hlost := prepareUpload_lost o ⟨hnode, hfree⟩
    rw [hu] at hlost
    rw [hpart.keys] at hk
    obtain ⟨⟨e, he, rfl⟩, hv⟩ := hk
    obtain ⟨e', ⟨he', hkey⟩, -⟩ := hrenumbers.kept e he hv
    apply hlost
    rw [AllocTable.nodeOf_eq]
    have hplace : e'.key.place = (e.key.moved toDelete.elems).place := congrArg NodeKey.place hkey
    exact ⟨e'.key, ⟨e', he', rfl⟩, hplace⟩
  · intro hall
    rw [if_pos hall] at hcases
    have hcover : ∀ hash ∈ t.hashes,
        ∃ k ∈ (t.repaired o (renumbered toDelete.elems)).atUp.keys, k.hash = hash := by
      intro hash hhash
      obtain ⟨i, hi, hget⟩ := hpart.graph.mem hhash
      obtain ⟨k, hk, rfl, hkh⟩ := hs.entry i hash hget
      exact ⟨k.moved toDelete.elems, hcases ▸ ⟨k, hpart.keys ▸ ⟨hk, hi⟩, rfl⟩, hkh⟩
    have hstart : (t.repaired o (renumbered toDelete.elems)).Has t.hashes fun a =>
        a.keys = (t.repaired o (renumbered toDelete.elems)).atUp.keys := ⟨rfl, rfl⟩
    obtain ⟨hhashes, hkeys⟩ := prepareUpload_keys o hcover hstart
    rw [hu] at hhashes hkeys
    apply renumbers_of_keys
    · change Compacted _ s.hashes u.hashes
      rw [hhashes]
      exact hpart.graph
    · change u.atUp.keys = _
      rw [hkeys, hcases, hpart.keys]
      ext k
      simp only [Set.mem_ofPred_eq, and_assoc]

end Renumbering

/-! ### What is removed -/

theorem keeps_pushMetaNeighbours (g : HostGraph) (fuel v : Nat) (S : OrderedSet Nat) :
    Keeps id (pushMetaNeighbours g fuel v S) := by
  induction fuel generalizing v S with
  | zero => exact keeps_throw _
  | succ fuel ih =>
    apply keeps_foldlM
    intro S e
    cases g.vertices[e.target]? with
    | none => exact keeps_pure _
    | some w =>
      cases hnp : w.np with
      | none =>
        simp only [hnp]
        exact keeps_raise _
      | some np =>
        simp only [hnp]
        exact keeps_ite (ih _ _) (keeps_pure _)

theorem pushMetaNeighbours_lt {g : HostGraph} {fuel v : Nat} {S S' : OrderedSet Nat} {s t : Host}
    (hS : ∀ x ∈ S, x < g.vertices.length) (h : pushMetaNeighbours g fuel v S s = .ok S' t) :
    ∀ x ∈ S', x < g.vertices.length := by
  induction fuel generalizing v S S' s t with
  | zero => cases h
  | succ fuel ih =>
    refine foldlM_returns (P := fun S => ∀ x ∈ S, x < g.vertices.length) ?_ hS h
    intro S e s S' t hS hstep
    cases hw : g.vertices[e.target]? with
    | none =>
      rw [hw] at hstep
      cases hstep
      exact hS
    | some w =>
      rw [hw] at hstep
      cases hnp : w.np with
      | none =>
        simp only [hnp] at hstep
        cases hstep
      | some np =>
        simp only [hnp] at hstep
        split at hstep
        next =>
          refine ih ?_ hstep
          intro x hx
          rcases OrderedSet.mem_insert.1 hx with rfl | hx
          · exact (List.getElem?_eq_some_iff.1 hw).1
          · exact hS x hx
        next =>
          cases hstep
          exact hS

theorem findToDelete_spec {gTmp : HostGraph} {s t : Host} {toDelete : OrderedSet Nat}
    (hs : s.Allocated) (h : findToDelete gTmp s = .ok toDelete t) :
    t = s ∧ ∀ v ∈ toDelete, v < s.gUp.vertices.length := by
  unfold findToDelete at h
  rw [bind_of_ok (rfl : (get : Prog Host) s = .ok s s)] at h
  constructor
  · refine (after_ok h).symm.trans (keeps_foldlM (f := id) (fun S w => ?_) _ _ s)
    apply keeps_ite (keeps_pure _)
    cases s.atUp.lookupHash w.hash with
    | none => exact keeps_pure _
    | some x => exact keeps_pushMetaNeighbours _ _ _ _
  · refine foldlM_returns (P := fun S => ∀ x ∈ S, x < s.gUp.vertices.length) ?_ ?_ h
    · intro S w s' S' t hS hstep
      split at hstep
      next =>
        cases hstep
        exact hS
      next =>
        cases hx : s.atUp.lookupHash w.hash with
        | none =>
          rw [hx] at hstep
          cases hstep
          exact hS
        | some x =>
          rw [hx] at hstep
          refine pushMetaNeighbours_lt ?_ hstep
          intro y hy
          rcases OrderedSet.mem_insert.1 hy with rfl | hy
          · have hvertex := hs.vertex x.key ⟨x, (AllocTable.mem_of_lookupHash hx).1, rfl⟩
            rw [Host.hashes, List.getElem?_map] at hvertex
            obtain ⟨y, hy, -⟩ := Option.map_eq_some_iff.1 hvertex
            exact (List.getElem?_eq_some_iff.1 hy).1
          · exact hS y hy
    · intro x hx
      exact absurd hx (OrderedSet.notMem_empty x)

theorem subtraction_parts {gTmp : HostGraph} {s s' : Host} (hs : s.Allocated)
    (hrun : subtraction o gTmp s = .ok () s') :
    ∃ toDelete, findToDelete gTmp s = .ok toDelete s ∧
      (∀ v ∈ toDelete, v < s.gUp.vertices.length) ∧ subtractSet o toDelete s = .ok () s' := by
  rw [subtraction_eq] at hrun
  cases hfind : findToDelete gTmp s with
  | error f t =>
    rw [bind_of_error hfind] at hrun
    cases hrun
  | ok toDelete t =>
    obtain ⟨rfl, hin⟩ := findToDelete_spec hs hfind
    rw [bind_of_ok hfind] at hrun
    exact ⟨toDelete, rfl, hin, hrun⟩

/-- A removal renumbers the kept nodes exactly if the entry of none of them is repaired before
the entry whose number it takes. This holds for every set of vertices, and `subtraction`
removes the set it has searched for. -/
theorem subtraction_renumbers_iff (horder : ∀ es, (o.beginToEnd es).Perm es) {s : Host}
    (hs : s.Allocated) :
    (∀ toDelete, (∀ v ∈ toDelete, v < s.gUp.vertices.length) → ∀ s',
      subtractSet o toDelete s = .ok () s' →
        (Renumbers toDelete.elems s s' ↔ InOrder toDelete.elems (visited o toDelete s))) ∧
    ∀ gTmp s', subtraction o gTmp s = .ok () s' → ∃ toDelete, findToDelete gTmp s = .ok toDelete s ∧
      (∀ v ∈ toDelete, v < s.gUp.vertices.length) ∧ subtractSet o toDelete s = .ok () s' := by
  constructor
  · intro toDelete hin s' hrun
    exact subtractSet_iff o horder hs hin hrun
  · intro gTmp s' hrun
    exact subtraction_parts o hs hrun

/-! ### Two orders -/

def loopBlock (name : String) : HostVertex where
  v := Dot.readVertex { name, type := .blockFixed, attrs := [(.cpu, "0"), (.tPeriod, "1000")] }
  hash := Dot.fnvHash name
  np := none

def threeBlocks : HostGraph where
  vertices := [loopBlock "A", loopBlock "B", loopBlock "C"]
  edges := [⟨0, 0, .defDst⟩, ⟨1, 1, .defDst⟩, ⟨2, 2, .defDst⟩]

section Samples

variable (r : Nat → Nat → Prop) [DecidableRel r]

/-- The entries are visited in the order `r` of their numbers. -/
def ordered : Analyses :=
  { lenient with beginToEnd := fun es => es.insertionSort fun x y => r x.v y.v }

theorem ordered_perm (es : List AllocMeta) : ((ordered r).beginToEnd es).Perm es :=
  List.perm_insertionSort _ es

def threeWritten : Option Host :=
  (Host.fresh [AllocTable.fourBlocks]).after (ordered r)
    [{ dm := idleDevice, op := .overwrite threeBlocks false }]

def removeFirst : HostGraph where
  vertices := [loopBlock "A"]

theorem allocated_of_entries {s : Host}
    (hentry : ∀ p ∈ s.hashes.zipIdx, ∃ e ∈ s.atUp.a.entries, e.v = p.2 ∧ e.hash = p.1)
    (hvertex : ∀ e ∈ s.atUp.a.entries, s.hashes[e.v]? = some e.hash)
    (hheld : ∀ e ∈ s.atUp.a.entries, (s.atUp.vPool[e.cpu.toNat]?.any fun p =>
      decide (p.consts.IsChunk e.adr) && !decide (e.adr ∈ p.pool)) = true) : s.Allocated := by
  constructor
  · intro v hash hv
    obtain ⟨e, he, hev, heh⟩ := hentry (hash, v) (List.mem_zipIdx_iff_getElem?.2 hv)
    exact ⟨e.key, ⟨e, he, rfl⟩, hev, heh⟩
  · rintro k ⟨e, he, rfl⟩
    exact hvertex e he
  · rintro k ⟨e, he, rfl⟩
    obtain ⟨p, hp, hpk⟩ := (Option.any_eq_true _ _).1 (hheld e he)
    rw [Bool.and_eq_true, decide_eq_true_iff, Bool.not_eq_true', decide_eq_false_iff_not] at hpk
    exact ⟨⟨p, hp, hpk.1⟩, fun hfree => hpk.2 ((mem_freeOf hp e.adr).1 hfree)⟩

def removesFirst (inOrder : Bool) (s : Host) : Bool :=
  decide (∀ p ∈ s.hashes.zipIdx, ∃ e ∈ s.atUp.a.entries, e.v = p.2 ∧ e.hash = p.1) &&
    decide (∀ e ∈ s.atUp.a.entries, s.hashes[e.v]? = some e.hash) &&
    decide (∀ e ∈ s.atUp.a.entries, (s.atUp.vPool[e.cpu.toNat]?.any fun p =>
      decide (p.consts.IsChunk e.adr) && !decide (e.adr ∈ p.pool)) = true) &&
    (match findToDelete removeFirst s with
      | .ok toDelete _ => decide (InOrder toDelete.elems (visited (ordered r) toDelete s)) == inOrder
      | .error _ _ => false) &&
    match subtraction (ordered r) removeFirst s with
    | .ok _ _ => true
    | .error _ _ => false

theorem removesFirst_spec {inOrder : Bool} {s : Host} (h : removesFirst r inOrder s = true) :
    s.Allocated ∧ ∃ toDelete s', findToDelete removeFirst s = .ok toDelete s ∧
      subtraction (ordered r) removeFirst s = .ok () s' ∧
      (InOrder toDelete.elems (visited (ordered r) toDelete s) ↔ inOrder = true) := by
  unfold removesFirst at h
  simp only [Bool.and_eq_true, decide_eq_true_iff] at h
  obtain ⟨⟨⟨⟨hentry, hvertex⟩, hheld⟩, hfound⟩, hran⟩ := h
  have hs := allocated_of_entries hentry hvertex hheld
  refine ⟨hs, ?_⟩
  cases hfind : findToDelete removeFirst s with
  | error f t =>
    rw [hfind] at hfound
    cases hfound
  | ok toDelete t =>
    obtain ⟨rfl, -⟩ := findToDelete_spec hs hfind
    rw [hfind] at hfound
    cases hrun : subtraction (ordered r) removeFirst t with
    | error f u =>
      rw [hrun] at hran
      cases hran
    | ok x s' =>
      refine ⟨toDelete, s', rfl, rfl, ?_⟩
      rw [← beq_iff_eq.1 hfound, decide_eq_true_iff]

end Samples

/-- By increasing numbers no entry takes a number that is still in use. -/
theorem subtraction_renumbers_increasing :
    ∃ s toDelete s', threeWritten (· ≤ ·) = some s ∧ s.Allocated ∧
      findToDelete removeFirst s = .ok toDelete s ∧
      subtraction (ordered (· ≤ ·)) removeFirst s = .ok () s' ∧ Renumbers toDelete.elems s s' := by
  have hrun : (threeWritten (· ≤ ·)).any (removesFirst (· ≤ ·) true) = true := by decide +kernel
  obtain ⟨s, hwritten, hs⟩ := (Option.any_eq_true _ _).1 hrun
  obtain ⟨halloc, toDelete, s', hfind, hsub, hin⟩ := removesFirst_spec _ hs
  have hboth := subtraction_renumbers_iff (ordered (· ≤ ·)) (ordered_perm _) halloc
  obtain ⟨toDelete', hfind', hlt, hset⟩ := hboth.2 removeFirst s' hsub
  obtain rfl : toDelete = toDelete' := by
    rw [hfind] at hfind'
    cases hfind'
    rfl
  exact ⟨s, toDelete, s', hwritten, halloc, hfind, hsub, (hboth.1 toDelete hlt s' hset).2 (hin.2 rfl)⟩

/-- By decreasing numbers the entry of the third block takes the number of the second one and
is dropped. The block gets another chunk. -/
theorem subtraction_drops_decreasing :
    ∃ s toDelete s', threeWritten (· ≥ ·) = some s ∧ s.Allocated ∧
      findToDelete removeFirst s = .ok toDelete s ∧
      subtraction (ordered (· ≥ ·)) removeFirst s = .ok () s' ∧ ¬ Renumbers toDelete.elems s s' := by
  have hrun : (threeWritten (· ≥ ·)).any (removesFirst (· ≥ ·) false) = true := by decide +kernel
  obtain ⟨s, hwritten, hs⟩ := (Option.any_eq_true _ _).1 hrun
  obtain ⟨halloc, toDelete, s', hfind, hsub, hin⟩ := removesFirst_spec _ hs
  obtain ⟨toDelete', hfind', hlt, hset⟩ := subtraction_parts (ordered (· ≥ ·)) halloc hsub
  obtain rfl : toDelete = toDelete' := by
    rw [hfind] at hfind'
    cases hfind'
    rfl
  have hiff := subtractSet_iff (ordered (· ≥ ·)) (ordered_perm _) halloc hlt hset
  refine ⟨s, toDelete, s', hwritten, halloc, hfind, hsub, ?_⟩
  intro hrenumbers
  exact Bool.false_ne_true (hin.1 (hiff.1 hrenumbers))

end CarpeDM

end DataMaster
