import BelProjects.DataMaster.CarpeDM.Additions
import BelProjects.DataMaster.Alloc.Sequences

/-!
# From an upload to the next download

A download sees the bitmaps and the chunks they mark, and nothing of the host's tables.  Out
of what an upload has written, it gets the nodes back, each at its place with its content.
-/

namespace DataMaster

open Bitmap

/-! ### Bitmaps on the device -/

/-- Bitmaps that were written for the same memories are all taken over. -/
theorem splitBmps_marks {vPool src : List MemPool}
    (h : vPool.map MemPool.consts = src.map MemPool.consts) :
    ∃ vPool', AllocTable.splitBmps vPool (src.flatMap MemPool.bmp) = some vPool' ∧
      marks vPool' = marks src := by
  induction vPool generalizing src with
  | nil =>
    cases src with
    | nil => exact ⟨[], rfl, rfl⟩
    | cons q qs => cases h
  | cons p ps ih =>
    cases src with
    | nil => cases h
    | cons q qs =>
      obtain ⟨hpq, hrest⟩ := List.cons.inj h
      obtain ⟨ps', hsplit, hmarks⟩ := ih hrest
      have hlen : p.consts.bmpSize.toNat = q.bmp.length := by rw [hpq, q.bmp_length]
      refine ⟨p.setBmp q.bmp hlen.symm :: ps', ?_, ?_⟩
      · simp [AllocTable.splitBmps, hlen, hsplit]
      · exact congrArg₂ List.cons (Prod.ext hpq rfl) hmarks

theorem setBmps_marks {t t' : AllocTable} {src : List MemPool} {ok : Bool}
    (hsame : t.vPool.map MemPool.consts = src.map MemPool.consts)
    (h : t.setBmps (src.flatMap MemPool.bmp) = some (t', ok)) :
    t'.a = t.a ∧ marks t'.vPool = marks src := by
  have hsum : (t.vPool.map fun p => p.consts.bmpSize.toNat).sum =
      (src.flatMap MemPool.bmp).length := by
    have hsizes := congrArg (List.map fun S : Space => S.bmpSize.toNat) hsame
    rw [List.map_map, List.map_map] at hsizes
    have hlength : src.map (fun p => p.bmp.length) = src.map fun p => p.consts.bmpSize.toNat :=
      List.map_congr_left fun p _ => p.bmp_length
    rw [List.length_flatMap, hlength]
    exact congrArg List.sum hsizes
  obtain ⟨vPool, hsplit, hmarks⟩ := splitBmps_marks hsame
  unfold AllocTable.setBmps at h
  rw [if_neg (not_not_intro hsum), hsplit] at h
  cases h
  exact ⟨rfl, hmarks⟩

namespace CarpeDM

theorem markedChunks_congr {vPool vPool' : List MemPool} (h : marks vPool = marks vPool') :
    markedChunks vPool = markedChunks vPool' := by
  have hmarks (ps : List MemPool) : markedChunks ps = (marks ps).zipIdx.flatMap fun x =>
      ((List.range x.1.1.bmpBits.toNat).filter fun bitIdx =>
        (x.1.1.bmpSize / memBlock).toNat ≤ bitIdx && getBit x.1.2 bitIdx).map fun bitIdx =>
          (BitVec.ofNat 8 x.2, x.1.1.bitAdr bitIdx) := by
    unfold marks
    rw [List.zipIdx_map, List.flatMap_map]
    rfl
  rw [hmarks, hmarks, h]

/-- Exact bitmaps mark the chunks that are not free. -/
theorem mem_markedChunks {vPool : List MemPool} (hsync : ∀ p ∈ vPool, p.Synced)
    (hqty : vPool.length ≤ 255) {c : CpuIdx × Word} :
    c ∈ markedChunks vPool ↔
      (c.1.toNat, c.2) ∈ rangeOf vPool ∧ (c.1.toNat, c.2) ∉ freeOf vPool := by
  obtain ⟨cpu, adr⟩ := c
  have hfirst (S : Space) : (S.bmpSize / memBlock).toNat = S.bmpBlocks := by
    rw [BitVec.toNat_udiv, S.bmpSize_toNat]
    exact Nat.mul_div_cancel _ (by decide)
  simp only [markedChunks, List.mem_flatMap, List.mem_map, List.mem_filter, List.mem_range,
    List.mem_zipIdx_iff_getElem?, Bool.and_eq_true, decide_eq_true_eq, Prod.mk.injEq, hfirst]
  constructor
  · rintro ⟨⟨p, i⟩, hp, bitIdx, ⟨hlt, hge, hbit⟩, rfl, rfl⟩
    have hi : i < vPool.length := (List.getElem?_eq_some_iff.1 hp).1
    have hcpu : (BitVec.ofNat 8 i).toNat = i := Nat.mod_eq_of_lt (by omega)
    have hused := (hsync p (List.mem_of_getElem? hp) bitIdx hlt).1 hbit
    rw [hcpu, mem_rangeOf hp, mem_freeOf hp]
    exact ⟨p.consts.isChunk_iff.2 ⟨bitIdx, hge, hlt, p.consts.bitAdr_toNat hlt⟩, hused⟩
  · rintro ⟨⟨p, hp, hchunk⟩, hused⟩
    obtain ⟨bitIdx, hge, hlt, hval⟩ := p.consts.isChunk_iff.1 hchunk
    have hadr : p.consts.bitAdr bitIdx = adr :=
      BitVec.eq_of_toNat_eq ((p.consts.bitAdr_toNat hlt).trans hval.symm)
    rw [mem_freeOf hp, ← hadr] at hused
    exact ⟨(p, cpu.toNat), hp, bitIdx,
      ⟨hlt, hge, (hsync p (List.mem_of_getElem? hp) bitIdx hlt).2 hused⟩, by simp, hadr⟩

open Programs BigEndian

variable {o : Analyses} {s s₁ s₂ t : Host}

/-! ### The upload -/

/-- What is in the chunk of an entry after an upload. -/
def Host.content (s : Host) (e : AllocMeta) : Block :=
  if e.staged then e.b else s.dm.chunk e.cpu e.adr

theorem upload_ok (h : upload o s = .ok () t) : ∃ a report,
    s.atUp.allocateMgmtFor (o.container s.gt s.ct) = some (a, report) ∧
      t = { s with
        atUp := a.syncBmpsToPools
        dm := s.dm.written a.syncBmpsToPools (s.gt, s.ct) } := by
  obtain ⟨u, s', hgen, hwrite⟩ := bind_ok_iff.1 h
  rw [generateMgmtData, bind_of_ok (rfl : (get : Prog Host) s = .ok s s)] at hgen
  obtain ⟨⟨a, report⟩, s'', hdef, hrest⟩ := bind_ok_iff.1 hgen
  obtain ⟨halloc, rfl⟩ := defined_ok hdef
  obtain ⟨u', s₁, hset, hsync⟩ := bind_ok_iff.1 hrest
  cases hset
  cases hwrite
  refine ⟨a, report, halloc, ?_⟩
  cases report with
  | error what => cases hsync
  | done | success | code =>
    cases hsync
    rfl

/-! ### The download -/

theorem insert_true {a a' : AllocTable} {cpu : CpuIdx} {adr hash : Word} {v : Nat} {staged : Bool}
    (h : a.insert cpu adr hash v staged = some (a', true)) {e : AllocMeta} :
    e ∈ a'.a ↔ e = { cpu, adr, hash, v, staged } ∨ e ∈ a.a := by
  unfold AllocTable.insert at h
  split at h
  next vPool hoccupy =>
    by_cases hacc : a.a.Accepts { cpu, adr, hash, v, staged }
    · obtain ⟨rfl, -⟩ := Prod.mk.inj (Option.some.inj h)
      exact UniqueSet.mem_insert_of_accepts hacc
    · rw [UniqueSet.insert_of_not_accepts hacc] at h
      cases h
  next => cases h

theorem mem_setBuffer {a : AllocTable} {hash : Word} {b : Block} {e : AllocMeta}
    (he : e ∈ (a.setBuffer hash b).a) :
    (e ∈ a.a ∧ e.hash ≠ hash) ∨ ∃ x ∈ a.a, x.hash = hash ∧ e = { x with b := b } := by
  unfold AllocTable.setBuffer AllocTable.modify at he
  split at he
  next x hx =>
    obtain ⟨hmem, hhash⟩ := AllocTable.mem_of_lookupHash hx
    have hrest (hin : e ∈ a.a.eraseIf fun y => y.hash == hash) : e ∈ a.a ∧ e.hash ≠ hash := by
      obtain ⟨hin, hne⟩ := UniqueSet.mem_eraseIf.1 hin
      exact ⟨hin, beq_eq_false_iff_ne.1 hne⟩
    by_cases hacc : (a.a.eraseIf fun y => y.hash == hash).Accepts { x with b := b }
    · rcases (UniqueSet.mem_insert_of_accepts hacc).1 he with rfl | he
      · exact Or.inr ⟨x, hmem, hhash, rfl⟩
      · exact Or.inl (hrest he)
    · dsimp only at he
      rw [UniqueSet.insert_of_not_accepts hacc] at he
      exact Or.inl (hrest he)
  next hnone => exact Or.inl ⟨he, by simpa using List.find?_eq_none.1 hnone e he⟩

/-- The first nodes of the device have been entered, in the order of their chunks. -/
structure Host.Reads (s : Host) (dm : Device) (done : List (CpuIdx × Word)) : Prop where
  same : s.dm = dm
  hashes : s.gDown.vertices.map HostVertex.hash = done.map dm.hash
  keys : s.atDown.keys =
    {k | done[k.v]? = some (k.cpu, k.adr) ∧ dm.hash (k.cpu, k.adr) = k.hash}
  content : ∀ e ∈ s.atDown.a, e.b = dm.chunk e.cpu e.adr

theorem Host.Reads.parseNode {dm : Device} {done : List (CpuIdx × Word)} {c : CpuIdx × Word}
    (h : s.Reads dm done) (hrun : CarpeDM.parseNode c s = .ok () t) : t.Reads dm (done ++ [c]) := by
  rw [CarpeDM.parseNode, bind_of_ok (rfl : (get : Prog Host) s = .ok s s)] at hrun
  obtain ⟨u₁, s₁, hadd, hrun⟩ := bind_ok_iff.1 hrun
  cases hadd
  obtain ⟨⟨a, ok⟩, s₂, hdef, hrun⟩ := bind_ok_iff.1 hrun
  obtain ⟨hins, rfl⟩ := defined_ok hdef
  obtain ⟨u₂, s₃, hset, hrun⟩ := bind_ok_iff.1 hrun
  cases hset
  have hlen : s.gDown.vertices.length = done.length := by
    simpa using congrArg List.length h.hashes
  have hhash : (downVertex s c).hash = dm.hash c := by rw [← h.same]; rfl
  cases ok with
  | false => cases hrun
  | true =>
    cases hrun
    rw [hhash, hlen] at hins
    refine ⟨h.same, ?_, ?_, ?_⟩
    · change (s.gDown.vertices ++ [downVertex s c]).map HostVertex.hash = _
      rw [List.map_append, h.hashes, List.map_append, List.map_singleton, hhash, List.map_singleton]
    · change (a.setBuffer _ _).keys = _
      have hkeys : (a.setBuffer (downVertex s c).hash (s.dm.chunk c.1 c.2)).keys = a.keys :=
        AllocTable.modify_keys_same _ fun _ => rfl
      rw [hkeys]
      ext k
      constructor
      · rintro ⟨e, he, rfl⟩
        rcases (insert_true hins).1 he with rfl | he
        · exact ⟨List.getElem?_concat_length, rfl⟩
        · obtain ⟨hget, hk⟩ := h.keys.subset ⟨e, he, rfl⟩
          exact ⟨(List.getElem?_append_left (List.getElem?_eq_some_iff.1 hget).1).trans hget, hk⟩
      · rintro ⟨hget, hk⟩
        rcases Nat.lt_trichotomy k.v done.length with hlt | heq | hgt
        · rw [List.getElem?_append_left hlt] at hget
          obtain ⟨e, he, rfl⟩ := h.keys.superset ⟨hget, hk⟩
          exact ⟨e, (insert_true hins).2 (Or.inr he), rfl⟩
        · rw [heq, List.getElem?_concat_length, Option.some.injEq] at hget
          refine ⟨_, (insert_true hins).2 (Or.inl rfl), ?_⟩
          change NodeKey.mk c.1 c.2 (dm.hash c) done.length = k
          rw [hget, hk, ← heq]
        · rw [List.getElem?_eq_none (by rw [List.length_append]; exact hgt)] at hget
          cases hget
    · intro e he
      change e ∈ (a.setBuffer _ _).a at he
      rw [hhash, h.same] at he
      rcases mem_setBuffer he with ⟨he, hne⟩ | ⟨x, hx, hxhash, rfl⟩
      · rcases (insert_true hins).1 he with rfl | he
        · exact absurd rfl hne
        · exact h.content e he
      · -- the hash is the new entry's alone
        have hnew := (insert_true hins).2 (Or.inl rfl)
        rw [AllocTable.eq_of_hash hx hnew hxhash]

theorem Host.Reads.parseDownloadData {dm : Device} (h : s.Reads dm [])
    (hrun : CarpeDM.parseDownloadData o s = .ok () t) :
    t.Reads dm ((markedChunks s.atDown.vPool).filter fun c => dm.type c != .mgmt) := by
  rw [CarpeDM.parseDownloadData, bind_of_ok (rfl : (get : Prog Host) s = .ok s s), h.same] at hrun
  obtain ⟨u, s₁, hnodes, hrun⟩ := bind_ok_iff.1 hrun
  have hall := forM_ok (R := fun as s' => ∃ done,
      done ++ as = (markedChunks s.atDown.vPool).filter (fun c => dm.type c != .mgmt) ∧
        s'.Reads dm done) ?_ ⟨[], rfl, h⟩ hnodes
  · obtain ⟨done, hdone, hreads⟩ := hall
    rw [List.append_nil] at hdone
    subst hdone
    rw [bind_of_ok (rfl : (get : Prog Host) s₁ = .ok s₁ s₁)] at hrun
    generalize s₁.gDown.vertices.find? (fun x => x.np.isNone) = found at hrun
    cases found with
    | some x => cases hrun
    | none =>
      obtain ⟨edges, s₂, hcrawl, hset⟩ := bind_ok_iff.1 hrun
      cases hset
      have hsame := after_ok hcrawl ▸ keeps_check (f := id) _ s₁
      cases hsame
      exact ⟨hreads.same, hreads.hashes, hreads.keys, hreads.content⟩
  · rintro c as s' t' ⟨done, hdone, hreads⟩ hrun
    exact ⟨done ++ [c], by rw [← hdone, List.append_assoc]; rfl, hreads.parseNode hrun⟩

/-- A download of bitmaps written for the same memories enters the nodes in the marked chunks. -/
theorem download_reads {src : List MemPool} (h : download o s = .ok () t)
    (hsame : s.atDown.vPool.map MemPool.consts = src.map MemPool.consts)
    (hbmps : s.dm.bmps = src.flatMap MemPool.bmp) :
    t.Reads s.dm ((markedChunks src).filter fun c => s.dm.type c != .mgmt) := by
  obtain ⟨u₁, s₁, hset, h⟩ := bind_ok_iff.1 h
  cases hset
  rw [bind_of_ok (rfl : (get : Prog Host) _ = .ok _ _)] at h
  obtain ⟨⟨a, ok⟩, s₂, hdef, h⟩ := bind_ok_iff.1 h
  obtain ⟨hsplit, rfl⟩ := defined_ok hdef
  obtain ⟨u₃, s₃, hset, h⟩ := bind_ok_iff.1 h
  cases hset
  have hcleared : s.atDown.clear.vPool.map MemPool.consts = src.map MemPool.consts := by
    rw [← hsame]
    exact List.map_map.trans (List.map_congr_left fun p _ => MemPool.init_consts)
  obtain ⟨ha, hmarks⟩ := setBmps_marks hcleared (hbmps ▸ hsplit)
  have hempty : ({ s with atDown := a, gDown := s.gDown.clear } : Host).Reads s.dm [] := by
    refine ⟨rfl, rfl, ?_, ?_⟩
    · ext k
      refine iff_of_false ?_ (fun hk => by simp at hk)
      rintro ⟨e, he, -⟩
      exact UniqueSet.notMem_empty e (ha ▸ he)
    · intro e he
      exact absurd (ha ▸ he) (UniqueSet.notMem_empty e)
  obtain ⟨u₄, s₄, hmgmt, h⟩ := bind_ok_iff.1 h
  have hparsed := after_ok hmgmt ▸ maintains_parseDownloadMgmt
    (I := fun s' => s'.Reads s.dm [] ∧ marks s'.atDown.vPool = marks src)
    (fun s' gt ct hm h => ⟨⟨h.1.same, h.1.hashes, h.1.keys, h.1.content⟩, h.2⟩)
    (fun s' a' h hstored => by
      obtain ⟨ha', hm'⟩ := Prod.mk.inj hstored
      exact ⟨⟨h.1.same, h.1.hashes, by rw [← h.1.keys, AllocTable.keys, ha']; rfl,
        fun e he => h.1.content e (ha' ▸ he)⟩, hm'.trans h.2⟩)
    _ ⟨hempty, hmarks⟩
  obtain ⟨u₅, s₅, hnodes, h⟩ := bind_ok_iff.1 h
  have hread := hparsed.1.parseDownloadData hnodes
  rw [markedChunks_congr hparsed.2] at hread
  have hend := maintains_updateCovenants (o := o) (I := fun s' => s'.Reads s.dm _)
    (fun s' ct h => ⟨h.same, h.hashes, h.keys, h.content⟩) s₅ hread
  rwa [after_ok h] at hend

/-! ### There and back -/

/-- The buffer of a node: it has the hash in it, and is not taken for management data. -/
def IsNodeOf (hash : Word) (b : Block) : Prop :=
  read32 b.toList 40 = hash ∧
    NodeType.ofNum (read32 b.toList 44 &&& Dot.nflgTypeSmsk).toNat ≠ .mgmt

instance (hash : Word) (b : Block) : Decidable (IsNodeOf hash b) :=
  inferInstanceAs (Decidable (_ ∧ _))

/-- The downloaded entry has the place, the hash and the content of the uploaded one. -/
def Host.Returns (s : Host) (e e' : AllocMeta) : Prop :=
  e'.cpu = e.cpu ∧ e'.adr = e.adr ∧ e'.hash = e.hash ∧ e'.b = s.content e

/-- An upload writes the content of every node that has its chunk for itself. -/
theorem written_chunk {up : AllocTable} {mgmt : GroupTable × CovenantTable} {e : AllocMeta}
    (he : e ∈ up.a) (hm : e.place ∉ mgmtOf up.m) :
    (s.dm.written up mgmt).chunk e.cpu e.adr = s.content e := by
  have hany : ¬ (up.m.entries.any fun x => x.cpu == e.cpu && x.adr == e.adr) = true := by
    intro hany
    obtain ⟨x, hx, hkey⟩ := List.any_eq_true.1 hany
    rw [Bool.and_eq_true, beq_iff_eq, beq_iff_eq] at hkey
    exact hm ⟨x, hx, by rw [MgmtMeta.place, hkey.1, hkey.2, AllocMeta.place]⟩
  unfold Device.written Host.content
  simp only [if_neg hany, AllocTable.lookupAdr_eq.2 ⟨he, rfl, rfl⟩]

theorem written_mgmt {up : AllocTable} {mgmt : GroupTable × CovenantTable} {c : CpuIdx × Word}
    (hm : (c.1.toNat, c.2) ∈ mgmtOf up.m) : (s.dm.written up mgmt).type c = .mgmt := by
  obtain ⟨x, hx, hplace⟩ := hm
  obtain ⟨hcpu, hadr⟩ := Prod.mk.inj hplace
  have hany : (up.m.entries.any fun x => x.cpu == c.1 && x.adr == c.2) = true :=
    List.any_eq_true.2 ⟨x, hx, by simp [BitVec.eq_of_toNat_eq hcpu, hadr]⟩
  unfold Device.type Device.written
  simp only [if_pos hany]
  decide

/-- Where every chunk has one owner, the marked chunks with nodes are those of the table. -/
theorem written_nodes {up : AllocTable} (mgmt : GroupTable × CovenantTable)
    (hsync : ∀ p ∈ up.vPool, p.Synced) (hqty : up.vPool.length ≤ 255)
    (hc : up.holding.Conserved) (hrange : ∀ e ∈ up.a, e.place ∈ rangeOf up.vPool)
    (hdata : ∀ e ∈ up.a, IsNodeOf e.hash (s.content e)) :
    (∀ e ∈ up.a, (s.dm.written up mgmt).chunk e.cpu e.adr = s.content e ∧
      (s.dm.written up mgmt).hash (e.cpu, e.adr) = e.hash) ∧
    ∀ c, c ∈ (markedChunks up.vPool).filter (fun c => (s.dm.written up mgmt).type c != .mgmt) ↔
      ∃ e ∈ up.a, (e.cpu, e.adr) = c := by
  have hnode {e : AllocMeta} (he : e ∈ up.a) :
      e.place ∉ freeOf up.vPool ∧ (s.dm.written up mgmt).chunk e.cpu e.adr = s.content e := by
    have hown := hc _ (hrange e he)
    have hheld : e.place ∈ up.holding.node := ⟨e, he, rfl⟩
    unfold Holding.Owned at hown
    have hfree : e.place ∉ up.holding.free := by tauto
    exact ⟨hfree, written_chunk he (by tauto)⟩
  refine ⟨fun e he => ⟨(hnode he).2, ?_⟩, fun c => ?_⟩
  · unfold Device.hash
    rw [(hnode he).2]
    exact (hdata e he).1
  · rw [List.mem_filter, mem_markedChunks hsync hqty, bne_iff_ne]
    constructor
    · rintro ⟨⟨hchunk, hused⟩, htype⟩
      have hmgmt : (c.1.toNat, c.2) ∉ up.holding.mgmt := fun hm => htype (written_mgmt hm)
      have hown := hc _ hchunk
      unfold Holding.Owned at hown
      have hheld : (c.1.toNat, c.2) ∈ up.holding.node := by tauto
      obtain ⟨e, he, hplace⟩ := hheld
      obtain ⟨hcpu, hadr⟩ := Prod.mk.inj hplace
      exact ⟨e, he, Prod.ext (BitVec.eq_of_toNat_eq hcpu) hadr⟩
    · rintro ⟨e, he, rfl⟩
      refine ⟨⟨hrange e he, (hnode he).1⟩, ?_⟩
      unfold Device.type
      rw [(hnode he).2]
      exact (hdata e he).2

/-- **What an upload writes, a download finds.** If both return, every node of the uploaded table
is in the downloaded one, at its place, with its hash and its content, no other node is, and the
vertices of the downloaded graph are numbered as their entries say. -/
theorem download_returns_upload (hup : upload o s = .ok () s₁) (hdown : download o s₁ = .ok () s₂)
    (hsame : s.atDown.vPool.map MemPool.consts = s.atUp.vPool.map MemPool.consts)
    (hconserved : s.atUp.Conserved) (hrange : ∀ e ∈ s.atUp.a, e.place ∈ rangeOf s.atUp.vPool)
    (hdata : ∀ e ∈ s.atUp.a, IsNodeOf e.hash (s.content e)) :
    (∀ e ∈ s.atUp.a, ∃ e' ∈ s₂.atDown.a, s.Returns e e') ∧
      (∀ e' ∈ s₂.atDown.a, ∃ e ∈ s.atUp.a, s.Returns e e') ∧
      ∀ v hash, (s₂.gDown.vertices.map HostVertex.hash)[v]? = some hash ↔
        ∃ e' ∈ s₂.atDown.a, e'.v = v ∧ e'.hash = hash := by
  obtain ⟨a, report, halloc, rfl⟩ := upload_ok hup
  obtain ⟨ha, hmarks⟩ := Prod.mk.inj (allocateMgmtFor_stored halloc)
  have hconsts : a.syncBmpsToPools.vPool.map MemPool.consts = s.atUp.vPool.map MemPool.consts := by
    refine List.map_map.trans ?_
    simpa [marks, Function.comp_def] using congrArg (List.map Prod.fst) hmarks
  have hqty : a.syncBmpsToPools.vPool.length ≤ 255 := by
    have hlen : a.syncBmpsToPools.vPool.length = s.atUp.vPool.length := by
      simpa using congrArg List.length hconsts
    refine hlen.trans_le (Nat.le_of_not_lt fun hlt => ?_)
    rw [AllocTable.allocateMgmtFor, if_pos hlt] at halloc
    cases halloc
  have hc : a.syncBmpsToPools.holding.Conserved := by
    rw [AllocTable.syncBmpsToPools_holding]
    exact AllocTable.allocateMgmtFor_conserved ((AllocTable.conserved_iff _).1 hconserved) halloc
  rw [← AllocTable.rangeOf_congr hconsts] at hrange
  obtain ⟨hnodes, hmem⟩ := written_nodes (s.gt, s.ct)
    (AllocTable.syncBmpsToPools_synced a) hqty hc (ha.symm ▸ hrange) (ha.symm ▸ hdata)
  rw [show a.syncBmpsToPools.a = s.atUp.a from ha] at hnodes hmem
  have hreads := download_reads hdown (hsame.trans hconsts.symm) rfl
  generalize List.filter _ _ = cs at hreads hmem
  have hentry {v : Nat} {c : CpuIdx × Word} (hget : cs[v]? = some c) : ∃ e' ∈ s₂.atDown.a,
      e'.key = ⟨c.1, c.2, (s.dm.written a.syncBmpsToPools (s.gt, s.ct)).hash c, v⟩ :=
    hreads.keys.superset ⟨hget, rfl⟩
  refine ⟨fun e he => ?_, fun e' he' => ?_, fun v hash => ?_⟩
  · obtain ⟨v, hget⟩ := List.mem_iff_getElem?.1 ((hmem _).2 ⟨e, he, rfl⟩)
    obtain ⟨e', he', hkey⟩ := hentry hget
    obtain ⟨hcpu, hadr, hhash, -⟩ := NodeKey.mk.inj hkey
    refine ⟨e', he', hcpu, hadr, hhash.trans (hnodes e he).2, ?_⟩
    rw [hreads.content e' he', hcpu, hadr]
    exact (hnodes e he).1
  · obtain ⟨hget, hhash⟩ := hreads.keys.subset ⟨e', he', rfl⟩
    obtain ⟨e, he, hplace⟩ := (hmem _).1 (List.mem_of_getElem? hget)
    obtain ⟨hcpu, hadr⟩ := Prod.mk.inj hplace
    refine ⟨e, he, hcpu.symm, hadr.symm, ?_, ?_⟩
    · rw [← (hnodes e he).2, hplace]
      exact hhash.symm
    · rw [hreads.content e' he', ← (hnodes e he).1, hcpu, hadr]
      rfl
  · rw [hreads.hashes, List.getElem?_map, Option.map_eq_some_iff]
    constructor
    · rintro ⟨c, hget, rfl⟩
      obtain ⟨e', he', hkey⟩ := hentry hget
      exact ⟨e', he', congrArg NodeKey.v hkey, congrArg NodeKey.hash hkey⟩
    · rintro ⟨e', he', rfl, rfl⟩
      exact ⟨_, hreads.keys.subset ⟨e', he', rfl⟩⟩

/-- A message is on the device, in the first chunk. -/
def oneOnDevice : Host :=
  { Host.fresh [AllocTable.fourBlocks] with
    atUp :=
      { a :=
          ⟨[{ cpu := 0, adr := 0x868, hash := 7, v := 0, staged := false }],
            List.pairwise_singleton ..⟩
        m := .empty
        vPool := [(MemPool.new AllocTable.fourBlocks).occupyChunk 0x868] }
    dm :=
      { idleDevice with
        chunk := fun _ _ => blockOf (copyTo
          (copyTo (List.replicate memBlockSize 0) 40 (be32 7)) 44 (be32 (Dot.typeNum .tmsg))) } }

theorem oneOnDevice_conserved : oneOnDevice.atUp.Conserved := by
  have hfresh : (AllocTable.fresh [AllocTable.fourBlocks]).Conserved :=
    (AllocTable.conserved_iff _).2 (AllocTable.fresh_conserved (AllocTable.initPools_free _))
  have hstep : (AllocTable.fresh [AllocTable.fourBlocks]).step (.insert 0 0x868 7 0 false) =
      some (oneOnDevice.atUp, .success true) := rfl
  refine (AllocTable.step_conserved_iff hfresh hstep).2 ?_
  exact fun hboth => absurd hboth.2 (AllocTable.mgmtOf_empty ▸ Set.notMem_empty _)

/-- The message comes back from the device. -/
theorem download_returns_upload_oneOnDevice :
    ∃ s₁ s₂, upload lenient oneOnDevice = .ok () s₁ ∧ download lenient s₁ = .ok () s₂ ∧
      (∃ e' ∈ s₂.atDown.a, oneOnDevice.Returns
        { cpu := 0, adr := 0x868, hash := 7, v := 0, staged := false } e') := by
  have hrun : ((upload lenient >>= fun _ => download lenient).run' oneOnDevice).isSome = true := by
    decide +kernel
  delta EStateM.run' at hrun
  cases hboth : (upload lenient >>= fun _ => download lenient).run oneOnDevice with
  | error f t =>
    rw [hboth] at hrun
    cases hrun
  | ok u s₂ =>
    obtain ⟨u', s₁, hup, hdown⟩ := bind_ok_iff.1 hboth
    refine ⟨s₁, s₂, hup, hdown, ?_⟩
    have hback := download_returns_upload hup hdown rfl oneOnDevice_conserved
      (fun e he => ?_) (fun e he => ?_)
    · exact hback.1 _ (List.mem_singleton.2 rfl)
    · rw [List.mem_singleton.1 he]
      exact ⟨_, rfl, by decide +kernel⟩
    · rw [List.mem_singleton.1 he]
      decide +kernel

end CarpeDM
end DataMaster
