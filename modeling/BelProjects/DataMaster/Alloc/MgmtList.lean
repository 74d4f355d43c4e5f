import BelProjects.DataMaster.Alloc.Addresses
import BelProjects.DataMaster.Alloc.Table

/-!
# The list of management chunks

Management data is cut into pieces that fill the payload of the management chunks, in the
order of the table.  Each chunk has the external address of the next one, whichever CPU that
is on, and the last one a null pointer; the data is recovered along these links.
-/

namespace DataMaster

open BigEndian AllocTable

def nodeTypeMgmt : Octet := 15

def MgmtMeta.before (x y : MgmtMeta) : Bool :=
  decide (x.cpu < y.cpu) || (x.cpu == y.cpu && decide (x.adr ≤ y.adr))

namespace AllocTable

variable (t : AllocTable)

def mgmtInOrder : List MgmtMeta := t.m.entries.mergeSort MgmtMeta.before

def getCpuFromExtAdr (a : Word) : CpuIdx :=
  match t.firstPool Space.extBaseAdr a with
  | some i => BitVec.ofNat 8 i
  | none => -1

def lookupMgmt (cpu : CpuIdx) (adr : Word) : Option MgmtMeta :=
  t.m.entries.find? fun e => e.cpu == cpu && e.adr == adr

end AllocTable

/-- The contents of a chunk: a piece of the data, the node type and the link. -/
def MgmtMeta.fill (x : MgmtMeta) (piece : List Octet) (h : piece.length ≤ payloadPerChunk)
    (link : Word) : MgmtMeta :=
  { x with
    b := ((x.b.copyTo 0 piece (by
        rw [show payloadPerChunk = 47 from rfl] at h
        rw [show memBlockSize = 52 from rfl]
        omega)).copyTo (nodeFlags.toNat + 3) [nodeTypeMgmt] (by decide)).copyTo nodeDefDestPtr.toNat
          (be32 link) (by rw [length_be32]; decide) }

def linkTo (t : AllocTable) : List MgmtMeta → Option Word
  | [] => some lm32NullPtr
  | next :: _ => t.adrConv .MGMT .EXT next.cpu next.adr

/-- The loop of `populateMgmt`; `left` is what is left of the data. -/
def fillChunks (t : AllocTable) : List Octet → List MgmtMeta → Option (List MgmtMeta)
  | _, [] => some []
  | left, x :: xs =>
    match linkTo t xs, fillChunks t (left.drop payloadPerChunk) xs with
    | some link, some ys =>
      some (x.fill (left.take payloadPerChunk) (List.length_take_le ..) link :: ys)
    | _, _ => none

/-- The loop of `recoverMgmt`. The entries it passes are returned with the data. -/
def recoverLoop (t : AllocTable) : Nat → Word → Nat → Option (List Octet × List MgmtMeta)
  | 0, _, _ => none
  | fuel + 1, chunkLinkPtr, bytesLeft =>
    if chunkLinkPtr = lm32NullPtr then some ([], [])
    else
      let bytesToCopy := min bytesLeft payloadPerChunk
      let cpu := t.getCpuFromExtAdr chunkLinkPtr
      match (t.adrConv .EXT .MGMT cpu chunkLinkPtr).bind (t.lookupMgmt cpu) with
      | none => none
      | some it =>
        match recoverLoop t fuel (read32 it.b.toList nodeDefDestPtr.toNat)
            (bytesLeft - bytesToCopy) with
        | none => none
        | some (ret, seen) => some (it.b.toList.take bytesToCopy ++ ret, it :: seen)

/-! ### External addresses -/

/-- The windows in which the host sees the RAMs: none wraps, and no two meet. -/
structure ExtWindows (vPool : List MemPool) : Prop where
  fits : ∀ p ∈ vPool, p.consts.extBaseAdr.toNat + p.consts.rawSize.toNat < 2 ^ 32
  apart : vPool.Pairwise fun p q =>
    p.consts.extBaseAdr.toNat + p.consts.rawSize.toNat < q.consts.extBaseAdr.toNat ∨
      q.consts.extBaseAdr.toNat + q.consts.rawSize.toNat < p.consts.extBaseAdr.toNat

namespace ExtWindows

variable {t : AllocTable} (hw : ExtWindows t.vPool)
include hw

theorem windows : Windows Space.extBaseAdr t.vPool where
  fits := hw.fits
  apart := hw.apart.imp fun h => h.imp Nat.le_of_lt Nat.le_of_lt

variable {c : CpuIdx} {p : MemPool} (hp : t.vPool[c.toNat]? = some p) {adr : Word}
  (hadr : p.consts.IsChunk adr)
include hp hadr

theorem extAdr_toNat :
    (adr + p.consts.extBaseAdr).toNat = p.consts.extBaseAdr.toNat + adr.toNat := by
  have hfits := hw.fits p (List.mem_of_getElem? hp)
  have hram := p.consts.chunk_inRam hadr
  rw [BitVec.toNat_add]
  omega

theorem extAdr_ne_null : adr + p.consts.extBaseAdr ≠ lm32NullPtr := by
  intro hnull
  have hval := hw.extAdr_toNat hp hadr
  have hram := p.consts.chunk_inRam hadr
  rw [hnull] at hval
  change 0 = _ at hval
  omega

theorem getCpuFromExtAdr_eq : t.getCpuFromExtAdr (adr + p.consts.extBaseAdr) = c := by
  have hval := hw.extAdr_toNat hp hadr
  have hram := p.consts.chunk_inRam hadr
  have hfound : t.firstPool Space.extBaseAdr (adr + p.consts.extBaseAdr) = some c.toNat :=
    hw.windows.firstPool_disjoint hp hw.apart ⟨by rw [hval]; omega, by rw [hval]; omega⟩
  rw [AllocTable.getCpuFromExtAdr, hfound]
  dsimp only
  rw [BitVec.ofNat_toNat, BitVec.setWidth_eq]

end ExtWindows

/-! ### One chunk -/

section Fill

variable (x : MgmtMeta) {piece : List Octet} (h : piece.length ≤ payloadPerChunk) (link : Word)

@[simp] theorem place_fill : (x.fill piece h link).place = x.place := rfl

theorem take_fill : (x.fill piece h link).b.toList.take piece.length = piece := by
  rw [show payloadPerChunk = 47 from rfl] at h
  have hlen : x.b.toList.length = 52 := Vector.length_toList
  have hpiece : (copyTo x.b.toList 0 piece).length = 52 := by
    rw [length_copyTo (by omega), hlen]
  have htype : (copyTo (copyTo x.b.toList 0 piece) 47 [nodeTypeMgmt]).length = 52 := by
    rw [length_copyTo (by rw [hpiece]; decide), hpiece]
  change (copyTo (copyTo (copyTo x.b.toList 0 piece) 47 [nodeTypeMgmt]) 48 (be32 link)).take
    piece.length = piece
  apply List.ext_getElem?
  intro i
  rw [List.getElem?_take]
  split
  next hi =>
    rw [getElem?_copyTo (by rw [htype, length_be32]), if_neg (by omega),
      getElem?_copyTo (by rw [hpiece]; decide), if_neg (by rw [List.length_singleton]; omega),
      getElem?_copyTo (by omega), if_pos ⟨Nat.zero_le i, by omega⟩, Nat.sub_zero]
  next hi => rw [List.getElem?_eq_none (by omega)]

theorem link_fill : read32 (x.fill piece h link).b.toList nodeDefDestPtr.toNat = link :=
  read32_copyTo_same (by rw [Vector.length_toList]; decide)

end Fill

/-! ### The chain -/

theorem AllocTable.lookupMgmt_eq {t : AllocTable} {e : MgmtMeta} (he : e ∈ t.m) :
    t.lookupMgmt e.cpu e.adr = some e := by
  unfold AllocTable.lookupMgmt
  cases hfind : t.m.entries.find? (fun x => x.cpu == e.cpu && x.adr == e.adr) with
  | none =>
    rw [List.find?_eq_none] at hfind
    exact absurd (by simp) (hfind e he)
  | some x =>
    have hkey := List.find?_some hfind
    rw [Bool.and_eq_true, beq_iff_eq, beq_iff_eq] at hkey
    have hplace : x.place = e.place := by
      unfold MgmtMeta.place
      rw [hkey.1, hkey.2]
    rw [UniqueSet.eq_of_collide (List.mem_of_find?_eq_some hfind) he hplace]

section Chain

variable {t : AllocTable}

theorem adrConv_ext {e : MgmtMeta} {p : MemPool} (hp : t.vPool[e.cpu.toNat]? = some p)
    (hadr : p.consts.IsChunk e.adr) :
    t.adrConv .MGMT .EXT e.cpu e.adr = some (e.adr + p.consts.extBaseAdr) := by
  have hne : e.adr ≠ lm32NullPtr := by
    intro hnull
    have hpos := (p.consts.chunk_inRam hadr).1
    rw [hnull] at hpos
    exact Nat.lt_irrefl 0 hpos
  unfold AllocTable.adrConv Space.adrConv
  rw [hp]
  dsimp only
  rw [if_neg hne]

theorem linkTo_isSome {xs : List MgmtMeta} (hin : ∀ x ∈ xs, x.place ∈ rangeOf t.vPool) :
    ∃ link, linkTo t xs = some link := by
  cases xs with
  | nil => exact ⟨_, rfl⟩
  | cons x xs =>
    obtain ⟨p, hp, hadr⟩ := hin x List.mem_cons_self
    exact ⟨_, adrConv_ext hp hadr⟩

theorem fillChunks_places : ∀ {xs ys : List MgmtMeta} {left : List Octet},
    fillChunks t left xs = some ys → ys.map MgmtMeta.place = xs.map MgmtMeta.place := by
  intro xs
  induction xs with
  | nil =>
    intro ys left h
    cases h
    rfl
  | cons x xs ih =>
    intro ys left h
    rw [fillChunks] at h
    split at h
    next link ys' _ hys' =>
      cases h
      rw [List.map_cons, List.map_cons, ih hys', place_fill]
    next => cases h

theorem fillChunks_isSome : ∀ {xs : List MgmtMeta} (left : List Octet),
    (∀ x ∈ xs, x.place ∈ rangeOf t.vPool) →
      ∃ ys, fillChunks t left xs = some ys := by
  intro xs
  induction xs with
  | nil =>
    intro left _
    exact ⟨[], rfl⟩
  | cons x xs ih =>
    intro left hin
    have hrest : ∀ x ∈ xs, x.place ∈ rangeOf t.vPool := fun y hy => hin y (List.mem_cons_of_mem x hy)
    obtain ⟨link, hlink⟩ := linkTo_isSome hrest
    obtain ⟨ys, hys⟩ := ih (left.drop payloadPerChunk) hrest
    exact ⟨_, by rw [fillChunks, hlink, hys]⟩

theorem recoverLoop_filled (hw : ExtWindows t.vPool) {m' : UniqueSet MgmtMeta MgmtMeta.Collide} :
    ∀ {xs ys : List MgmtMeta} {left : List Octet} {ptr : Word} {fuel : Nat},
      (∀ x ∈ xs, x.place ∈ rangeOf t.vPool) → fillChunks t left xs = some ys →
      left.length ≤ payloadPerChunk * xs.length → (∀ y ∈ ys, y ∈ m') →
      linkTo t xs = some ptr → xs.length < fuel →
        recoverLoop { t with m := m' } fuel ptr left.length = some (left, ys) := by
  intro xs
  induction xs with
  | nil =>
    intro ys left ptr fuel _ hys hleft _ hptr hfuel
    cases hys
    cases hptr
    rw [List.length_nil, Nat.mul_zero, Nat.le_zero, List.length_eq_zero_iff] at hleft
    subst hleft
    cases fuel with
    | zero => exact absurd hfuel (Nat.not_lt_zero _)
    | succ fuel => exact if_pos rfl
  | cons x xs ih =>
    intro ys left ptr fuel hin hys hleft hmem hptr hfuel
    cases fuel with
    | zero => exact absurd hfuel (Nat.not_lt_zero _)
    | succ fuel =>
      have hrest : ∀ x ∈ xs, x.place ∈ rangeOf t.vPool :=
        fun y hy => hin y (List.mem_cons_of_mem x hy)
      obtain ⟨p, hp, hadr⟩ := hin x List.mem_cons_self
      change t.vPool[x.cpu.toNat]? = some p at hp
      change p.consts.IsChunk x.adr at hadr
      obtain ⟨link, hlink⟩ := linkTo_isSome hrest
      obtain ⟨ys', hys'⟩ := fillChunks_isSome (left.drop payloadPerChunk) hrest
      rw [fillChunks, hlink, hys'] at hys
      cases hys
      change t.adrConv .MGMT .EXT x.cpu x.adr = some ptr at hptr
      rw [adrConv_ext hp hadr] at hptr
      cases hptr
      have hnull := hw.extAdr_ne_null hp hadr
      have hcpu : AllocTable.getCpuFromExtAdr { t with m := m' } (x.adr + p.consts.extBaseAdr) =
          x.cpu := hw.getCpuFromExtAdr_eq hp hadr
      have hback : t.adrConv .EXT .MGMT x.cpu (x.adr + p.consts.extBaseAdr) = some x.adr := by
        unfold AllocTable.adrConv Space.adrConv
        rw [hp]
        dsimp only
        rw [if_neg hnull, BitVec.add_sub_cancel]
      have hfound : AllocTable.lookupMgmt { t with m := m' } x.cpu x.adr = some
          (x.fill (left.take payloadPerChunk) (List.length_take_le ..) link) :=
        AllocTable.lookupMgmt_eq (t := { t with m := m' }) (hmem _ List.mem_cons_self)
      have htail := @ih ys' (left.drop payloadPerChunk) link fuel hrest hys'
        (by rw [List.length_drop]; rw [List.length_cons, Nat.mul_succ] at hleft; omega)
        (fun y hy => hmem y (List.mem_cons_of_mem _ hy)) hlink
        (by rw [List.length_cons] at hfuel; omega)
      have hcopy : min left.length payloadPerChunk = (left.take payloadPerChunk).length := by
        rw [List.length_take, Nat.min_comm]
      have hdrop : left.length - min left.length payloadPerChunk =
          (left.drop payloadPerChunk).length := by
        rw [List.length_drop]
        omega
      rw [recoverLoop, if_neg hnull]
      dsimp only
      rw [hcpu, show AllocTable.adrConv { t with m := m' } .EXT .MGMT x.cpu
        (x.adr + p.consts.extBaseAdr) = some x.adr from hback, Option.bind_some, hfound]
      dsimp only
      rw [link_fill, hdrop, htail]
      dsimp only
      rw [hcopy, take_fill, List.take_append_drop]

end Chain

/-! ### Storing and recovering -/

/-- The management list of an `AllocTable`. -/
structure MgmtStore where
  table : AllocTable
  mgmtStartAdr : Word
  mgmtTotalSize : Word

theorem mgmtInOrder_perm (t : AllocTable) : t.mgmtInOrder.Perm t.m.entries :=
  List.mergeSort_perm ..

theorem fillChunks_apart {t : AllocTable} {s : List Octet} {ys : List MgmtMeta}
    (h : fillChunks t s t.mgmtInOrder = some ys) : ys.Pairwise fun x y => ¬ MgmtMeta.Collide x y := by
  have hnodup : (t.m.entries.map MgmtMeta.place).Nodup :=
    List.pairwise_map.2 t.m.apart
  rw [← ((mgmtInOrder_perm t).map MgmtMeta.place).nodup_iff, ← fillChunks_places h] at hnodup
  exact List.pairwise_map.1 hnodup

namespace MgmtStore

variable (T : MgmtStore)

def firstAdr : Option Word :=
  match T.table.mgmtInOrder with
  | [] => some T.mgmtStartAdr
  | first :: _ => T.table.adrConv .MGMT .EXT first.cpu first.adr

def populateMgmt (serialisedContainer : List Octet) : Option MgmtStore :=
  match T.firstAdr, h : fillChunks T.table serialisedContainer T.table.mgmtInOrder with
  | some mgmtStartAdr, some ys =>
    some
      { table := { T.table with m := ⟨ys, fillChunks_apart h⟩ }
        mgmtStartAdr
        mgmtTotalSize := BitVec.ofNat 32 serialisedContainer.length }
  | _, _ => none

/-- `recoverMgmt`, for at most `fuel` links. -/
def recoverMgmt (fuel : Nat) : Option (List Octet × List MgmtMeta) :=
  recoverLoop T.table fuel T.mgmtStartAdr T.mgmtTotalSize.toNat

/-- The data comes back, along a list that ends and passes every chunk of the table once. -/
def Recovers (serialisedContainer : List Octet) : Prop :=
  ∃ T', T.populateMgmt serialisedContainer = some T' ∧
    ∃ seen, seen.Perm T'.table.m.entries ∧ seen.Nodup ∧
      ∀ fuel, T'.table.m.entries.length < fuel →
        T'.recoverMgmt fuel = some (serialisedContainer, seen)

variable {T}

/-- **Round trip**, where the chunks hold the data. -/
theorem recovers_of_fits {s : List Octet} (hw : ExtWindows T.table.vPool)
    (hin : mgmtOf T.table.m ⊆ rangeOf T.table.vPool)
    (hstart : T.table.m.entries = [] → T.mgmtStartAdr = lm32NullPtr)
    (hfits : s.length ≤ payloadPerChunk * T.table.m.entries.length) (hsize : s.length < 2 ^ 32) :
    T.Recovers s := by
  have hperm := mgmtInOrder_perm T.table
  have hplaces : ∀ x ∈ T.table.mgmtInOrder, x.place ∈ rangeOf T.table.vPool :=
    fun x hx => hin ⟨x, hperm.mem_iff.1 hx, rfl⟩
  obtain ⟨ys, hys⟩ := fillChunks_isSome s hplaces
  have htotal : (BitVec.ofNat 32 s.length).toNat = s.length := by
    rw [BitVec.toNat_ofNat, Nat.mod_eq_of_lt hsize]
  have hlen : ys.length = T.table.mgmtInOrder.length := by
    have hmap := congrArg List.length (fillChunks_places hys)
    rwa [List.length_map, List.length_map] at hmap
  have hleft : s.length ≤ payloadPerChunk * T.table.mgmtInOrder.length := by
    rw [hperm.length_eq]
    exact hfits
  have hlink : ∃ ptr, linkTo T.table T.table.mgmtInOrder = some ptr ∧ T.firstAdr = some ptr := by
    unfold firstAdr
    cases horder : T.table.mgmtInOrder with
    | nil =>
      rw [horder] at hperm
      exact ⟨_, rfl, congrArg some (hstart hperm.symm.eq_nil)⟩
    | cons first rest =>
      obtain ⟨p, hp, hadr⟩ := hplaces first (by rw [horder]; exact List.mem_cons_self)
      exact ⟨_, adrConv_ext hp hadr, adrConv_ext hp hadr⟩
  obtain ⟨ptr, hptr, hfirst⟩ := hlink
  have hpopulated : T.populateMgmt s = some
      { table := { T.table with m := ⟨ys, fillChunks_apart hys⟩ }
        mgmtStartAdr := ptr
        mgmtTotalSize := BitVec.ofNat 32 s.length } := by
    unfold populateMgmt
    split
    next ptr' ys' hptr' hys' =>
      rw [hys] at hys'
      rw [hfirst] at hptr'
      cases hys'
      cases hptr'
      rfl
    next hnone => exact absurd hys (hnone ptr ys hfirst)
  refine ⟨_, hpopulated, ys, List.Perm.refl ys, ?_, fun fuel hfuel => ?_⟩
  · exact (fillChunks_apart hys).imp fun hcollide heq => hcollide (by rw [heq]; rfl)
  · unfold recoverMgmt
    dsimp only
    rw [htotal]
    exact recoverLoop_filled hw hplaces hys hleft (fun y hy => hy) hptr (by rw [← hlen]; exact hfuel)

end MgmtStore

end DataMaster
