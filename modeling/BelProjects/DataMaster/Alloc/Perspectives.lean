import BelProjects.DataMaster.Alloc.MgmtList

/-!
# One chunk, four addresses

The same chunk has one address for each perspective: its offset in the RAM in the management
tables, and the offset from another base for the host, for the CPU itself and for the other
CPUs.  The conversions lead from one to the other, and the windows tell which CPU an address
belongs to.  Windows may meet: the upper limit of a search is the last address of a RAM in the
hardware, but its size in the simulation.  No chunk lies there.
-/

namespace DataMaster

/-- The address of offset `off` from a perspective. -/
def Space.view (S : Space) (off : Word) : AdrType → Word
  | .EXT => off + S.extBaseAdr
  | .INT => off + S.intBaseAdr
  | .PEER => off + S.peerBaseAdr
  | .MGMT | .UNKNOWN => off

def AdrType.IsPerspective (ty : AdrType) : Prop := ty ≠ .UNKNOWN

namespace Space

variable {S : Space} {off : Word}

/-- A chunk ends in the RAM, so it does not begin with the last byte. -/
theorem chunk_lt (h : S.IsChunk off) : off.toNat < S.rawSize.toNat := by
  obtain ⟨i, -, hi, hadr⟩ := S.isChunk_iff.1 h
  have hram := S.sharedInRam
  have hqty := S.nodeQty_le
  have hbmp := S.bmpOffs_toNat
  unfold shctlEnd at hram
  omega

/-- A sum that does not wrap. -/
theorem toNat_add_base {base : Word} (hpos : 0 < off.toNat)
    (hfits : base.toNat + off.toNat < 2 ^ 32) :
    (off + base).toNat = base.toNat + off.toNat ∧ off + base ≠ lm32NullPtr := by
  have hval : (off + base).toNat = base.toNat + off.toNat := by
    rw [BitVec.toNat_add, Nat.add_comm, Nat.mod_eq_of_lt hfits]
  refine ⟨hval, fun hnull => ?_⟩
  rw [hnull] at hval
  change 0 = _ at hval
  omega

/-- No perspective shows a byte behind the first one at address 0. -/
theorem view_ne_null (hpos : 0 < off.toNat) (hle : off.toNat ≤ S.rawSize.toNat)
    (hext : S.extBaseAdr.toNat + S.rawSize.toNat < 2 ^ 32) (ty : AdrType) :
    S.view off ty ≠ lm32NullPtr := by
  have hint := S.intLow
  have hpeer := S.peerFits
  change _ < 2147483648 at hint
  have hoff : off ≠ lm32NullPtr := by
    rintro rfl
    exact Nat.lt_irrefl 0 hpos
  cases ty with
  | EXT => exact (toNat_add_base hpos (by omega)).2
  | INT => exact (toNat_add_base hpos (by omega)).2
  | PEER => exact (toNat_add_base hpos (by omega)).2
  | MGMT => exact hoff
  | UNKNOWN => exact hoff

theorem adrConv_view {src dst : AdrType} (hnull : S.view off src ≠ lm32NullPtr)
    (hsrc : src.IsPerspective) (hdst : dst.IsPerspective) (hne : src ≠ dst) :
    S.adrConv src dst (S.view off src) = some (S.view off dst) := by
  have hsub : ∀ base : Word, off + base - base = off := fun base => BitVec.add_sub_cancel _ _
  unfold adrConv
  rw [if_neg hnull]
  cases src <;> cases dst <;>
    first
    | exact absurd rfl hsrc
    | exact absurd rfl hdst
    | exact absurd rfl hne
    | rfl
    | exact congrArg some (hsub _)
    | exact congrArg (fun a => some (a + _)) (hsub _)

end Space

/-- What the conversions and the searches do for an address of CPU `c`. -/
structure Recognised (t : AllocTable) (c : CpuIdx) (S : Space) (off : Word) : Prop where
  ext : t.getCpuFromExtAdr (S.view off .EXT) = c
  peer : t.adrClassification (S.view off .PEER) = (c, .PEER)
  int : (t.adrClassification (S.view off .INT)).2 = .INT

section Recognised

variable {t : AllocTable} {c : CpuIdx} {p : MemPool} (hp : t.vPool[c.toNat]? = some p) {off : Word}
include hp

/-- The searches find the CPU if they find its pool. -/
theorem Recognised.of_firstPool
    (hext : t.firstPool Space.extBaseAdr (p.consts.view off .EXT) = some c.toNat)
    (hpeer : t.firstPool Space.peerBaseAdr (p.consts.view off .PEER) = some c.toNat)
    (hpeerHigh : worldBaseAdr ≤ p.consts.view off .PEER)
    (hint : p.consts.InWindow Space.intBaseAdr (p.consts.view off .INT)) :
    Recognised t c p.consts off := by
  have hidx : BitVec.ofNat 8 c.toNat = c := by rw [BitVec.ofNat_toNat, BitVec.setWidth_eq]
  refine ⟨?_, ?_, ?_⟩
  · rw [AllocTable.getCpuFromExtAdr, hext]
    exact hidx
  · rw [AllocTable.adrClassification, if_pos hpeerHigh, hpeer]
    dsimp only
    rw [hidx]
  · have hlow := p.consts.intLow
    obtain ⟨hge, hle⟩ := hint
    have hsum : (p.consts.intBaseAdr + p.consts.rawSize).toNat =
        p.consts.intBaseAdr.toNat + p.consts.rawSize.toNat := by
      change _ < 2147483648 at hlow
      rw [BitVec.toNat_add, Nat.mod_eq_of_lt (by omega)]
    rw [AllocTable.adrClassification, if_neg (by rw [BitVec.le_def]; omega)]
    split
    · rfl
    · rename_i hnone
      rw [AllocTable.firstPool, List.findIdx?_eq_none_iff] at hnone
      have hout := hnone p (List.mem_of_getElem? hp)
      rw [Bool.and_eq_false_iff, decide_eq_false_iff_not, decide_eq_false_iff_not,
        BitVec.le_def, BitVec.le_def, hsum] at hout
      omega

end Recognised

/-- **Addresses of chunks**: for every configuration whose windows for the host and for the
other CPUs do not overlap, the conversions between any two perspectives of a chunk are inverse
to each other, and the searches find the chunk's CPU.  Where the windows do not even meet, the
searches find the CPU of every address, from the first to the last of its RAM. -/
theorem chunk_addresses {t : AllocTable} (hext : Windows Space.extBaseAdr t.vPool)
    (hpeer : Windows Space.peerBaseAdr t.vPool) {c : CpuIdx} {p : MemPool}
    (hp : t.vPool[c.toNat]? = some p) :
    (∀ off, p.consts.IsChunk off →
      (∀ src dst : AdrType, src.IsPerspective → dst.IsPerspective → src ≠ dst →
        t.adrConv src dst c (p.consts.view off src) = some (p.consts.view off dst) ∧
        t.adrConv dst src c (p.consts.view off dst) = some (p.consts.view off src)) ∧
      Recognised t c p.consts off) ∧
    (WindowsApart Space.extBaseAdr t.vPool → WindowsApart Space.peerBaseAdr t.vPool →
      ∀ off, off.toNat ≤ p.consts.rawSize.toNat → Recognised t c p.consts off) := by
  have hmem := List.mem_of_getElem? hp
  have hextFits := hext.fits p hmem
  have hpeerFits := hpeer.fits p hmem
  have hpeerHigh := p.consts.peerHigh
  have hintLow := p.consts.intLow
  have hworld : worldBaseAdr.toNat = 2147483648 := rfl
  have hval : ∀ (base off : Word), base.toNat + off.toNat < 2 ^ 32 →
      (off + base).toNat = base.toNat + off.toNat := by
    intro base off hfits
    rw [BitVec.toNat_add, Nat.add_comm, Nat.mod_eq_of_lt hfits]
  constructor
  · intro off hoff
    obtain ⟨hpos, hle⟩ := p.consts.chunk_inRam hoff
    have hlt := Space.chunk_lt hoff
    constructor
    · intro src dst hsrc hdst hne
      have hconv : ∀ src dst : AdrType, src.IsPerspective → dst.IsPerspective → src ≠ dst →
          t.adrConv src dst c (p.consts.view off src) = some (p.consts.view off dst) := by
        intro src dst hsrc hdst hne
        rw [AllocTable.adrConv, hp]
        exact Space.adrConv_view (Space.view_ne_null hpos hle hextFits src) hsrc hdst hne
      exact ⟨hconv src dst hsrc hdst hne, hconv dst src hdst hsrc hne.symm⟩
    · have he := hval p.consts.extBaseAdr off (by omega)
      have hq := hval p.consts.peerBaseAdr off (by omega)
      have hi := hval p.consts.intBaseAdr off (by omega)
      refine Recognised.of_firstPool hp ?_ ?_ ?_ ?_
      · exact hext.firstPool_inside hp (by simp only [Space.view]; omega)
          (by simp only [Space.view]; omega)
      · exact hpeer.firstPool_inside hp (by simp only [Space.view]; omega)
          (by simp only [Space.view]; omega)
      · rw [BitVec.le_def]
        simp only [Space.view]
        omega
      · constructor <;> simp only [Space.view] <;> omega
  · intro hextApart hpeerApart off hle
    have he := hval p.consts.extBaseAdr off (by omega)
    have hq := hval p.consts.peerBaseAdr off (by omega)
    have hi := hval p.consts.intBaseAdr off (by omega)
    refine Recognised.of_firstPool hp ?_ ?_ ?_ ?_
    · exact hext.firstPool_disjoint hp hextApart (by
        constructor <;> simp only [Space.view] <;> omega)
    · exact hpeer.firstPool_disjoint hp hpeerApart (by
        constructor <;> simp only [Space.view] <;> omega)
    · rw [BitVec.le_def]
      simp only [Space.view]
      omega
    · constructor <;> simp only [Space.view] <;> omega

def neighbourRam (second : Bool) : Space where
  extBaseAdr := if second then 0x4140000 else 0x4120000
  intBaseAdr := 0x10000000
  peerBaseAdr := if second then 0x84140000 else 0x84120000
  sharedOffs := 0x500
  space := 208
  rawSize := 0x1ffff
  sharedInRam := by cases second <;> decide
  intLow := by cases second <;> decide
  peerHigh := by cases second <;> decide
  peerFits := by cases second <;> decide

def neighbourTable : AllocTable where
  a := .empty
  m := .empty
  vPool := [MemPool.new (neighbourRam false), MemPool.new (neighbourRam true)]

theorem neighbourRam_consts (second : Bool) :
    (MemPool.new (neighbourRam second)).consts = neighbourRam second := rfl

/-- The first address of the second RAM, behind the last one of the first. -/
theorem chunk_addresses_neighbour :
    Recognised neighbourTable 1 (MemPool.new (neighbourRam true)).consts 0 := by
  have hwindows : Windows Space.extBaseAdr neighbourTable.vPool ∧
      Windows Space.peerBaseAdr neighbourTable.vPool := by
    constructor <;>
    · constructor
      · intro p hp
        rcases List.mem_pair.mp hp with rfl | rfl
        · rw [neighbourRam_consts]
          decide
        · rw [neighbourRam_consts]
          decide
      · rw [neighbourTable, List.pairwise_pair, neighbourRam_consts, neighbourRam_consts]
        decide
  have hdisjoint : WindowsApart Space.extBaseAdr neighbourTable.vPool ∧
      WindowsApart Space.peerBaseAdr neighbourTable.vPool := by
    constructor <;>
    · rw [WindowsApart, neighbourTable, List.pairwise_pair, neighbourRam_consts, neighbourRam_consts]
      decide
  exact (chunk_addresses hwindows.1 hwindows.2 (t := neighbourTable) (c := 1)
    (p := MemPool.new (neighbourRam true)) rfl).2 hdisjoint.1 hdisjoint.2 0 (Nat.zero_le _)

end DataMaster
