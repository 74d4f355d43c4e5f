import BelProjects.DataMaster.Alloc.Holding

/-!
# Addresses of nodes

A node has one address in the allocation table, its offset in the RAM, and others for
the host, for the CPU that owns the RAM and for the other CPUs.
-/

namespace DataMaster

inductive AdrType
  | EXT | INT | MGMT | PEER | UNKNOWN
  deriving DecidableEq, Repr

/-- `adrConv`, with the base addresses of one pool. Other pairs of address types raise an
exception. -/
def Space.adrConv (S : Space) (src dst : AdrType) (a : Word) : Option Word :=
  if a = lm32NullPtr then some a
  else
    match src, dst with
    | .EXT, .MGMT => some (a - S.extBaseAdr)
    | .EXT, .PEER => some (a - S.extBaseAdr + S.peerBaseAdr)
    | .EXT, .INT => some (a - S.extBaseAdr + S.intBaseAdr)
    | .INT, .MGMT => some (a - S.intBaseAdr)
    | .INT, .EXT => some (a - S.intBaseAdr + S.extBaseAdr)
    | .INT, .PEER => some (a - S.intBaseAdr + S.peerBaseAdr)
    | .PEER, .MGMT => some (a - S.peerBaseAdr)
    | .PEER, .EXT => some (a - S.peerBaseAdr + S.extBaseAdr)
    | .PEER, .INT => some (a - S.peerBaseAdr + S.intBaseAdr)
    | .MGMT, .EXT => some (a + S.extBaseAdr)
    | .MGMT, .INT => some (a + S.intBaseAdr)
    | .MGMT, .PEER => some (a + S.peerBaseAdr)
    | _, _ => none

namespace AllocTable

variable (t : AllocTable)

def adrConv (src dst : AdrType) (cpu : CpuIdx) (a : Word) : Option Word :=
  match t.vPool[cpu.toNat]? with
  | some p => p.consts.adrConv src dst a
  | none => none

/-- The first pool whose RAM, seen from `base`, holds the address. -/
def firstPool (base : Space → Word) (a : Word) : Option Nat :=
  t.vPool.findIdx? fun p =>
    decide (base p.consts ≤ a) && decide (a ≤ base p.consts + p.consts.rawSize)

def adrClassification (a : Word) : CpuIdx × AdrType :=
  if worldBaseAdr ≤ a then
    match t.firstPool Space.peerBaseAdr a with
    | some i => (BitVec.ofNat 8 i, .PEER)
    | none => (-1, .UNKNOWN)
  else
    match t.firstPool Space.intBaseAdr a with
    | some i => (BitVec.ofNat 8 i, .INT)
    | none => (-1, .UNKNOWN)

def lookupAdr (cpu : CpuIdx) (adr : Word) : Option AllocMeta :=
  t.a.entries.find? fun e => e.cpu == cpu && e.adr == adr

/-! ### Own addresses -/

variable {t}

theorem lookupHash_eq {hash : Word} {e : AllocMeta} :
    t.lookupHash hash = some e ↔ e ∈ t.a ∧ e.hash = hash := by
  unfold lookupHash
  constructor
  · intro h
    exact ⟨List.mem_of_find?_eq_some h, by simpa using List.find?_some h⟩
  · rintro ⟨he, hhash⟩
    cases hfind : t.a.entries.find? (fun x => x.hash == hash) with
    | none =>
      rw [List.find?_eq_none] at hfind
      exact absurd (beq_iff_eq.2 hhash) (hfind e he)
    | some x =>
      have hx : x ∈ t.a := List.mem_of_find?_eq_some hfind
      have hxhash : x.hash = hash := by simpa using List.find?_some hfind
      rw [UniqueSet.eq_of_collide hx he (Or.inr (Or.inl (hxhash.trans hhash.symm)))]

theorem lookupAdr_eq {cpu : CpuIdx} {adr : Word} {e : AllocMeta} :
    t.lookupAdr cpu adr = some e ↔ e ∈ t.a ∧ e.cpu = cpu ∧ e.adr = adr := by
  unfold lookupAdr
  constructor
  · intro h
    have hkey := List.find?_some h
    rw [Bool.and_eq_true, beq_iff_eq, beq_iff_eq] at hkey
    exact ⟨List.mem_of_find?_eq_some h, hkey⟩
  · rintro ⟨he, hcpu, hadr⟩
    cases hfind : t.a.entries.find? (fun x => x.cpu == cpu && x.adr == adr) with
    | none =>
      rw [List.find?_eq_none] at hfind
      exact absurd (by simp [hcpu, hadr]) (hfind e he)
    | some x =>
      have hx : x ∈ t.a := List.mem_of_find?_eq_some hfind
      have hkey := List.find?_some hfind
      rw [Bool.and_eq_true, beq_iff_eq, beq_iff_eq] at hkey
      have hplace : x.place = e.place := by
        unfold AllocMeta.place
        rw [hkey.1, hkey.2, hcpu, hadr]
      rw [UniqueSet.eq_of_collide hx he (Or.inr (Or.inr hplace))]

/-- The address at which a CPU sees a chunk of its own RAM. -/
theorem intAdr_toNat {S : Space} {adr : Word} (h : S.IsChunk adr) :
    (adr + S.intBaseAdr).toNat = S.intBaseAdr.toNat + adr.toNat := by
  have hram := S.chunk_inRam h
  have hlow := S.intLow
  change _ < 2147483648 at hlow
  rw [BitVec.toNat_add]
  omega

theorem intAdr_ne_null {S : Space} {adr : Word} (h : S.IsChunk adr) :
    adr + S.intBaseAdr ≠ lm32NullPtr := by
  intro hnull
  have hadr := intAdr_toNat h
  have hram := S.chunk_inRam h
  rw [hnull] at hadr
  change 0 = _ at hadr
  omega

/-- The host recognises such an address as an internal one. -/
theorem adrClassification_int {c : Nat} {p : MemPool} (hp : t.vPool[c]? = some p) {adr : Word}
    (h : p.consts.IsChunk adr) :
    (t.adrClassification (adr + p.consts.intBaseAdr)).2 = .INT := by
  have hadr := intAdr_toNat h
  have hram := p.consts.chunk_inRam h
  have hlow := p.consts.intLow
  have hfound : t.firstPool Space.intBaseAdr (adr + p.consts.intBaseAdr) ≠ none := by
    intro hnone
    unfold firstPool at hnone
    rw [List.findIdx?_eq_none_iff] at hnone
    have hout := hnone p (List.mem_of_getElem? hp)
    have hsum : (p.consts.intBaseAdr + p.consts.rawSize).toNat =
        p.consts.intBaseAdr.toNat + p.consts.rawSize.toNat := by
      change _ < 2147483648 at hlow
      rw [BitVec.toNat_add]
      omega
    have hge : p.consts.intBaseAdr ≤ adr + p.consts.intBaseAdr := by
      rw [BitVec.le_def, hadr]
      omega
    have hle : adr + p.consts.intBaseAdr ≤ p.consts.intBaseAdr + p.consts.rawSize := by
      rw [BitVec.le_def, hadr, hsum]
      omega
    rw [decide_eq_true hge, decide_eq_true hle] at hout
    cases hout
  unfold adrClassification
  rw [if_neg (by rw [BitVec.le_def, hadr]; omega)]
  split
  next => rfl
  next hnone => exact absurd hnone hfound

end AllocTable

/-! ### Windows -/

/-- The windows in which the RAMs are seen from `base`: none wraps, and where two meet, it is
with the last address of one and the first of the other. -/
structure Windows (base : Space → Word) (vPool : List MemPool) : Prop where
  fits : ∀ p ∈ vPool, (base p.consts).toNat + p.consts.rawSize.toNat < 2 ^ 32
  apart : vPool.Pairwise fun p q =>
    (base p.consts).toNat + p.consts.rawSize.toNat ≤ (base q.consts).toNat ∨
      (base q.consts).toNat + q.consts.rawSize.toNat ≤ (base p.consts).toNat

def WindowsApart (base : Space → Word) (vPool : List MemPool) : Prop :=
  vPool.Pairwise fun p q =>
    (base p.consts).toNat + p.consts.rawSize.toNat < (base q.consts).toNat ∨
      (base q.consts).toNat + q.consts.rawSize.toNat < (base p.consts).toNat

/-- Both ends belong to the window. -/
def Space.InWindow (S : Space) (base : Space → Word) (a : Word) : Prop :=
  (base S).toNat ≤ a.toNat ∧ a.toNat ≤ (base S).toNat + S.rawSize.toNat

namespace Windows

variable {base : Space → Word} {t : AllocTable} (hw : Windows base t.vPool) {c : Nat}
  {p : MemPool} (hp : t.vPool[c]? = some p) {a : Word}
include hw hp

theorem firstPool_eq (ha : p.consts.InWindow base a)
    (hother : ∀ i q, t.vPool[i]? = some q → q.consts.InWindow base a → i = c) :
    t.firstPool base a = some c := by
  have hin : ∀ q ∈ t.vPool, (decide (base q.consts ≤ a) &&
      decide (a ≤ base q.consts + q.consts.rawSize)) = true ↔ q.consts.InWindow base a := by
    intro q hq
    have hfits := hw.fits q hq
    rw [Bool.and_eq_true, decide_eq_true_iff, decide_eq_true_iff, BitVec.le_def, BitVec.le_def,
      BitVec.toNat_add, Nat.mod_eq_of_lt hfits]
    exact Iff.rfl
  have hself := List.mem_of_getElem? hp
  unfold AllocTable.firstPool
  cases hfind : t.vPool.findIdx? fun q =>
      decide (base q.consts ≤ a) && decide (a ≤ base q.consts + q.consts.rawSize) with
  | none =>
    rw [List.findIdx?_eq_none_iff] at hfind
    have hout := hfind p hself
    rw [← Bool.not_eq_true, hin p hself] at hout
    exact absurd ha hout
  | some i =>
    obtain ⟨hi, hpi, -⟩ := List.findIdx?_eq_some_iff_getElem.1 hfind
    have hmem := List.getElem_mem hi
    rw [hother i _ (List.getElem?_eq_getElem hi) ((hin _ hmem).1 hpi)]

/-- An address between the ends of a window. -/
theorem firstPool_inside (hlow : (base p.consts).toNat < a.toNat)
    (hhigh : a.toNat < (base p.consts).toNat + p.consts.rawSize.toNat) :
    t.firstPool base a = some c := by
  refine hw.firstPool_eq hp ⟨hlow.le, hhigh.le⟩ ?_
  rintro i q hq ⟨hqlow, hqhigh⟩
  obtain ⟨hc, rfl⟩ := List.getElem?_eq_some_iff.1 hp
  obtain ⟨hi, rfl⟩ := List.getElem?_eq_some_iff.1 hq
  have hall := List.pairwise_iff_getElem.1 hw.apart
  rcases Nat.lt_trichotomy i c with hlt | heq | hgt
  · have hap := hall i c hi hc hlt
    omega
  · exact heq
  · have hap := hall c i hc hi hgt
    omega

theorem firstPool_disjoint (hdisjoint : WindowsApart base t.vPool)
    (ha : p.consts.InWindow base a) : t.firstPool base a = some c := by
  refine hw.firstPool_eq hp ha ?_
  obtain ⟨hlow, hhigh⟩ := ha
  rintro i q hq ⟨hqlow, hqhigh⟩
  obtain ⟨hc, rfl⟩ := List.getElem?_eq_some_iff.1 hp
  obtain ⟨hi, rfl⟩ := List.getElem?_eq_some_iff.1 hq
  have hall := List.pairwise_iff_getElem.1 hdisjoint
  rcases Nat.lt_trichotomy i c with hlt | heq | hgt
  · have hap := hall i c hi hc hlt
    omega
  · exact heq
  · have hap := hall c i hc hi hgt
    omega

end Windows

end DataMaster
