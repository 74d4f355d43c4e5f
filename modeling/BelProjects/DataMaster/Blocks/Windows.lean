import BelProjects.DataMaster.Blocks.Interleaving
import BelProjects.Library.BitFields

/-!
# The RAM of a CPU as others see it

The CPU that owns a block sees its RAM at the internal base address; other CPUs, the host
and gateways see it in windows of their own.  A pointer of the owner is converted by
replacing one base address with the other.  Where a mask has to find the base address, the
window must be aligned to the size that the mask is made of.
-/

namespace DataMaster

variable (P : Platform)

/-- Through `reach`, the RAM of the CPU is seen from address `b` on. -/
def Window (reach : Word → Nat) (b : Word) : Prop :=
  ∀ offs, offs < P.ramSize.toNat → reach (b + BitVec.ofNat 32 offs) = P.peerBase + offs / 4

/-- The `n` bytes from `ptr` on are in the CPU's own RAM. -/
def InRam (ptr : Word) (n : Nat) : Prop := (ptr - intBaseAdr).toNat + n ≤ P.ramSize.toNat

instance (ptr : Word) (n : Nat) : Decidable (InRam P ptr n) := inferInstanceAs (Decidable (_ ≤ _))

/-- A window of RAM at `b` that is aligned to `size` and not longer. -/
def Aligned (size b : Word) (ram : Nat) : Prop :=
  ∃ k, k < 32 ∧ size = BitVec.ofNat 32 (2 ^ k) ∧ 2 ^ k ∣ b.toNat ∧ ram ≤ 2 ^ k

variable {P}

theorem InRam.pos {ptr : Word} {n : Nat} (h : InRam P ptr n) (hn : 0 < n) :
    (ptr - intBaseAdr).toNat < P.ramSize.toNat := by
  unfold InRam at h
  omega

/-- The bytes behind a pointer, counted from the start of the RAM. -/
theorem InRam.offs_add {ptr : Word} {n d : Nat} (h : InRam P ptr n) (hd : d < n) :
    (ptr + BitVec.ofNat 32 d - intBaseAdr).toNat = (ptr - intBaseAdr).toNat + d := by
  have hsize := P.ramSize.isLt
  unfold InRam at h
  have hcomm : ptr + BitVec.ofNat 32 d - intBaseAdr = ptr - intBaseAdr + BitVec.ofNat 32 d := by
    rw [BitVec.sub_eq_add_neg, BitVec.sub_eq_add_neg, BitVec.add_assoc, BitVec.add_assoc,
      BitVec.add_comm (BitVec.ofNat 32 d)]
  rw [hcomm, BitVec.toNat_add, BitVec.toNat_ofNat]
  omega

theorem InRam.ne_null {ptr : Word} {n : Nat} (h : InRam P ptr n) (hsize : P.ramSize.toNat ≤ 2 ^ 31)
    (hn : 0 < n) : ptr ≠ lm32NullPtr := by
  rintro rfl
  have hpos := h.pos hn
  change 4026531840 < _ at hpos
  omega

theorem InRam.adr {ptr : Word} {n d : Nat} (h : InRam P ptr n) (hd : d < n) :
    P.adr (ptr + BitVec.ofNat 32 d) = P.peerBase + ((ptr - intBaseAdr).toNat + d) / 4 := by
  rw [Platform.adr, h.offs_add hd, if_pos]
  unfold InRam at h
  omega

theorem Window.adr {reach : Word → Nat} {b ptr : Word} {n d : Nat} (hw : Window P reach b)
    (h : InRam P ptr n) (hd : d < n) :
    reach (ptr - intBaseAdr + b + BitVec.ofNat 32 d) = P.adr (ptr + BitVec.ofNat 32 d) := by
  have hptr : ptr - intBaseAdr = BitVec.ofNat 32 (ptr - intBaseAdr).toNat := by
    rw [BitVec.ofNat_toNat, BitVec.setWidth_eq]
  have hsum : ptr - intBaseAdr + b + BitVec.ofNat 32 d =
      b + BitVec.ofNat 32 ((ptr - intBaseAdr).toNat + d) := by
    rw [BitVec.ofNat_add, ← hptr, BitVec.add_comm _ b, BitVec.add_assoc]
  rw [hsum, h.adr hd]
  apply hw
  unfold InRam at h
  omega

theorem window_own : Window P P.adr intBaseAdr := by
  intro offs hoffs
  have hlt : offs < 2 ^ 32 := Nat.lt_trans hoffs P.ramSize.isLt
  have hdiff : (intBaseAdr + BitVec.ofNat 32 offs - intBaseAdr).toNat = offs := by
    rw [BitVec.add_comm, BitVec.add_sub_cancel, BitVec.toNat_ofNat, Nat.mod_eq_of_lt hlt]
  rw [Platform.adr, hdiff, if_pos hoffs]

theorem Aligned.fits {size b : Word} {ram : Nat} (ha : Aligned size b ram) :
    b.toNat + ram ≤ 2 ^ 32 := by
  obtain ⟨k, hk, -, ⟨i, hi⟩, hram⟩ := ha
  obtain ⟨j, hj⟩ : 2 ^ k ∣ 2 ^ 32 := Nat.pow_dvd_pow 2 (Nat.le_of_lt hk)
  have hb := b.isLt
  have hij : i < j := Nat.lt_of_mul_lt_mul_left (by omega : 2 ^ k * i < 2 ^ k * j)
  have hle : 2 ^ k * (i + 1) ≤ 2 ^ k * j := Nat.mul_le_mul_left _ hij
  rw [Nat.mul_add, Nat.mul_one] at hle
  omega

theorem Aligned.base {size b ptr : Word} {n : Nat} (ha : Aligned size b P.ramSize.toNat)
    (h : InRam P ptr n) (hn : 0 < n) : (ptr - intBaseAdr + b) &&& ~~~(size - 1) = b := by
  have hfits := ha.fits
  obtain ⟨k, hk, rfl, hdvd, hram⟩ := ha
  have hoffs := h.pos hn
  have hptr : ptr - intBaseAdr = BitVec.ofNat 32 (ptr - intBaseAdr).toNat := by
    rw [BitVec.ofNat_toNat, BitVec.setWidth_eq]
  have hmask : BitVec.ofNat 32 (2 ^ k) - 1 = BitVec.ofNat 32 (2 ^ k - 1) := by
    have hpow : 2 ^ k < 2 ^ 32 := Nat.pow_lt_pow_right (by decide) hk
    have hpos : 0 < 2 ^ k := Nat.two_pow_pos k
    apply BitVec.eq_of_toNat_eq
    rw [BitVec.toNat_sub, BitVec.toNat_ofNat, BitVec.toNat_ofNat, show (1 : Word).toNat = 1 from rfl]
    omega
  rw [hmask, hptr, BitVec.add_comm]
  exact BitFields.base_of_window hdvd (by omega) (by omega)

/-! ### A block in a window -/

/-- A block whose node, lists and buffers are in the RAM of its CPU. -/
structure RamBlock (P : Platform) (m : Mem) (node : Word) (base : Nat) (lst : Nat → Nat)
    (buf : Nat → Nat → Nat) : Prop where
  layout : BlockLayout P m node base lst buf
  node_ram : InRam P node memBlockSize
  list_ram : ∀ q, q < 3 → P.hasQueue m node q = true → InRam P (m (base + (3 + q))) memBlockSize
  buf_ram : ∀ q, q < 3 → P.hasQueue m node q = true → ∀ j, j < 2 →
    InRam P (m (lst q + j)) memBlockSize

section Block

variable {m : Mem} {node : Word} {base : Nat} {lst : Nat → Nat} {buf : Nat → Nat → Nat}
  (hb : RamBlock P m node base lst buf) {reach : Word → Nat} {b : Word} (hw : Window P reach b)
include hb hw

theorem RamBlock.node_word {k : Nat} (hk : k < 13) :
    reach (node - intBaseAdr + b + BitVec.ofNat 32 (4 * k)) = base + k := by
  rw [hw.adr hb.node_ram (by change 4 * k < 52; omega), hb.layout.node_adr k hk]

theorem RamBlock.list_word {q k : Nat} (hq : q < 3) (hex : P.hasQueue m node q = true) (hk : k < 2) :
    reach (m (base + (3 + q)) - intBaseAdr + b + BitVec.ofNat 32 (k * 4)) = lst q + k := by
  have hlist := hb.layout.list_adr q hq hex k hk
  rw [queueList, Platform.ld, hb.layout.adr_queuePtr hq] at hlist
  rw [hw.adr (hb.list_ram q hq hex) (by change k * 4 < 52; omega), hlist]

theorem RamBlock.buf_word {q j k : Nat} (hq : q < 3) (hex : P.hasQueue m node q = true)
    (hj : j < 2) (hk : k < 10) :
    reach (m (lst q + j) - intBaseAdr + b + BitVec.ofNat 32 (4 * k)) = buf q j + k := by
  rw [hw.adr (hb.buf_ram q hq hex j hj) (by change 4 * k < 52; omega), hb.layout.buf_adr q hq hex j hj k hk]

end Block

theorem RamBlock.cmdReaches {P' : Platform} {m : Mem} {node cnode b : Word} {base : Nat}
    {lst : Nat → Nat} {buf : Nat → Nat → Nat} (hb : RamBlock P m node base lst buf)
    (hw : Window P P'.adr b) (ha : Aligned P'.ramSize b P.ramSize.toNat)
    (htg : cmdTg P' m cnode = node - intBaseAdr + b)
    (hthree : P'.hasQueue m (cmdTg P' m cnode) 3 = false)
    (hsrc : ∃ a, (∀ k, k < 13 → P'.adr (cnode + BitVec.ofNat 32 (4 * k)) = a + k) ∧
      Apart a 13 base 13 ∧ ∀ k, k < 13 → OffQueues P m node base lst buf (a + k))
    (hctl : ∀ o, o < shctlEnd → OffQueues P m node base lst buf (P'.ctl o))
    (hctl_node : Apart base 13 (P'.ctl 0) 205) : CmdReaches P P' m node cnode base lst buf := by
  have hptr : ∀ ptr, peerPtr P' (cmdTg P' m cnode) ptr = ptr - intBaseAdr + b := by
    intro ptr
    rw [peerPtr, htg, Platform.peerAdrMsk, ha.base hb.node_ram (by decide)]
  refine ⟨?_, ?_, ?_, hthree, hsrc, hctl, hctl_node⟩
  · intro k hk
    rw [htg]
    exact hb.node_word hw hk
  · intro q hq hex k hk
    rw [hptr]
    exact hb.list_word hw hq hex hk
  · intro q hq hex j hj k hk
    rw [hptr]
    exact hb.buf_word hw hq hex hj hk

end DataMaster
