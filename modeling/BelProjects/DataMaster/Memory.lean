import Mathlib.Logic.Function.Basic
import Mathlib.Data.BitVec

/-!
# Memory of a Data Master CPU

All data of the firmware lives in RAM that the host and the other CPUs reach over
the bus: the control area of the CPU (scheduler heap, thread records, staging
areas) and the nodes of the schedule.  Memory is therefore one flat map from word
addresses to 32-bit words, and a pointer is the 32-bit value the firmware stores,
so a stray pointer may name any word of it.

A CPU sees its own RAM at `INT_BASE_ADR`; every other address is a bus address.
Time stamps are two words, the high word first.
-/

namespace DataMaster

abbrev Word := BitVec 32

/-- A time in ns, as `uint64_t`. -/
abbrev Time := BitVec 64

abbrev Mem := Nat → Word

/-- `INT_BASE_ADR`: own RAM as the CPU sees it. -/
def intBaseAdr : Word := 0x10000000

/-- Offset of `_startshared`, the control area, in the RAM. -/
def sharedOffs : Nat := 0x500

/-- `_SHCTL_END_`: size of the control area in bytes. -/
def shctlEnd : Nat := 820

/-- What differs between CPUs and gateware builds. -/
structure Platform where
  /-- `RAM_SIZE` of the build, in bytes. -/
  ramSize : Word
  /-- Bus word address at which the RAM of this CPU starts. -/
  peerBase : Nat
  ramHolds : sharedOffs + shctlEnd ≤ ramSize.toNat

variable (P : Platform)

/-- The word a pointer reaches. The bus ignores the two lowest address bits. -/
def Platform.adr (ptr : Word) : Nat :=
  if (ptr - intBaseAdr).toNat < P.ramSize.toNat then
    P.peerBase + (ptr - intBaseAdr).toNat / 4
  else ptr.toNat / 4

def Platform.peerAdrMsk : Word := P.ramSize - 1

/-- `*ptr` for a `uint32_t*`. -/
def Platform.ld (m : Mem) (ptr : Word) : Word := m (P.adr ptr)

/-- `*ptr = v` for a `uint32_t*`. -/
def Platform.st (m : Mem) (ptr v : Word) : Mem := Function.update m (P.adr ptr) v

/-- `*ptr` for a `uint64_t*`. -/
def Platform.ld64 (m : Mem) (ptr : Word) : Time := P.ld m ptr ++ P.ld m (ptr + 4)

def hiW (dword : Time) : Word := dword.extractLsb' 32 32

def loW (dword : Time) : Word := dword.extractLsb' 0 32

/-- `*ptr = v` for a `uint64_t*`. -/
def Platform.st64 (m : Mem) (ptr : Word) (v : Time) : Mem :=
  P.st (P.st m ptr (hiW v)) (ptr + 4) (loW v)

theorem hiW_append_loW (v : Time) : hiW v ++ loW v = v := by
  apply BitVec.eq_of_getLsbD_eq
  intro i hi
  simp only [hiW, loW, BitVec.getLsbD_append, BitVec.getLsbD_extractLsb']
  by_cases h : i < 32
  · simp [h]
  · simp [h, show i - 32 < 32 by omega, show 32 + (i - 32) = i by omega]

/-! ### Stores and loads -/

theorem Platform.st_apply (m : Mem) (ptr v : Word) (a : Nat) :
    P.st m ptr v a = if a = P.adr ptr then v else m a := by
  simp only [Platform.st, Function.update_apply]

theorem Platform.st_other {m : Mem} {ptr v : Word} {a : Nat} (h : a ≠ P.adr ptr) :
    P.st m ptr v a = m a := by
  rw [P.st_apply, if_neg h]

theorem Platform.st64_other {m : Mem} {ptr : Word} {v : Time} {a : Nat}
    (hhi : a ≠ P.adr ptr) (hlo : a ≠ P.adr (ptr + 4)) : P.st64 m ptr v a = m a := by
  rw [Platform.st64, P.st_other hlo, P.st_other hhi]

theorem Platform.ld_st_same (m : Mem) (ptr v : Word) : P.ld (P.st m ptr v) ptr = v := by
  simp only [Platform.ld, Platform.st, Function.update_self]

theorem Platform.ld_st_other {m : Mem} {ptr ptr' v : Word} (h : P.adr ptr' ≠ P.adr ptr) :
    P.ld (P.st m ptr v) ptr' = P.ld m ptr' := by
  rw [Platform.ld, P.st_other h, Platform.ld]

theorem Platform.ld64_st64_same {m : Mem} {ptr : Word} {v : Time}
    (h : P.adr ptr ≠ P.adr (ptr + 4)) : P.ld64 (P.st64 m ptr v) ptr = v := by
  rw [Platform.ld64, Platform.st64, P.ld_st_same, P.ld_st_other h, P.ld_st_same,
    hiW_append_loW]

theorem Platform.ld64_congr {m m' : Mem} {ptr : Word} (hhi : m' (P.adr ptr) = m (P.adr ptr))
    (hlo : m' (P.adr (ptr + 4)) = m (P.adr (ptr + 4))) : P.ld64 m' ptr = P.ld64 m ptr := by
  rw [Platform.ld64, Platform.ld64, Platform.ld, Platform.ld, hhi, hlo]
  rfl

/-! ### The control area -/

/-- The pointer `p + offs / 4` into the control area. -/
def shared (offs : Nat) : Word := intBaseAdr + BitVec.ofNat 32 (sharedOffs + offs)

/-- Word address of offset `offs` in the control area of this CPU. -/
def Platform.ctl (offs : Nat) : Nat := P.peerBase + (sharedOffs + offs) / 4

theorem Platform.adr_shared {offs : Nat} (h : offs < shctlEnd) :
    P.adr (shared offs) = P.ctl offs := by
  have hram := P.ramHolds
  have hend : shctlEnd = 820 := rfl
  have hoffs : sharedOffs = 1280 := rfl
  have hdiff : (shared offs - intBaseAdr).toNat = sharedOffs + offs := by
    rw [shared, BitVec.add_comm, BitVec.add_sub_cancel, BitVec.toNat_ofNat]
    omega
  rw [Platform.adr, hdiff, if_pos (by omega), Platform.ctl]

theorem Platform.ctl_inj {o o' : Nat} (h : P.ctl o = P.ctl o') (ho : o % 4 = 0)
    (ho' : o' % 4 = 0) : o = o' := by
  simp only [Platform.ctl, sharedOffs] at h
  omega

theorem shared_add (offs d : Nat) : shared offs + BitVec.ofNat 32 d = shared (offs + d) := by
  rw [shared, shared, BitVec.add_assoc, ← BitVec.ofNat_add, Nat.add_assoc]

/-! ### Single bits -/

theorem getLsbD_bit {i j : Nat} (hi : i < 32) : (1#32 <<< i).getLsbD j = decide (j = i) := by
  simp only [BitVec.getLsbD_shiftLeft, BitVec.getLsbD_one]
  by_cases hji : j = i
  · subst hji; simp [hi]
  · simp only [hji, decide_false]
    by_cases hlt : j < i
    · simp [hlt]
    · simp [show ¬ j - i = 0 by omega]

theorem and_bit_ne_zero {w : Word} {i : Nat} (hi : i < 32) :
    w &&& (1#32 <<< i) ≠ 0 ↔ w.getLsbD i = true := by
  constructor
  · intro hne
    by_contra hbit
    apply hne
    apply BitVec.eq_of_getLsbD_eq
    intro j _
    rw [BitVec.getLsbD_and, getLsbD_bit hi]
    by_cases hji : j = i
    · subst hji; simp [hbit]
    · simp [hji]
  · intro hbit hzero
    have hbit' := congrArg (fun v : Word => v.getLsbD i) hzero
    simp [BitVec.getLsbD_and, getLsbD_bit hi, hbit] at hbit'

end DataMaster
