import Mathlib.Data.BitVec
import Mathlib.Data.List.Basic

/-!
# Bitmaps in a byte buffer

Bit `i` of the map is bit `7 - i % 8` of byte `i / 8`: the first bit of a byte is its
most significant one.
-/

namespace Bitmap

abbrev Byte := BitVec 8

variable (b : List Byte)

def mask (i : Nat) : Byte := 1#8 <<< (7 - i % 8)

def getBit (i : Nat) : Bool := (b.getD (i / 8) 0 &&& mask i) != 0

def setBit (i : Nat) : List Byte := b.modify (i / 8) (· ||| mask i)

def clrBit (i : Nat) : List Byte := b.modify (i / 8) (· &&& ~~~ mask i)

@[simp] theorem length_setBit (i : Nat) : (setBit b i).length = b.length :=
  List.length_modify ..

@[simp] theorem length_clrBit (i : Nat) : (clrBit b i).length = b.length :=
  List.length_modify ..

/-! ### Single bytes -/

theorem getLsbD_mask (i k : Nat) : (mask i).getLsbD k = decide (k = 7 - i % 8) := by
  unfold mask
  rw [BitVec.getLsbD_shiftLeft, BitVec.getLsbD_one]
  by_cases hk : k = 7 - i % 8
  · simp only [hk, Nat.lt_irrefl, Nat.sub_self, decide_true, decide_false]
    simp
    omega
  · simp only [hk, decide_false, Bool.and_eq_false_imp]
    simp
    omega

theorem and_mask_ne_zero (x : Byte) (i : Nat) : (x &&& mask i != 0) = x.getLsbD (7 - i % 8) := by
  rw [Bool.eq_iff_iff, bne_iff_ne]
  constructor
  · intro hne
    by_contra hbit
    apply hne
    apply BitVec.eq_of_getLsbD_eq
    intro k _
    rw [BitVec.getLsbD_and, getLsbD_mask]
    by_cases hk : k = 7 - i % 8
    · rw [hk, Bool.eq_false_of_not_eq_true hbit]
      simp
    · simp [hk]
  · intro hbit hzero
    have h := congrArg (fun y : Byte => y.getLsbD (7 - i % 8)) hzero
    simp [getLsbD_mask, hbit] at h

theorem getBit_eq (i : Nat) : getBit b i = (b.getD (i / 8) 0).getLsbD (7 - i % 8) :=
  and_mask_ne_zero _ i

theorem same_place {i j : Nat} (hbyte : j / 8 = i / 8) (hbit : 7 - j % 8 = 7 - i % 8) : j = i := by
  omega

/-! ### Setting and clearing -/

variable {b}

theorem getD_modify (f : Byte → Byte) {n : Nat} (hn : n < b.length) (k : Nat) :
    (b.modify n f).getD k 0 = if k = n then f (b.getD n 0) else b.getD k 0 := by
  rw [List.getD_eq_getElem?_getD, List.getElem?_modify]
  by_cases hk : k = n
  · subst hk
    simp [hn]
  · simp [hk, Ne.symm hk]

theorem getBit_setBit {i : Nat} (hi : i / 8 < b.length) (j : Nat) :
    getBit (setBit b i) j = (decide (j = i) || getBit b j) := by
  unfold setBit
  rw [getBit_eq, getBit_eq, getD_modify _ hi]
  by_cases hbyte : j / 8 = i / 8
  · rw [if_pos hbyte, hbyte, BitVec.getLsbD_or, getLsbD_mask, Bool.or_comm]
    congr 1
    rw [decide_eq_decide]
    exact ⟨same_place hbyte, fun h => h ▸ rfl⟩
  · have hne : j ≠ i := fun h => hbyte (h ▸ rfl)
    rw [if_neg hbyte, decide_eq_false hne, Bool.false_or]

theorem getBit_clrBit {i : Nat} (hi : i / 8 < b.length) (j : Nat) :
    getBit (clrBit b i) j = (decide (j ≠ i) && getBit b j) := by
  unfold clrBit
  rw [getBit_eq, getBit_eq, getD_modify _ hi]
  by_cases hbyte : j / 8 = i / 8
  · have hlt : 7 - j % 8 < 8 := by omega
    rw [if_pos hbyte, hbyte, BitVec.getLsbD_and, BitVec.getLsbD_not, getLsbD_mask,
      decide_eq_true hlt, Bool.true_and, Bool.and_comm]
    congr 1
    rw [← decide_not, decide_eq_decide]
    exact not_congr ⟨same_place hbyte, fun h => h ▸ rfl⟩
  · have hne : j ≠ i := fun h => hbyte (h ▸ rfl)
    rw [if_neg hbyte, decide_eq_true hne, Bool.true_and]

theorem getBit_setByte {n : Nat} (hn : n < b.length) (j : Nat) :
    getBit (b.set n 0xff) j = (decide (j / 8 = n) || getBit b j) := by
  rw [getBit_eq, getBit_eq, List.getD_eq_getElem?_getD, List.getElem?_set]
  by_cases hbyte : j / 8 = n
  · have hlt : 7 - j % 8 < 8 := by omega
    rw [if_pos hbyte.symm, if_pos hn, decide_eq_true hbyte, Bool.true_or]
    exact BitVec.getLsbD_allOnes.trans (decide_eq_true hlt)
  · rw [if_neg (Ne.symm hbyte), decide_eq_false hbyte, Bool.false_or, List.getD_eq_getElem?_getD]

theorem getBit_zero (b : List Byte) (j : Nat) : getBit (b.map fun _ => 0) j = false := by
  rw [getBit_eq, List.getD_eq_getElem?_getD, List.getElem?_map]
  cases b[j / 8]? <;> simp

end Bitmap
