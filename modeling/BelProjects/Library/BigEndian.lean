import Mathlib.Data.BitVec
import Mathlib.Data.List.Basic

/-!
# Big-endian words in a byte buffer

Numbers are stored with their most significant byte first.  A number of 64 bits is
stored as two words, the high one first.
-/

namespace BigEndian

abbrev Octet := BitVec 8

def be32 (v : BitVec 32) : List Octet :=
  [v.extractLsb' 24 8, v.extractLsb' 16 8, v.extractLsb' 8 8, v.extractLsb' 0 8]

def be64 (v : BitVec 64) : List Octet :=
  [v.extractLsb' 56 8, v.extractLsb' 48 8, v.extractLsb' 40 8, v.extractLsb' 32 8,
    v.extractLsb' 24 8, v.extractLsb' 16 8, v.extractLsb' 8 8, v.extractLsb' 0 8]

/-- Copies `xs` into the buffer from offset `off` on. -/
def copyTo (b : List Octet) (off : Nat) (xs : List Octet) : List Octet :=
  b.take off ++ xs ++ b.drop (off + xs.length)

def read32 (b : List Octet) (off : Nat) : BitVec 32 :=
  (b.getD off 0 ++ b.getD (off + 1) 0) ++ (b.getD (off + 2) 0 ++ b.getD (off + 3) 0)

def read64 (b : List Octet) (off : Nat) : BitVec 64 := read32 b off ++ read32 b (off + 4)

/-! ### Words -/

@[simp] theorem length_be32 (v : BitVec 32) : (be32 v).length = 4 := rfl

@[simp] theorem length_be64 (v : BitVec 64) : (be64 v).length = 8 := rfl

theorem be64_eq (v : BitVec 64) :
    be64 v = be32 (v.extractLsb' 32 32) ++ be32 (v.extractLsb' 0 32) := by
  unfold be64 be32
  simp only [List.cons_append, List.nil_append, List.cons.injEq, and_true]
  refine ⟨?_, ?_, ?_, ?_, ?_, ?_, ?_, ?_⟩ <;>
  · apply BitVec.eq_of_getLsbD_eq
    intro i hi
    simp only [BitVec.getLsbD_extractLsb']
    have hlow : ∀ k, k ≤ 24 → k + i < 32 := by omega
    have hi32 : i < 32 := by omega
    simp [hi, hlow, hi32, ← Nat.add_assoc]

theorem append_be32 (v : BitVec 32) :
    (v.extractLsb' 24 8 ++ v.extractLsb' 16 8) ++ (v.extractLsb' 8 8 ++ v.extractLsb' 0 8) = v := by
  apply BitVec.eq_of_getLsbD_eq
  intro i hi
  simp only [BitVec.getLsbD_append, BitVec.getLsbD_extractLsb']
  by_cases h8 : i < 8
  · simp [h8, show i < 8 + 8 by omega]
  · by_cases h16 : i < 16
    · simp [h8, h16, show i - 8 < 8 by omega, show 8 + (i - 8) = i by omega]
    · by_cases h24 : i < 24
      · simp [h16, show i - 16 < 8 by omega, show 16 + (i - 16) = i by omega]
      · simp [h16, show ¬ i - 16 < 8 by omega, show i - 16 - 8 < 8 by omega,
          show 24 + (i - 16 - 8) = i by omega]

/-! ### Reading what was written -/

variable {b xs : List Octet} {off : Nat}

theorem length_copyTo (h : off + xs.length ≤ b.length) : (copyTo b off xs).length = b.length := by
  unfold copyTo
  rw [List.length_append, List.length_append, List.length_take, List.length_drop]
  omega

theorem length_copyTo_eq (b xs : List Octet) (off : Nat) :
    (copyTo b off xs).length = min off b.length + xs.length + (b.length - (off + xs.length)) := by
  unfold copyTo
  rw [List.length_append, List.length_append, List.length_take, List.length_drop]

theorem getElem?_copyTo (h : off + xs.length ≤ b.length) (i : Nat) :
    (copyTo b off xs)[i]? =
      if off ≤ i ∧ i < off + xs.length then xs[i - off]? else b[i]? := by
  unfold copyTo
  have htake : (b.take off).length = off := by
    rw [List.length_take]
    omega
  rw [List.append_assoc, List.getElem?_append, htake]
  by_cases hlow : i < off
  · rw [if_pos hlow, if_neg (by omega), List.getElem?_take_of_lt hlow]
  · rw [if_neg hlow, List.getElem?_append]
    by_cases hin : i - off < xs.length
    · rw [if_pos hin, if_pos (by omega)]
    · rw [if_neg hin, if_neg (by omega), List.getElem?_drop]
      congr 1
      omega

theorem read32_congr {d : List Octet} {off' : Nat}
    (h : ∀ i, i < 4 → b[off + i]? = d[off' + i]?) : read32 b off = read32 d off' := by
  unfold read32
  simp only [List.getD_eq_getElem?_getD]
  rw [h 1 (by omega), h 2 (by omega), h 3 (by omega)]
  rw [show b[off]? = d[off']? from h 0 (by omega)]

theorem read32_drop (k : Nat) : read32 (b.drop k) off = read32 b (k + off) :=
  read32_congr fun i _ => by rw [List.getElem?_drop, Nat.add_assoc]

theorem read32_be32 (v : BitVec 32) : read32 (be32 v) 0 = v := append_be32 v

theorem read32_copyTo_same {v : BitVec 32} (h : off + 4 ≤ b.length) :
    read32 (copyTo b off (be32 v)) off = v := by
  rw [← read32_be32 v]
  apply read32_congr
  intro i hi
  rw [getElem?_copyTo h, if_pos ⟨by omega, by change off + i < off + 4; omega⟩, read32_be32,
    Nat.add_sub_cancel_left, Nat.zero_add]

theorem read32_copyTo_other {off' : Nat} (h : off + xs.length ≤ b.length)
    (hoff : off' + 4 ≤ off ∨ off + xs.length ≤ off') :
    read32 (copyTo b off xs) off' = read32 b off' := by
  apply read32_congr
  intro i hi
  rw [getElem?_copyTo h, if_neg (by omega)]

theorem read64_copyTo_other {off' : Nat} (h : off + xs.length ≤ b.length)
    (hoff : off' + 8 ≤ off ∨ off + xs.length ≤ off') :
    read64 (copyTo b off xs) off' = read64 b off' := by
  unfold read64
  rw [read32_copyTo_other h (by omega), read32_copyTo_other h (by omega)]

theorem getD_copyTo_same {x d : Octet} (h : off + 1 ≤ b.length) :
    (copyTo b off [x]).getD off d = x := by
  rw [List.getD_eq_getElem?_getD, getElem?_copyTo h,
    if_pos ⟨Nat.le_refl off, Nat.lt_succ_self off⟩, Nat.sub_self]
  rfl

theorem getD_copyTo_other {i : Nat} {d : Octet} (h : off + xs.length ≤ b.length)
    (hi : i < off ∨ off + xs.length ≤ i) : (copyTo b off xs).getD i d = b.getD i d := by
  rw [List.getD_eq_getElem?_getD, getElem?_copyTo h, if_neg (by omega),
    List.getD_eq_getElem?_getD]

theorem copyTo_append {ys : List Octet} (h : off + xs.length + ys.length ≤ b.length) :
    copyTo b off (xs ++ ys) = copyTo (copyTo b off xs) (off + xs.length) ys := by
  apply List.ext_getElem?
  intro i
  have hxs : off + xs.length ≤ b.length := by omega
  rw [getElem?_copyTo (by rw [List.length_append]; omega),
    getElem?_copyTo (by rw [length_copyTo hxs]; omega), getElem?_copyTo hxs, List.length_append]
  by_cases hys : off + xs.length ≤ i ∧ i < off + xs.length + ys.length
  · rw [if_pos (by omega), if_pos hys, List.getElem?_append_right (by omega)]
    congr 1
    omega
  · rw [if_neg hys]
    by_cases hin : off ≤ i ∧ i < off + xs.length
    · rw [if_pos (by omega), if_pos hin, List.getElem?_append_left (by omega)]
    · rw [if_neg (by omega), if_neg hin]

theorem read32_copyTo_be64 {v : BitVec 64} (h : off + 8 ≤ b.length) :
    read32 (copyTo b off (be64 v)) off = v.extractLsb' 32 32 ∧
    read32 (copyTo b off (be64 v)) (off + 4) = v.extractLsb' 0 32 := by
  have hhigh : (copyTo b off (be32 (v.extractLsb' 32 32))).length = b.length :=
    length_copyTo (by rw [length_be32]; omega)
  have hsplit : copyTo b off (be64 v) =
      copyTo (copyTo b off (be32 (v.extractLsb' 32 32))) (off + 4) (be32 (v.extractLsb' 0 32)) := by
    rw [be64_eq, copyTo_append (by rw [length_be32, length_be32]; omega), length_be32]
  constructor
  · rw [hsplit, read32_copyTo_other (by rw [hhigh, length_be32]; omega)
      (Or.inl (Nat.le_refl (off + 4))), read32_copyTo_same (by omega)]
  · rw [hsplit, read32_copyTo_same (by rw [hhigh]; omega)]

theorem append_extract (v : BitVec 64) : v.extractLsb' 32 32 ++ v.extractLsb' 0 32 = v := by
  apply BitVec.eq_of_getLsbD_eq
  intro i hi
  simp only [BitVec.getLsbD_append, BitVec.getLsbD_extractLsb']
  by_cases hlow : i < 32
  · simp [hlow]
  · simp [hlow, show i - 32 < 32 by omega, show 32 + (i - 32) = i by omega]

theorem read64_copyTo_same {v : BitVec 64} (h : off + 8 ≤ b.length) :
    read64 (copyTo b off (be64 v)) off = v := by
  unfold read64
  rw [(read32_copyTo_be64 h).1, (read32_copyTo_be64 h).2, append_extract]

end BigEndian
