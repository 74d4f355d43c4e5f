import Mathlib.Data.BitVec
import Mathlib.Data.Nat.Bitwise

/-!
# Fields of a word

A field is the part of a word under a mask.  Taking a field down to bit zero and putting
it back keeps what is under the mask.
-/

namespace BitFields

variable {w : Nat} (x : BitVec w)

def ofBool (w : Nat) (b : Bool) : BitVec w := if b then 1#w else 0#w

theorem getLsbD_ofBool (b : Bool) (i : Nat) :
    (ofBool w b).getLsbD i = (b && decide (i = 0) && decide (0 < w)) := by
  unfold ofBool
  cases b with
  | false => simp
  | true => rw [if_pos rfl, BitVec.getLsbD_one, Bool.true_and, Bool.and_comm]

theorem getLsbD_lowMask (k i : Nat) :
    (BitVec.ofNat w (2 ^ k - 1)).getLsbD i = (decide (i < w) && decide (i < k)) := by
  rw [BitVec.getLsbD_ofNat, Nat.testBit_two_pow_sub_one]

theorem and_lowMask (k : Nat) : x &&& BitVec.ofNat w (2 ^ k - 1) = (x.setWidth k).setWidth w := by
  apply BitVec.eq_of_getLsbD_eq
  intro i hi
  rw [BitVec.getLsbD_and, getLsbD_lowMask, BitVec.getLsbD_setWidth, BitVec.getLsbD_setWidth]
  rw [decide_eq_true hi, Bool.true_and, Bool.true_and, Bool.and_comm]

theorem toNat_and_lowMask (k : Nat) (hk : k < w) :
    (x &&& BitVec.ofNat w (2 ^ k - 1)).toNat = x.toNat % 2 ^ k := by
  have hpow : 2 ^ k ≤ 2 ^ w := Nat.pow_le_pow_right (by decide) hk.le
  rw [and_lowMask, BitVec.toNat_setWidth, BitVec.toNat_setWidth]
  exact Nat.mod_eq_of_lt (Nat.lt_of_lt_of_le (Nat.mod_lt _ (Nat.two_pow_pos k)) hpow)

theorem toNat_and_bit (k : Nat) (hk : k < w) :
    (x &&& BitVec.ofNat w (2 ^ k)).toNat = x.toNat / 2 ^ k % 2 * 2 ^ k := by
  rw [BitVec.toNat_and, BitVec.toNat_ofNat, Nat.mod_eq_of_lt (Nat.pow_lt_pow_right (by decide) hk),
    Nat.and_two_pow, Nat.testBit_eq_decide_div_mod_eq]
  rcases Nat.mod_two_eq_zero_or_one (x.toNat / 2 ^ k) with h | h
  · rw [h]
    rfl
  · rw [h]
    rfl

theorem toNat_or_fields {s e m : BitVec w} {a b i j : Nat} (hs : s.toNat = 2 ^ i * a)
    (he : e.toNat = 2 ^ j * b) (hm : m.toNat < 2 ^ j) (hem : 2 ^ j * b + m.toNat < 2 ^ i) :
    (s ||| e ||| m).toNat = 2 ^ i * a + (2 ^ j * b + m.toNat) := by
  rw [BitVec.toNat_or, BitVec.toNat_or, Nat.or_assoc, he, ← Nat.two_pow_add_eq_or_of_lt hm, hs,
    ← Nat.two_pow_add_eq_or_of_lt hem]

/-- What the lowest bits leave of a word is the next multiple of the power of two below it. -/
theorem toNat_and_not_lowMask (k : Nat) :
    (x &&& ~~~BitVec.ofNat w (2 ^ k - 1)).toNat = x.toNat / 2 ^ k * 2 ^ k := by
  have hshift : x &&& ~~~BitVec.ofNat w (2 ^ k - 1) = (x >>> k) <<< k := by
    apply BitVec.eq_of_getLsbD_eq
    intro i hi
    rw [BitVec.getLsbD_and, BitVec.getLsbD_not, getLsbD_lowMask, BitVec.getLsbD_shiftLeft,
      BitVec.getLsbD_ushiftRight]
    by_cases hlt : i < k
    · simp [hi, hlt]
    · simp [hi, hlt, show k + (i - k) = i by omega]
  rw [hshift, BitVec.toNat_shiftLeft, BitVec.toNat_ushiftRight, Nat.shiftRight_eq_div_pow,
    Nat.shiftLeft_eq, Nat.mod_eq_of_lt]
  exact Nat.lt_of_le_of_lt (Nat.div_mul_le_self _ _) x.isLt

theorem base_of_window {base : BitVec w} {k offs : Nat} (hbase : 2 ^ k ∣ base.toNat)
    (hoffs : offs < 2 ^ k) (hfits : base.toNat + offs < 2 ^ w) :
    (base + BitVec.ofNat w offs) &&& ~~~BitVec.ofNat w (2 ^ k - 1) = base := by
  apply BitVec.eq_of_toNat_eq
  have hsum : (base + BitVec.ofNat w offs).toNat = base.toNat + offs := by
    rw [BitVec.toNat_add, BitVec.toNat_ofNat, Nat.mod_eq_of_lt (Nat.lt_of_le_of_lt
      (Nat.le_add_left _ _) hfits), Nat.mod_eq_of_lt hfits]
  obtain ⟨n, hn⟩ := hbase
  have hpos : 0 < 2 ^ k := Nat.two_pow_pos k
  rw [toNat_and_not_lowMask, hsum, hn, Nat.mul_add_div hpos, Nat.div_eq_of_lt hoffs, Nat.add_zero,
    Nat.mul_comm]

theorem append_and_lowMask {v : Nat} (hi : BitVec v) (lo : BitVec w) :
    (hi ++ lo) &&& BitVec.ofNat (v + w) (2 ^ w - 1) = lo.setWidth (v + w) := by
  apply BitVec.eq_of_getLsbD_eq
  intro i hlt
  rw [and_lowMask, BitVec.getLsbD_setWidth, BitVec.getLsbD_setWidth, BitVec.getLsbD_setWidth,
    BitVec.getLsbD_append]
  by_cases hi : i < w
  · simp [hi]
  · simp [hi, BitVec.getLsbD_of_ge lo i (Nat.le_of_not_lt hi)]

theorem append_ushiftRight {v : Nat} (hi : BitVec v) (lo : BitVec w) :
    (hi ++ lo) >>> w = hi.setWidth (v + w) := by
  apply BitVec.eq_of_getLsbD_eq
  intro i hlt
  rw [BitVec.getLsbD_ushiftRight, BitVec.getLsbD_append, BitVec.getLsbD_setWidth,
    if_neg (Nat.not_lt.mpr (Nat.le_add_right w i)), Nat.add_sub_cancel_left, decide_eq_true hlt,
    Bool.true_and]

theorem shift_field (msk : BitVec w) (pos : Nat) :
    ((x >>> pos) &&& msk) <<< pos = x &&& (msk <<< pos) := by
  apply BitVec.eq_of_getLsbD_eq
  intro i hi
  simp only [BitVec.getLsbD_and, BitVec.getLsbD_shiftLeft, BitVec.getLsbD_ushiftRight]
  by_cases hpos : i < pos
  · simp [hpos]
  · rw [show pos + (i - pos) = i by omega]
    simp [hpos, hi]

theorem shift_bit {pos : Nat} (hpos : pos < w) :
    ofBool w (x.getLsbD pos) <<< pos = x &&& (1#w <<< pos) := by
  apply BitVec.eq_of_getLsbD_eq
  intro i hi
  have hw : 0 < w := by omega
  rw [BitVec.getLsbD_shiftLeft, getLsbD_ofBool, BitVec.getLsbD_and, BitVec.getLsbD_shiftLeft,
    BitVec.getLsbD_one]
  by_cases hlt : i < pos
  · simp [hlt]
  · by_cases heq : i = pos
    · rw [heq]
      simp [hw, hpos]
    · have hne : i - pos ≠ 0 := by omega
      simp [hlt, hne]

/-- Bits that are the same wherever the mask is clear are all that a word has outside of
the mask. -/
theorem or_and_eq_self_iff {t m : BitVec w} (ht : t &&& m = 0#w) :
    t ||| (x &&& m) = x ↔ x &&& ~~~m = t := by
  constructor
  · intro h
    have hbits : ∀ i, (t ||| (x &&& m)).getLsbD i = x.getLsbD i := fun i => by rw [h]
    have hdisj : ∀ i, (t &&& m).getLsbD i = false := fun i => by rw [ht, BitVec.getLsbD_zero]
    apply BitVec.eq_of_getLsbD_eq
    intro i hi
    have hb := hbits i
    have hd := hdisj i
    simp only [BitVec.getLsbD_or, BitVec.getLsbD_and, BitVec.getLsbD_not, hi, decide_true,
      Bool.true_and] at hb hd ⊢
    revert hb hd
    cases x.getLsbD i <;> cases t.getLsbD i <;> cases m.getLsbD i <;> simp
  · intro h
    have hbits : ∀ i, (x &&& ~~~m).getLsbD i = t.getLsbD i := fun i => by rw [h]
    apply BitVec.eq_of_getLsbD_eq
    intro i hi
    have hb := hbits i
    simp only [BitVec.getLsbD_or, BitVec.getLsbD_and, BitVec.getLsbD_not, hi, decide_true,
      Bool.true_and] at hb ⊢
    revert hb
    cases x.getLsbD i <;> cases t.getLsbD i <;> cases m.getLsbD i <;> simp

/-! ### Masks -/

section Masks

variable (m k : BitVec w)

theorem or_and_self_mask : (x ||| m) &&& m = m := by
  apply BitVec.eq_of_getLsbD_eq
  intro i hi
  simp only [BitVec.getLsbD_and, BitVec.getLsbD_or]
  cases x.getLsbD i <;> cases m.getLsbD i <;> rfl

theorem and_not_and_self_mask : (x &&& ~~~m) &&& m = 0#w := by
  apply BitVec.eq_of_getLsbD_eq
  intro i hi
  simp only [BitVec.getLsbD_and, BitVec.getLsbD_not, BitVec.getLsbD_zero]
  cases x.getLsbD i <;> cases m.getLsbD i <;> simp

variable {m k}

/-- Bits that are set under one mask are not seen under another. -/
theorem or_and_of_disjoint (h : m &&& k = 0#w) : (x ||| m) &&& k = x &&& k := by
  have hbits : ∀ i, (m &&& k).getLsbD i = false := fun i => by rw [h, BitVec.getLsbD_zero]
  apply BitVec.eq_of_getLsbD_eq
  intro i hi
  have hb := hbits i
  simp only [BitVec.getLsbD_and, BitVec.getLsbD_or] at hb ⊢
  revert hb
  cases x.getLsbD i <;> cases m.getLsbD i <;> cases k.getLsbD i <;> simp

/-- Bits that are cleared under one mask are not missed under another. -/
theorem and_not_and_of_disjoint (h : m &&& k = 0#w) : (x &&& ~~~m) &&& k = x &&& k := by
  have hbits : ∀ i, (m &&& k).getLsbD i = false := fun i => by rw [h, BitVec.getLsbD_zero]
  apply BitVec.eq_of_getLsbD_eq
  intro i hi
  have hb := hbits i
  simp only [BitVec.getLsbD_and, BitVec.getLsbD_not, hi, decide_true, Bool.true_and] at hb ⊢
  revert hb
  cases x.getLsbD i <;> cases m.getLsbD i <;> cases k.getLsbD i <;> simp

theorem and_not_self_mask : m &&& ~~~m = 0#w := by
  apply BitVec.eq_of_getLsbD_eq
  intro i hi
  simp [hi]

/-- A word is the same inside and outside of a mask. -/
theorem eq_of_and_eq {y : BitVec w} (hin : x &&& m = y &&& m)
    (hout : x &&& ~~~m = y &&& ~~~m) : x = y := by
  have hbits : ∀ i, (x &&& m).getLsbD i = (y &&& m).getLsbD i := fun i => by rw [hin]
  have hbits' : ∀ i, (x &&& ~~~m).getLsbD i = (y &&& ~~~m).getLsbD i := fun i => by rw [hout]
  apply BitVec.eq_of_getLsbD_eq
  intro i hi
  have hb := hbits i
  have hb' := hbits' i
  simp only [BitVec.getLsbD_and, BitVec.getLsbD_not, hi, decide_true, Bool.true_and] at hb hb'
  revert hb hb'
  cases x.getLsbD i <;> cases y.getLsbD i <;> cases m.getLsbD i <;> simp

end Masks

/-! ### Words of integers -/

theorem ofInt_sub (i j : Int) : BitVec.ofInt w (i - j) = BitVec.ofInt w i - BitVec.ofInt w j := by
  rw [Int.sub_eq_add_neg, BitVec.ofInt_add, BitVec.ofInt_neg, BitVec.sub_eq_add_neg]

theorem ofInt_toNat : BitVec.ofInt w x.toNat = x := by
  rw [BitVec.ofInt_natCast, BitVec.ofNat_toNat, BitVec.setWidth_eq]

end BitFields
