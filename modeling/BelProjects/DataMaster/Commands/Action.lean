import BelProjects.DataMaster.Commands.MiniCommand

/-!
# The action word

All queue commands share one word: quantity, type, priority, the flag for permanent
changes and bits that depend on the type.
-/

namespace DataMaster

def packAct (type prio qty spec : Word) (chp : Bool) : Word :=
  (type <<< actTypePos) ||| ((prio &&& actPrioMsk) <<< actPrioPos) ||| (qty &&& actQtyMsk) |||
    ((spec &&& actFlushPrioMsk) <<< actFlushPrioPos) ||| ((bit chp &&& actChpMsk) <<< actChpPos)

theorem miniNoop_eq (tValid : Time) (prio : BitVec 8) (qty : Word) :
    miniNoop tValid prio qty = .noop tValid (packAct 1 (prio.setWidth 32) qty 0 false) := by
  unfold miniNoop packAct bit
  simp [QCmdType.actType]

theorem miniFlow_eq (tValid : Time) (prio : BitVec 8) (qty destAdr : Word) (permanent : Bool) :
    miniFlow tValid prio qty destAdr permanent =
      .flow tValid (packAct 2 (prio.setWidth 32) qty 0 permanent) destAdr := by
  unfold miniFlow packAct
  simp [QCmdType.actType]

theorem miniWait_eq (tValid : Time) (prio : BitVec 8) (tWait : Time) (permanent abs : Bool) :
    miniWait tValid prio tWait permanent abs =
      .wait tValid (packAct 4 (prio.setWidth 32) 1 0 false) tWait := by
  unfold miniWait packAct bit
  simp [QCmdType.actType, actQtyMsk]

theorem miniFlush_eq (tValid : Time) (prio : BitVec 8) (qIl qHi qLo : Bool) (ovrAdr : Word)
    (permanent : Bool) :
    miniFlush tValid prio qIl qHi qLo ovrAdr permanent =
      .flush tValid
        (packAct 3 (prio.setWidth 32) 1
          ((bit qIl <<< prioIl) ||| (bit qHi <<< prioHi) ||| (bit qLo <<< prioLo)) permanent)
        ovrAdr := rfl

/-! ### Bits -/

theorem getLsbD_actPrioMsk (i : Nat) : actPrioMsk.getLsbD i = decide (i < 2) := by
  by_cases hi : i < 32
  · have hall : ∀ i : Fin 32, actPrioMsk.getLsbD i = decide (i.1 < 2) := by decide
    exact hall ⟨i, hi⟩
  · rw [BitVec.getLsbD_of_ge _ _ (by omega), decide_eq_false (by omega)]

theorem getLsbD_actTypeMsk (i : Nat) : actTypeMsk.getLsbD i = decide (i < 4) := by
  by_cases hi : i < 32
  · have hall : ∀ i : Fin 32, actTypeMsk.getLsbD i = decide (i.1 < 4) := by decide
    exact hall ⟨i, hi⟩
  · rw [BitVec.getLsbD_of_ge _ _ (by omega), decide_eq_false (by omega)]

theorem getLsbD_actFlushPrioMsk (i : Nat) : actFlushPrioMsk.getLsbD i = decide (i < 3) := by
  by_cases hi : i < 32
  · have hall : ∀ i : Fin 32, actFlushPrioMsk.getLsbD i = decide (i.1 < 3) := by decide
    exact hall ⟨i, hi⟩
  · rw [BitVec.getLsbD_of_ge _ _ (by omega), decide_eq_false (by omega)]

theorem getLsbD_chp (b : Bool) (i : Nat) :
    ((bit b &&& actChpMsk) <<< actChpPos).getLsbD i = (b && decide (i = 27)) := by
  by_cases hi : i < 32
  · have hall : ∀ b : Bool, ∀ i : Fin 32,
        ((bit b &&& actChpMsk) <<< actChpPos).getLsbD i = (b && decide (i.1 = 27)) := by decide
    exact hall b ⟨i, hi⟩
  · rw [BitVec.getLsbD_of_ge _ _ (by omega), decide_eq_false (by omega), Bool.and_false]

theorem getLsbD_packAct (type prio qty spec : Word) (chp : Bool) {i : Nat} (hi : i < 32) :
    (packAct type prio qty spec chp).getLsbD i =
      ((!decide (i < 20) && type.getLsbD (i - 20)) ||
        (!decide (i < 24) && (prio.getLsbD (i - 24) && decide (i - 24 < 2))) ||
        (qty.getLsbD i && decide (i < 20)) ||
        (!decide (i < 28) && (spec.getLsbD (i - 28) && decide (i - 28 < 3))) ||
        (chp && decide (i = 27))) := by
  unfold packAct
  rw [BitVec.getLsbD_or, getLsbD_chp]
  simp only [BitVec.getLsbD_or, BitVec.getLsbD_shiftLeft, BitVec.getLsbD_and,
    getLsbD_actPrioMsk, getLsbD_actQtyMsk, getLsbD_actFlushPrioMsk, decide_eq_true hi,
    Bool.true_and]
  rfl

theorem getLsbD_high {x : Word} {k i : Nat} (hx : x.toNat < 2 ^ k) (hi : k ≤ i) :
    x.getLsbD i = false :=
  Nat.testBit_lt_two_pow (Nat.lt_of_lt_of_le hx (Nat.pow_le_pow_right (by decide) hi))

/-! ### Fields -/

section Fields

variable {type prio qty spec : Word} {chp : Bool}

theorem packAct_type (htype : type.toNat < 16) :
    (packAct type prio qty spec chp >>> actTypePos) &&& actTypeMsk = type := by
  apply BitVec.eq_of_getLsbD_eq
  intro i hi
  rw [BitVec.getLsbD_and, BitVec.getLsbD_ushiftRight, getLsbD_actTypeMsk]
  by_cases h4 : i < 4
  · rw [show actTypePos = 20 from rfl, getLsbD_packAct _ _ _ _ _ (by omega)]
    simp [h4, show ¬ 20 + i < 20 by omega, show 20 + i < 24 by omega, show 20 + i < 28 by omega,
      show ¬ 20 + i = 27 by omega]
  · rw [getLsbD_high (k := 4) htype (by omega), decide_eq_false h4, Bool.and_false]

theorem packAct_prio (htype : type.toNat < 16) (hprio : prio.toNat < 4) :
    (packAct type prio qty spec chp >>> actPrioPos) &&& actPrioMsk = prio := by
  apply BitVec.eq_of_getLsbD_eq
  intro i hi
  rw [BitVec.getLsbD_and, BitVec.getLsbD_ushiftRight, getLsbD_actPrioMsk]
  by_cases h2 : i < 2
  · rw [show actPrioPos = 24 from rfl, getLsbD_packAct _ _ _ _ _ (by omega),
      getLsbD_high (k := 4) htype (by omega)]
    simp [h2, show ¬ 24 + i < 20 by omega, show 24 + i < 28 by omega,
      show ¬ 24 + i = 27 by omega]
  · rw [getLsbD_high (k := 2) hprio (by omega), decide_eq_false h2, Bool.and_false]

theorem packAct_qty : packAct type prio qty spec chp &&& actQtyMsk = qty &&& actQtyMsk := by
  apply BitVec.eq_of_getLsbD_eq
  intro i hi
  rw [BitVec.getLsbD_and, BitVec.getLsbD_and, getLsbD_actQtyMsk]
  by_cases h20 : i < 20
  · rw [getLsbD_packAct _ _ _ _ _ hi]
    simp [h20, show i < 24 by omega, show i < 28 by omega, show i ≠ 27 by omega]
  · simp [h20]

theorem packAct_spec (htype : type.toNat < 16) (hspec : spec.toNat < 8) :
    (packAct type prio qty spec chp >>> actFlushPrioPos) &&& actFlushPrioMsk = spec := by
  apply BitVec.eq_of_getLsbD_eq
  intro i hi
  rw [BitVec.getLsbD_and, BitVec.getLsbD_ushiftRight, getLsbD_actFlushPrioMsk]
  by_cases h3 : i < 3
  · rw [show actFlushPrioPos = 28 from rfl, getLsbD_packAct _ _ _ _ _ (by omega),
      getLsbD_high (k := 4) htype (by omega)]
    simp [h3, show ¬ 28 + i < 20 by omega, show ¬ 28 + i < 24 by omega,
      show ¬ 28 + i - 24 < 2 by omega, show ¬ 28 + i = 27 by omega]
  · rw [getLsbD_high (k := 3) hspec (by omega), decide_eq_false h3, Bool.and_false]

theorem packAct_chp (htype : type.toNat < 16) :
    (packAct type prio qty spec chp).getLsbD 27 = chp := by
  rw [getLsbD_packAct _ _ _ _ _ (by decide), getLsbD_high (k := 4) htype (by decide)]
  simp

theorem packAct_waitAbs (htype : type.toNat < 16) :
    (packAct type prio qty spec chp).getLsbD 28 = spec.getLsbD 0 := by
  rw [getLsbD_packAct _ _ _ _ _ (by decide), getLsbD_high (k := 4) htype (by decide)]
  simp

theorem and_bit_bne {w : Word} {i : Nat} (hi : i < 32) : (w &&& (1#32 <<< i) != 0) = w.getLsbD i := by
  rw [Bool.eq_iff_iff, bne_iff_ne]
  exact and_bit_ne_zero hi

/-- A flag is the same whether it is masked in place or shifted down first. -/
theorem shift_and_one_bne {w : Word} {i : Nat} :
    ((w >>> i) &&& 1 != 0) = w.getLsbD i := by
  have h := and_bit_bne (w := w >>> i) (i := 0) (by decide)
  rw [BitVec.getLsbD_ushiftRight, Nat.add_zero] at h
  exact h

theorem actType_packAct (htype : type.toNat < 16) :
    actType (packAct type prio qty spec chp) = type.toNat := by
  unfold actType
  rw [packAct_type htype]

/-- A quantity of one byte fits the field. -/
theorem actQty_packAct {q : BitVec 8} :
    (actQty (packAct type prio (q.setWidth 32) spec chp)).toNat = q.toNat := by
  unfold actQty
  rw [packAct_qty, BitVec.toNat_and]
  have hq := q.isLt
  have hwidth : (q.setWidth 32).toNat = q.toNat := by
    rw [BitVec.toNat_setWidth]
    omega
  rw [hwidth]
  exact Nat.and_two_pow_sub_one_of_lt_two_pow (n := 20) (by omega)

end Fields

end DataMaster
