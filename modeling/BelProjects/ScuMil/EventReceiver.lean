import BelProjects.Library.BitFields
import Mathlib.Data.List.Induction

/-!
# The configuration of the MIL event receiver

The routines that switch the event filter and configure the LEMO connectors read, change and
write three registers.  Each has its own bits there.  The last call for a bit decides it, and
the bits of the others stay, but for the routine that switches the filter off: it keeps the bit
it should clear and clears the others.
-/

namespace ScuMil

open BitFields

abbrev Word := BitVec 32

/-! ### Registers and routines -/

/-- The registers at `MIL_REG_WR_RD_STATUS`, `MIL_REG_WR_RF_LEMO_CONF` and
`MIL_REG_WR_RD_LEMO_DAT`. -/
structure EvtMil where
  ctrl : Word
  conf : Word
  data : Word
  deriving DecidableEq, Repr

inductive MilStat where
  | ok | outOfRange
  deriving DecidableEq, Repr

def ctrlStatPuls1Frame : Word := 0x0400
def ctrlStatPuls2Frame : Word := 0x0800
def ctrlStatEvFilterOn : Word := 0x2000

/-- The frame bit of a LEMO in the control register. -/
def pulsFrame (lemo : Word) : Word :=
  if lemo = 1 then ctrlStatPuls1Frame
  else if lemo = 2 then ctrlStatPuls2Frame
  else 0

/-- `MIL_LEMO_OUT_EN1` to `MIL_LEMO_OUT_EN4` -/
def lemoOutEn (lemo : Word) : Word :=
  if lemo = 1 then 0x0001
  else if lemo = 2 then 0x0002
  else if lemo = 3 then 0x0004
  else if lemo = 4 then 0x0008
  else 0

/-- `MIL_LEMO_EVENT_EN1` to `MIL_LEMO_EVENT_EN4` -/
def lemoEventEn (lemo : Word) : Word :=
  if lemo = 1 then 0x0010
  else if lemo = 2 then 0x0020
  else if lemo = 3 then 0x0040
  else if lemo = 4 then 0x0080
  else 0

namespace EvtMil

def enableFilterEvtMil (r : EvtMil) (scubSlot : BitVec 16) : EvtMil × MilStat :=
  if 0 < scubSlot.toNat then (r, .outOfRange)
  else ({ r with ctrl := r.ctrl ||| ctrlStatEvFilterOn }, .ok)

/-- The mask is not inverted. -/
def disableFilterEvtMil (r : EvtMil) (scubSlot : BitVec 16) : EvtMil × MilStat :=
  if 0 < scubSlot.toNat then (r, .outOfRange)
  else ({ r with ctrl := r.ctrl &&& ctrlStatEvFilterOn }, .ok)

def configLemoPulseEvtMil (r : EvtMil) (scubSlot : BitVec 16) (lemo : Word) : EvtMil × MilStat :=
  if 0 < scubSlot.toNat ∨ 4 < lemo.toNat then (r, .outOfRange)
  else
    ({ r with
      ctrl := r.ctrl &&& ~~~pulsFrame lemo
      conf := r.conf ||| lemoOutEn lemo ||| lemoEventEn lemo }, .ok)

def configLemoGateEvtMil (r : EvtMil) (scubSlot : BitVec 16) (lemo : Word) : EvtMil × MilStat :=
  if 0 < scubSlot.toNat ∨ 2 < lemo.toNat then (r, .outOfRange)
  else
    ({ r with
      ctrl := r.ctrl ||| pulsFrame lemo
      conf := r.conf ||| lemoEventEn lemo }, .ok)

def configLemoOutputEvtMil (r : EvtMil) (scubSlot : BitVec 16) (lemo : Word) : EvtMil × MilStat :=
  if 0 < scubSlot.toNat ∨ 4 < lemo.toNat then (r, .outOfRange)
  else
    ({ r with
      ctrl := r.ctrl &&& ~~~pulsFrame lemo
      conf := r.conf ||| lemoOutEn lemo }, .ok)

def setLemoOutputEvtMil (r : EvtMil) (scubSlot : BitVec 16) (lemo on : Word) :
    EvtMil × MilStat :=
  if 0 < scubSlot.toNat ∨ 4 < lemo.toNat ∨ 1 < on.toNat then (r, .outOfRange)
  else
    ({ r with
      data := if on ≠ 0 then r.data ||| lemoOutEn lemo else r.data &&& ~~~lemoOutEn lemo }, .ok)

def disableLemoEvtMil (r : EvtMil) (scubSlot : BitVec 16) (lemo : Word) : EvtMil × MilStat :=
  if 0 < scubSlot.toNat ∨ 4 < lemo.toNat then (r, .outOfRange)
  else
    ({ r with
      ctrl := r.ctrl &&& ~~~pulsFrame lemo
      conf := r.conf &&& ~~~lemoOutEn lemo &&& ~~~lemoEventEn lemo }, .ok)

end EvtMil

/-! ### Calls -/

inductive EvtCall where
  | enableFilter (scubSlot : BitVec 16)
  | disableFilter (scubSlot : BitVec 16)
  | configPulse (scubSlot : BitVec 16) (lemo : Word)
  | configGate (scubSlot : BitVec 16) (lemo : Word)
  | configOutput (scubSlot : BitVec 16) (lemo : Word)
  | setOutput (scubSlot : BitVec 16) (lemo on : Word)
  | disableLemo (scubSlot : BitVec 16) (lemo : Word)
  deriving DecidableEq, Repr

namespace EvtMil

def exec (r : EvtMil) : EvtCall → EvtMil × MilStat
  | .enableFilter scubSlot => r.enableFilterEvtMil scubSlot
  | .disableFilter scubSlot => r.disableFilterEvtMil scubSlot
  | .configPulse scubSlot lemo => r.configLemoPulseEvtMil scubSlot lemo
  | .configGate scubSlot lemo => r.configLemoGateEvtMil scubSlot lemo
  | .configOutput scubSlot lemo => r.configLemoOutputEvtMil scubSlot lemo
  | .setOutput scubSlot lemo on => r.setLemoOutputEvtMil scubSlot lemo on
  | .disableLemo scubSlot lemo => r.disableLemoEvtMil scubSlot lemo

def run (r : EvtMil) (calls : List EvtCall) : EvtMil :=
  calls.foldl (fun r c => (r.exec c).1) r

end EvtMil

/-- A call is made for a LEMO of the piggy. -/
def For (scubSlot : BitVec 16) (l lemo : Word) : Prop := scubSlot = 0 ∧ l = lemo

instance (scubSlot : BitVec 16) (l lemo : Word) : Decidable (For scubSlot l lemo) :=
  inferInstanceAs (Decidable (_ ∧ _))

namespace EvtCall

def filter : EvtCall → Option Bool
  | .enableFilter scubSlot => if scubSlot = 0 then some true else none
  | .disableFilter scubSlot => if scubSlot = 0 then some false else none
  | _ => none

def gate (lemo : Word) : EvtCall → Option Bool
  | .configPulse scubSlot l => if For scubSlot l lemo then some false else none
  | .configGate scubSlot l => if For scubSlot l lemo then some true else none
  | .configOutput scubSlot l => if For scubSlot l lemo then some false else none
  | .disableLemo scubSlot l => if For scubSlot l lemo then some false else none
  | _ => none

def disables (lemo : Word) : EvtCall → Option Bool
  | .configPulse scubSlot l => if For scubSlot l lemo then some false else none
  | .configGate scubSlot l => if For scubSlot l lemo ∧ l.toNat ≤ 2 then some false else none
  | .configOutput scubSlot l => if For scubSlot l lemo then some false else none
  | .disableLemo scubSlot l => if For scubSlot l lemo then some true else none
  | _ => none

/-- The bits that a call may change. -/
def own : EvtCall → EvtMil
  | .enableFilter _ | .disableFilter _ => ⟨ctrlStatEvFilterOn, 0, 0⟩
  | .configPulse _ lemo | .configOutput _ lemo | .disableLemo _ lemo | .configGate _ lemo =>
      ⟨pulsFrame lemo, lemoOutEn lemo ||| lemoEventEn lemo, 0⟩
  | .setOutput _ lemo _ => ⟨0, 0, lemoOutEn lemo⟩

/-- A call keeps all bits but its own. -/
structure Frame (c : EvtCall) (r r' : EvtMil) : Prop where
  ctrl : r'.ctrl &&& ~~~c.own.ctrl = r.ctrl &&& ~~~c.own.ctrl
  conf : r'.conf &&& ~~~c.own.conf = r.conf &&& ~~~c.own.conf
  data : r'.data &&& ~~~c.own.data = r.data &&& ~~~c.own.data

end EvtCall

def lastSaid {α : Type} (say : EvtCall → Option α) (calls : List EvtCall) : Option α :=
  (calls.filterMap say).getLast?

/-- The bits under a mask are as they were last said to be, or as they were. -/
def BitsAre (mask before after : Word) (said : Option Bool) : Prop :=
  after &&& mask = said.elim (before &&& mask) fun b => if b then mask else 0

/-- What the registers should be after some calls. -/
structure EvtMil.Configured (r : EvtMil) (calls : List EvtCall) : Prop where
  filter : BitsAre ctrlStatEvFilterOn r.ctrl (r.run calls).ctrl (lastSaid EvtCall.filter calls)
  gate : ∀ lemo : Word, lemo = 1 ∨ lemo = 2 →
    BitsAre (pulsFrame lemo) r.ctrl (r.run calls).ctrl (lastSaid (EvtCall.gate lemo) calls)
  disabled : ∀ lemo : Word, 1 ≤ lemo.toNat → lemo.toNat ≤ 4 →
    lastSaid (EvtCall.disables lemo) calls = some true →
      (r.run calls).conf &&& (lemoOutEn lemo ||| lemoEventEn lemo) = 0#32

structure EvtMil.KeepsToOwnBits (r : EvtMil) (calls : List EvtCall) : Prop where
  configured : ∀ done, done <+: calls → r.Configured done
  frame : ∀ done c, done ++ [c] <+: calls → c.Frame (r.run done) (r.run (done ++ [c]))

/-! ### One call -/

section Masks

theorem pulsFrame_disjoint_filter (lemo : Word) : pulsFrame lemo &&& ctrlStatEvFilterOn = 0#32 := by
  rw [pulsFrame]
  split
  · rfl
  split <;> rfl

theorem filter_disjoint_pulsFrame (lemo : Word) : ctrlStatEvFilterOn &&& pulsFrame lemo = 0#32 := by
  rw [BitVec.and_comm, pulsFrame_disjoint_filter]

def lemoEn (lemo : Word) : Word := lemoOutEn lemo ||| lemoEventEn lemo

theorem lemo_cases (lemo : Word) :
    lemo = 1 ∨ lemo = 2 ∨ lemo = 3 ∨ lemo = 4 ∨
      pulsFrame lemo = 0#32 ∧ lemoOutEn lemo = 0#32 ∧ lemoEventEn lemo = 0#32 := by
  by_cases h1 : lemo = 1
  · exact .inl h1
  by_cases h2 : lemo = 2
  · exact .inr (.inl h2)
  by_cases h3 : lemo = 3
  · exact .inr (.inr (.inl h3))
  by_cases h4 : lemo = 4
  · exact .inr (.inr (.inr (.inl h4)))
  · refine .inr (.inr (.inr (.inr ⟨?_, ?_, ?_⟩)))
    · rw [pulsFrame, if_neg h1, if_neg h2]
      rfl
    · rw [lemoOutEn, if_neg h1, if_neg h2, if_neg h3, if_neg h4]
      rfl
    · rw [lemoEventEn, if_neg h1, if_neg h2, if_neg h3, if_neg h4]
      rfl

theorem pulsFrame_disjoint {l lemo : Word} (h : l ≠ lemo) :
    pulsFrame l &&& pulsFrame lemo = 0#32 := by
  rcases lemo_cases l with rfl | rfl | rfl | rfl | ⟨hl, -, -⟩
  case inr.inr.inr.inr => rw [hl, BitVec.zero_and]
  all_goals
    rcases lemo_cases lemo with rfl | rfl | rfl | rfl | ⟨hlemo, -, -⟩
    case inr.inr.inr.inr => rw [hlemo, BitVec.and_zero]
    all_goals first | exact absurd rfl h | rfl

theorem lemoEn_disjoint {l lemo : Word} (h : l ≠ lemo) : lemoEn l &&& lemoEn lemo = 0#32 := by
  rcases lemo_cases l with rfl | rfl | rfl | rfl | ⟨-, hout, hevent⟩
  case inr.inr.inr.inr => rw [lemoEn, hout, hevent, BitVec.or_zero, BitVec.zero_and]
  all_goals
    rcases lemo_cases lemo with rfl | rfl | rfl | rfl | ⟨-, hout, hevent⟩
    case inr.inr.inr.inr =>
      rw [lemoEn.eq_1 lemo, hout, hevent, BitVec.or_zero, BitVec.and_zero]
    all_goals first | exact absurd rfl h | rfl

end Masks

def EvtCall.scubSlot : EvtCall → BitVec 16
  | .enableFilter scubSlot | .disableFilter scubSlot | .configPulse scubSlot _
  | .configGate scubSlot _ | .configOutput scubSlot _ | .setOutput scubSlot _ _
  | .disableLemo scubSlot _ => scubSlot

section Step

variable {r : EvtMil} {c : EvtCall}

theorem slot_pos {scubSlot : BitVec 16} (h : scubSlot ≠ 0) : 0 < scubSlot.toNat :=
  Nat.pos_of_ne_zero fun h0 => h (BitVec.eq_of_toNat_eq h0)

theorem EvtMil.exec_of_slot (h : c.scubSlot ≠ 0) : (r.exec c).1 = r := by
  have hpos := slot_pos h
  cases c with
  | enableFilter scubSlot => exact congrArg Prod.fst (if_pos hpos)
  | disableFilter scubSlot => exact congrArg Prod.fst (if_pos hpos)
  | configPulse scubSlot lemo => exact congrArg Prod.fst (if_pos (.inl hpos))
  | configGate scubSlot lemo => exact congrArg Prod.fst (if_pos (.inl hpos))
  | configOutput scubSlot lemo => exact congrArg Prod.fst (if_pos (.inl hpos))
  | setOutput scubSlot lemo on => exact congrArg Prod.fst (if_pos (.inl hpos))
  | disableLemo scubSlot lemo => exact congrArg Prod.fst (if_pos (.inl hpos))

/-- A mask within that of the own bits leaves the others alone. -/
theorem or_and_not_of_sub (x : Word) {m k : Word} (h : m &&& ~~~k = 0#32) :
    (x ||| m) &&& ~~~k = x &&& ~~~k := or_and_of_disjoint x h

theorem sub_or_left (m k : Word) : m &&& ~~~(m ||| k) = 0#32 := by
  rw [BitVec.not_or, ← BitVec.and_assoc, and_not_self_mask, BitVec.zero_and]

theorem sub_or_right (m k : Word) : k &&& ~~~(m ||| k) = 0#32 := by
  rw [BitVec.or_comm, sub_or_left]

/-- A call keeps all bits but its own, if it does not switch the filter off while some bit of the
control register is set. -/
theorem EvtCall.frame_exec (hc : c = .disableFilter 0 → r.ctrl = 0) :
    c.Frame r (r.exec c).1 := by
  by_cases hslot : c.scubSlot = 0
  case neg =>
    rw [EvtMil.exec_of_slot hslot]
    exact ⟨rfl, rfl, rfl⟩
  cases c with
  | enableFilter scubSlot =>
      obtain rfl : scubSlot = 0 := hslot
      exact ⟨or_and_not_of_sub _ and_not_self_mask, rfl, rfl⟩
  | disableFilter scubSlot =>
      obtain rfl : scubSlot = 0 := hslot
      have hzero := hc rfl
      refine ⟨?_, rfl, rfl⟩
      change (r.ctrl &&& ctrlStatEvFilterOn) &&& _ = r.ctrl &&& _
      rw [hzero]
      rfl
  | configPulse scubSlot lemo =>
      simp only [EvtMil.exec, EvtMil.configLemoPulseEvtMil]
      split
      · exact ⟨rfl, rfl, rfl⟩
      · refine ⟨and_not_and_of_disjoint _ and_not_self_mask, ?_, rfl⟩
        exact (or_and_not_of_sub _ (sub_or_right _ _)).trans
          (or_and_not_of_sub _ (sub_or_left _ _))
  | configGate scubSlot lemo =>
      simp only [EvtMil.exec, EvtMil.configLemoGateEvtMil]
      split
      · exact ⟨rfl, rfl, rfl⟩
      · refine ⟨or_and_not_of_sub _ and_not_self_mask, ?_, rfl⟩
        exact or_and_not_of_sub _ (sub_or_right _ _)
  | configOutput scubSlot lemo =>
      simp only [EvtMil.exec, EvtMil.configLemoOutputEvtMil]
      split
      · exact ⟨rfl, rfl, rfl⟩
      · refine ⟨and_not_and_of_disjoint _ and_not_self_mask, ?_, rfl⟩
        exact or_and_not_of_sub _ (sub_or_left _ _)
  | setOutput scubSlot lemo on =>
      simp only [EvtMil.exec, EvtMil.setLemoOutputEvtMil]
      split
      · exact ⟨rfl, rfl, rfl⟩
      · refine ⟨rfl, rfl, ?_⟩
        dsimp only
        split
        · exact or_and_not_of_sub _ and_not_self_mask
        · exact and_not_and_of_disjoint _ and_not_self_mask
  | disableLemo scubSlot lemo =>
      simp only [EvtMil.exec, EvtMil.disableLemoEvtMil]
      split
      · exact ⟨rfl, rfl, rfl⟩
      · refine ⟨and_not_and_of_disjoint _ and_not_self_mask, ?_, rfl⟩
        exact (and_not_and_of_disjoint _ (sub_or_right _ _)).trans
          (and_not_and_of_disjoint _ (sub_or_left _ _))

/-- Bits that are not those of a call are kept. -/
theorem and_eq_of_frame {x y m k : Word} (h : x &&& ~~~m = y &&& ~~~m) (hdisj : m &&& k = 0#32) :
    x &&& k = y &&& k := by
  rw [← and_not_and_of_disjoint x hdisj, h, and_not_and_of_disjoint y hdisj]

theorem exec_filter (hc : c = .disableFilter 0 → r.ctrl = 0) :
    BitsAre ctrlStatEvFilterOn r.ctrl (r.exec c).1.ctrl c.filter := by
  have hframe := EvtCall.frame_exec hc
  by_cases hslot : c.scubSlot = 0
  case neg =>
    have hnone : c.filter = none := by
      cases c with
      | enableFilter scubSlot => exact if_neg hslot
      | disableFilter scubSlot => exact if_neg hslot
      | _ => rfl
    rw [EvtMil.exec_of_slot hslot, hnone]
    rfl
  cases c with
  | enableFilter scubSlot =>
      obtain rfl : scubSlot = 0 := hslot
      exact or_and_self_mask _ _
  | disableFilter scubSlot =>
      obtain rfl : scubSlot = 0 := hslot
      change (r.ctrl &&& ctrlStatEvFilterOn) &&& _ = 0
      rw [hc rfl]
      rfl
  | setOutput scubSlot lemo on => exact and_eq_of_frame hframe.ctrl (BitVec.zero_and)
  | _ scubSlot lemo => exact and_eq_of_frame hframe.ctrl (pulsFrame_disjoint_filter lemo)

theorem not_accepted {p : Prop} (h : ¬ p) {scubSlot : BitVec 16} (hslot : scubSlot = 0) :
    ¬ (0 < scubSlot.toNat ∨ p) := by
  rintro (hpos | hp)
  · rw [hslot] at hpos
    exact absurd hpos (by decide)
  · exact h hp

theorem exec_gate (hc : c = .disableFilter 0 → r.ctrl = 0) {lemo : Word}
    (hlemo : lemo = 1 ∨ lemo = 2) :
    BitsAre (pulsFrame lemo) r.ctrl (r.exec c).1.ctrl (c.gate lemo) := by
  have hframe := EvtCall.frame_exec hc
  have hle : lemo.toNat ≤ 2 := by rcases hlemo with rfl | rfl <;> decide
  by_cases hslot : c.scubSlot = 0
  case neg =>
    have hfor : ∀ l : Word, ¬ For c.scubSlot l lemo := fun l h => hslot h.1
    have hnone : c.gate lemo = none := by
      cases c with
      | enableFilter scubSlot => rfl
      | disableFilter scubSlot => rfl
      | setOutput scubSlot l on => rfl
      | _ scubSlot l => exact if_neg (hfor l)
    rw [EvtMil.exec_of_slot hslot, hnone]
    rfl
  cases c with
  | enableFilter scubSlot => exact and_eq_of_frame hframe.ctrl (filter_disjoint_pulsFrame lemo)
  | disableFilter scubSlot => exact and_eq_of_frame hframe.ctrl (filter_disjoint_pulsFrame lemo)
  | setOutput scubSlot l on => exact and_eq_of_frame hframe.ctrl BitVec.zero_and
  | configPulse scubSlot l =>
      by_cases heq : l = lemo
      · subst heq
        obtain rfl : scubSlot = 0 := hslot
        have hin : ¬ 4 < l.toNat := by omega
        rw [EvtCall.gate, if_pos ⟨rfl, rfl⟩, EvtMil.exec, EvtMil.configLemoPulseEvtMil,
          if_neg (not_accepted hin rfl)]
        exact and_not_and_self_mask _ _
      · rw [EvtCall.gate, if_neg fun h => heq h.2]
        exact and_eq_of_frame hframe.ctrl (pulsFrame_disjoint heq)
  | configGate scubSlot l =>
      by_cases heq : l = lemo
      · subst heq
        obtain rfl : scubSlot = 0 := hslot
        have hin : ¬ 2 < l.toNat := by omega
        rw [EvtCall.gate, if_pos ⟨rfl, rfl⟩, EvtMil.exec, EvtMil.configLemoGateEvtMil,
          if_neg (not_accepted hin rfl)]
        exact or_and_self_mask _ _
      · rw [EvtCall.gate, if_neg fun h => heq h.2]
        exact and_eq_of_frame hframe.ctrl (pulsFrame_disjoint heq)
  | configOutput scubSlot l =>
      by_cases heq : l = lemo
      · subst heq
        obtain rfl : scubSlot = 0 := hslot
        have hin : ¬ 4 < l.toNat := by omega
        rw [EvtCall.gate, if_pos ⟨rfl, rfl⟩, EvtMil.exec, EvtMil.configLemoOutputEvtMil,
          if_neg (not_accepted hin rfl)]
        exact and_not_and_self_mask _ _
      · rw [EvtCall.gate, if_neg fun h => heq h.2]
        exact and_eq_of_frame hframe.ctrl (pulsFrame_disjoint heq)
  | disableLemo scubSlot l =>
      by_cases heq : l = lemo
      · subst heq
        obtain rfl : scubSlot = 0 := hslot
        have hin : ¬ 4 < l.toNat := by omega
        rw [EvtCall.gate, if_pos ⟨rfl, rfl⟩, EvtMil.exec, EvtMil.disableLemoEvtMil,
          if_neg (not_accepted hin rfl)]
        exact and_not_and_self_mask _ _
      · rw [EvtCall.gate, if_neg fun h => heq h.2]
        exact and_eq_of_frame hframe.ctrl (pulsFrame_disjoint heq)

/-- A call that is not for a LEMO keeps its enable bits. -/
theorem exec_conf_of_none (hc : c = .disableFilter 0 → r.ctrl = 0) {lemo : Word}
    (hnone : c.disables lemo = none) :
    (r.exec c).1.conf &&& lemoEn lemo = r.conf &&& lemoEn lemo := by
  have hframe := EvtCall.frame_exec hc
  by_cases hslot : c.scubSlot = 0
  case neg => rw [EvtMil.exec_of_slot hslot]
  have hother : ∀ l : Word, ¬ For c.scubSlot l lemo → l ≠ lemo := fun l h heq => h ⟨hslot, heq⟩
  cases c with
  | enableFilter scubSlot => exact and_eq_of_frame hframe.conf BitVec.zero_and
  | disableFilter scubSlot => exact and_eq_of_frame hframe.conf BitVec.zero_and
  | setOutput scubSlot l on => exact and_eq_of_frame hframe.conf BitVec.zero_and
  | configGate scubSlot l =>
      by_cases hin : 2 < l.toNat
      · rw [EvtMil.exec, EvtMil.configLemoGateEvtMil, if_pos (.inr hin)]
      · have hfor : ¬ For scubSlot l lemo := by
          intro h
          rw [EvtCall.disables, if_pos ⟨h, Nat.le_of_not_lt hin⟩] at hnone
          cases hnone
        exact and_eq_of_frame hframe.conf (lemoEn_disjoint (hother l hfor))
  | _ scubSlot l =>
      have hfor : ¬ For scubSlot l lemo := by
        intro h
        rw [EvtCall.disables, if_pos h] at hnone
        cases hnone
      exact and_eq_of_frame hframe.conf (lemoEn_disjoint (hother l hfor))

theorem eq_disableLemo_of_disables {lemo : Word} (h : c.disables lemo = some true) :
    c = .disableLemo 0 lemo := by
  cases c with
  | enableFilter scubSlot => cases h
  | disableFilter scubSlot => cases h
  | setOutput scubSlot l on => cases h
  | disableLemo scubSlot l =>
      by_cases hfor : For scubSlot l lemo
      · rw [hfor.1, hfor.2]
      · rw [EvtCall.disables, if_neg hfor] at h
        cases h
  | _ scubSlot l =>
      rw [EvtCall.disables] at h
      split at h <;> cases h

theorem exec_disableLemo {lemo : Word} (hle : lemo.toNat ≤ 4) :
    (r.exec (.disableLemo 0 lemo)).1.conf &&& lemoEn lemo = 0#32 := by
  rw [EvtMil.exec, EvtMil.disableLemoEvtMil, if_neg (not_accepted (Nat.not_lt.mpr hle) rfl)]
  dsimp only
  have hmask : r.conf &&& ~~~lemoOutEn lemo &&& ~~~lemoEventEn lemo =
      r.conf &&& ~~~lemoEn lemo := by
    rw [lemoEn, BitVec.not_or, BitVec.and_assoc]
  rw [hmask, and_not_and_self_mask]

end Step

/-! ### Runs -/

theorem lastSaid_snoc {α : Type} (say : EvtCall → Option α) (calls : List EvtCall) (c : EvtCall) :
    lastSaid say (calls ++ [c]) = (say c).or (lastSaid say calls) := by
  rw [lastSaid, List.filterMap_append, List.getLast?_append, lastSaid]
  cases h : say c with
  | none => rw [List.filterMap_cons_none h, List.filterMap_nil, List.getLast?_nil]
  | some b =>
      rw [List.filterMap_cons_some h, List.filterMap_nil, List.getLast?_singleton]

theorem EvtMil.run_snoc (r : EvtMil) (calls : List EvtCall) (c : EvtCall) :
    r.run (calls ++ [c]) = ((r.run calls).exec c).1 := by
  rw [run, List.foldl_append]
  rfl

theorem BitsAre.snoc {mask before now after : Word} {said said' : Option Bool}
    (h : BitsAre mask before now said) (hstep : BitsAre mask now after said') :
    BitsAre mask before after (said'.or said) := by
  cases said' with
  | none => exact hstep.trans h
  | some b => exact hstep

theorem EvtMil.Configured.nil (r : EvtMil) : r.Configured [] where
  filter := rfl
  gate := fun _ _ => rfl
  disabled := fun _ _ _ h => nomatch h

theorem EvtMil.Configured.snoc {r : EvtMil} {calls : List EvtCall} {c : EvtCall}
    (h : r.Configured calls) (hc : c = .disableFilter 0 → (r.run calls).ctrl = 0) :
    r.Configured (calls ++ [c]) := by
  constructor
  · rw [run_snoc, lastSaid_snoc]
    exact h.filter.snoc (exec_filter hc)
  · intro lemo hlemo
    rw [run_snoc, lastSaid_snoc]
    exact (h.gate lemo hlemo).snoc (exec_gate hc hlemo)
  · intro lemo hpos hle hlast
    rw [lastSaid_snoc] at hlast
    rw [run_snoc]
    cases hcall : c.disables lemo with
    | none =>
        rw [hcall] at hlast
        exact (exec_conf_of_none hc hcall).trans (h.disabled lemo hpos hle hlast)
    | some b =>
        rw [hcall] at hlast
        obtain rfl : b = true := Option.some.inj hlast
        rw [eq_disableLemo_of_disables hcall]
        exact exec_disableLemo hle

/-- The routines keep to their own bits exactly if the filter is switched off only while the
control register is zero. -/
theorem keepsToOwnBits_iff (r : EvtMil) (calls : List EvtCall) :
    r.KeepsToOwnBits calls ↔
      ∀ done, done ++ [.disableFilter 0] <+: calls → (r.run done).ctrl = 0 := by
  constructor
  · intro h done hdone
    have hframe := (h.frame done _ hdone).ctrl
    have hfilter := (h.configured _ hdone).filter
    rw [BitsAre, lastSaid_snoc] at hfilter
    rw [EvtMil.run_snoc] at hframe hfilter
    -- the filter bit should be cleared, and is the one that is kept
    have hbit : (r.run done).ctrl &&& ctrlStatEvFilterOn = 0#32 := by
      have hself : (r.run done).ctrl &&& ctrlStatEvFilterOn &&& ctrlStatEvFilterOn =
          (r.run done).ctrl &&& ctrlStatEvFilterOn := by
        rw [BitVec.and_assoc, BitVec.and_self]
      exact hself.symm.trans hfilter
    have hothers : (r.run done).ctrl &&& ~~~ctrlStatEvFilterOn = 0#32 := by
      have hcleared : (r.run done).ctrl &&& ctrlStatEvFilterOn &&& ~~~ctrlStatEvFilterOn =
          0#32 := by
        rw [hbit, BitVec.zero_and]
      exact hframe.symm.trans hcleared
    exact eq_of_and_eq _ (hbit.trans BitVec.zero_and.symm) (hothers.trans BitVec.zero_and.symm)
  · intro h
    have hconfigured : ∀ done, done <+: calls → r.Configured done := by
      intro done
      induction done using List.reverseRecOn with
      | nil => exact fun _ => .nil r
      | append_singleton done c ih =>
          intro hdone
          have hprefix : done <+: calls := (List.prefix_append done [c]).trans hdone
          refine (ih hprefix).snoc fun hc => ?_
          rw [hc] at hdone
          exact h done hdone
    refine ⟨hconfigured, fun done c hdone => ?_⟩
    rw [EvtMil.run_snoc]
    refine EvtCall.frame_exec fun hc => ?_
    rw [hc] at hdone
    exact h done hdone

section Sample

def decoderOn : EvtMil := ⟨0xc000, 0, 0⟩

/-- Switching the filter off, which it is, switches the decoder off. -/
theorem decoder_switched_off :
    ¬ ∀ (r : EvtMil) (calls : List EvtCall), r.KeepsToOwnBits calls := by
  intro h
  have hframe := (h decoderOn [.disableFilter 0]).frame [] (.disableFilter 0) (List.prefix_refl _)
  exact absurd hframe.ctrl (by decide)

end Sample

end ScuMil
