import Mathlib.Logic.Function.Basic
import Mathlib.Data.BitVec

/-!
# Buffers for MPS messages

The data of `tmessage.c`: the buffer of class 2 messages, one entry for each sender, the
messaging controller and the functions that read and write them.  An RX node keeps the
last flag of every sender there, a TX node uses the first entry for its own PC event.

A pointer to an entry is the entry's index, or nothing for the null pointer.
-/

namespace Fbas

abbrev Word := BitVec 32

/-- A time in ns, or the parameter field of a timing message. -/
abbrev Long := BitVec 64

def nMaxTxNodes : Nat := 16

/-- `N_MPS_CHANNELS`, as built without `MULTI_MPS_CH`. -/
def nMpsChannels : Nat := 1

def nMaxMpsChannels : Nat := nMaxTxNodes * nMpsChannels

def mpsFlagOk : BitVec 4 := 0
def mpsFlagNok : BitVec 4 := 1
def mpsFlagTest : BitVec 4 := 2

structure MpsProtocol where
  addr : BitVec 48
  bicId : BitVec 8
  chId : BitVec 4
  flag : BitVec 4
  deriving DecidableEq, Repr

/-- The union member `param` of `mpsMsg_t`, on a big-endian machine. -/
def MpsProtocol.param (p : MpsProtocol) : Long := p.addr ++ p.bicId ++ p.chId ++ p.flag

structure MpsMsg where
  prot : MpsProtocol
  tsRx : Long
  ttl : BitVec 8
  pending : BitVec 8
  deriving DecidableEq, Repr

structure MsgCtrl where
  total : BitVec 8
  last : Long
  period : Long
  ttl : BitVec 8
  deriving DecidableEq, Repr

abbrev MsgBuf := Nat → MpsMsg

/-! ### The messaging controller -/

def msgInitMsgCtrl (ctrl : MsgCtrl) (total : BitVec 8) (now : Long) (period : Word) : MsgCtrl :=
  let ctrl := { ctrl with total, last := now, period := 33333 }
  if period ≠ 0 ∧ ctrl.total ≠ 0 then
    -- the product is taken in 32 bits; the TTL value is `TIM_100_MS / TIM_1_MS + 1`
    { ctrl with period := (period * 1000).setWidth 64, ttl := 101 }
  else ctrl

/-! ### Messages -/

/-- The MAC address in the parameter field of a message. -/
def rawAddr (raw : Long) : BitVec 48 := raw.extractLsb' 16 48

def rawBic (raw : Long) : BitVec 8 := raw.extractLsb' 8 8

def rawCh (raw : Long) : BitVec 4 := raw.extractLsb' 4 4

def rawFlag (raw : Long) : BitVec 4 := raw.extractLsb' 0 4

/-- Store a received message if its sender is known and its time stamp is new. The
result is the channel, `nMaxMpsChannels` for a repeated message, or -1. -/
def msgStoreMpsMsg (buf : MsgBuf) (raw ts : Long) (ctrl : MsgCtrl) : Int × MsgBuf :=
  let ch := (rawCh raw).toNat
  if nMaxMpsChannels ≤ ch then (-1, buf)
  else if rawAddr raw = (buf ch).prot.addr then
    if (buf ch).prot.chId = rawCh raw ∧ (buf ch).prot.bicId = rawBic raw then
      if ts ≠ (buf ch).tsRx then
        (ch, Function.update buf ch
          { prot := { (buf ch).prot with flag := rawFlag raw }
            tsRx := ts
            ttl := ctrl.ttl
            pending := ((buf ch).prot.flag ^^^ rawFlag raw).setWidth 8 })
      else (nMaxMpsChannels, buf)
    else (-1, buf)
  else (-1, buf)

def evalMpsMsgTtl (msg : MpsMsg) : MpsMsg :=
  if msg.ttl ≠ 0 then
    let msg := { msg with ttl := msg.ttl - 1 }
    if msg.ttl = 0 then { msg with prot := { msg.prot with flag := mpsFlagNok } } else msg
  else msg

/-- The lifetime evaluation of the entries below `n`. -/
def evalMpsMsgs (buf : MsgBuf) : Nat → MsgBuf
  | 0 => buf
  | n + 1 =>
      let buf := evalMpsMsgs buf n
      Function.update buf n (evalMpsMsgTtl (buf n))

/-- The body of the loop of `msgForceHigh`. -/
def forceHigh (msg : MpsMsg) : MpsMsg :=
  { prot := { msg.prot with flag := mpsFlagOk }
    tsRx := 0
    ttl := 0
    pending := (msg.prot.flag ^^^ mpsFlagOk).setWidth 8 }

/-- The loop of `msgForceHigh` over the `n` entries from `base` on. -/
def msgForceHigh (buf : MsgBuf) (base : Nat) : Nat → MsgBuf
  | 0 => buf
  | n + 1 =>
      let buf := msgForceHigh buf base n
      Function.update buf (base + n) (forceHigh (buf (base + n)))

/-- Bit `i` of the result says that the flag of entry `i` is NOK. -/
def msgRepresentMpsFlags (buf : MsgBuf) : Nat → Word
  | 0 => 0
  | n + 1 =>
      let flags := msgRepresentMpsFlags buf n
      if (buf n).prot.flag = mpsFlagNok then flags ||| (1#32 <<< n) else flags

/-! ### The PC event of a TX node -/

/-- The flag that the low byte of a PC event stands for. -/
def pcFlag (evt : Long) : BitVec 4 :=
  if evt.setWidth 8 = mpsFlagOk.setWidth 8 then mpsFlagOk
  else if evt.setWidth 8 = mpsFlagNok.setWidth 8 then mpsFlagNok
  else mpsFlagTest

def pcEventIdx : Nat := 0

def msgStorePcEvent (buf : MsgBuf) (evt ts : Long) : MsgBuf :=
  let msg := buf pcEventIdx
  Function.update buf pcEventIdx
    { msg with prot := { msg.prot with flag := pcFlag evt }, tsRx := ts }

def msgInitPcEventBuf (buf : MsgBuf) (id : Long) (bicId chId : BitVec 8) : MsgBuf :=
  Function.update buf pcEventIdx
    { (buf pcEventIdx) with
      prot := { addr := id.setWidth 48, bicId, chId := chId.setWidth 4, flag := mpsFlagTest }
      tsRx := 0
      ttl := 0 }

/-! ### Senders -/

/-- The first of the senders from `i` on, `n` of them, that has address `addr`. -/
def findSender (senders : Nat → BitVec 48) (addr : BitVec 48) (i : Nat) : Nat → Option Nat
  | 0 => none
  | n + 1 => if senders i = addr then some i else findSender senders addr (i + 1) n

def msgGetSenderIndex (senders : Nat → BitVec 48) (id : Long) : Option Nat :=
  findSender senders (id.setWidth 48) 0 nMaxTxNodes

/-! ### What the functions do to one entry -/

/-- A message that `msgStoreMpsMsg` stores for channel `ch`. -/
structure Accepts (buf : MsgBuf) (raw ts : Long) (ch : Nat) : Prop where
  channel : (rawCh raw).toNat = ch
  addr : rawAddr raw = (buf ch).prot.addr
  ids : (buf ch).prot.chId = rawCh raw ∧ (buf ch).prot.bicId = rawBic raw
  fresh : ts ≠ (buf ch).tsRx

instance (buf : MsgBuf) (raw ts : Long) (ch : Nat) : Decidable (Accepts buf raw ts ch) :=
  decidable_of_iff ((rawCh raw).toNat = ch ∧ rawAddr raw = (buf ch).prot.addr ∧
      ((buf ch).prot.chId = rawCh raw ∧ (buf ch).prot.bicId = rawBic raw) ∧ ts ≠ (buf ch).tsRx)
    ⟨fun ⟨h₁, h₂, h₃, h₄⟩ => ⟨h₁, h₂, h₃, h₄⟩, fun ⟨h₁, h₂, h₃, h₄⟩ => ⟨h₁, h₂, h₃, h₄⟩⟩

theorem rawCh_lt (raw : Long) : (rawCh raw).toNat < nMaxMpsChannels := (rawCh raw).isLt

theorem msgStoreMpsMsg_accepts {buf : MsgBuf} {raw ts : Long} {ch : Nat} (ctrl : MsgCtrl)
    (h : Accepts buf raw ts ch) :
    (msgStoreMpsMsg buf raw ts ctrl).2 = Function.update buf ch
      { prot := { (buf ch).prot with flag := rawFlag raw }
        tsRx := ts
        ttl := ctrl.ttl
        pending := ((buf ch).prot.flag ^^^ rawFlag raw).setWidth 8 } := by
  obtain ⟨rfl, haddr, hids, hfresh⟩ := h
  have hlt := rawCh_lt raw
  rw [msgStoreMpsMsg, if_neg (Nat.not_le.mpr hlt), if_pos haddr, if_pos hids, if_pos hfresh]

/-- A message that is not stored for a channel leaves the channel's entry alone. -/
theorem msgStoreMpsMsg_other {buf : MsgBuf} {raw ts : Long} {ch : Nat} (ctrl : MsgCtrl)
    (h : ¬ Accepts buf raw ts ch) : (msgStoreMpsMsg buf raw ts ctrl).2 ch = buf ch := by
  simp only [msgStoreMpsMsg]
  split
  · rfl
  · split
    · rename_i haddr
      split
      · rename_i hids
        split
        · rename_i hfresh
          apply Function.update_of_ne
          rintro rfl
          exact h ⟨rfl, haddr, hids, hfresh⟩
        · rfl
      · rfl
    · rfl

theorem evalMpsMsgs_apply (buf : MsgBuf) (n ch : Nat) :
    evalMpsMsgs buf n ch = if ch < n then evalMpsMsgTtl (buf ch) else buf ch := by
  induction n with
  | zero => rfl
  | succ n ih =>
      simp only [evalMpsMsgs]
      rcases Nat.lt_trichotomy ch n with hlt | rfl | hgt
      · rw [Function.update_of_ne (by omega), ih, if_pos hlt, if_pos (by omega)]
      · rw [Function.update_self, ih, if_neg (by omega), if_pos (by omega)]
      · rw [Function.update_of_ne (by omega), ih, if_neg (by omega), if_neg (by omega)]

theorem msgForceHigh_apply (buf : MsgBuf) (base n i : Nat) :
    msgForceHigh buf base n i =
      if base ≤ i ∧ i < base + n then forceHigh (buf i) else buf i := by
  induction n with
  | zero => rw [if_neg (by omega)]; rfl
  | succ n ih =>
      simp only [msgForceHigh]
      by_cases hi : i = base + n
      · subst hi
        have hself : msgForceHigh buf base n (base + n) = buf (base + n) := by
          rw [ih, if_neg (by omega)]
        rw [Function.update_self, hself, if_pos (by omega)]
      · rw [Function.update_of_ne hi, ih]
        by_cases hin : base ≤ i ∧ i < base + n
        · rw [if_pos hin, if_pos (by omega)]
        · rw [if_neg hin, if_neg (by omega)]

theorem msgRepresentMpsFlags_getLsbD (buf : MsgBuf) {n i : Nat} (hn : n ≤ 32) (hi : i < n) :
    (msgRepresentMpsFlags buf n).getLsbD i = decide ((buf i).prot.flag = mpsFlagNok) := by
  have hzero : ∀ k j, k ≤ j → (msgRepresentMpsFlags buf k).getLsbD j = false := by
    intro k
    induction k with
    | zero => intro j _; exact BitVec.getLsbD_zero
    | succ k ih =>
        intro j hj
        simp only [msgRepresentMpsFlags]
        split
        · have hbit : (1#32 <<< k).getLsbD j = false := by
            simp [BitVec.getLsbD_shiftLeft, BitVec.getLsbD_one, show j - k ≠ 0 by omega]
          rw [BitVec.getLsbD_or, ih j (by omega), hbit]
          rfl
        · exact ih j (by omega)
  induction n with
  | zero => exact absurd hi (Nat.not_lt_zero i)
  | succ n ih =>
      simp only [msgRepresentMpsFlags]
      rcases Nat.lt_or_eq_of_le (Nat.lt_succ_iff.mp hi) with hlt | rfl
      · have hbit : (1#32 <<< n).getLsbD i = false := by
          simp [BitVec.getLsbD_shiftLeft, hlt]
        split
        · rw [BitVec.getLsbD_or, ih (by omega) hlt, hbit, Bool.or_false]
        · exact ih (by omega) hlt
      · have hbit : (1#32 <<< i).getLsbD i = true := by
          simp [show i < 32 by omega]
        split
        · rename_i hnok
          rw [BitVec.getLsbD_or, hbit, Bool.or_true, decide_eq_true hnok]
        · rename_i hok
          rw [hzero i i (Nat.le_refl i), decide_eq_false hok]

end Fbas
