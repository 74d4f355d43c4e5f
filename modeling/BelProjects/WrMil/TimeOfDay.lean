import BelProjects.WrMil.Spacing
import BelProjects.Library.BitFields

/-!
# The time of day on MIL

After a trigger event the gateway distributes its time as the data bytes of five telegrams.  A
receiver that puts the bits together has the time in milliseconds again.
-/

namespace WrMil

open B2b (Word Long SysTime evtGid evtNo evtSid buildEvtidV1)

variable (S : Settings)

/-! ### The receiver -/

/-- The sixteen bits that are sent as a telegram: bits 16..31 of the parameter with a blackbox,
else bits 0..15. -/
def EcaWrite.telegram (w : EcaWrite) : Nat :=
  (if S.useBlackbox then w.param.toNat / 2 ^ 16 else w.param.toNat) % 2 ^ 16

def EcaWrite.code (w : EcaWrite) : Nat := w.telegram S % 2 ^ 8
def EcaWrite.data (w : EcaWrite) : Nat := w.telegram S / 2 ^ 8

/-- The time in milliseconds: ten bits of milliseconds and thirty bits of seconds. -/
def receivedMs : List Nat → Nat
  | [utc1, utc2, utc3, utc4, utc5] =>
      (utc2 % 2 ^ 6 * 2 ^ 24 + utc3 * 2 ^ 16 + utc4 * 2 ^ 8 + utc5) * 1000 +
        (utc1 * 2 ^ 2 + utc2 / 2 ^ 6)
  | _ => 0

/-! ### Telegrams -/

variable {S}

/-- A telegram of sixteen bits passes the parameter. -/
theorem ecaTelegram_telegram {t : Word} (ht : t.toNat < 2 ^ 16) (deadline evtId : Long) :
    (ecaTelegram S deadline t evtId).telegram S = t.toNat := by
  have hdomain : (S.milDomain.setWidth 64 <<< 32 : Long).toNat = 2 ^ 32 * S.milDomain.toNat := by
    have hlt := S.milDomain.isLt
    rw [BitVec.toNat_shiftLeft, BitVec.toNat_setWidth, Nat.shiftLeft_eq]
    omega
  rw [EcaWrite.telegram, ecaTelegram]
  dsimp only
  by_cases hbb : S.useBlackbox = true
  · have hshift : (t.setWidth 64 <<< 16 : Long).toNat = t.toNat * 2 ^ 16 := by
      rw [BitVec.toNat_shiftLeft, BitVec.toNat_setWidth, Nat.shiftLeft_eq]
      omega
    rw [if_pos hbb, if_pos hbb, BitVec.toNat_or, hdomain, hshift,
      ← Nat.two_pow_add_eq_or_of_lt (by omega)]
    omega
  · have hwidth : (t.setWidth 64 : Long).toNat = t.toNat := by
      rw [BitVec.toNat_setWidth]
      omega
    rw [if_neg hbb, if_neg hbb, BitVec.toNat_or, hdomain, hwidth,
      ← Nat.two_pow_add_eq_or_of_lt (by omega)]
    omega

theorem toNat_byte_code {b c : Word} (hb : b.toNat < 2 ^ 8) (hc : c.toNat < 2 ^ 8) :
    (b * 256 + c).toNat = b.toNat * 2 ^ 8 + c.toNat := by
  have h256 : (256 : Word).toNat = 2 ^ 8 := rfl
  rw [BitVec.toNat_add, BitVec.toNat_mul, h256]
  omega

theorem toNat_byte (w : Word) (k : Nat) : (w >>> k &&& (0xff : Word)).toNat = w.toNat / 2 ^ k % 2 ^ 8 := by
  have hmask : (0xff : Word) = BitVec.ofNat 32 (2 ^ 8 - 1) := rfl
  rw [hmask, BitFields.toNat_and_lowMask _ 8 (by decide), BitVec.toNat_ushiftRight,
    Nat.shiftRight_eq_div_pow]

theorem timeS_toNat (ms : Long) :
    ((ms / 1000).setWidth 32 &&& 0x3fffffff : Word).toNat = ms.toNat / 1000 % 2 ^ 30 := by
  have hmask : (0x3fffffff : Word) = BitVec.ofNat 32 (2 ^ 30 - 1) := rfl
  have h1000 : (1000 : Long).toNat = 1000 := rfl
  rw [hmask, BitFields.toNat_and_lowMask _ 30 (by decide), BitVec.toNat_setWidth, BitVec.toNat_udiv,
    h1000]
  omega

theorem timeMs_toNat (ms : Long) :
    (((ms % 1000).setWidth 32 &&& 0x3ff) <<< 6 : Word).toNat = ms.toNat % 1000 * 2 ^ 6 := by
  have hmask : (0x3ff : Word) = BitVec.ofNat 32 (2 ^ 10 - 1) := rfl
  have h1000 : (1000 : Long).toNat = 1000 := rfl
  rw [BitVec.toNat_shiftLeft, hmask, BitFields.toNat_and_lowMask _ 10 (by decide),
    BitVec.toNat_setWidth, BitVec.toNat_umod, h1000, Nat.shiftLeft_eq]
  omega

/-- The shared byte: two bits of milliseconds over six bits of seconds. -/
theorem toNat_shared {a b : Word} {x y : Nat} (ha : a.toNat = 2 ^ 6 * x) (hb : b.toNat = y)
    (hy : y < 2 ^ 6) : (a ||| b).toNat = 2 ^ 6 * x + y := by
  rw [BitVec.toNat_or, ha, hb, ← Nat.two_pow_add_eq_or_of_lt hy]

/-- The five telegrams as numbers, from the milliseconds `m` and seconds `s` in the time. -/
def utcNumbers (m s : Nat) : List Nat :=
  [m / 2 ^ 2 * 2 ^ 8 + 0xe0, (m % 2 ^ 2 * 2 ^ 6 + s / 2 ^ 24) * 2 ^ 8 + 0xe1,
    s / 2 ^ 16 % 2 ^ 8 * 2 ^ 8 + 0xe2, s / 2 ^ 8 % 2 ^ 8 * 2 ^ 8 + 0xe3, s % 2 ^ 8 * 2 ^ 8 + 0xe4]

theorem makeMilTimestamp_toNat (tai utcOffsetMs : Long) :
    (makeMilTimestamp tai utcOffsetMs).map BitVec.toNat =
      utcNumbers ((tai / 1000000 - utcOffsetMs).toNat % 1000)
        ((tai / 1000000 - utcOffsetMs).toNat / 1000 % 2 ^ 30) := by
  unfold makeMilTimestamp
  dsimp only
  generalize tai / 1000000 - utcOffsetMs = ms
  have hms := timeMs_toNat ms
  have hs := timeS_toNat ms
  generalize ((ms % 1000).setWidth 32 &&& 0x3ff) <<< 6 = timeMs at hms ⊢
  generalize (ms / 1000).setWidth 32 &&& 0x3fffffff = timeS at hs ⊢
  have hm : ms.toNat % 1000 < 1000 := Nat.mod_lt _ (by decide)
  have hsec : ms.toNat / 1000 % 2 ^ 30 < 2 ^ 30 := Nat.mod_lt _ (by decide)
  generalize ms.toNat % 1000 = m at hms hm ⊢
  generalize ms.toNat / 1000 % 2 ^ 30 = s at hs hsec ⊢
  have hbyte := fun k => toNat_byte timeMs k
  have hbyte' := fun k => toNat_byte timeS k
  rw [hms] at hbyte
  rw [hs] at hbyte'
  have hshared : (timeMs >>> 0 &&& (0xff : Word) ||| timeS >>> 24 &&& (0xff : Word)).toNat =
      2 ^ 6 * (m % 2 ^ 2) + s / 2 ^ 24 := by
    apply toNat_shared
    · rw [hbyte]
      omega
    · rw [hbyte']
      omega
    · omega
  simp only [List.map_cons, List.map_nil, utcNumbers, List.cons.injEq, and_true]
  refine ⟨?_, ?_, ?_, ?_, ?_⟩
  · rw [toNat_byte_code (by rw [hbyte]; omega) (by decide), hbyte]
    change m * 2 ^ 6 / 2 ^ 8 % 2 ^ 8 * 2 ^ 8 + 0xe0 = _
    omega
  · rw [toNat_byte_code (hshared ▸ by omega) (by decide)]
    change (timeMs >>> 0 &&& (0xff : Word) ||| timeS >>> 24 &&& (0xff : Word)).toNat * 2 ^ 8 + 0xe1 = _
    rw [hshared]
    omega
  · rw [toNat_byte_code (by rw [hbyte']; omega) (by decide), hbyte']
    rfl
  · rw [toNat_byte_code (by rw [hbyte']; omega) (by decide), hbyte']
    rfl
  · rw [toNat_byte_code (by rw [hbyte']; omega) (by decide), hbyte']
    change s / 2 ^ 0 % 2 ^ 8 * 2 ^ 8 + 0xe4 = _
    omega

theorem receivedMs_utcNumbers {m s : Nat} (hm : m < 1000) (hs : s < 2 ^ 30) :
    receivedMs ((utcNumbers m s).map fun t => t / 2 ^ 8) = s * 1000 + m := by
  simp only [utcNumbers, List.map_cons, List.map_nil, receivedMs]
  omega

/-! ### The telegrams after a trigger -/

theorem utcTelegrams_telegram {ts : List Word} (hts : ∀ t ∈ ts, t.toNat < 2 ^ 16) :
    ∀ (i : Nat) (deadline evtId : Long),
      (utcTelegrams S i deadline evtId ts).map (EcaWrite.telegram S) = ts.map BitVec.toNat := by
  induction ts with
  | nil => exact fun _ _ _ => rfl
  | cons t ts ih =>
      intro i deadline evtId
      rw [utcTelegrams, List.map_cons, List.map_cons, ecaTelegram_telegram (hts t List.mem_cons_self),
        ih fun t' ht' => hts t' (List.mem_cons_of_mem t ht')]

/-- The event number that is put in for debugging leaves the group alone. -/
theorem evtGid_sendEvtId (evtId : Long) {c : Nat} (hc : c < 2 ^ 12) :
    evtGid ((sendEvtId evtId &&& (0xffff000fffffffff : Long)) ||| BitVec.ofNat 64 c <<< 36) =
      locMilSend := by
  have hkept : ∀ i : Fin 12, (0xffff000fffffffff : Long).getLsbD (48 + i.1) = true := by decide
  have hclear : ∀ i : Fin 12, ((0xf000ffffffffffff : Nat) : Long).getLsbD (48 + i.1) = false := by
    decide
  have hgroup : ∀ i : Fin 12, (locMilSend.setWidth 64 <<< 48 : Long).getLsbD (48 + i.1) =
      locMilSend.getLsbD i.1 := by decide
  have hsmall : ∀ i : Fin 32, 12 ≤ i.1 → locMilSend.getLsbD i.1 = false := by decide
  apply BitVec.eq_of_getLsbD_eq
  intro i hi
  simp only [evtGid, BitVec.getLsbD_setWidth, BitVec.getLsbD_extractLsb']
  by_cases hlt : i < 12
  · have hbit : (BitVec.ofNat 64 c <<< 36).getLsbD (48 + i) = false := by
      have htest : c.testBit (12 + i) = false :=
        Nat.testBit_lt_two_pow (Nat.lt_of_lt_of_le hc (Nat.pow_le_pow_right (by decide) (by omega)))
      have hsub : 48 + i - 36 = 12 + i := by omega
      rw [BitVec.getLsbD_shiftLeft, BitVec.getLsbD_ofNat, hsub, htest]
      simp
    rw [BitVec.getLsbD_or, BitVec.getLsbD_and, hbit, hkept ⟨i, hlt⟩, sendEvtId, BitVec.getLsbD_or,
      BitVec.getLsbD_and, hclear ⟨i, hlt⟩, hgroup ⟨i, hlt⟩]
    simp [hi, hlt]
  · rw [hsmall ⟨i, hi⟩ (Nat.le_of_not_lt hlt)]
    simp [hlt]

theorem utcTelegrams_isTelegram {ts : List Word} :
    ∀ (i : Nat) (deadline evtId : Long), 0x0e0 + i + ts.length ≤ 2 ^ 12 →
      ∀ w ∈ utcTelegrams S i deadline evtId ts, w.IsTelegram := by
  induction ts with
  | nil => exact fun _ _ _ _ _ hw => absurd hw List.not_mem_nil
  | cons t ts ih =>
      intro i deadline evtId hlen w hw
      rw [List.length_cons] at hlen
      rcases List.mem_cons.mp hw with rfl | hw
      · exact evtGid_sendEvtId evtId (by omega)
      · exact ih (i + 1) _ _ (by omega) w hw

theorem milEvt_out (g : Gateway) (actStatus : Word) (recDeadline : Long) {recEvtId : Long}
    (flagIsLate : Bool) (x : Meets) (haccepted : Accepted S recEvtId) :
    (g.event S actStatus (.milEvt recDeadline recEvtId flagIsLate x)).out =
      converted S recEvtId (g.protect (due S recDeadline flagIsLate x)) := by
  rw [Gateway.event, if_neg (not_not_intro haccepted.1), if_neg (BitVec.not_lt.mpr haccepted.2)]
  dsimp only [Gateway.conclude]
  have hquiet : ¬ FillDue S ⟨g.protect (due S recDeadline flagIsLate x), resetInhibitCounter⟩ :=
    fun h => absurd (show resetInhibitCounter = 1 from h.2) (by decide)
  rcases fill_cases (S := S) ⟨g.protect (due S recDeadline flagIsLate x), resetInhibitCounter⟩
    x.fillTime with ⟨-, hnone⟩ | ⟨hdue, -⟩
  · rw [hnone, List.append_nil]
  · exact absurd hdue hquiet

def Increasing (ws : List EcaWrite) : Prop := List.IsChain (· < ·) (ws.map fun w => w.deadline.toNat)

theorem increasing_iff (hdelay : 0 < S.utcUtcDelay.toInt) (ts : List Word) :
    ∀ (t : Word) (i : Nat) (deadline evtId : Long),
      Increasing (utcTelegrams S i deadline evtId (t :: ts)) ↔
        (deadline + delayNs S.utcUtcDelay).toNat + ts.length * (1000 * S.utcUtcDelay.toNat) < 2 ^ 64 := by
  have hns : (delayNs S.utcUtcDelay).toNat = 1000 * S.utcUtcDelay.toNat := delayNs_toNat hdelay.le
  have hpos : 0 < S.utcUtcDelay.toNat := by
    rw [BitVec.toInt] at hdelay
    split at hdelay <;> omega
  have hword := S.utcUtcDelay.isLt
  induction ts with
  | nil =>
      intro t i deadline evtId
      have hlt := (deadline + delayNs S.utcUtcDelay).isLt
      rw [List.length_nil, Nat.zero_mul, Nat.add_zero]
      exact iff_of_true (List.IsChain.singleton _) hlt
  | cons t' ts ih =>
      intro t i deadline evtId
      have hnext : (deadline + delayNs S.utcUtcDelay + delayNs S.utcUtcDelay).toNat =
          ((deadline + delayNs S.utcUtcDelay).toNat + 1000 * S.utcUtcDelay.toNat) % 2 ^ 64 := by
        rw [BitVec.toNat_add _ (delayNs S.utcUtcDelay), hns]
      have hchain : Increasing (utcTelegrams S i deadline evtId (t :: t' :: ts)) ↔
          (deadline + delayNs S.utcUtcDelay).toNat <
              (deadline + delayNs S.utcUtcDelay + delayNs S.utcUtcDelay).toNat ∧
            Increasing (utcTelegrams S (i + 1) (deadline + delayNs S.utcUtcDelay)
              ((sendEvtId evtId &&& 0xffff000fffffffff) ||| BitVec.ofNat 64 (0x0e0 + i) <<< 36)
              (t' :: ts)) := List.isChain_cons_cons
      have hlt := (deadline + delayNs S.utcUtcDelay).isLt
      rw [hchain, ih, hnext, List.length_cons, Nat.add_mul, Nat.one_mul]
      generalize ts.length * (1000 * S.utcUtcDelay.toNat) = rest
      omega

/-- **The time of day**, for every trigger event: after the converted telegram there are five
with the codes `E0` to `E4`, the receiver has the time of the trigger telegram less the offset,
and the deadlines increase exactly as long as they fit 64 bits. -/
theorem timeOfDay_law (S : Settings) (g : Gateway) (actStatus : Word) (recDeadline recEvtId : Long)
    (flagIsLate : Bool) (x : Meets) (haccepted : Accepted S recEvtId)
    (htrigger : evtNo recEvtId = S.utcTrigger) :
    ∃ utcs, (g.event S actStatus (.milEvt recDeadline recEvtId flagIsLate x)).out =
        ecaTelegram S (g.protect (due S recDeadline flagIsLate x)) (convertToMilTelegram recEvtId)
          (sendEvtId recEvtId) :: utcs ∧
      (∀ w ∈ utcs, w.IsTelegram) ∧
      utcs.map (EcaWrite.code S) = [0xe0, 0xe1, 0xe2, 0xe3, 0xe4] ∧
      (S.utcOffset.toNat ≤ (g.protect (due S recDeadline flagIsLate x)).toNat / 1000000 →
        receivedMs (utcs.map (EcaWrite.data S)) =
          ((g.protect (due S recDeadline flagIsLate x)).toNat / 1000000 - S.utcOffset.toNat) %
            (2 ^ 30 * 1000)) ∧
      (0 < S.utcUtcDelay.toInt →
        (Increasing utcs ↔ (g.protect (due S recDeadline flagIsLate x) + delayNs S.trigUtcDelay +
          delayNs S.utcUtcDelay).toNat + 4 * (1000 * S.utcUtcDelay.toNat) < 2 ^ 64)) := by
  generalize hdeadline : g.protect (due S recDeadline flagIsLate x) = sendDeadline
  have hout := milEvt_out g actStatus recDeadline flagIsLate x haccepted
  have hnumbers := makeMilTimestamp_toNat sendDeadline S.utcOffset
  have hsmall : ∀ t ∈ makeMilTimestamp sendDeadline S.utcOffset, t.toNat < 2 ^ 16 := by
    intro t ht
    have hmem : t.toNat ∈ (makeMilTimestamp sendDeadline S.utcOffset).map BitVec.toNat :=
      List.mem_map_of_mem ht
    rw [hnumbers] at hmem
    simp only [utcNumbers, List.mem_cons, List.not_mem_nil, or_false] at hmem
    omega
  have htelegrams := utcTelegrams_telegram (S := S) hsmall 0 (sendDeadline + delayNs S.trigUtcDelay)
    (sendEvtId recEvtId)
  rw [hnumbers] at htelegrams
  rw [hdeadline, converted, if_pos htrigger] at hout
  refine ⟨_, hout, utcTelegrams_isTelegram 0 _ _ (by rw [makeMilTimestamp_length]; decide), ?_, fun hoffset => ?_, fun hdelay => ?_⟩
  · have hcodes : ∀ ws : List EcaWrite, ws.map (EcaWrite.code S) =
        (ws.map (EcaWrite.telegram S)).map fun t => t % 2 ^ 8 := fun ws => by
      rw [List.map_map]
      rfl
    rw [hcodes, htelegrams]
    simp only [utcNumbers, List.map_cons, List.map_nil, List.cons.injEq, and_true]
    omega
  · have hdata : ∀ ws : List EcaWrite, ws.map (EcaWrite.data S) =
        (ws.map (EcaWrite.telegram S)).map fun t => t / 2 ^ 8 := fun ws => by
      rw [List.map_map]
      rfl
    have hms : (sendDeadline / 1000000 - S.utcOffset).toNat =
        sendDeadline.toNat / 1000000 - S.utcOffset.toNat := by
      have h1000000 : (1000000 : Long).toNat = 1000000 := rfl
      have hlt := sendDeadline.isLt
      rw [BitVec.toNat_sub, BitVec.toNat_udiv, h1000000]
      omega
    rw [hdata, htelegrams, receivedMs_utcNumbers (Nat.mod_lt _ (by decide)) (Nat.mod_lt _ (by decide)),
      hms]
    omega
  · exact increasing_iff hdelay _ _ _ _ _

def noon : SysTime := ⟨1800000000000000000, now_bound⟩

theorem timeOfDay_law_default :
    (Accepted defaultSettings (buildEvtidV1 0x12c 0xf6 0 1 0 0) ∧
      evtNo (buildEvtidV1 0x12c 0xf6 0 1 0 0) = defaultSettings.utcTrigger) ∧
    ∃ first utcs, (Gateway.boot.event defaultSettings statusOk (.milEvt 1800000000000000000
        (buildEvtidV1 0x12c 0xf6 0 1 0 0) false ⟨noon, noon, noon, true⟩)).out = first :: utcs ∧
      receivedMs (utcs.map (EcaWrite.data defaultSettings)) = 600858000000 := by
  have haccepted : Accepted defaultSettings (buildEvtidV1 0x12c 0xf6 0 1 0 0) := by decide
  have htrigger : evtNo (buildEvtidV1 0x12c 0xf6 0 1 0 0) = defaultSettings.utcTrigger := by decide
  obtain ⟨utcs, hout, -, -, hms, -⟩ := timeOfDay_law defaultSettings Gateway.boot statusOk
    1800000000000000000 _ false ⟨noon, noon, noon, true⟩ haccepted htrigger
  exact ⟨⟨haccepted, htrigger⟩, _, utcs, hout, (hms (by decide)).trans (by decide)⟩

/-- **Deadlines at the end of the 64 bits** do not increase. -/
theorem deadlines_wrap :
    ¬ ∀ (S : Settings) (g : Gateway) (actStatus : Word) (recDeadline recEvtId : Long) (x : Meets),
      Accepted S recEvtId → evtNo recEvtId = S.utcTrigger → 0 < S.utcUtcDelay.toInt →
        ∃ converted utcs, (g.event S actStatus (.milEvt recDeadline recEvtId false x)).out =
          converted :: utcs ∧ Increasing utcs := by
  intro h
  obtain ⟨first, utcs, hout, hincreasing⟩ := h defaultSettings Gateway.boot statusOk
    18446744073708975146 (buildEvtidV1 0x12c 0xf6 0 1 0 0) ⟨noon, noon, noon, true⟩ (by decide)
    (by decide) (by decide)
  rw [milEvt_out Gateway.boot statusOk _ _ _ (by decide)] at hout
  obtain ⟨-, rfl⟩ := List.cons_eq_cons.mp hout
  rw [if_pos (by decide)] at hincreasing
  have hfits := (increasing_iff (by decide) _ _ _ _ _).mp hincreasing
  revert hfits
  decide

end WrMil
