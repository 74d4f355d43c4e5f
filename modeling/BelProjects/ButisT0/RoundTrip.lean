import BelProjects.ButisT0.Bursts
import BelProjects.ButisT0.Disturbed

/-!
# Encoder and decoder

The decoder at the line of the encoder is ready before every burst, so that from the second
received burst on it counts with the encoder.
-/

namespace ButisT0

variable {g : Generics}

/-! ### The receiver on a line that is low -/

section Step

variable {s : Receiver} {serial_i : Bool} {crc : Byte}

theorem Receiver.ser2par_error : (s.ser2par g).error_s = s.error_s := by
  unfold Receiver.ser2par Receiver.sample Receiver.endOfBit
  dsimp only
  split_ifs <;> rfl

theorem Receiver.step_error_ser2par (h : s.decoder_mode_s = .ser2par) :
    (s.step g false serial_i crc).error_s = s.error_s := by
  rw [Receiver.step, if_neg Bool.false_ne_true, Receiver.byMode_ser2par h]
  exact Receiver.ser2par_error

theorem Receiver.step_error_newPulse (h : s.newPulse = true) :
    (s.step g false serial_i crc).error_s = s.error_s := by
  obtain ⟨hmode, hone, htwo⟩ := Receiver.newPulse_iff.mp h
  have hquiet : s.quiet.decoder_mode_s = .waitForSignal := hmode
  have hone' : s.quiet.serial1_s = true := hone
  have htwo' : s.quiet.serial2_s = false := htwo
  rw [Receiver.step, if_neg Bool.false_ne_true, Receiver.byMode, hquiet]
  dsimp only
  rw [Receiver.waitForSignal]
  dsimp only
  rw [if_pos hone', if_pos htwo']
  rfl

theorem Receiver.step_period_low (h : s.decoder_mode_s = .waitForSignal → s.serial1_s = false) :
    (s.step g false serial_i crc).period_error_s = s.period_error_s := by
  rw [Receiver.step, if_neg Bool.false_ne_true]
  change (s.quiet.byMode g crc).period_error_s = s.period_error_s
  unfold Receiver.byMode
  cases hmode : s.quiet.decoder_mode_s with
  | waitForSignal =>
      have hone : ¬ s.quiet.serial1_s = true := fun hone => Bool.false_ne_true ((h hmode).symm.trans hone)
      dsimp only
      rw [Receiver.waitForSignal]
      dsimp only
      rw [if_neg hone]
      rfl
  | ser2par => exact Receiver.ser2par_period
  | crcResult => rfl
  | waitForZeros =>
      dsimp only
      unfold Receiver.waitForZeros
      split_ifs <;> rfl

/-- A one on the line starts the count of zeros again. -/
theorem Receiver.step_one (hmode : s.decoder_mode_s = .waitForZeros) (hone : s.serial1_s = true) :
    (s.step g false serial_i crc).decoder_mode_s = .waitForZeros ∧
      (s.step g false serial_i crc).zeroscounter_s = 0 := by
  have hquiet : s.quiet.decoder_mode_s = .waitForZeros := hmode
  have hzero : ¬ s.quiet.serial1_s = false := fun hzero => Bool.false_ne_true (hzero.symm.trans hone)
  rw [Receiver.step, if_neg Bool.false_ne_true, Receiver.byMode, hquiet]
  dsimp only
  rw [Receiver.waitForZeros, if_neg hzero]
  exact ⟨hmode, rfl⟩

end Step

namespace Decoder

variable {s : Decoder} {line : Nat → Bool} {t last : Nat}

theorem ready_of_zeros {u : Nat} (hmode : (s.stateAt g line (u + 1)).receiver.decoder_mode_s = .waitForZeros)
    (hzeros : (s.stateAt g line (u + 1)).receiver.zeroscounter_s ≤ 500)
    (hlow : ∀ v, u ≤ v → v < last → line v = false) {i : Nat} (hi : u + i ≤ last) :
    ((s.stateAt g line (u + 1 + i)).receiver.decoder_mode_s = .waitForZeros ∧
      (s.stateAt g line (u + 1 + i)).receiver.zeroscounter_s ≤ 500 ∧
      i ≤ (s.stateAt g line (u + 1 + i)).receiver.zeroscounter_s) ∨
    (s.stateAt g line (u + 1 + i)).receiver.decoder_mode_s = .waitForSignal := by
  induction i with
  | zero => exact Or.inl ⟨hmode, hzeros, Nat.zero_le _⟩
  | succ i ih =>
      have hserial : (s.stateAt g line (u + 1 + i)).receiver.serial1_s = false := by
        rw [Nat.add_right_comm u 1 i, serial1_succ]
        exact hlow _ (by omega) (by omega)
      rw [← Nat.add_assoc _ i 1, receiver_succ]
      rcases ih (by omega) with ⟨hmode, hle, hcount⟩ | hmode
      · rcases Receiver.step_zero hmode hserial with ⟨hmore, hmode', hzeros'⟩ | ⟨hdone, hmode'⟩
        · rw [hzeros']
          exact Or.inl ⟨hmode', hmore, Nat.succ_le_succ hcount⟩
        · exact Or.inr hmode'
      · exact Or.inr (Receiver.step_low hmode hserial)

theorem ready {u : Nat} (hmode : (s.stateAt g line (u + 1)).receiver.decoder_mode_s = .waitForZeros)
    (hzeros : (s.stateAt g line (u + 1)).receiver.zeroscounter_s ≤ 500)
    (hlow : ∀ v, u ≤ v → v < last → line v = false) (hlong : u + 501 ≤ last) :
    (s.stateAt g line (last + 1)).receiver.decoder_mode_s = .waitForSignal := by
  obtain ⟨i, rfl⟩ : ∃ i, last = u + i := ⟨last - u, by omega⟩
  rcases ready_of_zeros hmode hzeros hlow (Nat.le_refl (u + i)) with ⟨-, hle, hcount⟩ | hready
  · omega
  · rwa [Nat.add_right_comm] at hready

theorem still_counting {u i : Nat} (hmode : (s.stateAt g line u).receiver.decoder_mode_s = .waitForZeros)
    (hshort : (s.stateAt g line u).receiver.zeroscounter_s + i ≤ 500) :
    (s.stateAt g line (u + i)).receiver.decoder_mode_s = .waitForZeros ∧
      (s.stateAt g line (u + i)).receiver.zeroscounter_s ≤ (s.stateAt g line u).receiver.zeroscounter_s + i := by
  induction i with
  | zero => exact ⟨hmode, Nat.le_refl _⟩
  | succ i ih =>
      obtain ⟨hmode', hle⟩ := ih (by omega)
      rw [← Nat.add_assoc u i 1, receiver_succ]
      cases hserial : (s.stateAt g line (u + i)).receiver.serial1_s with
      | true =>
          obtain ⟨hnext, hzero⟩ := Receiver.step_one hmode' hserial
          rw [hzero]
          exact ⟨hnext, Nat.zero_le _⟩
      | false =>
          rcases Receiver.step_zero hmode' hserial with ⟨-, hnext, hzeros⟩ | ⟨hdone, -⟩
          · rw [hzeros]
            exact ⟨hnext, Nat.succ_le_succ hle⟩
          · omega

theorem pulse_of_rise {v : Nat} (hmode : (s.stateAt g line (v + 2)).receiver.decoder_mode_s = .waitForSignal)
    (hlow : line v = false) (hrise : line (v + 1) = true) : s.Pulse g line (v + 2) := by
  refine Receiver.newPulse_iff.mpr ⟨hmode, ?_, ?_⟩
  · rw [serial1_succ, hrise]
  · rw [serial2_succ, serial1_succ, hlow]

/-- A burst, and then the line is low until clock `last`. -/
def Alone (g : Generics) (line : Nat → Bool) (t last : Nat) : Prop :=
  ∀ v, t + 80 * g.g_clockcyclesperbit ≤ v → v < last → line v = false

theorem Pulse.serial_low (h : s.Pulse g line t) (halone : Alone g line t last) {u : Nat} (htu : t < u)
    (hu : u ≤ last) (hmode : (s.stateAt g line u).receiver.decoder_mode_s = .waitForSignal) :
    (s.stateAt g line u).receiver.serial1_s = false := by
  have hg := g.two_le
  by_cases hlong : t + 80 * g.g_clockcyclesperbit < u
  · obtain ⟨v, rfl⟩ : ∃ v, u = v + 1 := ⟨u - 1, by omega⟩
    rw [serial1_succ]
    exact halone v (by omega) (by omega)
  · rw [h.mode_inside htu (Nat.le_of_not_lt hlong)] at hmode
    exact absurd hmode (by decide)

theorem Pulse.since (h : s.Pulse g line t) (halone : Alone g line t last) {u : Nat} (htu : t < u)
    (hu : u ≤ last + 1) : s.Since g line t u := by
  refine ⟨htu, h, fun v htv hvu hv => ?_⟩
  obtain ⟨hmode, hone, -⟩ := Receiver.newPulse_iff.mp hv
  rw [h.serial_low halone htv (by omega) hmode] at hone
  exact Bool.false_ne_true hone

theorem Pulse.next (h : s.Pulse g line t) (halone : Alone g line t (last + 1))
    (hlong : t + 80 * g.g_clockcyclesperbit + 502 ≤ last) (hrise : line (last + 1) = true) :
    s.Pulse g line (last + 2) := by
  obtain ⟨-, hmode, hzeros⟩ := h.concluded
  refine pulse_of_rise (ready hmode ?_ (fun v hv hlast => halone v ?_ hlast) ?_) ?_ hrise
  · rw [hzeros]
    exact Nat.zero_le 500
  · omega
  · omega
  · exact halone last (by omega) (Nat.lt_succ_self last)

/-- The decoder `i` clocks after it loaded a timestamp. -/
structure InStep (origin : Timestamp) (u i : Nat) (s : Decoder) : Prop where
  error : s.receiver.error_s = false
  nosignal : s.receiver.error_nosignal_s = false
  period : s.receiver.period_error_s = false
  count : s.timekeeper.error_counter_s = 0
  time : s.timestamp_o = trueTime origin u
  counter : s.timekeeper.butis_T0_counter = i
  pulse : s.BuTis_T0_o = decide (i = 1998)

variable {origin : Timestamp}

/-- Where nothing is loaded, the decoder counts on. -/
theorem InStep.step {u i : Nat} (h : InStep origin u i (s.stateAt g line u)) (hi : i < 1999)
    (hcalm : ¬ s.Pulse g line u)
    (hlow : (s.stateAt g line u).receiver.decoder_mode_s = .waitForSignal →
      (s.stateAt g line u).receiver.serial1_s = false)
    (hratio : (s.stateAt g line u).receiver.ratiocounter_s < 2000 + g.g_BuTis_T0_precision)
    (herror : (s.stateAt g line (u + 1)).receiver.error_s = false) :
    InStep origin (u + 1) (i + 1) (s.stateAt g line (u + 1)) := by
  have hquiet : (s.stateAt g line u).receiver.newPulse = false := by
    rw [← Bool.not_eq_true]
    exact hcalm
  have hkeeper : (s.stateAt g line (u + 1)).timekeeper =
      { error_counter_s := 0
        timestamp_s := (s.stateAt g line u).timestamp_o + 5
        BuTis_T0_o := decide (i = 1997)
        butis_T0_counter := i + 1 } := by
    rw [timekeeper_succ, Timekeeper.step, if_neg Bool.false_ne_true, hquiet, if_neg Bool.false_ne_true]
    dsimp only
    rw [h.count, h.counter, if_neg (by omega)]
    rfl
  refine ⟨herror, ?_, ?_, ?_, ?_, ?_, ?_⟩
  · rw [receiver_succ]
    exact Receiver.step_nosignal hquiet hratio
  · rw [receiver_succ, Receiver.step_period_low hlow]
    exact h.period
  · rw [hkeeper]
  · rw [timestamp_o, hkeeper, trueTime_succ, ← h.time]
  · rw [hkeeper]
  · rw [BuTis_T0_o, hkeeper]
    exact decide_eq_decide.mpr (by omega)

theorem InStep.load {u : Nat} (hpulse : s.Pulse g line u)
    (herror : (s.stateAt g line u).receiver.error_s = false)
    (hnosignal : (s.stateAt g line u).receiver.error_nosignal_s = false)
    (hratio : 2000 - g.g_BuTis_T0_precision ≤ (s.stateAt g line u).receiver.ratiocounter_s)
    (hstamp : (s.stateAt g line u).receiver.timestamp_rec_s + 10 = trueTime origin (u + 1)) :
    InStep origin (u + 1) 0 (s.stateAt g line (u + 1)) := by
  have hnew : (s.stateAt g line u).receiver.newPulse = true := hpulse
  have hkeeper : (s.stateAt g line (u + 1)).timekeeper =
      { error_counter_s := 0
        timestamp_s := (s.stateAt g line u).receiver.timestamp_rec_s + 10
        BuTis_T0_o := false
        butis_T0_counter := 0 } := by
    rw [timekeeper_succ, Timekeeper.step, if_neg Bool.false_ne_true, hnew, if_pos rfl, if_pos herror]
  refine ⟨?_, ?_, ?_, ?_, ?_, ?_, ?_⟩
  · rw [receiver_succ, Receiver.step_error_newPulse hpulse]
    exact herror
  · rw [receiver_succ, Receiver.step, if_neg Bool.false_ne_true]
    exact (if_pos hnew).trans hnosignal
  · rw [receiver_succ, Receiver.step_period_newPulse hpulse]
    exact decide_eq_false (Nat.not_lt.mpr hratio)
  · rw [hkeeper]
  · rw [timestamp_o, hkeeper]
    exact hstamp
  · rw [hkeeper]
  · rw [BuTis_T0_o, hkeeper]
    rfl

/-- While a burst is read, the last result stands; then there is a new one. -/
theorem Since.error_next {t u : Nat} (h : s.Since g line t u) (hcrc : CrcOk (bits g line t))
    (herror : (s.stateAt g line u).receiver.error_s = false) (hcalm : ¬ s.Pulse g line u) :
    (s.stateAt g line (u + 1)).receiver.error_s = false := by
  by_cases hread : t + 1 + 80 * g.g_clockcyclesperbit ≤ u
  · have hresult := ((h.calm hcalm).concluded (Nat.lt_succ_of_le hread)).1
    exact hresult.error.trans (decide_eq_false (not_not_intro hcrc))
  · rw [receiver_succ, Receiver.step_error_ser2par (h.pulse.mode_inside h.lt (by omega))]
    exact herror

end Decoder

/-! ### The link -/

/-- The output of the encoder in clock `t`. -/
def serialLine (g : Generics) (e : Encoder) (i₀ : EncoderInputs) (inp : Nat → EncoderInputs) (t : Nat) : Bool :=
  (e.stateAt g i₀ inp t).sender.serial_s

namespace Schedule

open Decoder

variable {inp : Nat → EncoderInputs} (c : Schedule g inp) (e : Encoder) (i₀ : EncoderInputs) (d : Decoder) (k : Nat)

/-- The time in clock 0 that makes the decoder one clock late. -/
def origin : Timestamp := c.start - BitVec.ofNat 64 (5 * (c.first + 1))

theorem trueTime_origin {t : Nat} (ht : c.first + 1 ≤ t) :
    trueTime c.origin t = c.start + BitVec.ofNat 64 (5 * (t - c.first - 1)) := by
  have hsplit : 5 * t = 5 * (c.first + 1) + 5 * (t - c.first - 1) := by omega
  rw [trueTime, origin, hsplit, BitVec.ofNat_add, ← BitVec.add_assoc, BitVec.sub_add_cancel]

theorem trueTime_edge : c.sent k + 10 = trueTime c.origin (c.edge (k + 1) + 3) := by
  have hle : c.first + 1 ≤ c.edge (k + 1) + 3 := by
    unfold edge
    omega
  have hclocks : 5 * (c.edge (k + 1) + 3 - c.first - 1) = 10000 * (k + 1) + 10 := by
    unfold edge
    omega
  rw [c.trueTime_origin hle, hclocks, BitVec.ofNat_add, sent, BitVec.add_assoc]
  rfl

theorem bits_burst {m : Nat} (hm : m < 80) :
    bits g (serialLine g e i₀ inp) (c.edge k + 2) m = frame (c.sent k) m := by
  have hg := g.two_le
  have hmid : g.g_clockcyclesperbit / 2 < g.g_clockcyclesperbit := by omega
  have hclock : c.edge k + 2 + (m * g.g_clockcyclesperbit + (g.g_clockcyclesperbit / 2 - 1)) =
      c.edge k + 1 + (m * g.g_clockcyclesperbit + g.g_clockcyclesperbit / 2) := by omega
  rw [bits, hclock]
  exact c.serial_burst k e i₀ hm hmid

theorem dataWord_burst : dataWord (bits g (serialLine g e i₀ inp) (c.edge k + 2)) = c.sent k := by
  rw [← dataWord_frame (c.sent k)]
  exact SerialBits.word_congr fun i hi => c.bits_burst e i₀ k (by omega)

theorem crcOk_burst : CrcOk (bits g (serialLine g e i₀ inp) (c.edge k + 2)) := by
  have hword : SerialBits.word (bits g (serialLine g e i₀ inp) (c.edge k + 2)) 72 8 =
      SerialBits.word (frame (c.sent k)) 72 8 :=
    SerialBits.word_congr fun i hi => c.bits_burst e i₀ k (by omega)
  have hbytes : crc8 (dataByte (bits g (serialLine g e i₀ inp) (c.edge k + 2))) 8 =
      crc8 (dataByte (frame (c.sent k))) 8 :=
    crc8_congr fun i hi => SerialBits.word_congr fun b hb => c.bits_burst e i₀ k (by omega)
  rw [CrcOk, hword, hbytes]
  exact crcOk_frame (c.sent k)

theorem alone_burst : Alone g (serialLine g e i₀ inp) (c.edge k + 2) (c.edge (k + 1) + 1) := by
  intro v hle hlt
  rw [edge_succ] at hlt
  obtain ⟨p, rfl⟩ : ∃ p, v = c.edge k + p := ⟨v - c.edge k, by omega⟩
  exact c.serial_gap k e i₀ (by omega) (by omega)

theorem rise_burst : serialLine g e i₀ inp (c.edge k + 1) = true := by
  have hg := g.two_le
  have hfirst := c.serial_burst k e i₀ (by decide : 0 < 80) (by omega : 0 < g.g_clockcyclesperbit)
  rwa [Nat.zero_mul] at hfirst

/-- The decoder sees the start of burst `k`, and so receives all of it. -/
def Received : Prop := d.Pulse g (serialLine g e i₀ inp) (c.edge k + 2)

variable {d k}

theorem Received.succ (h : c.Received e i₀ d k) : c.Received e i₀ d (k + 1) := by
  have hbits := c.bits_short
  have hedge := c.edge_succ k
  exact Pulse.next h (c.alone_burst e i₀ k) (by omega) (c.rise_burst e i₀ (k + 1))

theorem Received.since (h : c.Received e i₀ d k) {u : Nat} (hlt : c.edge k + 2 < u)
    (hle : u ≤ c.edge (k + 1) + 2) : d.Since g (serialLine g e i₀ inp) (c.edge k + 2) u :=
  Pulse.since h (c.alone_burst e i₀ k) hlt hle

/-- **In step**: from the edge after a received burst on. -/
theorem Received.inStep (h : c.Received e i₀ d k) (hprec : 0 < g.g_BuTis_T0_precision) {i : Nat} (hi : i < 2000) :
    InStep c.origin (c.edge (k + 1) + 3 + i) i
      (d.stateAt g (serialLine g e i₀ inp) (c.edge (k + 1) + 3 + i)) := by
  have hedge := c.edge_succ k
  have hedge' := c.edge_succ (k + 1)
  have hnext := h.succ
  induction i with
  | zero =>
      have hsince := h.since c e i₀ (by omega : c.edge k + 2 < c.edge (k + 1) + 2) (Nat.le_refl _)
      have hresult := hsince.concluded_pulse hnext
      refine InStep.load hnext ?_ ?_ ?_ ?_
      · exact hresult.error.trans (decide_eq_false (not_not_intro (c.crcOk_burst e i₀ k)))
      · have hbefore := h.since c e i₀ (by omega : c.edge k + 2 < c.edge (k + 1) + 1) (by omega)
        rw [receiver_succ]
        refine Receiver.step_nosignal ?_ ?_
        · rw [← Bool.not_eq_true]
          exact hsince.none _ (by omega) (by omega)
        · rw [hbefore.ratio]
          omega
      · rw [hsince.ratio]
        omega
      · rw [hresult.stamp, c.dataWord_burst]
        exact c.trueTime_edge k
  | succ i ih =>
      have hsince := hnext.since c e i₀ (by omega : c.edge (k + 1) + 2 < c.edge (k + 1) + 3 + i) (by omega)
      have hsince' := hnext.since c e i₀ (by omega : c.edge (k + 1) + 2 < c.edge (k + 1) + 3 + i + 1) (by omega)
      have hcalm := hsince'.none _ hsince.lt (Nat.lt_succ_self _)
      have hstep := ih (by omega)
      rw [← Nat.add_assoc _ i 1]
      refine hstep.step (by omega) hcalm (fun hmode => ?_) ?_ ?_
      · exact Pulse.serial_low hnext (c.alone_burst e i₀ (k + 1)) hsince.lt (by omega) hmode
      · rw [hsince.ratio]
        omega
      · exact hsince.error_next (c.crcOk_burst e i₀ (k + 1)) hstep.error hcalm

theorem line_first {t : Nat} (ht : t ≤ c.first) : serialLine g e i₀ inp t = false :=
  (c.waiting_before e i₀ ht).2

theorem received_first (hserial : d.receiver.serial1_s = false) : c.Received e i₀ d 0 := by
  have hidle : ∀ u, u ≤ c.first + 1 →
      (d.stateAt g (serialLine g e i₀ inp) u).receiver.decoder_mode_s = .waitForSignal ∧
      (d.stateAt g (serialLine g e i₀ inp) u).receiver.serial1_s = false := by
    intro u hu
    induction u with
    | zero => exact ⟨rfl, hserial⟩
    | succ u ih =>
        obtain ⟨hmode, hlow⟩ := ih (Nat.le_of_succ_le hu)
        refine ⟨?_, ?_⟩
        · rw [receiver_succ]
          exact Receiver.step_low hmode hlow
        · rw [serial1_succ]
          exact c.line_first e i₀ (Nat.le_of_succ_le_succ hu)
  obtain ⟨hmode, hlow⟩ := hidle (c.first + 1) (Nat.le_refl _)
  refine pulse_of_rise ?_ (c.line_first e i₀ (Nat.le_refl c.first)) (c.rise_burst e i₀ 0)
  change (d.stateAt g (serialLine g e i₀ inp) (c.first + 1 + 1)).receiver.decoder_mode_s = _
  rw [receiver_succ]
  exact Receiver.step_low hmode hlow

/-- Whatever the decoder takes for a start at the reset, it receives the second burst at last. -/
theorem exists_received (hshort : 80 * g.g_clockcyclesperbit ≤ 500) : ∃ k ≤ 1, c.Received e i₀ d k := by
  by_cases hfirst : c.Received e i₀ d 0
  · exact ⟨0, Nat.zero_le 1, hfirst⟩
  have hone : (d.stateAt g (serialLine g e i₀ inp) (c.first + 2)).receiver.serial1_s = true := by
    rw [serial1_succ]
    exact c.rise_burst e i₀ 0
  have hbusy : (d.stateAt g (serialLine g e i₀ inp) (c.first + 2)).receiver.decoder_mode_s ≠
      .waitForSignal := fun hmode =>
    hfirst (pulse_of_rise hmode (c.line_first e i₀ (Nat.le_refl c.first)) (c.rise_burst e i₀ 0))
  have hbefore : ∃ t < c.first + 2, d.Pulse g (serialLine g e i₀ inp) t := by
    by_contra hnone
    exact hbusy (before_pulses fun v hv hp => hnone ⟨v, hv, hp⟩).2
  obtain ⟨t, ht, hpulse, hnone⟩ := Clocked.exists_last hbefore
  have hsince : d.Since g (serialLine g e i₀ inp) t (c.first + 2) := ⟨ht, hpulse, hnone⟩
  -- somewhere in the first burst the receiver starts to count zeros
  obtain ⟨w, hlow, hhigh, hmode, hzeros⟩ : ∃ w, c.first + 3 ≤ w ∧
      w ≤ c.first + 3 + 80 * g.g_clockcyclesperbit ∧
      (d.stateAt g (serialLine g e i₀ inp) w).receiver.decoder_mode_s = .waitForZeros ∧
      (d.stateAt g (serialLine g e i₀ inp) w).receiver.zeroscounter_s = 0 := by
    rcases Nat.lt_or_ge (t + 1 + 80 * g.g_clockcyclesperbit) (c.first + 2) with hover | hreading
    · have hmode := (hsince.concluded hover).2.resolve_right hbusy
      obtain ⟨hmode', hzero⟩ := Receiver.step_one hmode hone
      refine ⟨c.first + 3, Nat.le_refl _, Nat.le_add_right _ _, ?_, ?_⟩
      · rw [receiver_succ]
        exact hmode'
      · rw [receiver_succ]
        exact hzero
    · obtain ⟨-, hmode, hzero⟩ := hpulse.concluded
      exact ⟨_, by omega, by omega, hmode, hzero⟩
  obtain ⟨i, hi⟩ : ∃ i, c.first + 3 + 80 * g.g_clockcyclesperbit = w + i :=
    ⟨c.first + 3 + 80 * g.g_clockcyclesperbit - w, by omega⟩
  obtain ⟨hmode', hle⟩ := @still_counting g d (serialLine g e i₀ inp) w i hmode (by omega)
  have hclock : w + i = c.first + 2 + 80 * g.g_clockcyclesperbit + 1 := by omega
  rw [hclock] at hmode' hle
  have hedge : c.edge 1 = c.first + 2000 := rfl
  have hgap : ∀ v, c.first + 2 + 80 * g.g_clockcyclesperbit ≤ v → v < c.edge 1 + 1 →
      serialLine g e i₀ inp v = false := by
    intro v hv hlt
    obtain ⟨p, rfl⟩ : ∃ p, v = c.edge 0 + p := ⟨v - c.first, by unfold edge; omega⟩
    exact c.serial_gap 0 e i₀ (by unfold edge at hv; omega) (by rw [hedge] at hlt; unfold edge at hlt; omega)
  have hready := ready hmode' (by omega) hgap (by omega)
  exact ⟨1, Nat.le_refl 1, pulse_of_rise hready (hgap _ (by omega) (Nat.lt_succ_self _)) (c.rise_burst e i₀ 1)⟩

end Schedule

def fourClocks : Generics := { g_clockcyclesperbit := 4 }

/-- **The round trip**, from a reset of encoder and decoder in any states.  The first or the
second burst is received completely, the first one if the decoder did not hold a high line; and
from the edge after any received burst on the decoder is certain, counts in step with the
encoder, one clock late, and gives one pulse in each period. -/
theorem roundTrip {inp : Nat → EncoderInputs} (c : Schedule fourClocks inp) (e : Encoder)
    (i₀ : EncoderInputs) (d : Decoder) :
    (∃ k ≤ 1, c.Received e i₀ d k) ∧
      (d.receiver.serial1_s = false → c.Received e i₀ d 0) ∧
      ∀ k, c.Received e i₀ d k → ∀ t, c.edge (k + 1) + 3 ≤ t →
        (d.stateAt fourClocks (serialLine fourClocks e i₀ inp) t).error_o = false ∧
        (d.stateAt fourClocks (serialLine fourClocks e i₀ inp) t).uncertain_o = false ∧
        (d.stateAt fourClocks (serialLine fourClocks e i₀ inp) t).timestamp_o =
          c.start + BitVec.ofNat 64 (5 * (t - c.first - 1)) ∧
        ((d.stateAt fourClocks (serialLine fourClocks e i₀ inp) t).BuTis_T0_o = true ↔
          (t - c.first) % 2000 = 1) := by
  refine ⟨c.exists_received e i₀ (by decide), c.received_first e i₀, fun k hk t ht => ?_⟩
  -- the period in which clock `t` lies
  obtain ⟨n, i, hi, rfl⟩ : ∃ n i, i < 2000 ∧ t = c.edge (k + n + 1) + 3 + i := by
    refine ⟨(t - (c.edge (k + 1) + 3)) / 2000, (t - (c.edge (k + 1) + 3)) % 2000, Nat.mod_lt _ (by decide), ?_⟩
    unfold Schedule.edge at ht ⊢
    omega
  have hreceived : c.Received e i₀ d (k + n) := by
    induction n with
    | zero => exact hk
    | succ n ih =>
        have hlow : c.edge (k + 1) + 3 ≤ c.edge (k + n + 1) + 3 + i := by
          unfold Schedule.edge
          omega
        exact (ih hlow).succ
  have hstep := hreceived.inStep c e i₀ (by decide) hi
  have hfirst : c.first + 1 ≤ c.edge (k + n + 1) + 3 + i := by
    unfold Schedule.edge
    omega
  refine ⟨?_, ?_, ?_, ?_⟩
  · rw [Decoder.error_o, hstep.error, hstep.nosignal, hstep.period]
    rfl
  · rw [Decoder.uncertain_o, hstep.count, hstep.nosignal, hstep.period]
    rfl
  · rw [hstep.time, c.trueTime_origin hfirst]
  · rw [hstep.pulse, decide_eq_true_iff]
    unfold Schedule.edge
    omega

/-! ### A missing burst -/

namespace Decoder

theorem stateAt_congr {s : Decoder} {line line' : Nat → Bool} {t : Nat} (h : ∀ v < t, line v = line' v) :
    s.stateAt g line t = s.stateAt g line' t := by
  induction t with
  | zero => rfl
  | succ t ih =>
      rw [stateAt_succ, stateAt_succ, ih fun v hv => h v (Nat.lt_succ_of_lt hv), h t (Nat.lt_succ_self t)]

theorem Since.unique {s : Decoder} {line : Nat → Bool} {t t' u : Nat} (h : s.Since g line t u)
    (h' : s.Since g line t' u) : t = t' := by
  rcases Nat.lt_trichotomy t t' with hlt | heq | hlt
  · exact absurd h'.pulse (h.none t' hlt h'.lt)
  · exact heq
  · exact absurd h.pulse (h'.none t hlt h.lt)

end Decoder

namespace Schedule

open Decoder

variable {inp : Nat → EncoderInputs} (c : Schedule g inp) (e : Encoder) (i₀ : EncoderInputs) {d : Decoder}

def cutLine (t : Nat) : Bool :=
  if c.edge 1 + 1 ≤ t ∧ t < c.edge 2 + 1 then false else serialLine g e i₀ inp t

theorem cutLine_early {t : Nat} (ht : t < c.edge 1 + 1) : c.cutLine e i₀ t = serialLine g e i₀ inp t :=
  if_neg fun h => absurd ht (Nat.not_lt.mpr h.1)

theorem cut_burst (h : c.Received e i₀ d 0) : d.Pulse g (c.cutLine e i₀) (c.edge 0 + 2) ∧
    (∀ m < 80, bits g (c.cutLine e i₀) (c.edge 0 + 2) m = bits g (serialLine g e i₀ inp) (c.edge 0 + 2) m) ∧
    Alone g (c.cutLine e i₀) (c.edge 0 + 2) (c.edge 2 + 1) := by
  have hg := g.two_le
  have hshort := c.bits_short
  have hedge : c.edge 1 = c.edge 0 + 2000 := c.edge_succ 0
  refine ⟨?_, fun m hm => ?_, fun v hle hlt => ?_⟩
  · unfold Pulse
    rw [stateAt_congr fun v hv => c.cutLine_early e i₀ (by omega)]
    exact h
  · have hlast : m * g.g_clockcyclesperbit ≤ 79 * g.g_clockcyclesperbit :=
      Nat.mul_le_mul_right _ (Nat.le_of_lt_succ hm)
    exact c.cutLine_early e i₀ (by omega)
  · by_cases hcut : c.edge 1 + 1 ≤ v
    · exact if_pos ⟨hcut, hlt⟩
    · rw [c.cutLine_early e i₀ (Nat.lt_of_not_le hcut)]
      exact c.alone_burst e i₀ 0 v hle (Nat.lt_of_not_le hcut)

/-- **Behind a missing burst** the old timestamp is loaded, and said to be certain. -/
theorem cut_adopted (h : c.Received e i₀ d 0) (hprec : g.g_BuTis_T0_precision < 2000) :
    ¬ Truthful g d (c.cutLine e i₀) c.origin ∧ ¬ LoadsFresh g d (c.cutLine e i₀) := by
  have hshort := c.bits_short
  have hedge : c.edge 1 = c.edge 0 + 2000 := c.edge_succ 0
  have hedge' : c.edge 2 = c.edge 1 + 2000 := c.edge_succ 1
  obtain ⟨hpulse, hbits, halone⟩ := c.cut_burst e i₀ h
  have hrise : c.cutLine e i₀ (c.edge 2 + 1) = true :=
    (if_neg fun h => absurd h.2 (Nat.lt_irrefl _)).trans (c.rise_burst e i₀ 2)
  have hnext : d.Pulse g (c.cutLine e i₀) (c.edge 2 + 2) := hpulse.next halone (by omega) hrise
  have hsince : d.Since g (c.cutLine e i₀) (c.edge 0 + 2) (c.edge 2 + 2) :=
    hpulse.since halone (by omega) (Nat.le_refl _)
  have hword : dataWord (bits g (c.cutLine e i₀) (c.edge 0 + 2)) = c.sent 0 :=
    (SerialBits.word_congr fun i hi => hbits (8 + i) (by omega)).trans (c.dataWord_burst e i₀ 0)
  have hcrc : CrcOk (bits g (c.cutLine e i₀) (c.edge 0 + 2)) := by
    have hcheck : SerialBits.word (bits g (c.cutLine e i₀) (c.edge 0 + 2)) 72 8 =
        SerialBits.word (bits g (serialLine g e i₀ inp) (c.edge 0 + 2)) 72 8 :=
      SerialBits.word_congr fun i hi => hbits (72 + i) (by omega)
    have hbytes : crc8 (dataByte (bits g (c.cutLine e i₀) (c.edge 0 + 2))) 8 =
        crc8 (dataByte (bits g (serialLine g e i₀ inp) (c.edge 0 + 2))) 8 :=
      crc8_congr fun i hi => SerialBits.word_congr fun b hb => hbits (8 + 8 * i + b) (by omega)
    rw [CrcOk, hcheck, hbytes]
    exact c.crcOk_burst e i₀ 0
  constructor
  · rw [truthful_iff]
    intro hearly
    have hastray : Astray g d (c.cutLine e i₀) c.origin (c.edge 2 + 2) 0 := by
      refine Astray.load hsince hnext hcrc fun hmeant => ?_
      rw [Announced, hword, ← c.trueTime_edge 1] at hmeant
      have hsent := (BitVec.add_left_inj _).mp hmeant
      rw [sent, sent] at hsent
      exact absurd ((BitVec.add_right_inj _).mp hsent) (by decide)
    obtain ⟨t, hsince', hshort'⟩ := hearly _ _ hastray
    obtain rfl := hsince.unique hsince'
    omega
  · rw [loadsFresh_iff]
    intro hnear
    have hle := hnear _ _ hsince hnext hcrc
    omega

end Schedule

/-- T0 comes for one clock, first in clock 10, and the time is 1000 ns then. -/
def sampleInputs (t : Nat) : EncoderInputs :=
  { BuTis_T0_i := decide (10 ≤ t ∧ (t - 10) % 2000 = 0)
    timestamp_on_next_T0_i := 1000 + BitVec.ofNat 64 (10000 * ((t - 10) / 2000 + 1)) }

def sampleSchedule : Schedule fourClocks sampleInputs where
  first := 10
  width := fun _ => 1
  start := 1000
  width_pos := fun _ => Nat.one_pos
  width_short := fun _ => by decide
  bits_short := by decide
  t0 := by
    intro t
    rw [sampleInputs, decide_eq_true_iff]
    constructor
    · rintro ⟨hle, hmod⟩
      exact ⟨(t - 10) / 2000, by omega, by omega⟩
    · rintro ⟨k, hle, hlt⟩
      omega
  stable := by
    intro k p hp
    have hperiod : (10 + 2000 * k + p - 10) / 2000 = k := by
      have hlt : p < 80 * 4 := hp
      omega
    rw [sampleInputs, hperiod]

def powerUpEncoder : Encoder :=
  { sender := ⟨.nextTimestamp, false, false, 0, 0, 0⟩
    feeder := ⟨0, false, false, false, 0⟩
    crc := ⟨0, false⟩ }

def powerUpDecoder : Decoder :=
  { receiver :=
      ⟨.waitForSignal, false, false, false, false, true, 0, false, false, false, 0, 0, 0, 0, 0, 0⟩
    timekeeper := ⟨3, 0, 0, false⟩
    crc := ⟨0, false⟩ }

/-- Encoder and decoder from power-up, with the second burst cut out of the line. -/
theorem missing_burst_adopted :
    ¬ (Decoder.Truthful fourClocks powerUpDecoder
          (sampleSchedule.cutLine powerUpEncoder (sampleInputs 0)) sampleSchedule.origin ∧
        Decoder.LoadsFresh fourClocks powerUpDecoder
          (sampleSchedule.cutLine powerUpEncoder (sampleInputs 0))) := by
  have hreceived : sampleSchedule.Received powerUpEncoder (sampleInputs 0) powerUpDecoder 0 :=
    sampleSchedule.received_first powerUpEncoder (sampleInputs 0) rfl
  exact fun h => (sampleSchedule.cut_adopted powerUpEncoder (sampleInputs 0) hreceived (by decide)).1 h.1

end ButisT0
