import BelProjects.ButisT0.TimestampDecoder

/-!
# The reception of a burst

From a new pulse on, the decoder reads the line for the length of a burst, whatever is on it.
Then its result stands until the next pulse.
-/

namespace ButisT0

variable {g : Generics} {x : Nat → Bool} {n j : Nat}

/-- How many bits have been sampled in clock `j` of bit `n`. -/
def sampled (g : Generics) (n j : Nat) : Nat := if g.g_clockcyclesperbit / 2 - 1 < j then n + 1 else n

/-- How many bytes the check has taken in. -/
def absorbed (n j : Nat) : Nat := (if j = 0 then n - 1 else n) / 8 - 1

/-- Clock `j` of bit `n` of a burst with the bits `x`. -/
structure Reading (g : Generics) (x : Nat → Bool) (n j : Nat) (s : Receiver) (crc : Byte) : Prop where
  mode : s.decoder_mode_s = .ser2par
  clock : s.clockcounter_s = j
  bit : s.bitcounter_s = n % 8
  byte : s.bytecounter_s = n / 8
  data : ∀ m < sampled g n j, m / 8 = (sampled g n j - 1) / 8 → s.crc_data_in_s.getLsbD (7 - m % 8) = x m
  stamp : ∀ m < sampled g n j, 8 ≤ m → m < 72 → s.timestamp_rec_s.getLsbD (71 - m) = x m
  valid : s.crc_data_valid_s = decide (j = 0 ∧ n % 8 = 0 ∧ 16 ≤ n ∧ n ≤ 72)
  start : s.crc_start_s = decide (j = 0 ∧ n = 16)
  crc : 0 < absorbed n j → crc = crc8 (dataByte x) (absorbed n j)

structure HasRead (x : Nat → Bool) (s : Receiver) (crc : Byte) : Prop where
  mode : s.decoder_mode_s = .crcResult
  data : s.crc_data_in_s = SerialBits.word x 72 8
  stamp : s.timestamp_rec_s = dataWord x
  crc : crc = crc8 (dataByte x) 8

structure Concluded (x : Nat → Bool) (s : Receiver) : Prop where
  error : s.error_s = decide (¬ CrcOk x)
  stamp : s.timestamp_rec_s = dataWord x

section Step

variable {s : Receiver} {serial_i : Bool} {crc : Byte}

theorem Receiver.newPulse_iff : s.newPulse = true ↔
    s.decoder_mode_s = .waitForSignal ∧ s.serial1_s = true ∧ s.serial2_s = false := by
  rw [Receiver.newPulse, Bool.and_eq_true, Bool.and_eq_true, decide_eq_true_iff, Bool.not_eq_true', and_assoc]

theorem Receiver.step_newPulse {crc' : Byte} (h : s.newPulse = true) :
    Reading g x 0 0 (s.step g false serial_i crc) crc' := by
  obtain ⟨hmode, hone, htwo⟩ := Receiver.newPulse_iff.mp h
  have hnew : s.quiet.byMode g crc = { s.quiet with
      clockcounter_s := 0, bitcounter_s := 0, bytecounter_s := 0
      period_error_s := decide (s.ratiocounter_s < 2000 - g.g_BuTis_T0_precision)
      decoder_mode_s := .ser2par } := by
    have hquiet : s.quiet.decoder_mode_s = .waitForSignal := hmode
    rw [Receiver.byMode, hquiet]
    change s.quiet.waitForSignal g = _
    rw [Receiver.waitForSignal]
    have hone' : s.quiet.serial1_s = true := hone
    have htwo' : s.quiet.serial2_s = false := htwo
    rw [if_pos hone', if_pos htwo']
    rfl
  have hlt : ∀ m, ¬ m < sampled g 0 0 := by
    intro m
    rw [sampled, if_neg (Nat.not_lt_zero _)]
    exact Nat.not_lt_zero m
  rw [Receiver.step, if_neg Bool.false_ne_true, hnew]
  refine ⟨rfl, rfl, rfl, rfl, ?_, ?_, rfl, rfl, ?_⟩
  · exact fun m hm => absurd hm (hlt m)
  · exact fun m hm => absurd hm (hlt m)
  · exact fun h => absurd h (Nat.lt_irrefl 0)

theorem Receiver.byMode_ser2par (h : s.decoder_mode_s = .ser2par) :
    s.quiet.byMode g crc = s.quiet.ser2par g := by
  have hquiet : s.quiet.decoder_mode_s = .ser2par := h
  rw [Receiver.byMode, hquiet]

/-- What the check makes of the byte that was ready. -/
theorem Reading.crc_step {c : Crc8} (h : Reading g x n j s c.crc_r) (hn : n < 80) :
    0 < absorbed n (j + 1) →
      (c.step false s.crc_start_s s.crc_data_in_s s.crc_data_valid_s s.crc_last_s).crc_r =
        crc8 (dataByte x) (absorbed n (j + 1)) := by
  have hnext : absorbed n (j + 1) = n / 8 - 1 := by rw [absorbed, if_neg (Nat.succ_ne_zero j)]
  intro hpos
  rw [hnext] at hpos ⊢
  rw [h.valid]
  by_cases hready : j = 0 ∧ n % 8 = 0 ∧ 16 ≤ n ∧ n ≤ 72
  · obtain ⟨hj, hbyte, hlow, hhigh⟩ := hready
    have hcount : absorbed n j = n / 8 - 2 := by
      rw [absorbed, if_pos hj]
      omega
    have hsampled : sampled g n j = n := by
      rw [sampled, if_neg (by omega)]
    have hdata : s.crc_data_in_s = dataByte x (n / 8 - 2) := by
      refine SerialBits.eq_word fun b hb => ?_
      have hbit := h.data (8 + 8 * (n / 8 - 2) + b) (by omega) (by omega)
      have hidx : (8 + 8 * (n / 8 - 2) + b) % 8 = b := by omega
      rwa [hidx] at hbit
    have hstart : s.crc_start_s = decide (n / 8 - 2 = 0) := by
      rw [h.start]
      exact decide_eq_decide.mpr (by omega)
    have hbytes := Crc8.step_byte s.crc_last_s hdata hstart fun hpos' => by
      rw [← hcount] at hpos' ⊢
      exact h.crc hpos'
    rw [decide_eq_true ⟨hj, hbyte, hlow, hhigh⟩, hbytes]
    exact congrArg _ (by omega)
  · have hsame : n / 8 - 1 = absorbed n j := by
      unfold absorbed
      by_cases hj : j = 0
      · rw [if_pos hj]
        omega
      · rw [if_neg hj]
    rw [decide_eq_false hready, Crc8.step_idle]
    rw [hsame] at hpos ⊢
    exact h.crc hpos

theorem Receiver.sample_mid (h : s.clockcounter_s = g.g_clockcyclesperbit / 2 - 1) : s.sample g =
    { s with
      crc_data_in_s := SerialBits.writeBit s.crc_data_in_s (7 - s.bitcounter_s) s.serial1_s
      timestamp_rec_s :=
        if 0 < s.bytecounter_s ∧ s.bytecounter_s < 9 then
          SerialBits.writeBit s.timestamp_rec_s (63 - (s.bytecounter_s - 1) * 8 - s.bitcounter_s) s.serial1_s
        else s.timestamp_rec_s } := if_pos h

theorem Receiver.sample_other (h : ¬ s.clockcounter_s = g.g_clockcyclesperbit / 2 - 1) : s.sample g = s :=
  if_neg h

theorem sampled_succ (hj : j ≠ g.g_clockcyclesperbit / 2 - 1) : sampled g n (j + 1) = sampled g n j := by
  unfold sampled
  exact if_congr (by omega) rfl rfl

/-- A clock inside of a bit. -/
theorem Reading.tick {c : Crc8} (h : Reading g x n j s c.crc_r) (hn : n < 80)
    (hj : j + 1 < g.g_clockcyclesperbit) (hx : j = g.g_clockcyclesperbit / 2 - 1 → s.serial1_s = x n) :
    Reading g x n (j + 1) (s.step g false serial_i c.crc_r)
      (c.step false s.crc_start_s s.crc_data_in_s s.crc_data_valid_s s.crc_last_s).crc_r := by
  have hclock : s.clockcounter_s < g.g_clockcyclesperbit - 1 := by
    rw [h.clock]
    omega
  have hnew : s.quiet.byMode g c.crc_r =
      { ({ s.quiet with zeroscounter_s := 0 } : Receiver).sample g with
        clockcounter_s := s.clockcounter_s + 1 } := by
    rw [Receiver.byMode_ser2par h.mode, Receiver.ser2par]
    exact if_pos hclock
  by_cases hmid : j = g.g_clockcyclesperbit / 2 - 1
  · have hold : sampled g n j = n := by rw [sampled, if_neg (by omega)]
    have hsampled : sampled g n (j + 1) = n + 1 := by rw [sampled, if_pos (by omega)]
    have hsample : s.clockcounter_s = g.g_clockcyclesperbit / 2 - 1 := h.clock.trans hmid
    rw [Receiver.sample_mid (by exact hsample)] at hnew
    rw [Receiver.step, if_neg Bool.false_ne_true, hnew]
    refine ⟨h.mode, congrArg (· + 1) h.clock, h.bit, h.byte, ?_, ?_, ?_, ?_, h.crc_step hn⟩
    · intro m hm hbyte
      rw [hsampled] at hm hbyte
      change (SerialBits.writeBit s.crc_data_in_s (7 - s.bitcounter_s) s.serial1_s).getLsbD _ = _
      rw [SerialBits.getLsbD_writeBit _ _ (by omega), h.bit, hx hmid]
      by_cases hlast : m = n
      · rw [if_pos (by rw [hlast]), hlast]
      · rw [if_neg (by omega)]
        exact h.data m (by omega) (by omega)
    · intro m hm hlow hhigh
      rw [hsampled] at hm
      change (if 0 < s.bytecounter_s ∧ s.bytecounter_s < 9 then
        SerialBits.writeBit s.timestamp_rec_s (63 - (s.bytecounter_s - 1) * 8 - s.bitcounter_s) s.serial1_s
        else s.timestamp_rec_s).getLsbD _ = _
      rw [h.byte, h.bit, hx hmid]
      by_cases hlast : m = n
      · rw [if_pos (by omega), SerialBits.getLsbD_writeBit _ _ (by omega), if_pos (by omega), hlast]
      · have hbefore := h.stamp m (by omega) hlow hhigh
        by_cases hword : 0 < n / 8 ∧ n / 8 < 9
        · rw [if_pos hword, SerialBits.getLsbD_writeBit _ _ (by omega), if_neg (by omega)]
          exact hbefore
        · rw [if_neg hword]
          exact hbefore
    · exact (decide_eq_false fun h => absurd h.1 (Nat.succ_ne_zero j)).symm
    · exact (decide_eq_false fun h => absurd h.1 (Nat.succ_ne_zero j)).symm
  · have hsample : ¬ s.clockcounter_s = g.g_clockcyclesperbit / 2 - 1 := by
      rw [h.clock]
      exact hmid
    rw [Receiver.sample_other (by exact hsample)] at hnew
    rw [Receiver.step, if_neg Bool.false_ne_true, hnew]
    refine ⟨h.mode, congrArg (· + 1) h.clock, h.bit, h.byte, ?_, ?_, ?_, ?_, h.crc_step hn⟩
    · rw [sampled_succ hmid]
      exact h.data
    · rw [sampled_succ hmid]
      exact h.stamp
    · exact (decide_eq_false fun h => absurd h.1 (Nat.succ_ne_zero j)).symm
    · exact (decide_eq_false fun h => absurd h.1 (Nat.succ_ne_zero j)).symm

theorem Reading.byMode_last (h : Reading g x n (g.g_clockcyclesperbit - 1) s crc) :
    s.quiet.byMode g crc = ({ s.quiet with zeroscounter_s := 0 } : Receiver).endOfBit := by
  have hclock : ¬ s.clockcounter_s < g.g_clockcyclesperbit - 1 := by
    rw [h.clock]
    exact Nat.lt_irrefl _
  rw [Receiver.byMode_ser2par h.mode, Receiver.ser2par]
  exact if_neg hclock

theorem Receiver.endOfBit_inner (h : s.bitcounter_s < 7) :
    s.endOfBit = { s with clockcounter_s := 0, bitcounter_s := s.bitcounter_s + 1 } := if_pos h

theorem Receiver.endOfBit_byte (h : ¬ s.bitcounter_s < 7) : s.endOfBit =
    { s with
      clockcounter_s := 0
      bitcounter_s := 0
      crc_data_valid_s := decide (s.bytecounter_s ≠ 0 ∧ s.bytecounter_s ≠ 9)
      crc_start_s := decide (s.bytecounter_s = 1)
      crc_last_s := decide (s.bytecounter_s = 8)
      bytecounter_s := if s.bytecounter_s < 9 then s.bytecounter_s + 1 else 0
      decoder_mode_s := if s.bytecounter_s < 9 then s.decoder_mode_s else .crcResult } := if_neg h

theorem absorbed_next (hg : 2 ≤ g.g_clockcyclesperbit) :
    absorbed (n + 1) 0 = absorbed n (g.g_clockcyclesperbit - 1) := by
  unfold absorbed
  rw [if_pos rfl, if_neg (by omega), Nat.add_sub_cancel]

theorem sampled_last : sampled g n (g.g_clockcyclesperbit - 1) = n + 1 := by
  have hg := g.two_le
  rw [sampled, if_pos (by omega)]

theorem sampled_first : sampled g n 0 = n := if_neg (Nat.not_lt_zero _)

theorem Reading.crc_last {c : Crc8} (h : Reading g x n (g.g_clockcyclesperbit - 1) s c.crc_r) :
    (c.step false s.crc_start_s s.crc_data_in_s s.crc_data_valid_s s.crc_last_s).crc_r = c.crc_r := by
  have hg := g.two_le
  rw [h.valid, decide_eq_false (fun h => absurd h.1 (by omega)), Crc8.step_idle]

theorem Reading.next {c : Crc8} (h : Reading g x n (g.g_clockcyclesperbit - 1) s c.crc_r) (hn : n + 1 < 80) :
    Reading g x (n + 1) 0 (s.step g false serial_i c.crc_r)
      (c.step false s.crc_start_s s.crc_data_in_s s.crc_data_valid_s s.crc_last_s).crc_r := by
  have hg := g.two_le
  have hnew := h.byMode_last
  have hdata := h.data
  have hstamp := h.stamp
  have hcrc : 0 < absorbed (n + 1) 0 →
      (c.step false s.crc_start_s s.crc_data_in_s s.crc_data_valid_s s.crc_last_s).crc_r =
        crc8 (dataByte x) (absorbed (n + 1) 0) := by
    rw [h.crc_last, absorbed_next hg]
    exact h.crc
  rw [sampled_last, ← sampled_first (n := n + 1)] at hdata hstamp
  by_cases hbit : s.bitcounter_s < 7
  · rw [Receiver.endOfBit_inner (by exact hbit)] at hnew
    rw [Receiver.step, if_neg Bool.false_ne_true, hnew]
    rw [h.bit] at hbit
    refine ⟨h.mode, rfl, ?_, ?_, hdata, hstamp, ?_, ?_, hcrc⟩
    · change s.bitcounter_s + 1 = (n + 1) % 8
      rw [h.bit]
      omega
    · change s.bytecounter_s = (n + 1) / 8
      rw [h.byte]
      omega
    · exact (decide_eq_false (by omega)).symm
    · exact (decide_eq_false (by omega)).symm
  · rw [Receiver.endOfBit_byte (by exact hbit)] at hnew
    rw [Receiver.step, if_neg Bool.false_ne_true, hnew]
    rw [h.bit] at hbit
    have hbyte : s.bytecounter_s < 9 := by
      rw [h.byte]
      omega
    refine ⟨?_, rfl, ?_, ?_, hdata, hstamp, ?_, ?_, hcrc⟩
    · exact (if_pos hbyte).trans h.mode
    · change 0 = (n + 1) % 8
      omega
    · refine (if_pos hbyte).trans ?_
      change s.bytecounter_s + 1 = (n + 1) / 8
      rw [h.byte]
      omega
    · change decide (s.bytecounter_s ≠ 0 ∧ s.bytecounter_s ≠ 9) = _
      rw [h.byte]
      exact decide_eq_decide.mpr (by omega)
    · change decide (s.bytecounter_s = 1) = _
      rw [h.byte]
      exact decide_eq_decide.mpr (by omega)

theorem Reading.finish {c : Crc8} (h : Reading g x 79 (g.g_clockcyclesperbit - 1) s c.crc_r) :
    HasRead x (s.step g false serial_i c.crc_r)
      (c.step false s.crc_start_s s.crc_data_in_s s.crc_data_valid_s s.crc_last_s).crc_r := by
  have hg := g.two_le
  have hnew := h.byMode_last
  have hdata := h.data
  have hstamp := h.stamp
  have hbit : ¬ s.bitcounter_s < 7 := by
    rw [h.bit]
    decide
  have hbyte : ¬ s.bytecounter_s < 9 := by
    rw [h.byte]
    decide
  rw [sampled_last] at hdata hstamp
  rw [Receiver.endOfBit_byte (by exact hbit)] at hnew
  rw [Receiver.step, if_neg Bool.false_ne_true, hnew]
  refine ⟨if_neg hbyte, ?_, ?_, ?_⟩
  · refine SerialBits.eq_word fun b hb => ?_
    have hidx : (72 + b) % 8 = b := by omega
    rw [← hdata (72 + b) (by omega) (by omega), hidx]
    rfl
  · refine SerialBits.eq_word fun b hb => ?_
    have hidx : 71 - (8 + b) = 64 - 1 - b := by omega
    rw [← hstamp (8 + b) (by omega) (by omega) (by omega), hidx]
    rfl
  · have habsorbed : absorbed 79 (g.g_clockcyclesperbit - 1) = 8 := by rw [absorbed, if_neg (by omega)]
    have hcrc := h.crc (by rw [habsorbed]; decide)
    rw [h.crc_last, hcrc, habsorbed]

theorem HasRead.step (h : HasRead x s crc) : Concluded x (s.step g false serial_i crc) ∧
    (s.step g false serial_i crc).decoder_mode_s = .waitForZeros ∧
    (s.step g false serial_i crc).zeroscounter_s = 0 := by
  have hmode : s.quiet.decoder_mode_s = .crcResult := h.mode
  have hnew : s.quiet.byMode g crc = s.quiet.crcResult crc := by
    rw [Receiver.byMode, hmode]
  rw [Receiver.step, if_neg Bool.false_ne_true, hnew]
  refine ⟨⟨?_, h.stamp⟩, rfl, rfl⟩
  change decide (s.crc_data_in_s ≠ crc) = _
  rw [h.data, h.crc]
  rfl

def Receiver.Waits (s : Receiver) : Prop :=
  s.decoder_mode_s = .waitForZeros ∨ s.decoder_mode_s = .waitForSignal ∧ s.newPulse = false

theorem Receiver.step_waits (h : s.Waits) :
    (s.step g false serial_i crc).error_s = s.error_s ∧
      (s.step g false serial_i crc).timestamp_rec_s = s.timestamp_rec_s ∧
      ((s.step g false serial_i crc).decoder_mode_s = .waitForSignal ∨
        s.decoder_mode_s = .waitForZeros ∧ (s.step g false serial_i crc).decoder_mode_s = .waitForZeros) := by
  rw [Receiver.step, if_neg Bool.false_ne_true]
  rcases h with hmode | ⟨hmode, hpulse⟩
  · have hquiet : s.quiet.decoder_mode_s = .waitForZeros := hmode
    rw [Receiver.byMode, hquiet]
    dsimp only
    rw [Receiver.waitForZeros]
    by_cases hone : s.quiet.serial1_s = false
    · rw [if_pos hone]
      by_cases hzeros : s.quiet.zeroscounter_s < 500
      · rw [if_pos hzeros]
        exact ⟨rfl, rfl, Or.inr ⟨hmode, hmode⟩⟩
      · rw [if_neg hzeros]
        exact ⟨rfl, rfl, Or.inl rfl⟩
    · rw [if_neg hone]
      exact ⟨rfl, rfl, Or.inr ⟨hmode, hmode⟩⟩
  · have hquiet : s.quiet.decoder_mode_s = .waitForSignal := hmode
    rw [Receiver.byMode, hquiet]
    dsimp only
    rw [Receiver.waitForSignal]
    dsimp only
    by_cases hone : s.quiet.serial1_s = true
    · have htwo : ¬ s.quiet.serial2_s = false := by
        intro htwo
        rw [Receiver.newPulse_iff.mpr ⟨hmode, hone, htwo⟩] at hpulse
        exact Bool.false_ne_true hpulse.symm
      rw [if_pos hone, if_neg htwo]
      exact ⟨rfl, rfl, Or.inl hmode⟩
    · rw [if_neg hone]
      exact ⟨rfl, rfl, Or.inl hmode⟩

/-- The result stands while the receiver waits. -/
theorem Concluded.step (h : Concluded x s) (hwaits : s.Waits) :
    Concluded x (s.step g false serial_i crc) ∧
      ((s.step g false serial_i crc).decoder_mode_s = .waitForZeros ∨
        (s.step g false serial_i crc).decoder_mode_s = .waitForSignal) := by
  obtain ⟨herror, hrec, hmode⟩ := Receiver.step_waits hwaits
  refine ⟨⟨herror.trans h.error, hrec.trans h.stamp⟩, ?_⟩
  rcases hmode with hmode | ⟨-, hmode⟩
  · exact Or.inr hmode
  · exact Or.inl hmode

theorem Receiver.step_zero (hmode : s.decoder_mode_s = .waitForZeros) (hzero : s.serial1_s = false) :
    (s.zeroscounter_s < 500 ∧ (s.step g false serial_i crc).decoder_mode_s = .waitForZeros ∧
      (s.step g false serial_i crc).zeroscounter_s = s.zeroscounter_s + 1) ∨
    (¬ s.zeroscounter_s < 500 ∧ (s.step g false serial_i crc).decoder_mode_s = .waitForSignal) := by
  have hquiet : s.quiet.decoder_mode_s = .waitForZeros := hmode
  have hzero' : s.quiet.serial1_s = false := hzero
  rw [Receiver.step, if_neg Bool.false_ne_true, Receiver.byMode, hquiet]
  dsimp only
  rw [Receiver.waitForZeros, if_pos hzero']
  by_cases hzeros : s.quiet.zeroscounter_s < 500
  · rw [if_pos hzeros]
    exact Or.inl ⟨hzeros, hmode, rfl⟩
  · rw [if_neg hzeros]
    exact Or.inr ⟨hzeros, rfl⟩

theorem Receiver.step_low (hmode : s.decoder_mode_s = .waitForSignal) (hzero : s.serial1_s = false) :
    (s.step g false serial_i crc).decoder_mode_s = .waitForSignal := by
  have hquiet : s.quiet.decoder_mode_s = .waitForSignal := hmode
  have hone : ¬ s.quiet.serial1_s = true := fun hone => Bool.false_ne_true (hzero.symm.trans hone)
  rw [Receiver.step, if_neg Bool.false_ne_true, Receiver.byMode, hquiet]
  dsimp only
  rw [Receiver.waitForSignal]
  dsimp only
  rw [if_neg hone]
  exact hmode

end Step

/-! ### Any line -/

namespace Decoder

variable (g : Generics) (s : Decoder) (line : Nat → Bool)

/-- A new pulse is seen in clock `t`. -/
def Pulse (t : Nat) : Prop := (s.stateAt g line t).receiver.newPulse = true

instance (t : Nat) : Decidable (s.Pulse g line t) := inferInstanceAs (Decidable (_ = true))

/-- The bits on the line from a pulse in clock `t` on, each in its middle. -/
def bits (t m : Nat) : Bool := line (t + (m * g.g_clockcyclesperbit + (g.g_clockcyclesperbit / 2 - 1)))

/-- The last pulse before clock `u` was seen in clock `t`. -/
structure Since (t u : Nat) : Prop where
  lt : t < u
  pulse : s.Pulse g line t
  none : ∀ v, t < v → v < u → ¬ s.Pulse g line v

variable {g s line}

theorem stateAt_succ (t : Nat) :
    s.stateAt g line (t + 1) = (s.stateAt g line t).step g false (line t) := Clocked.trace_succ ..

theorem receiver_succ (t : Nat) : (s.stateAt g line (t + 1)).receiver =
    (s.stateAt g line t).receiver.step g false (line t) (s.stateAt g line t).crc.crc_r := by
  rw [stateAt_succ]
  rfl

theorem crc_succ (t : Nat) : (s.stateAt g line (t + 1)).crc =
    (s.stateAt g line t).crc.step false (s.stateAt g line t).receiver.crc_start_s
      (s.stateAt g line t).receiver.crc_data_in_s (s.stateAt g line t).receiver.crc_data_valid_s
      (s.stateAt g line t).receiver.crc_last_s := by
  rw [stateAt_succ]
  rfl

theorem serial1_succ (t : Nat) : (s.stateAt g line (t + 1)).receiver.serial1_s = line t := by
  rw [receiver_succ, Receiver.step, if_neg Bool.false_ne_true]

theorem serial2_succ (t : Nat) :
    (s.stateAt g line (t + 1)).receiver.serial2_s = (s.stateAt g line t).receiver.serial1_s := by
  rw [receiver_succ, Receiver.step, if_neg Bool.false_ne_true]

theorem reading_succ {t n j : Nat} (hn : n < 80) (hj : j + 1 < g.g_clockcyclesperbit)
    (hr : Reading g (bits g line t) n j (s.stateAt g line (t + 1 + (n * g.g_clockcyclesperbit + j))).receiver
      (s.stateAt g line (t + 1 + (n * g.g_clockcyclesperbit + j))).crc.crc_r) :
    Reading g (bits g line t) n (j + 1)
      (s.stateAt g line (t + 1 + (n * g.g_clockcyclesperbit + (j + 1)))).receiver
      (s.stateAt g line (t + 1 + (n * g.g_clockcyclesperbit + (j + 1)))).crc.crc_r := by
  rw [← Nat.add_assoc _ j 1, ← Nat.add_assoc (t + 1), receiver_succ, crc_succ]
  refine hr.tick hn hj fun hmid => ?_
  rw [Nat.add_right_comm, serial1_succ, hmid]
  rfl

namespace Pulse

variable {t : Nat} (h : s.Pulse g line t)

include h

theorem reading {n j : Nat} (hn : n < 80) (hj : j < g.g_clockcyclesperbit) :
    Reading g (bits g line t) n j (s.stateAt g line (t + 1 + (n * g.g_clockcyclesperbit + j))).receiver
      (s.stateAt g line (t + 1 + (n * g.g_clockcyclesperbit + j))).crc.crc_r := by
  have hg := g.two_le
  induction n generalizing j with
  | zero =>
      induction j with
      | zero =>
          rw [Nat.zero_mul]
          change Reading g _ 0 0 (s.stateAt g line (t + 1)).receiver (s.stateAt g line (t + 1)).crc.crc_r
          rw [receiver_succ]
          exact Receiver.step_newPulse h
      | succ j ih => exact reading_succ hn hj (ih (by omega))
  | succ n ihn =>
      induction j with
      | zero =>
          have hprev : t + 1 + ((n + 1) * g.g_clockcyclesperbit + 0) =
              t + 1 + (n * g.g_clockcyclesperbit + (g.g_clockcyclesperbit - 1)) + 1 := by
            rw [Nat.succ_mul]
            omega
          rw [hprev, receiver_succ, crc_succ]
          exact (ihn (by omega) (by omega)).next hn
      | succ j ih => exact reading_succ hn hj (ih (by omega))

theorem hasRead : HasRead (bits g line t) (s.stateAt g line (t + 1 + 80 * g.g_clockcyclesperbit)).receiver
    (s.stateAt g line (t + 1 + 80 * g.g_clockcyclesperbit)).crc.crc_r := by
  have hg := g.two_le
  have hprev : t + 1 + 80 * g.g_clockcyclesperbit =
      t + 1 + (79 * g.g_clockcyclesperbit + (g.g_clockcyclesperbit - 1)) + 1 := by omega
  rw [hprev, receiver_succ, crc_succ]
  exact (h.reading (by decide) (by omega)).finish

/-- **The result of a burst**, from any bits on the line. -/
theorem concluded :
    Concluded (bits g line t) (s.stateAt g line (t + 1 + 80 * g.g_clockcyclesperbit + 1)).receiver ∧
      (s.stateAt g line (t + 1 + 80 * g.g_clockcyclesperbit + 1)).receiver.decoder_mode_s = .waitForZeros ∧
      (s.stateAt g line (t + 1 + 80 * g.g_clockcyclesperbit + 1)).receiver.zeroscounter_s = 0 := by
  rw [receiver_succ]
  exact h.hasRead.step

theorem mode_inside {v : Nat} (hlt : t < v) (hle : v ≤ t + 80 * g.g_clockcyclesperbit) :
    (s.stateAt g line v).receiver.decoder_mode_s = .ser2par := by
  have hg := g.two_le
  obtain ⟨p, rfl⟩ : ∃ p, v = t + 1 + p := ⟨v - (t + 1), by omega⟩
  have hpos : 0 < g.g_clockcyclesperbit := by omega
  have hn : p / g.g_clockcyclesperbit < 80 := Nat.div_lt_of_lt_mul (by rw [Nat.mul_comm]; omega)
  have hsplit : p = p / g.g_clockcyclesperbit * g.g_clockcyclesperbit + p % g.g_clockcyclesperbit :=
    (Nat.div_add_mod' p _).symm
  rw [hsplit]
  exact (h.reading hn (Nat.mod_lt _ hpos)).mode

theorem none_inside {v : Nat} (hlt : t < v) (hle : v ≤ t + 1 + 80 * g.g_clockcyclesperbit) :
    ¬ s.Pulse g line v := by
  intro hv
  have hmode := (Receiver.newPulse_iff.mp hv).1
  rcases Nat.lt_or_ge (t + 80 * g.g_clockcyclesperbit) v with hend | hinside
  · obtain rfl : v = t + 1 + 80 * g.g_clockcyclesperbit := by omega
    rw [h.hasRead.mode] at hmode
    exact absurd hmode (by decide)
  · rw [h.mode_inside hlt hinside] at hmode
    exact absurd hmode (by decide)

end Pulse

namespace Since

variable {t u : Nat}

/-- The result of a burst stands until the next pulse. -/
theorem concluded (h : s.Since g line t u) (hu : t + 1 + 80 * g.g_clockcyclesperbit < u) :
    Concluded (bits g line t) (s.stateAt g line u).receiver ∧
      ((s.stateAt g line u).receiver.decoder_mode_s = .waitForZeros ∨
        (s.stateAt g line u).receiver.decoder_mode_s = .waitForSignal) := by
  induction u, Nat.succ_le_of_lt hu using Nat.le_induction with
  | base =>
      obtain ⟨hresult, hmode, -⟩ := h.pulse.concluded
      exact ⟨hresult, Or.inl hmode⟩
  | succ u hle ih =>
      have hsince : s.Since g line t u :=
        ⟨by omega, h.pulse, fun v hv hvu => h.none v hv (Nat.lt_succ_of_lt hvu)⟩
      obtain ⟨hresult, hmode⟩ := ih hsince hle
      have hquiet : (s.stateAt g line u).receiver.newPulse = false := by
        rw [← Bool.not_eq_true]
        exact h.none u hsince.lt (Nat.lt_succ_self u)
      rw [receiver_succ]
      exact hresult.step (hmode.imp_right fun hmode => ⟨hmode, hquiet⟩)

theorem concluded_pulse (h : s.Since g line t u) (hu : s.Pulse g line u) :
    Concluded (bits g line t) (s.stateAt g line u).receiver := by
  refine (h.concluded ?_).1
  by_contra hle
  exact h.pulse.none_inside h.lt (Nat.le_of_not_lt hle) hu

end Since

/-- Until the first pulse, the result of the reset stands. -/
theorem before_pulses {u : Nat} (h : ∀ v < u, ¬ s.Pulse g line v) :
    (s.stateAt g line u).receiver.error_s = true ∧
      (s.stateAt g line u).receiver.decoder_mode_s = .waitForSignal := by
  induction u with
  | zero => exact ⟨rfl, rfl⟩
  | succ u ih =>
      obtain ⟨herror, hmode⟩ := ih fun v hv => h v (Nat.lt_succ_of_lt hv)
      have hquiet : (s.stateAt g line u).receiver.newPulse = false := by
        rw [← Bool.not_eq_true]
        exact h u (Nat.lt_succ_self u)
      rw [receiver_succ]
      obtain ⟨herror', -, hmode'⟩ := Receiver.step_waits (Or.inr ⟨hmode, hquiet⟩)
      refine ⟨herror'.trans herror, hmode'.resolve_right ?_⟩
      rintro ⟨hzeros, -⟩
      exact absurd (hmode.symm.trans hzeros) (by decide)

end Decoder

end ButisT0
