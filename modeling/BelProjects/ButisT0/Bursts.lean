import BelProjects.ButisT0.TimestampEncoder

/-!
# The bursts of the encoder

From a rising edge of T0 on, the line carries the start byte, the timestamp and its check byte,
and is low until the next one.
-/

namespace ButisT0

def frame (ts : Timestamp) (n : Nat) : Bool :=
  if n < 8 then decide (n % 2 = 0)
  else if n < 72 then ts.getLsbD (71 - n)
  else (crc8 (timestampByte ts) 8).getLsbD (79 - n)

theorem dataByte_frame (ts : Timestamp) {i : Nat} (hi : i < 8) :
    dataByte (frame ts) i = timestampByte ts i := by
  refine (SerialBits.eq_word fun b hb => ?_).symm
  have hlow : ¬ 8 + 8 * i + b < 8 := by omega
  have hdata : 8 + 8 * i + b < 72 := by omega
  rw [frame, if_neg hlow, if_pos hdata, timestampByte, BitVec.getLsbD_extractLsb',
    decide_eq_true (by omega : 8 - 1 - b < 8), Bool.true_and]
  exact congrArg ts.getLsbD (by omega)

theorem dataWord_frame (ts : Timestamp) : dataWord (frame ts) = ts := by
  refine (SerialBits.eq_word fun b hb => ?_).symm
  have hlow : ¬ 8 + b < 8 := by omega
  have hdata : 8 + b < 72 := by omega
  rw [frame, if_neg hlow, if_pos hdata]
  exact congrArg ts.getLsbD (by omega)

theorem crcOk_frame (ts : Timestamp) : CrcOk (frame ts) := by
  have hbytes : crc8 (dataByte (frame ts)) 8 = crc8 (timestampByte ts) 8 :=
    crc8_congr fun i hi => dataByte_frame ts hi
  rw [CrcOk, hbytes]
  refine (SerialBits.eq_word fun b hb => ?_).symm
  have hlow : ¬ 72 + b < 8 := by omega
  have hdata : ¬ 72 + b < 72 := by omega
  rw [frame, if_neg hlow, if_neg hdata]
  exact congrArg (crc8 (timestampByte ts) 8).getLsbD (by omega)

variable {g : Generics} {ts : Timestamp}

/-! ### The check byte -/

/-- `i` bytes of the timestamp have gone to the check, the last of them being on its way. -/
structure Fed (ts : Timestamp) (i : Nat) (s : Encoder) : Prop where
  count : s.feeder.tsbytecounter_s = i
  valid : s.feeder.crc_data_valid_s = decide (0 < i)
  start : 0 < i → s.feeder.crc_start_s = decide (i - 1 = 0)
  data : 0 < i → s.feeder.crc_data_in_s = timestampByte ts (i - 1)
  crc : 0 < i - 1 → s.crc.crc_r = crc8 (timestampByte ts) (i - 1)

structure Checked (ts : Timestamp) (s : Encoder) : Prop where
  count : s.feeder.tsbytecounter_s = 8
  valid : s.feeder.crc_data_valid_s = false
  crc : s.crc.crc_r = crc8 (timestampByte ts) 8

section Check

variable {i : EncoderInputs} {s : Encoder}

theorem Fed.of_pulse (hT0 : i.BuTis_T0_i = true) : Fed ts 0 (s.step g false i) := by
  have hfeeder : (s.step g false i).feeder = { s.feeder with
      crc_start_s := false, crc_last_s := false, crc_data_valid_s := false, tsbytecounter_s := 0 } := by
    change s.feeder.step false i = _
    rw [Feeder.step, if_neg Bool.false_ne_true, if_pos hT0]
  refine ⟨by rw [hfeeder], by rw [hfeeder]; rfl, ?_, ?_, ?_⟩
  · exact fun h => absurd h (Nat.lt_irrefl 0)
  · exact fun h => absurd h (Nat.lt_irrefl 0)
  · exact fun h => absurd h (Nat.lt_irrefl 0)

/-- What the check takes in while `n` bytes have gone to it. -/
theorem Fed.crc_step {n : Nat} (h : Fed ts n s) (hn : 0 < n) :
    (s.step g false i).crc.crc_r = crc8 (timestampByte ts) n := by
  have hbyte := Crc8.step_byte s.feeder.crc_last_s (h.data hn) (h.start hn) h.crc
  rw [Nat.sub_add_cancel hn] at hbyte
  change (s.crc.step false _ _ s.feeder.crc_data_valid_s _).crc_r = _
  rwa [h.valid, decide_eq_true hn]

theorem Fed.step {n : Nat} (h : Fed ts n s) (hn : n < 8) (hT0 : i.BuTis_T0_i = false)
    (hts : i.timestamp_on_next_T0_i = ts) : Fed ts (n + 1) (s.step g false i) := by
  have hfeeder : (s.step g false i).feeder =
      { crc_data_in_s := timestampByte ts n, crc_data_valid_s := true, crc_start_s := decide (n = 0),
        crc_last_s := decide (n = 7), tsbytecounter_s := n + 1 } := by
    change s.feeder.step false i = _
    rw [Feeder.step, if_neg Bool.false_ne_true, if_neg (by rw [hT0]; exact Bool.false_ne_true)]
    simp only [h.count, if_pos hn, hts]
  refine ⟨by rw [hfeeder], by rw [hfeeder]; rfl, ?_, ?_, ?_⟩
  · exact fun _ => by rw [hfeeder]; rfl
  · exact fun _ => by rw [hfeeder]; rfl
  · exact fun hn => h.crc_step hn

theorem Fed.checked (h : Fed ts 8 s) (hT0 : i.BuTis_T0_i = false) : Checked ts (s.step g false i) := by
  have hfeeder : (s.step g false i).feeder = { s.feeder with
      crc_start_s := false, crc_last_s := false, crc_data_valid_s := false, crc_data_in_s := 0 } := by
    change s.feeder.step false i = _
    rw [Feeder.step, if_neg Bool.false_ne_true, if_neg (by rw [hT0]; exact Bool.false_ne_true)]
    simp only [h.count, if_neg (Nat.lt_irrefl 8)]
  refine ⟨?_, by rw [hfeeder], h.crc_step (by decide)⟩
  rw [hfeeder]
  exact h.count

theorem Checked.step (h : Checked ts s) (hT0 : i.BuTis_T0_i = false) : Checked ts (s.step g false i) := by
  have hfeeder : (s.step g false i).feeder = { s.feeder with
      crc_start_s := false, crc_last_s := false, crc_data_valid_s := false, crc_data_in_s := 0 } := by
    change s.feeder.step false i = _
    rw [Feeder.step, if_neg Bool.false_ne_true, if_neg (by rw [hT0]; exact Bool.false_ne_true)]
    simp only [h.count, if_neg (Nat.lt_irrefl 8)]
  refine ⟨?_, by rw [hfeeder], ?_⟩
  · rw [hfeeder]
    exact h.count
  · change (s.crc.step false _ _ s.feeder.crc_data_valid_s _).crc_r = _
    rw [h.valid, Crc8.step_idle]
    exact h.crc

end Check

/-! ### The bits -/

/-- Clock `j` of bit `n`; the line still has the bit before in the first clock of a bit. -/
structure Sending (g : Generics) (ts : Timestamp) (n j : Nat) (s : Sender) : Prop where
  mode : s.encoder_mode_s = if n < 8 then .startByte else .par2ser
  clock : s.clockcounter_s = j
  bit : s.bitcounter_s = n % 8
  byte : s.bytecounter_s = n / 8 - 1
  serial : s.serial_s = frame ts (if j = 0 then n - 1 else n)
  begun : 0 < n ∨ 0 < j

section Bits

variable {i : EncoderInputs} {crc : Byte} {s : Sender} {n j : Nat}

def Sender.Calm (i : EncoderInputs) (s : Sender) : Prop := ¬ (i.BuTis_T0_i = true ∧ s.BuTis_T0_s = false)

theorem Sender.step_rise (h : i.BuTis_T0_i = true ∧ s.BuTis_T0_s = false) :
    Sending g ts 0 1 (s.step g false i crc) := by
  have hstep : s.step g false i crc =
      { BuTis_T0_s := true, encoder_mode_s := .startByte, clockcounter_s := 1, bitcounter_s := 0,
        bytecounter_s := 0, serial_s := true } := by
    rw [Sender.step, if_neg Bool.false_ne_true, if_pos h]
  rw [hstep]
  exact ⟨rfl, rfl, rfl, rfl, rfl, Or.inr Nat.one_pos⟩

theorem Sender.step_startByte (hcalm : s.Calm i) (hmode : s.encoder_mode_s = .startByte) :
    s.step g false i crc = { s with BuTis_T0_s := i.BuTis_T0_i }.startByte g := by
  rw [Sender.step, if_neg Bool.false_ne_true, if_neg hcalm]
  simp only [hmode]

theorem Sender.step_par2ser (hcalm : s.Calm i) (hmode : s.encoder_mode_s = .par2ser) :
    s.step g false i crc =
      { s with BuTis_T0_s := i.BuTis_T0_i }.par2ser g i.timestamp_on_next_T0_i crc := by
  rw [Sender.step, if_neg Bool.false_ne_true, if_neg hcalm]
  simp only [hmode]

theorem Sender.step_nextTimestamp (hcalm : s.Calm i) (hmode : s.encoder_mode_s = .nextTimestamp) :
    (s.step g false i crc).encoder_mode_s = .nextTimestamp ∧ (s.step g false i crc).serial_s = false := by
  rw [Sender.step, if_neg Bool.false_ne_true, if_neg hcalm]
  simp only [hmode, and_self]

theorem Sender.step_T0 : (s.step g false i crc).BuTis_T0_s = i.BuTis_T0_i := by
  rw [Sender.step, if_neg Bool.false_ne_true]
  by_cases hrise : i.BuTis_T0_i = true ∧ s.BuTis_T0_s = false
  · rw [if_pos hrise]
    exact hrise.1.symm
  · rw [if_neg hrise]
    cases hmode : s.encoder_mode_s <;> simp only [Sender.startByte, Sender.par2ser] <;> grind

/-- What a burst needs in its clocks: the timestamp, and the check byte in time. -/
structure Supplied (ts : Timestamp) (n : Nat) (i : EncoderInputs) (crc : Byte) : Prop where
  stamp : n < 72 → i.timestamp_on_next_T0_i = ts
  crc : 72 ≤ n → crc = crc8 (timestampByte ts) 8

theorem Supplied.bit (h : Supplied ts n i crc) (hlow : 8 ≤ n) (hn : n < 80) :
    (if n / 8 - 1 < 8 then i.timestamp_on_next_T0_i.getLsbD (63 - 8 * (n / 8 - 1) - n % 8)
      else crc.getLsbD (7 - n % 8)) = frame ts n := by
  have hstart : ¬ n < 8 := Nat.not_lt.mpr hlow
  by_cases hdata : n < 72
  · have hbyte : n / 8 - 1 < 8 := by omega
    have hbit : 63 - 8 * (n / 8 - 1) - n % 8 = 71 - n := by omega
    rw [if_pos hbyte, h.stamp hdata, hbit, frame, if_neg hstart, if_pos hdata]
  · have hbyte : ¬ n / 8 - 1 < 8 := by omega
    have hbit : 7 - n % 8 = 79 - n := by omega
    rw [if_neg hbyte, h.crc (Nat.le_of_not_lt hdata), hbit, frame, if_neg hstart, if_neg hdata]

theorem Sending.tick (h : Sending g ts n j s) (hcalm : s.Calm i) (hsup : Supplied ts n i crc)
    (hn : n < 80) (hj : j + 1 < g.g_clockcyclesperbit) : Sending g ts n (j + 1) (s.step g false i crc) := by
  have hclock : s.clockcounter_s < g.g_clockcyclesperbit - 1 := by
    rw [h.clock]
    omega
  by_cases hstart : n < 8
  · have hmode : s.encoder_mode_s = .startByte := h.mode.trans (if_pos hstart)
    have hserial : (if s.clockcounter_s = 0 then !s.serial_s else s.serial_s) = frame ts n := by
      rw [h.clock, h.serial]
      by_cases hj : j = 0
      · have hpos : 0 < n := h.begun.resolve_right (by omega)
        rw [if_pos hj, if_pos hj, frame, frame, if_pos hstart, if_pos (by omega)]
        rw [← decide_not]
        exact decide_eq_decide.mpr (by omega)
      · rw [if_neg hj, if_neg hj]
    have hbyte : 0 = n / 8 - 1 := by omega
    rw [Sender.step_startByte hcalm hmode, Sender.startByte]
    dsimp only
    rw [if_pos hclock, hserial]
    exact ⟨h.mode, congrArg (· + 1) h.clock, h.bit, hbyte, rfl, Or.inr (Nat.succ_pos j)⟩
  · have hmode : s.encoder_mode_s = .par2ser := h.mode.trans (if_neg hstart)
    have hserial : (if s.clockcounter_s = 0 then
        if s.bytecounter_s < 8 then i.timestamp_on_next_T0_i.getLsbD (63 - 8 * s.bytecounter_s - s.bitcounter_s)
        else crc.getLsbD (7 - s.bitcounter_s)
        else s.serial_s) = frame ts n := by
      rw [h.clock, h.serial, h.byte, h.bit, hsup.bit (Nat.le_of_not_lt hstart) hn]
      by_cases hj : j = 0
      · rw [if_pos hj]
      · rw [if_neg hj, if_neg hj]
    rw [Sender.step_par2ser hcalm hmode, Sender.par2ser]
    dsimp only
    rw [if_pos hclock, hserial]
    exact ⟨h.mode, congrArg (· + 1) h.clock, h.bit, h.byte, rfl, Or.inr (Nat.succ_pos j)⟩

theorem Sending.next (h : Sending g ts n (g.g_clockcyclesperbit - 1) s) (hcalm : s.Calm i) (hn : n + 1 < 80) :
    Sending g ts (n + 1) 0 (s.step g false i crc) := by
  have hg := g.two_le
  have hclock : ¬ s.clockcounter_s < g.g_clockcyclesperbit - 1 := by
    rw [h.clock]
    omega
  have hzero : ¬ s.clockcounter_s = 0 := by
    rw [h.clock]
    omega
  have hserial : s.serial_s = frame ts n := by rw [h.serial, if_neg (by omega)]
  by_cases hstart : n < 8
  · have hmode : s.encoder_mode_s = .startByte := h.mode.trans (if_pos hstart)
    rw [Sender.step_startByte hcalm hmode, Sender.startByte]
    dsimp only
    rw [if_neg hclock, if_neg hzero]
    by_cases hbit : s.bitcounter_s < 7
    · have hlt : n + 1 < 8 := by
        rw [h.bit] at hbit
        omega
      rw [if_pos hbit]
      refine ⟨hmode.trans (if_pos hlt).symm, rfl, ?_, ?_, hserial, Or.inl (Nat.succ_pos n)⟩
      · change s.bitcounter_s + 1 = (n + 1) % 8
        rw [h.bit]
        omega
      · change 0 = (n + 1) / 8 - 1
        omega
    · have hlast : n = 7 := by
        rw [h.bit] at hbit
        omega
      rw [if_neg hbit, hlast]
      exact ⟨rfl, rfl, rfl, rfl, hserial.trans (by rw [hlast]; rfl), Or.inl (by decide)⟩
  · have hmode : s.encoder_mode_s = .par2ser := h.mode.trans (if_neg hstart)
    have hlow : ¬ n + 1 < 8 := by omega
    rw [Sender.step_par2ser hcalm hmode, Sender.par2ser]
    dsimp only
    rw [if_neg hclock, if_neg hzero]
    by_cases hbit : s.bitcounter_s < 7
    · rw [if_pos hbit]
      refine ⟨hmode.trans (if_neg hlow).symm, rfl, ?_, ?_, hserial, Or.inl (Nat.succ_pos n)⟩
      · change s.bitcounter_s + 1 = (n + 1) % 8
        rw [h.bit] at hbit ⊢
        omega
      · change s.bytecounter_s = (n + 1) / 8 - 1
        rw [h.bit] at hbit
        rw [h.byte]
        omega
    · have hbyte : s.bytecounter_s < 8 := by
        rw [h.bit] at hbit
        rw [h.byte]
        omega
      rw [if_neg hbit, if_pos hbyte]
      refine ⟨hmode.trans (if_neg hlow).symm, rfl, ?_, ?_, hserial, Or.inl (Nat.succ_pos n)⟩
      · change 0 = (n + 1) % 8
        rw [h.bit] at hbit
        omega
      · change s.bytecounter_s + 1 = (n + 1) / 8 - 1
        rw [h.bit] at hbit
        rw [h.byte]
        omega

theorem Sending.done (h : Sending g ts 79 (g.g_clockcyclesperbit - 1) s) (hcalm : s.Calm i) :
    (s.step g false i crc).encoder_mode_s = .nextTimestamp ∧
      (s.step g false i crc).serial_s = frame ts 79 := by
  have hg := g.two_le
  have hmode : s.encoder_mode_s = .par2ser := h.mode
  have hzero : ¬ s.clockcounter_s = 0 := by
    rw [h.clock]
    omega
  have hserial : s.serial_s = frame ts 79 := by rw [h.serial, if_neg (by omega)]
  have hclock : ¬ s.clockcounter_s < g.g_clockcyclesperbit - 1 := by
    rw [h.clock]
    exact Nat.lt_irrefl _
  have hbit : ¬ s.bitcounter_s < 7 := by
    rw [h.bit]
    decide
  have hbyte : ¬ s.bytecounter_s < 8 := by
    rw [h.byte]
    decide
  rw [Sender.step_par2ser hcalm hmode, Sender.par2ser]
  dsimp only
  rw [if_neg hclock, if_neg hbit, if_neg hbyte, if_neg hzero]
  exact ⟨rfl, hserial⟩

end Bits

/-! ### A run -/

/-- The inputs of the encoder from a reset on: T0 comes every 2000 clocks and is low again before
the check byte is due; the timestamp stands while its burst is sent. -/
structure Schedule (g : Generics) (inp : Nat → EncoderInputs) where
  first : Nat
  width : Nat → Nat
  start : Timestamp
  width_pos : ∀ k, 0 < width k
  width_short : ∀ k, width k + 9 ≤ 72 * g.g_clockcyclesperbit
  bits_short : g.g_clockcyclesperbit ≤ 18
  t0 : ∀ t, (inp t).BuTis_T0_i = true ↔ ∃ k, first + 2000 * k ≤ t ∧ t < first + 2000 * k + width k
  stable : ∀ k p, p < 80 * g.g_clockcyclesperbit →
    (inp (first + 2000 * k + p)).timestamp_on_next_T0_i = start + BitVec.ofNat 64 (10000 * (k + 1))

namespace Schedule

variable {inp : Nat → EncoderInputs} (c : Schedule g inp) (k : Nat)

def edge : Nat := c.first + 2000 * k

/-- The timestamp sent in burst `k`, that of the next edge. -/
def sent : Timestamp := c.start + BitVec.ofNat 64 (10000 * (k + 1))

theorem edge_succ : c.edge (k + 1) = c.edge k + 2000 := by
  unfold edge
  omega

theorem width_lt : c.width k < 2000 := by
  have hwidth := c.width_short k
  have hbits := c.bits_short
  omega

theorem t0_edge {p : Nat} (hp : p < 2000) :
    (inp (c.edge k + p)).BuTis_T0_i = true ↔ p < c.width k := by
  rw [c.t0]
  constructor
  · rintro ⟨k', hle, hlt⟩
    have hwidth := c.width_lt k'
    obtain rfl : k' = k := by
      unfold edge at hle hlt
      omega
    unfold edge at hlt
    omega
  · intro hlt
    refine ⟨k, ?_, ?_⟩
    · exact Nat.le_add_right _ _
    · unfold edge
      omega

theorem t0_before {t : Nat} (ht : t < c.first) : (inp t).BuTis_T0_i = false := by
  rw [← Bool.not_eq_true, c.t0]
  rintro ⟨k, hle, -⟩
  omega

section Run

variable (e : Encoder) (i₀ : EncoderInputs)

theorem stateAt_succ (t : Nat) :
    e.stateAt g i₀ inp (t + 1) = (e.stateAt g i₀ inp t).step g false (inp t) := Clocked.trace_succ ..

theorem sender_succ (t : Nat) : (e.stateAt g i₀ inp (t + 1)).sender =
    (e.stateAt g i₀ inp t).sender.step g false (inp t) (e.stateAt g i₀ inp t).crc.crc_r := by
  rw [stateAt_succ]
  rfl

theorem T0_succ (t : Nat) : (e.stateAt g i₀ inp (t + 1)).sender.BuTis_T0_s = (inp t).BuTis_T0_i := by
  rw [sender_succ]
  exact Sender.step_T0

theorem rise : (inp (c.edge k)).BuTis_T0_i = true ∧
    (e.stateAt g i₀ inp (c.edge k)).sender.BuTis_T0_s = false := by
  refine ⟨(c.t0_edge k (by decide : 0 < 2000)).mpr (c.width_pos k), ?_⟩
  have hprev : ∀ t, c.edge k = t + 1 → (inp t).BuTis_T0_i = false := by
    intro t ht
    cases k with
    | zero => exact c.t0_before (Nat.lt_of_succ_le ht.symm.le)
    | succ k =>
        have hwidth := c.width_lt k
        rw [edge_succ] at ht
        obtain rfl : t = c.edge k + 1999 := by omega
        rw [← Bool.not_eq_true, c.t0_edge k (by decide)]
        have hwidth := c.width_short k
        have hbits := c.bits_short
        omega
  cases ht : c.edge k with
  | zero => rfl
  | succ t => exact (T0_succ e i₀ t).trans (hprev t ht)

theorem calm {p : Nat} (hpos : 0 < p) (hp : p < 2000) :
    (e.stateAt g i₀ inp (c.edge k + p)).sender.Calm (inp (c.edge k + p)) := by
  rintro ⟨hhigh, hlow⟩
  obtain ⟨q, rfl⟩ : ∃ q, p = q + 1 := ⟨p - 1, by omega⟩
  have hbefore : (inp (c.edge k + q)).BuTis_T0_i = true :=
    (c.t0_edge k (by omega)).mpr (Nat.lt_of_succ_lt ((c.t0_edge k hp).mp hhigh))
  exact absurd ((T0_succ e i₀ (c.edge k + q)).symm.trans hlow) (by rw [hbefore]; decide)

theorem calm_before {t : Nat} (ht : t < c.first) : (e.stateAt g i₀ inp t).sender.Calm (inp t) := by
  rintro ⟨hhigh, -⟩
  exact absurd hhigh (by rw [c.t0_before ht]; decide)

theorem low {p : Nat} (hle : c.width k ≤ p) (hp : p < 2000) : (inp (c.edge k + p)).BuTis_T0_i = false := by
  rw [← Bool.not_eq_true, c.t0_edge k hp]
  exact Nat.not_lt.mpr hle

/-- The bytes go to the check from the clock on in which T0 is low. -/
theorem fed {i : Nat} (hi : i ≤ 8) :
    Fed (c.sent k) i (e.stateAt g i₀ inp (c.edge k + (c.width k + i))) := by
  have hwidth := c.width_short k
  have hbits := c.bits_short
  induction i with
  | zero =>
      have hpos := c.width_pos k
      have hlast : c.edge k + (c.width k + 0) = c.edge k + (c.width k - 1) + 1 := by omega
      rw [hlast, stateAt_succ]
      exact Fed.of_pulse ((c.t0_edge k (by omega)).mpr (by omega))
  | succ i ih =>
      rw [← Nat.add_assoc (c.width k), ← Nat.add_assoc (c.edge k), stateAt_succ]
      exact (ih (by omega)).step (by omega) (c.low k (by omega) (by omega)) (c.stable k _ (by omega))

theorem checked {p : Nat} (hle : c.width k + 9 ≤ p) (hp : p ≤ 2000) :
    Checked (c.sent k) (e.stateAt g i₀ inp (c.edge k + p)) := by
  induction p, hle using Nat.le_induction with
  | base =>
      have hlow := c.low k (Nat.le_add_right (c.width k) 8) (by omega)
      rw [← Nat.add_assoc (c.edge k) _ 9, stateAt_succ]
      exact (c.fed k e i₀ (Nat.le_refl 8)).checked hlow
  | succ p hle ih =>
      rw [← Nat.add_assoc, stateAt_succ]
      exact (ih (by omega)).step (c.low k (by omega) (by omega))

theorem supplied {n j : Nat} (hn : n < 80) (hj : j < g.g_clockcyclesperbit) :
    Supplied (c.sent k) n (inp (c.edge k + (n * g.g_clockcyclesperbit + j)))
      (e.stateAt g i₀ inp (c.edge k + (n * g.g_clockcyclesperbit + j))).crc.crc_r := by
  have hlast : n * g.g_clockcyclesperbit ≤ 79 * g.g_clockcyclesperbit :=
    Nat.mul_le_mul_right _ (Nat.le_of_lt_succ hn)
  have hbits := c.bits_short
  refine ⟨fun _ => c.stable k _ (by omega), fun hcheck => ?_⟩
  have hdue : 72 * g.g_clockcyclesperbit ≤ n * g.g_clockcyclesperbit := Nat.mul_le_mul_right _ hcheck
  have hwidth := c.width_short k
  exact (c.checked k e i₀ (by omega) (by omega)).crc

theorem sending {n j : Nat} (hn : n < 80) (hj : j < g.g_clockcyclesperbit) (hbegun : 0 < n ∨ 0 < j) :
    Sending g (c.sent k) n j
      (e.stateAt g i₀ inp (c.edge k + (n * g.g_clockcyclesperbit + j))).sender := by
  have hg := g.two_le
  have hbits := c.bits_short
  induction n generalizing j with
  | zero =>
      obtain ⟨j, rfl⟩ : ∃ j', j = j' + 1 := ⟨j - 1, by omega⟩
      induction j with
      | zero =>
          have hone : c.edge k + (0 * g.g_clockcyclesperbit + (0 + 1)) = c.edge k + 1 := by omega
          rw [hone, sender_succ]
          exact Sender.step_rise (c.rise k e i₀)
      | succ j ih =>
          have hpos : 0 < 0 * g.g_clockcyclesperbit + (j + 1) := by omega
          rw [← Nat.add_assoc _ (j + 1) 1, ← Nat.add_assoc (c.edge k), sender_succ]
          exact (ih (by omega) (Or.inr (Nat.succ_pos j))).tick (c.calm k e i₀ hpos (by omega))
            (c.supplied k e i₀ hn (by omega)) hn hj
  | succ n ihn =>
      have hlast : (n + 1) * g.g_clockcyclesperbit ≤ 79 * g.g_clockcyclesperbit :=
        Nat.mul_le_mul_right _ (Nat.le_of_lt_succ hn)
      induction j with
      | zero =>
          have hprev : c.edge k + ((n + 1) * g.g_clockcyclesperbit + 0) =
              c.edge k + (n * g.g_clockcyclesperbit + (g.g_clockcyclesperbit - 1)) + 1 := by
            rw [Nat.succ_mul]
            omega
          have hlt : n * g.g_clockcyclesperbit + (g.g_clockcyclesperbit - 1) < 2000 := by
            rw [Nat.succ_mul] at hlast
            omega
          rw [hprev, sender_succ]
          exact (ihn (by omega) (by omega) (Or.inr (by omega))).next (c.calm k e i₀ (by omega) hlt) hn
      | succ j ih =>
          have hpos : 0 < (n + 1) * g.g_clockcyclesperbit + j := by
            rw [Nat.succ_mul]
            omega
          rw [← Nat.add_assoc _ j 1, ← Nat.add_assoc (c.edge k), sender_succ]
          exact (ih (by omega) (Or.inl (Nat.succ_pos n))).tick (c.calm k e i₀ hpos (by omega))
            (c.supplied k e i₀ hn (by omega)) hn hj

/-- **The burst on the line.** -/
theorem serial_burst {n j : Nat} (hn : n < 80) (hj : j < g.g_clockcyclesperbit) :
    (e.stateAt g i₀ inp (c.edge k + 1 + (n * g.g_clockcyclesperbit + j))).sender.serial_s =
      frame (c.sent k) n := by
  have hg := g.two_le
  by_cases hlast : j + 1 < g.g_clockcyclesperbit
  · have hclock : c.edge k + 1 + (n * g.g_clockcyclesperbit + j) =
        c.edge k + (n * g.g_clockcyclesperbit + (j + 1)) := by omega
    rw [hclock, (c.sending k e i₀ hn hlast (Or.inr (Nat.succ_pos j))).serial]
    exact congrArg _ (if_neg (Nat.succ_ne_zero j))
  · obtain rfl : j = g.g_clockcyclesperbit - 1 := by omega
    have hend := c.sending k e i₀ hn hj (Or.inr (by omega))
    by_cases hmore : n + 1 < 80
    · have hclock : c.edge k + 1 + (n * g.g_clockcyclesperbit + (g.g_clockcyclesperbit - 1)) =
          c.edge k + ((n + 1) * g.g_clockcyclesperbit + 0) := by
        rw [Nat.succ_mul]
        omega
      rw [hclock, (c.sending k e i₀ hmore (by omega) (Or.inl (Nat.succ_pos n))).serial]
      exact congrArg _ (if_pos rfl)
    · obtain rfl : n = 79 := by omega
      rw [Nat.add_right_comm, sender_succ]
      exact (hend.done (c.calm k e i₀ (by omega) (by have := c.bits_short; omega))).2

theorem waiting {p : Nat} (hle : 80 * g.g_clockcyclesperbit ≤ p) (hp : p ≤ 2000) :
    (e.stateAt g i₀ inp (c.edge k + p)).sender.encoder_mode_s = .nextTimestamp ∧
      (80 * g.g_clockcyclesperbit < p → (e.stateAt g i₀ inp (c.edge k + p)).sender.serial_s = false) := by
  have hg := g.two_le
  have hbits := c.bits_short
  induction p, hle using Nat.le_induction with
  | base =>
      have hclock : c.edge k + 80 * g.g_clockcyclesperbit =
          c.edge k + (79 * g.g_clockcyclesperbit + (g.g_clockcyclesperbit - 1)) + 1 := by omega
      have hpos : 0 < 79 * g.g_clockcyclesperbit + (g.g_clockcyclesperbit - 1) := by omega
      have hend := c.sending k e i₀ (by decide : 79 < 80)
        (by omega : g.g_clockcyclesperbit - 1 < g.g_clockcyclesperbit) (Or.inl (by decide))
      rw [hclock, sender_succ]
      exact ⟨(hend.done (c.calm k e i₀ hpos (by omega))).1, fun h => absurd h (Nat.lt_irrefl _)⟩
  | succ p hle ih =>
      rw [← Nat.add_assoc, sender_succ]
      have hnext := @Sender.step_nextTimestamp g _ (e.stateAt g i₀ inp (c.edge k + p)).crc.crc_r _
        (c.calm k e i₀ (by omega) (by omega)) (ih (by omega)).1
      exact ⟨hnext.1, fun _ => hnext.2⟩

theorem waiting_before {t : Nat} (ht : t ≤ c.first) :
    (e.stateAt g i₀ inp t).sender.encoder_mode_s = .nextTimestamp ∧
      (e.stateAt g i₀ inp t).sender.serial_s = false := by
  induction t with
  | zero => exact ⟨rfl, rfl⟩
  | succ t ih =>
      rw [sender_succ]
      exact Sender.step_nextTimestamp (c.calm_before e i₀ ht) (ih (Nat.le_of_succ_le ht)).1

theorem serial_gap {p : Nat} (hle : 80 * g.g_clockcyclesperbit < p) (hp : p ≤ 2000) :
    (e.stateAt g i₀ inp (c.edge k + p)).sender.serial_s = false :=
  (c.waiting k e i₀ (Nat.le_of_lt hle) hp).2 hle

end Run

end Schedule

end ButisT0
