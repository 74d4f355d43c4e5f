import BelProjects.Library.SerialBits
import BelProjects.Library.Clocked
import Mathlib.Tactic.Common

/-!
# The check byte of a timestamp

`crc8_data8` takes one byte at a clock edge, with a mark on the first one.
-/

namespace ButisT0

abbrev Byte := BitVec 8
abbrev Timestamp := BitVec 64

/-- `crc_c`: the register after a byte. -/
def crcC (data crc_i : Byte) : Byte :=
  let d := fun i => data.getLsbD i
  let r := fun i => crc_i.getLsbD i
  SerialBits.word (fun
    | 0 => d 5 ^^ d 6 ^^ d 7 ^^ r 7 ^^ r 6 ^^ r 5
    | 1 => d 4 ^^ d 5 ^^ d 6 ^^ r 6 ^^ r 5 ^^ r 4
    | 2 => d 3 ^^ d 4 ^^ d 5 ^^ r 5 ^^ r 4 ^^ r 3
    | 3 => d 2 ^^ d 3 ^^ d 4 ^^ r 4 ^^ r 3 ^^ r 2
    | 4 => d 1 ^^ d 2 ^^ d 3 ^^ r 3 ^^ r 2 ^^ d 7 ^^ r 1 ^^ r 7
    | 5 => d 0 ^^ d 1 ^^ d 2 ^^ r 2 ^^ r 1 ^^ d 6 ^^ r 0 ^^ r 6
    | 6 => d 0 ^^ d 1 ^^ r 1 ^^ d 6 ^^ r 0 ^^ r 6
    | _ => d 0 ^^ d 6 ^^ d 7 ^^ r 0 ^^ r 7 ^^ r 6) 0 8

structure Crc8 where
  crc_r : Byte
  crc_valid : Bool

/-- `crc8_data8` at a clock edge. -/
def Crc8.step (reset soc : Bool) (data : Byte) (data_valid eoc : Bool) (s : Crc8) : Crc8 :=
  if reset = true then { crc_r := 0, crc_valid := false }
  else
    { crc_r := if data_valid = true then crcC data (if soc = true then 0 else s.crc_r) else s.crc_r
      crc_valid := data_valid && eoc }

/-- The register after the first `n` bytes. -/
def crc8 (bytes : Nat → Byte) : Nat → Byte
  | 0 => 0
  | n + 1 => crcC (bytes n) (crc8 bytes n)

/-- The register keeps its value while there is no byte. -/
theorem Crc8.step_idle (soc : Bool) (data : Byte) (eoc : Bool) (s : Crc8) :
    (s.step false soc data false eoc).crc_r = s.crc_r := rfl

/-- The next byte of a row that began with a marked one. -/
theorem Crc8.step_byte {bytes : Nat → Byte} {n : Nat} {data : Byte} {soc : Bool} {s : Crc8} (eoc : Bool)
    (hdata : data = bytes n) (hsoc : soc = decide (n = 0)) (hs : 0 < n → s.crc_r = crc8 bytes n) :
    (s.step false soc data true eoc).crc_r = crc8 bytes (n + 1) := by
  change crcC data (if soc = true then 0 else s.crc_r) = crcC (bytes n) (crc8 bytes n)
  subst hdata hsoc
  cases n with
  | zero => rfl
  | succ n => rw [decide_eq_false (Nat.succ_ne_zero n), if_neg Bool.false_ne_true, hs (Nat.succ_pos n)]

theorem crc8_congr {bytes bytes' : Nat → Byte} {n : Nat} (h : ∀ i < n, bytes i = bytes' i) :
    crc8 bytes n = crc8 bytes' n := by
  induction n with
  | zero => rfl
  | succ n ih =>
      rw [crc8, crc8, h n (Nat.lt_succ_self n), ih fun i hi => h i (Nat.lt_succ_of_lt hi)]

/-! ### Bursts -/

/-- Byte `i` of the timestamp in a burst whose bit `n` is `x n`. -/
def dataByte (x : Nat → Bool) (i : Nat) : Byte := SerialBits.word x (8 + 8 * i) 8

def dataWord (x : Nat → Bool) : Timestamp := SerialBits.word x 8 64

def CrcOk (x : Nat → Bool) : Prop := SerialBits.word x 72 8 = crc8 (dataByte x) 8

instance (x : Nat → Bool) : Decidable (CrcOk x) := inferInstanceAs (Decidable (_ = _))

end ButisT0

/-!
## The timestamp encoder

At the rising edge of T0 the encoder begins a burst: a start byte, the eight bytes of the next
T0's timestamp and their check byte, most significant bits first.  The check byte is computed
beside it, from the clock on in which T0 is low again.
-/

namespace ButisT0

/-- The clocks of a bit; a bit of one clock has no middle. -/
structure Generics where
  g_clockcyclesperbit : Nat := 4
  g_BuTis_T0_precision : Nat := 3
  two_le : 2 ≤ g_clockcyclesperbit := by decide

/-! ### The generator of T0 -/

/-! ### The encoder -/

inductive EncoderMode where
  | startByte | par2ser | nextTimestamp
  deriving DecidableEq, Repr

/-- The registers of `BuTis_process`. -/
structure Sender where
  encoder_mode_s : EncoderMode
  BuTis_T0_s : Bool
  serial_s : Bool
  clockcounter_s : Nat
  bitcounter_s : Nat
  bytecounter_s : Nat

/-- The registers of `timestamp_process`; its count of the T0 period goes nowhere. -/
structure Feeder where
  crc_data_in_s : Byte
  crc_start_s : Bool
  crc_data_valid_s : Bool
  crc_last_s : Bool
  tsbytecounter_s : Nat

structure Encoder where
  sender : Sender
  feeder : Feeder
  crc : Crc8

structure EncoderInputs where
  BuTis_T0_i : Bool
  timestamp_on_next_T0_i : Timestamp

/-- Byte `i` of a timestamp, the most significant one first. -/
def timestampByte (ts : Timestamp) (i : Nat) : Byte := ts.extractLsb' (64 - i * 8 - 8) 8

/-- `timestamp_process` at a clock edge. -/
def Feeder.step (reset_i : Bool) (i : EncoderInputs) (s : Feeder) : Feeder :=
  let s := { s with crc_start_s := false, crc_last_s := false, crc_data_valid_s := false }
  if reset_i = true then s
  else if i.BuTis_T0_i = true then { s with tsbytecounter_s := 0 }
  else if s.tsbytecounter_s < 8 then
    { crc_data_in_s := timestampByte i.timestamp_on_next_T0_i s.tsbytecounter_s
      crc_data_valid_s := true
      crc_start_s := decide (s.tsbytecounter_s = 0)
      crc_last_s := decide (s.tsbytecounter_s = 7)
      tsbytecounter_s := s.tsbytecounter_s + 1 }
  else { s with crc_data_in_s := 0 }

variable (g : Generics)

/-- The counters of a bit, in the two states that send. -/
def Sender.startByte (s : Sender) : Sender :=
  let s := { s with serial_s := if s.clockcounter_s = 0 then !s.serial_s else s.serial_s }
  if s.clockcounter_s < g.g_clockcyclesperbit - 1 then
    { s with clockcounter_s := s.clockcounter_s + 1, bytecounter_s := 0 }
  else if s.bitcounter_s < 7 then
    { s with clockcounter_s := 0, bitcounter_s := s.bitcounter_s + 1, bytecounter_s := 0 }
  else
    { s with clockcounter_s := 0, bitcounter_s := 0, encoder_mode_s := .par2ser, bytecounter_s := 0 }

def Sender.par2ser (ts : Timestamp) (crc_data_out_s : Byte) (s : Sender) : Sender :=
  let s := { s with
    serial_s :=
      if s.clockcounter_s = 0 then
        if s.bytecounter_s < 8 then ts.getLsbD (63 - 8 * s.bytecounter_s - s.bitcounter_s)
        else crc_data_out_s.getLsbD (7 - s.bitcounter_s)
      else s.serial_s }
  if s.clockcounter_s < g.g_clockcyclesperbit - 1 then
    { s with clockcounter_s := s.clockcounter_s + 1 }
  else if s.bitcounter_s < 7 then
    { s with clockcounter_s := 0, bitcounter_s := s.bitcounter_s + 1 }
  else if s.bytecounter_s < 8 then
    { s with clockcounter_s := 0, bitcounter_s := 0, bytecounter_s := s.bytecounter_s + 1 }
  else
    { s with clockcounter_s := 0, bitcounter_s := 0, encoder_mode_s := .nextTimestamp, bytecounter_s := 0 }

/-- `BuTis_process` at a clock edge. -/
def Sender.step (reset_i : Bool) (i : EncoderInputs) (crc_data_out_s : Byte) (s : Sender) : Sender :=
  if reset_i = true then
    { s with BuTis_T0_s := false, encoder_mode_s := .nextTimestamp, serial_s := false }
  else if i.BuTis_T0_i = true ∧ s.BuTis_T0_s = false then
    { BuTis_T0_s := true, encoder_mode_s := .startByte, clockcounter_s := 1, bitcounter_s := 0,
      bytecounter_s := 0, serial_s := true }
  else
    let s := { s with BuTis_T0_s := i.BuTis_T0_i }
    match s.encoder_mode_s with
    | .startByte => s.startByte g
    | .par2ser => s.par2ser g i.timestamp_on_next_T0_i crc_data_out_s
    | .nextTimestamp => { s with serial_s := false }

def Encoder.step (reset_i : Bool) (i : EncoderInputs) (s : Encoder) : Encoder :=
  { sender := s.sender.step g reset_i i s.crc.crc_r
    feeder := s.feeder.step reset_i i
    crc := s.crc.step reset_i s.feeder.crc_start_s s.feeder.crc_data_in_s s.feeder.crc_data_valid_s
      s.feeder.crc_last_s }

/-- The encoder in clock `t` after a reset. -/
def Encoder.stateAt (e : Encoder) (i₀ : EncoderInputs) (inp : Nat → EncoderInputs) (t : Nat) : Encoder :=
  Clocked.trace (Encoder.step g false) (e.step g true i₀) inp t

end ButisT0
