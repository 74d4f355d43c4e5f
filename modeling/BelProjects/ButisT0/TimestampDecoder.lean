import BelProjects.ButisT0.TimestampEncoder
import Mathlib

/-!
# The timestamp decoder

The receiver finds the start of a burst, samples its bits in their middle and compares the check
byte.  The clock of the timestamp counts on by itself and is loaded at a start, if the last check
was good.
-/

namespace ButisT0

inductive DecoderMode where
  | waitForSignal | ser2par | crcResult | waitForZeros
  deriving DecidableEq, Repr

/-- The registers of `BuTis_process`; those of the disabled phase adjustment go nowhere. -/
structure Receiver where
  decoder_mode_s : DecoderMode
  serial1_s : Bool
  serial2_s : Bool
  error_s : Bool
  error_nosignal_s : Bool
  period_error_s : Bool
  crc_data_in_s : Byte
  crc_start_s : Bool
  crc_data_valid_s : Bool
  crc_last_s : Bool
  timestamp_rec_s : Timestamp
  clockcounter_s : Nat
  bitcounter_s : Nat
  bytecounter_s : Nat
  ratiocounter_s : Nat
  zeroscounter_s : Nat

/-- The registers of `butis_T0_process`. -/
structure Timekeeper where
  error_counter_s : Nat
  timestamp_s : Timestamp
  butis_T0_counter : Nat
  BuTis_T0_o : Bool

structure Decoder where
  receiver : Receiver
  timekeeper : Timekeeper
  crc : Crc8

def Receiver.newPulse (s : Receiver) : Bool :=
  decide (s.decoder_mode_s = .waitForSignal) && s.serial1_s && !s.serial2_s

def Receiver.quiet (s : Receiver) : Receiver :=
  { s with crc_data_valid_s := false, crc_start_s := false, crc_last_s := false }

variable (g : Generics)

def Receiver.waitForSignal (s : Receiver) : Receiver :=
  let s := { s with clockcounter_s := 0, bitcounter_s := 0, bytecounter_s := 0 }
  if s.serial1_s = true then
    if s.serial2_s = false then
      { s with
        period_error_s := decide (s.ratiocounter_s < 2000 - g.g_BuTis_T0_precision)
        decoder_mode_s := .ser2par }
    else { s with period_error_s := true }
  else s

def Receiver.sample (s : Receiver) : Receiver :=
  if s.clockcounter_s = g.g_clockcyclesperbit / 2 - 1 then
    { s with
      crc_data_in_s := SerialBits.writeBit s.crc_data_in_s (7 - s.bitcounter_s) s.serial1_s
      timestamp_rec_s :=
        if 0 < s.bytecounter_s ∧ s.bytecounter_s < 9 then
          SerialBits.writeBit s.timestamp_rec_s (63 - (s.bytecounter_s - 1) * 8 - s.bitcounter_s) s.serial1_s
        else s.timestamp_rec_s }
  else s

/-- The last clock of a bit; a byte of the timestamp goes to the check. -/
def Receiver.endOfBit (s : Receiver) : Receiver :=
  if s.bitcounter_s < 7 then { s with clockcounter_s := 0, bitcounter_s := s.bitcounter_s + 1 }
  else
    { s with
      clockcounter_s := 0
      bitcounter_s := 0
      crc_data_valid_s := decide (s.bytecounter_s ≠ 0 ∧ s.bytecounter_s ≠ 9)
      crc_start_s := decide (s.bytecounter_s = 1)
      crc_last_s := decide (s.bytecounter_s = 8)
      bytecounter_s := if s.bytecounter_s < 9 then s.bytecounter_s + 1 else 0
      decoder_mode_s := if s.bytecounter_s < 9 then s.decoder_mode_s else .crcResult }

def Receiver.ser2par (s : Receiver) : Receiver :=
  let s := { s with zeroscounter_s := 0 }
  if s.clockcounter_s < g.g_clockcyclesperbit - 1 then
    { s.sample g with clockcounter_s := s.clockcounter_s + 1 }
  else s.endOfBit

def Receiver.crcResult (crc_data_out_s : Byte) (s : Receiver) : Receiver :=
  { s with
    error_s := decide (s.crc_data_in_s ≠ crc_data_out_s)
    decoder_mode_s := .waitForZeros
    clockcounter_s := 0
    bitcounter_s := 0
    bytecounter_s := 0
    zeroscounter_s := 0 }

def Receiver.waitForZeros (s : Receiver) : Receiver :=
  if s.serial1_s = false then
    if s.zeroscounter_s < 500 then { s with zeroscounter_s := s.zeroscounter_s + 1 }
    else { s with zeroscounter_s := 0, decoder_mode_s := .waitForSignal }
  else { s with zeroscounter_s := 0 }

def Receiver.byMode (crc_data_out_s : Byte) (s : Receiver) : Receiver :=
  match s.decoder_mode_s with
  | .waitForSignal => s.waitForSignal g
  | .ser2par => s.ser2par g
  | .crcResult => s.crcResult crc_data_out_s
  | .waitForZeros => s.waitForZeros

/-- `BuTis_process` at a clock edge. -/
def Receiver.step (reset_i serial_i : Bool) (crc_data_out_s : Byte) (s : Receiver) : Receiver :=
  let d := s.quiet
  if reset_i = true then
    { d with period_error_s := true, ratiocounter_s := 0, decoder_mode_s := .waitForSignal, error_s := true }
  else
    { d.byMode g crc_data_out_s with
      ratiocounter_s :=
        if s.newPulse = true then 0
        else if s.ratiocounter_s < 2000 + g.g_BuTis_T0_precision then s.ratiocounter_s + 1
        else s.ratiocounter_s
      error_nosignal_s :=
        if s.newPulse = true then s.error_nosignal_s
        else if s.ratiocounter_s < 2000 + g.g_BuTis_T0_precision then false
        else true
      serial2_s := s.serial1_s
      serial1_s := serial_i }

/-- `butis_T0_process` at a clock edge. -/
def Timekeeper.step (reset_i newPulse error_s : Bool) (timestamp_rec_s : Timestamp) (s : Timekeeper) :
    Timekeeper :=
  let s := { s with BuTis_T0_o := false }
  if reset_i = true then { s with error_counter_s := 3 }
  else if newPulse = true then
    if error_s = false then
      { s with timestamp_s := timestamp_rec_s + 10, butis_T0_counter := 0, error_counter_s := 0 }
    else
      { s with
        error_counter_s := if s.error_counter_s < 3 then s.error_counter_s + 1 else s.error_counter_s
        timestamp_s := s.timestamp_s + 5 }
  else
    { s with
      timestamp_s := s.timestamp_s + 5
      BuTis_T0_o := decide (s.butis_T0_counter = 1997)
      butis_T0_counter := if s.butis_T0_counter = 1999 then 0 else s.butis_T0_counter + 1 }

def Decoder.step (reset_i serial_i : Bool) (s : Decoder) : Decoder :=
  { receiver := s.receiver.step g reset_i serial_i s.crc.crc_r
    timekeeper := s.timekeeper.step reset_i s.receiver.newPulse s.receiver.error_s s.receiver.timestamp_rec_s
    crc := s.crc.step reset_i s.receiver.crc_start_s s.receiver.crc_data_in_s s.receiver.crc_data_valid_s
      s.receiver.crc_last_s }

/-! ### The outputs -/

namespace Decoder

variable (s : Decoder)

def error_o : Bool := s.receiver.error_s || s.receiver.error_nosignal_s || s.receiver.period_error_s

def uncertain_o : Bool :=
  decide (s.timekeeper.error_counter_s = 3) || s.receiver.period_error_s || s.receiver.error_nosignal_s

def timestamp_o : Timestamp := s.timekeeper.timestamp_s

def BuTis_T0_o : Bool := s.timekeeper.BuTis_T0_o

/-- The decoder in clock `t` after a reset, with `line t` at its serial input. -/
def stateAt (line : Nat → Bool) (t : Nat) : Decoder :=
  Clocked.trace (Decoder.step g false) (s.step g true false) line t

end Decoder

end ButisT0
