import BelProjects.Library.Interference
import BelProjects.Library.Ring

/-!
# The memory of the function generator firmware

The host and the firmware share, for each channel, a record with registers and a ring of
parameter sets. Every function generator macro that the firmware has found has an entry that tells
where it is.
-/

namespace ScuFg

open Interference

abbrev Word := BitVec 32
abbrev Half := BitVec 16

abbrev maxFgMacros : Nat := 256
abbrev maxFgChannels : Nat := 16
abbrev bufferSize : Nat := 121

/-- `THRESHOLD`: `BUFFER_SIZE * 40 / 100` -/
def threshold : Nat := bufferSize * 40 / 100

structure ParamSet where
  coeffA : Half
  coeffB : Half
  coeffC : Word
  /-- bits 2..0 step, 5..3 freq, 11..6 shift_b, 17..12 shift_a -/
  control : Word
  deriving DecidableEq

/-- Where a macro is: in a slave of the SCU bus, on the dev bus of the MIL extension, or on the dev
bus of a SIO slave. -/
inductive Slot where
  | bus (nr : BitVec 4)
  | milExt
  | sio (nr : BitVec 4)
  deriving DecidableEq

/-- The upper two bytes of an entry of `fg_macros`; zero is `⟨.bus 0, 0⟩`. -/
structure Macro where
  slot : Slot
  dev : BitVec 8
  deriving DecidableEq

inductive ChanState where
  | stopped
  | active
  | armed
  deriving DecidableEq

inductive Signal where
  | refill
  | start
  | stopEmpty
  | stopNempty
  | armed
  | disarmed
  deriving DecidableEq

structure ChannelRegs where
  wrPtr : Nat
  rdPtr : Nat
  macroNumber : Word
  rampCount : Word
  state : ChanState

/-- The words of a parameter block, as they are written to a macro. -/
structure Block where
  cntrl : Half
  a : Half
  b : Half
  shift : Half
  startL : Half
  startH : Half
  deriving DecidableEq

namespace ChannelRegs

def fill (r : ChannelRegs) : Nat := Ring.fill bufferSize r.rdPtr r.wrPtr

end ChannelRegs

/-- What happens on a channel, with the number of tuples that are in the ring then. -/
inductive Event where
  /-- The host has appended tuples. -/
  | append (level : Nat)
  /-- `cbgetCount` begins. -/
  | test
  /-- `configure_fg_macro` has taken the first tuple. -/
  | first (pset : ParamSet) (level : Nat)
  /-- `send_fg_param` has taken a tuple. -/
  | next (pset : ParamSet) (level : Nat)
  /-- `init_buffers` or `disable_channel` has set a position. -/
  | reset (level : Nat)
  | send (slot : Slot) (fgBase : Nat) (block : Block)
  | signal (sig : Signal)
  deriving DecidableEq

structure Channel where
  regs : ChannelRegs
  pset : Nat → ParamSet
  lastCCoeff : Word
  /-- What has happened on the channel, the latest first. -/
  log : List Event

/-- The memory. What lies behind the arrays is other memory. -/
structure Scu where
  chan : Nat → Channel
  macros : Nat → Macro
  /-- An index has been outside its array. -/
  outside : Bool

namespace Channel

def record (ch : Channel) (e : Event) : Channel := { ch with log := e :: ch.log }

def setRegs (ch : Channel) (f : ChannelRegs → ChannelRegs) : Channel :=
  { ch with regs := f ch.regs }

def move (ch : Channel) (f : ChannelRegs → ChannelRegs) (e : Nat → Event) : Channel :=
  (ch.setRegs f).record (e (f ch.regs).fill)

end Channel

namespace Scu

/-- An access to `fg_regs[c]` or `fg_buffer[c]`. -/
def touch (s : Scu) (c : Nat) : Scu := { s with outside := s.outside || decide (maxFgChannels ≤ c) }

def modify (s : Scu) (c : Nat) (f : Channel → Channel) : Scu :=
  { s with chan := fun c' => if c' = c then f (s.chan c) else s.chan c' }

end Scu

abbrev Fw := Prog Scu

/-! ## Accesses -/

def regs {α : Type} (c : Nat) (f : ChannelRegs → α) : Fw α :=
  Prog.access (fun s => s.touch c) fun s => f (s.chan c).regs

def setRegs (c : Nat) (f : ChannelRegs → ChannelRegs) : Fw Unit :=
  Prog.access (fun s => (s.touch c).modify c fun ch => ch.setRegs f) fun _ => ()

def fgMacros (n : Word) : Fw Macro :=
  Prog.access (fun s => { s with outside := s.outside || decide (maxFgMacros ≤ n.toNat) })
    fun s => s.macros n.toNat

def fgBuffer (c i : Nat) : Fw ParamSet :=
  Prog.access
    (fun s => { s.touch c with outside := (s.touch c).outside || decide (bufferSize ≤ i) })
    fun s => (s.chan c).pset i

/-- `SEND_SIG`, to the mailbox of `fg_regs[c]` -/
def sendSig (c : Nat) (sig : Signal) : Fw Unit :=
  Prog.access (fun s => (s.touch c).modify c fun ch => ch.record (.signal sig)) fun _ => ()

def sendBlock (c : Nat) (slot : Slot) (fgBase : Nat) (block : Block) : Fw Unit :=
  Prog.access (fun s => s.modify c fun ch => ch.record (.send slot fgBase block)) fun _ => ()

def macroOf (c : Nat) : Fw Macro := do
  let n ← regs c (·.macroNumber)
  fgMacros n

end ScuFg
