import Mathlib.Data.BitVec

/-!
# The fractional clock generator for serialised outputs

One counter of `serdes_clk_gen` with its bit pattern and the last bit it put out, for
`g_num_serdes_bits = 8`, and the software model `clock` of the same algorithm. Words are
sent with their most significant bit first.
-/

namespace SerdesClkGen

structure Bank where
  per : BitVec 32
  perHi : BitVec 32
  frac : BitVec 32
  bitpattNormal : BitVec 32
  bitpattSkip : BitVec 32
  phofsl : BitVec 32
  phofsh : BitVec 32

/-- The registers of the high or of the low half: period counter, fraction counter, carry,
and the last bit of the word before. -/
@[ext] structure Counter where
  perCount : BitVec 32
  fracCount : BitVec 32
  fracCarry : Bool
  outpD0 : Bool
  deriving DecidableEq

namespace Counter

def perAdd (c : Counter) : BitVec 34 :=
  (0#1 ++ c.perCount ++ 1#1) + (1#1 ++ BitVec.ofInt 32 (-8) ++ BitVec.ofBool c.fracCarry)

def fracAdd (b : Bank) (c : Counter) : BitVec 33 := (0#1 ++ c.fracCount) + (0#1 ++ b.frac)

def patt (b : Bank) (c : Counter) : BitVec 32 :=
  if c.fracCarry then b.bitpattSkip else b.bitpattNormal

def shpatt (b : Bank) (c : Counter) : BitVec 32 :=
  if c.perCount < 16 then c.patt b >>> (c.perCount.extractLsb' 0 4).toNat else 0

def bitPattern (b : Bank) (c : Counter) : BitVec 8 := (c.shpatt b).extractLsb' 0 8

end Counter

/-- The XOR chain of a word: bit `7 - j` of `outp_hi`, from the last bit of the word before
and the edges in this one. -/
def outp (d0 : Bool) (pattern : BitVec 8) : (j : Nat) → Bool
  | 0 => d0 ^^ pattern.getLsbD 7
  | j + 1 => outp d0 pattern j ^^ pattern.getLsbD (6 - j)

namespace Counter

/-- One clock of `p_counters` and `p_outp_delay` without a load. -/
def count (b : Bank) (c : Counter) : Counter :=
  if c.perAdd.msb then
    { perCount := c.perAdd.extractLsb' 1 32 + b.per
      fracCount := (c.fracAdd b).extractLsb' 0 32
      fracCarry := (c.fracAdd b).msb
      outpD0 := outp c.outpD0 (c.bitPattern b) 7 }
  else
    { perCount := c.perAdd.extractLsb' 1 32
      fracCount := c.fracCount
      fracCarry := false
      outpD0 := outp c.outpD0 (c.bitPattern b) 7 }

/-- A register load; the period counter starts with zero in the high half and with `per_hi_i`
in the low half. -/
def loadReg (start : BitVec 32) (c : Counter) : Counter :=
  { c with perCount := start, fracCount := 0, outpD0 := false }

/-- One clock, with the values of the synchronisation machine in `sync`. -/
def onClk (b : Bank) (c : Counter) (start : BitVec 32) (ldReg ld : Bool) (sync : Counter) : Counter :=
  if ldReg then c.loadReg start else if ld then sync else c.count b

/-- The counter in the clocks after a state, with no load in between. -/
def run (b : Bank) (c : Counter) : Nat → Counter
  | 0 => c
  | k + 1 => (run b c k).count b

/-- The serial bit stream that begins with the word of a state. -/
def bitStream (b : Bank) (c : Counter) (n : Nat) : Bool :=
  outp (c.run b (n / 8)).outpD0 ((c.run b (n / 8)).bitPattern b) (n % 8)

end Counter

/-! ## The control software -/

/-- The registers computed by `clk` of the control software; `bit_pattern` has `2*BITS` bits. -/
structure Control where
  periodInteger : BitVec 32
  periodFraction : BitVec 32
  bitPattern : BitVec 16

/-- `offset`: the place of edge `i` in the wide period. -/
def offset (fillFactor cutWidePeriod i : Nat) : Nat :=
  (i * cutWidePeriod + (fillFactor - 1)) / fillFactor

/-- One round of the loop in `clk`. -/
def edgeBits (fillFactor cutWidePeriod : Nat) (m : BitVec 16) (i : Nat) : BitVec 16 :=
  let m := if offset fillFactor cutWidePeriod i ≤ 7 then
      m ||| (1#16 <<< (7 - offset fillFactor cutWidePeriod i))  -- future bits
    else m
  if cutWidePeriod ≤ 8 + offset fillFactor cutWidePeriod i then
    m ||| (1#16 <<< (7 + cutWidePeriod - offset fillFactor cutWidePeriod i))  -- past bits
  else m

def clkPattern (fillFactor cutWidePeriod : Nat) : BitVec 16 :=
  (List.range fillFactor).foldl (edgeBits fillFactor cutWidePeriod) 0

/-- `clk` for a wide period of `cutWidePeriod` bits and a fraction, holding `fillFactor` edges. -/
def clk (fillFactor : Nat) (cutWidePeriod fraction : BitVec 32) : Control where
  periodInteger := cutWidePeriod
  periodFraction := fraction
  bitPattern := clkPattern fillFactor cutWidePeriod.toNat

/-- The skip pattern: the normal one with its low byte shifted right by one. -/
def skipPattern (m : BitVec 16) : BitVec 16 := (m &&& 0xFF00) ||| ((m &&& 0xFF) >>> 1)

/-- The registers a channel gets from the control software. -/
structure Bank.Configured (b : Bank) (control : Control) : Prop where
  per : b.per = control.periodInteger
  frac : b.frac = control.periodFraction
  normal : b.bitpattNormal = control.bitPattern.setWidth 32
  skip : b.bitpattSkip = (skipPattern control.bitPattern).setWidth 32

/-! ## The software model -/

structure ClockGen where
  counterInteger : BitVec 32
  counterFraction : BitVec 32
  counterCarry : Bool
  lastBit : Bool

namespace ClockGen

/-- `out` after the saturated shifter. -/
def shifted (control : Control) (state : ClockGen) : BitVec 16 :=
  let out := if state.counterInteger &&& ~~~15#32 ≠ 0 then 0 else
    (if state.counterCarry then skipPattern control.bitPattern else control.bitPattern)
      >>> (state.counterInteger &&& 15#32).toNat
  out &&& 0xFF

/-- The XOR chain, which doubles its reach with each line. -/
def chained (lastBit : Bool) (out : BitVec 16) : BitVec 16 :=
  let out := out ^^^ (out >>> 1)
  let out := out ^^^ (out >>> 2)
  let out := out ^^^ (out >>> 4)
  if lastBit then ~~~out else out

/-- One call of `clock`: the word it returns and the state after it. -/
def clock (control : Control) (state : ClockGen) : BitVec 8 × ClockGen :=
  let out := chained state.lastBit (shifted control state)
  let temp := state.counterInteger
  let counterInteger := state.counterInteger + (BitVec.ofNat 32 state.counterCarry.toNat - 8)
  let next : ClockGen :=
    if temp ≤ counterInteger then
      { counterInteger := counterInteger + control.periodInteger
        counterFraction := state.counterFraction + control.periodFraction
        counterCarry := state.counterFraction + control.periodFraction < control.periodFraction
        lastBit := out.getLsbD 0 }
    else
      { state with counterInteger := counterInteger, counterCarry := false, lastBit := out.getLsbD 0 }
  (out.setWidth 8, next)

/-- The state `main` starts the rising half with. -/
def rise : ClockGen := ⟨0, 0, false, false⟩

def run (control : Control) (state : ClockGen) : Nat → ClockGen
  | 0 => state
  | k + 1 => (clock control (run control state k)).2

/-- The bits in the order in which `main` prints them. -/
def bitStream (control : Control) (state : ClockGen) (n : Nat) : Bool :=
  (clock control (state.run control (n / 8))).1.getLsbD (7 - n % 8)

end ClockGen

end SerdesClkGen
