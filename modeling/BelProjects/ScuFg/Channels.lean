import BelProjects.ScuFg.Memory

/-!
# The channels of the function generator firmware

A channel is armed with the first tuple of its ring. The macro then asks for one tuple after
the other with interrupts, until it stops or is disarmed.
-/

namespace ScuFg

open Interference

def fgRunning : Half := 0x4
def fgDreq : Half := 0x8
def devDrq : Half := 0x1
def devStateIrq : Half := 0x2

def fg1Base : Nat := 0x300
def fg2Base : Nat := 0x340

/-! ## The ring -/

def cbisEmpty (c : Nat) : Fw Bool := do
  let wr ← regs c (·.wrPtr)
  let rd ← regs c (·.rdPtr)
  return wr = rd

/-- The first access of `cbgetCount`. -/
def beginTest (c : Nat) : Fw Nat :=
  Prog.access (fun s => (s.touch c).modify c fun ch => ch.record .test)
    fun s => (s.chan c).regs.wrPtr

def cbgetCount (c : Nat) : Fw Int := do
  let wr ← beginTest c
  let rd ← regs c (·.rdPtr)
  if rd < wr then
    let wr ← regs c (·.wrPtr)
    let rd ← regs c (·.rdPtr)
    return (wr : Int) - rd
  else
    let rd ← regs c (·.rdPtr)
    let wr ← regs c (·.wrPtr)
    if wr < rd then
      let rd ← regs c (·.rdPtr)
      let wr ← regs c (·.wrPtr)
      return (bufferSize : Int) - rd + wr
    else
      return 0

/-- Moves `rd_ptr` behind the tuple that has been read. -/
def moveRdPtr (c rptr : Nat) (e : Nat → Event) : Fw Unit :=
  Prog.access
    (fun s => (s.touch c).modify c fun ch =>
      ch.move (fun r => { r with rdPtr := (rptr + 1) % bufferSize }) e)
    fun _ => ()

/-- `cbRead`, and what happens when it takes a tuple -/
def cbRead (c : Nat) (e : ParamSet → Nat → Event) : Fw (Option ParamSet) := do
  let rptr ← regs c (·.rdPtr)
  let wptr ← regs c (·.wrPtr)
  if wptr = rptr then
    return none
  else
    let pset ← fgBuffer c rptr
    moveRdPtr c rptr (e pset)
    return some pset

/-! ## Parameter blocks -/

/-- The words of a tuple; `cntrl_reg` is what stays of the control register. -/
def ParamSet.block (pset : ParamSet) (cntrlReg : Half) : Block where
  cntrl := cntrlReg |||
    (((pset.control &&& 0x38) <<< 10) ||| ((pset.control &&& 0x7) <<< 10)).setWidth 16
  a := pset.coeffA
  b := pset.coeffB
  shift := ((pset.control &&& 0x3ffc0) >>> 6).setWidth 16
  startL := (pset.coeffC &&& 0xffff).setWidth 16
  startH := ((pset.coeffC &&& 0xffff0000) >>> 16).setWidth 16

/-- The virtual function generator number, bits 9..4. -/
def channelOf (cntrlReg : Half) : Nat := ((cntrlReg &&& 0x3f0) >>> 4).toNat

/-- `send_fg_param`, with what it stores in `setvalue` -/
def sendFgParam (slot : Slot) (fgBase : Nat) (cntrlReg : Half) : Fw (Option Word) := do
  let fgNum := channelOf cntrlReg
  match ← cbRead fgNum .next with
  | some pset => do
      sendBlock fgNum slot fgBase (pset.block (cntrlReg &&& ~~~ 0xfc07))
      match slot with
      | .bus _ => return some 0
      | .milExt => return some pset.coeffC
      | .sio _ => return some pset.coeffC
  | none => return none

/-! ## Interrupts of a macro -/

/-- `disable_slave_irq`, as far as it reads the memory -/
def disableSlaveIrq (c : Nat) : Fw Unit := do
  if c < maxFgChannels then
    let _ ← macroOf c

/-- `handle`: the macro has stopped. -/
def handleStop (c : Nat) : Fw Unit := do
  if ← cbisEmpty c then
    sendSig c .stopEmpty
  else
    sendSig c .stopNempty
  disableSlaveIrq c
  setRegs c fun r => { r with state := .stopped }

/-- `handle`: the next tuple, and the host is asked for more in time. -/
def handleRefill (c : Nat) (slot : Slot) (fgBase : Nat) (cntrlReg : Half) : Fw (Option Word) := do
  let count ← cbgetCount c
  if count = threshold then
    sendSig c .refill
  sendFgParam slot fgBase cntrlReg

/-- `handle`: the macro has started. -/
def handleStart (c : Nat) : Fw Unit := do
  setRegs c fun r => { r with state := .active }
  sendSig c .start

/-- `handle`, for a macro of a slave of the SCU bus: its control register and its ramp counter -/
def handleBus (nr : BitVec 4) (fgBase : Nat) (cntrlReg : Half) (rampCnt : Word) :
    Fw (Option Word) := do
  let channel := channelOf cntrlReg
  setRegs channel fun r => { r with rampCount := rampCnt }
  if cntrlReg &&& fgRunning = 0 then
    handleStop channel
  if cntrlReg &&& fgRunning ≠ 0 ∧ cntrlReg &&& fgDreq = 0 then
    handleStart channel
    handleRefill channel (.bus nr) fgBase cntrlReg
  else if cntrlReg &&& fgRunning ≠ 0 ∧ cntrlReg &&& fgDreq ≠ 0 then
    handleRefill channel (.bus nr) fgBase cntrlReg
  else
    return none

/-- `handle`, for a macro on a dev bus: its interrupt register -/
def handleDev (slot : Slot) (fgBase : Nat) (irqActReg : Half) : Fw (Option Word) := do
  let channel := channelOf irqActReg
  setRegs channel fun r => { r with rampCount := r.rampCount + 1 }
  if irqActReg &&& fgRunning = 0 then
    setRegs channel fun r => { r with rampCount := r.rampCount - 1 }
    handleStop channel
  if irqActReg &&& fgRunning ≠ 0 ∧ irqActReg &&& devStateIrq ≠ 0 then
    handleStart channel
    handleRefill channel slot fgBase irqActReg
  else if irqActReg &&& (fgRunning ||| devDrq) ≠ 0 then
    handleRefill channel slot fgBase irqActReg
  else
    return none

def handle (slot : Slot) (fgBase : Nat) (reg : Half) (rampCnt : Word) : Fw (Option Word) :=
  match slot with
  | .bus nr => handleBus nr fgBase reg rampCnt
  | .milExt => handleDev .milExt fgBase reg
  | .sio nr => handleDev (.sio nr) fgBase reg

/-! ## Requests of the host -/

/-- Where the registers of a macro are, unless there is none with that number in a slave. -/
def fgBaseOf (m : Macro) : Option Nat :=
  match m.slot with
  | .bus _ => if m.dev = 0 then some fg1Base else if m.dev = 1 then some fg2Base else none
  | .milExt => some m.dev.toNat
  | .sio _ => some m.dev.toNat

def saveCCoeff (c : Nat) (coeffC : Word) : Fw Unit :=
  Prog.access (fun s => s.modify c fun ch => { ch with lastCCoeff := coeffC }) fun _ => ()

/-- `configure_fg_macro`: the first tuple, and the macro is armed. -/
def armMacro (c : Nat) (m : Macro) (fgBase : Nat) : Fw Unit := do
  match ← cbRead c .first with
  | some pset => do
      match m.slot with
      | .bus _ => pure ()
      | _ => saveCCoeff c pset.coeffC
      sendBlock c m.slot fgBase (pset.block ((BitVec.ofNat 16 c) <<< 4))
  | none => pure ()
  setRegs c fun r => { r with state := .armed }
  sendSig c .armed

/-- `configure_fg_macro`; the data request line of the dev bus must not be active -/
def configureFgMacro (c : Nat) (dreq : Bool) : Fw Unit := do
  if c < maxFgChannels then
    let m ← macroOf c
    match m.slot, dreq with
    | .sio _, true => pure ()
    | .milExt, true => pure ()
    | _, _ =>
        match fgBaseOf m with
        | none => pure ()
        | some fgBase => armMacro c m fgBase

/-- `enable_scub_msis`, as far as it reads the memory -/
def enableScubMsis (c : Nat) : Fw Unit := do
  let _ ← macroOf c

def resetPtr (c : Nat) (f : ChannelRegs → ChannelRegs) : Fw Unit :=
  Prog.access (fun s => (s.touch c).modify c fun ch => ch.move f .reset) fun _ => ()

/-- `disable_channel`, behind the access to the macro -/
def disarm (c : Nat) : Fw Unit := do
  let state ← regs c (·.state)
  if state = .active then
    let wr ← regs c (·.wrPtr)
    resetPtr c fun r => { r with rdPtr := wr }
  else
    setRegs c fun r => { r with state := .stopped }
    sendSig c .disarmed

def disableChannel (c : Nat) : Fw Unit := do
  let n ← regs c (·.macroNumber)
  if n = -1 then
    return ()
  let m ← macroOf c
  match fgBaseOf m with
  | none => pure ()
  | some _ => disarm c

def initBuffers (c : Nat) : Fw Unit := do
  if c < maxFgChannels then
    resetPtr c fun r => { r with wrPtr := 0 }
    resetPtr c fun r => { r with rdPtr := 0 }
    setRegs c fun r => { r with state := .stopped }
    setRegs c fun r => { r with rampCount := 0 }
    let _ ← macroOf c

/-- `print_fgs`: what the scan has found -/
def printFgs (found : Nat → Macro) : Fw Unit :=
  Prog.access (fun s => { s with macros := found }) fun _ => ()

/-- `sw_irq_handler`: the requests of the host that concern the channels -/
inductive Request where
  | initBuffers (value : Half)
  | configure (value : Half) (dreq : Bool)
  | disable (value : Half)
  | rescan (found : Nat → Macro)
  /-- Codes 1, 5, 6 and unknown ones. -/
  | other

def swIrqHandler : Request → Fw Unit
  | .initBuffers value => initBuffers value.toNat
  | .configure value dreq => do
      enableScubMsis value.toNat
      configureFgMacro value.toNat dreq
  | .disable value => disableChannel value.toNat
  | .rescan found => printFgs found
  | .other => pure ()

end ScuFg
