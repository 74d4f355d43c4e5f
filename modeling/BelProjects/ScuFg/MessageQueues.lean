import BelProjects.Library.Ring
import BelProjects.ScuFg.Memory

/-!
# The message queues of the function generator firmware

The interrupt handler puts every message into a queue. The main loop moves it to the queue of its
source, from where a task takes it. An interrupt may come between any two accesses of the main loop
to the memory.
-/

namespace ScuFg.MainLoop

open Interference

abbrev ringSize : Nat := 64
abbrev maxScuSlaves : Nat := 12

/-- `DREQ`, in the interrupt register of a slave -/
def dreq : Word := 0x10

def devSio : Word := 0x20
def devMilExt : Word := 0x10

structure Msi where
  msg : Word
  adr : Word
  deriving DecidableEq, Repr

inductive Queue where
  | irq | scubus | devbus | devsio | swi
  deriving DecidableEq, Repr

structure MessageBuffer where
  ringHead : Nat
  ringTail : Nat
  ringData : Nat → Msi

inductive Adder where
  | interrupt | dispatch | scuBus | clear
  deriving DecidableEq, Repr

@[ext] structure MsgBuf where
  buf : Queue → MessageBuffer
  irqEnabled : Bool
  /-- The messages with which the interrupt handler has been called. -/
  received : List Msi
  added : Queue → List (Adder × Msi)
  taken : Queue → List Msi
  /-- What `scu_bus_handler` has found in the interrupt register of the slave of a message. -/
  intActs : List (Msi × Word)
  /-- A call of `add_msg` has reported a full buffer. -/
  full : Bool

namespace MsgBuf

def modify (s : MsgBuf) (q : Queue) (f : MessageBuffer → MessageBuffer) : MsgBuf :=
  { s with buf := fun q' => if q' = q then f (s.buf q) else s.buf q' }

end MsgBuf

/-! ## Accesses -/

abbrev MsgProg := Prog MsgBuf

def ringHead (q : Queue) : MsgProg Nat := Prog.access id fun s => (s.buf q).ringHead

def ringTail (q : Queue) : MsgProg Nat := Prog.access id fun s => (s.buf q).ringTail

def readSlot (q : Queue) (i : Nat) : MsgProg Msi := do
  let msg ← Prog.access id fun s => ((s.buf q).ringData i).msg
  let adr ← Prog.access id fun s => ((s.buf q).ringData i).adr
  return ⟨msg, adr⟩

def MessageBuffer.setSlot (b : MessageBuffer) (i : Nat) (m : Msi) : MessageBuffer :=
  { b with ringData := fun j => if j = i then m else b.ringData j }

def writeSlot (q : Queue) (i : Nat) (m : Msi) : MsgProg Unit := do
  Prog.access (fun s => s.modify q fun b => b.setSlot i ⟨m.msg, (b.ringData i).adr⟩) fun _ => ()
  Prog.access (fun s => s.modify q fun b => b.setSlot i ⟨(b.ringData i).msg, m.adr⟩) fun _ => ()

def moveHead (who : Adder) (q : Queue) (head : Nat) (m : Msi) : MsgProg Unit :=
  Prog.access
    (fun s =>
      { s.modify q fun b => { b with ringHead := head } with
        added := fun q' => if q' = q then s.added q ++ [(who, m)] else s.added q' })
    fun _ => ()

def moveTail (q : Queue) (tail : Nat) (m : Msi) : MsgProg Unit :=
  Prog.access
    (fun s =>
      { s.modify q fun b => { b with ringTail := tail } with
        taken := fun q' => if q' = q then s.taken q ++ [m] else s.taken q' })
    fun _ => ()

def reportFull : MsgProg Unit := Prog.access (fun s => { s with full := true }) fun _ => ()

/-! ## The queues -/

def addMsg (who : Adder) (q : Queue) (m : Msi) : MsgProg Bool := do
  let head ← ringHead q
  let nextHead := (head + 1) % ringSize
  let tail ← ringTail q
  if nextHead ≠ tail then
    let head ← ringHead q
    writeSlot q head m
    moveHead who q nextHead m
    return true
  else
    reportFull
    return false

def noMsg : Msi := ⟨-1, -1⟩

def removeMsg (q : Queue) : MsgProg Msi := do
  let head ← ringHead q
  let tail ← ringTail q
  if head ≠ tail then
    let tail ← ringTail q
    let m ← readSlot q tail
    let tail ← ringTail q
    moveTail q ((tail + 1) % ringSize) m
    return m
  else
    return noMsg

def hasMsg (q : Queue) : MsgProg Bool := do
  let head ← ringHead q
  let tail ← ringTail q
  return head ≠ tail

/-! ## The interrupt and the tasks -/

def irqHandler (m : Msi) : MsgProg Unit := do
  let _ ← addMsg .interrupt .irq m

def queueOf (adr : Word) : Option Queue :=
  if adr &&& 0xff = 0x10 then some .swi
  else if adr &&& 0xff = 0x0 then some .scubus
  else if adr &&& 0xff = 0x20 then some .devbus
  else none

def dispatch : MsgProg Unit := do
  let m ← removeMsg .irq
  match queueOf m.adr with
  | some q => do
      let _ ← addMsg .dispatch q m
  | none => pure ()

def setIrq (enabled : Bool) : MsgProg Unit :=
  Prog.access (fun s => { s with irqEnabled := enabled }) fun _ => ()

def clearHandlerState (slot : Word) : MsgProg Unit := do
  if slot &&& devSio ≠ 0 then
    setIrq false
    let _ ← addMsg .clear .devsio ⟨(slot &&& 0xf) - 1, 0⟩
    setIrq true
  else if slot &&& devMilExt ≠ 0 then
    setIrq false
    let _ ← addMsg .clear .devbus ⟨0, 0⟩
    setIrq true

/-- `sw_irq_handler`, as far as it has to do with the queues -/
def swIrqHandler : MsgProg Unit := do
  if ← hasMsg .swi then
    let m ← removeMsg .swi
    if m.adr = 0x10 ∧ m.msg >>> 16 = 5 then
      clearHandlerState (m.msg &&& 0xffff)

def Msi.slaveNr (m : Msi) : Nat := ((m.msg + 1).setWidth 8).toNat

/-- `scu_bus_handler` goes on with this message. -/
def Msi.OfSlave (m : Msi) : Prop := m.adr = 0 ∧ m.slaveNr ≤ maxScuSlaves

instance (m : Msi) : Decidable m.OfSlave := inferInstanceAs (Decidable (_ ∧ _))

def readIntAct (m : Msi) (slvIntActReg : Word) : MsgProg Unit :=
  Prog.access (fun s => { s with intActs := s.intActs ++ [(m, slvIntActReg)] }) fun _ => ()

/-- `scu_bus_handler`, with what it reads from the slave -/
def scuBusHandler (slvIntActReg : Word) : MsgProg Unit := do
  if ← hasMsg .scubus then
    let m ← removeMsg .scubus
    if m.OfSlave then
      readIntAct m slvIntActReg
      if slvIntActReg &&& dreq ≠ 0 then
        let _ ← addMsg .scuBus .devsio m

/-- `dev_sio_handler` and `dev_bus_handler`, when they have nothing to do -/
def pollQueue (q : Queue) : MsgProg Unit := do
  if ← hasMsg q then
    let _ ← removeMsg q

inductive MainCall where
  | dispatch
  | swIrq
  | scuBus (slvIntActReg : Word)
  | devSio
  | devBus
  /-- A task that leaves the queues alone. -/
  | other

def MainCall.prog : MainCall → MsgProg Unit
  | .dispatch => MainLoop.dispatch
  | .swIrq => swIrqHandler
  | .scuBus slvIntActReg => scuBusHandler slvIntActReg
  | .devSio => pollQueue .devsio
  | .devBus => pollQueue .devbus
  | .other => pure ()

def Interrupt (s s' : MsgBuf) : Prop :=
  s.irqEnabled = true ∧
    ∃ m, s' = ((irqHandler m).run { s with received := s.received ++ [m] }).2

/-- The queues behind `init_irq_table`. -/
def MsgBuf.boot : MsgBuf where
  buf _ := ⟨0, 0, fun _ => ⟨0, 0⟩⟩
  irqEnabled := true
  received := []
  added _ := []
  taken _ := []
  intActs := []
  full := false

def addedBy (who : Adder) (l : List (Adder × Msi)) : List Msi :=
  (l.filter fun a => a.1 = who).map Prod.snd

namespace MsgBuf

def waiting (s : MsgBuf) (q : Queue) : List Msi :=
  Ring.between ringSize (s.buf q).ringData (s.buf q).ringTail (s.buf q).ringHead

/-- Both positions are inside the ring, and between them is what has been added and not taken. -/
structure RingOk (s : MsgBuf) (q : Queue) : Prop where
  head : (s.buf q).ringHead < ringSize
  tail : (s.buf q).ringTail < ringSize
  content : (s.added q).map Prod.snd = s.taken q ++ s.waiting q

/-- All queues are in order, and every message of an interrupt has got into its one. -/
structure RingsOk (s : MsgBuf) : Prop where
  ring : ∀ q, s.RingOk q
  received : (s.added .irq).map Prod.snd = s.received

/-- Between two calls: every message that has been taken from the interrupts has been moved to the
queue of its source, in order, and those with a request of a slave to that of the SIO tasks. -/
structure Delivered (s : MsgBuf) : Prop where
  moved : ∀ q, addedBy .dispatch (s.added q) =
    (s.taken .irq).filter fun m => queueOf m.adr = some q
  handled : s.intActs.map Prod.fst = (s.taken .scubus).filter fun m => m.OfSlave
  forwarded : addedBy .scuBus (s.added .devsio) =
    (s.intActs.filter fun a => a.2 &&& dreq ≠ 0).map Prod.fst

end MsgBuf

namespace MsgBuf

variable (s : MsgBuf)

def push (who : Adder) (q : Queue) (m : Msi) : MsgBuf :=
  { s.modify q fun b =>
      { b.setSlot b.ringHead m with ringHead := (b.ringHead + 1) % ringSize } with
    added := fun q' => if q' = q then s.added q ++ [(who, m)] else s.added q' }

def pop (q : Queue) (m : Msi) : MsgBuf :=
  { s.modify q fun b => { b with ringTail := (b.ringTail + 1) % ringSize } with
    taken := fun q' => if q' = q then s.taken q ++ [m] else s.taken q' }

def Room (q : Queue) : Prop := ((s.buf q).ringHead + 1) % ringSize ≠ (s.buf q).ringTail

instance (q : Queue) : Decidable (s.Room q) := inferInstanceAs (Decidable (_ ≠ _))

@[simp] theorem modify_self (q : Queue) (f : MessageBuffer → MessageBuffer) :
    (s.modify q f).buf q = f (s.buf q) := if_pos rfl

theorem modify_other {q q' : Queue} (h : q' ≠ q) (f : MessageBuffer → MessageBuffer) :
    (s.modify q f).buf q' = s.buf q' := if_neg h

@[simp] theorem push_self (who : Adder) (q : Queue) (m : Msi) :
    (s.push who q m).buf q =
      { (s.buf q).setSlot (s.buf q).ringHead m with
        ringHead := ((s.buf q).ringHead + 1) % ringSize } := if_pos rfl

@[simp] theorem push_added (who : Adder) (q : Queue) (m : Msi) :
    (s.push who q m).added q = s.added q ++ [(who, m)] := if_pos rfl

@[simp] theorem pop_self (q : Queue) (m : Msi) :
    (s.pop q m).buf q =
      { s.buf q with ringTail := ((s.buf q).ringTail + 1) % ringSize } := if_pos rfl

@[simp] theorem pop_taken (q : Queue) (m : Msi) :
    (s.pop q m).taken q = s.taken q ++ [m] := if_pos rfl

end MsgBuf

section Alone

variable {s : MsgBuf} {who : Adder} {q : Queue} {m : Msi}

theorem setSlot_twice (b : MessageBuffer) (i : Nat) (m : Msi) :
    (b.setSlot i ⟨m.msg, (b.ringData i).adr⟩).setSlot i
        ⟨((b.setSlot i ⟨m.msg, (b.ringData i).adr⟩).ringData i).msg, m.adr⟩ =
      b.setSlot i m := by
  unfold MessageBuffer.setSlot
  simp only [if_pos]
  congr 1
  funext j
  split <;> rfl

theorem modify_modify (f g : MessageBuffer → MessageBuffer) :
    (s.modify q f).modify q g = s.modify q fun b => g (f b) := by
  unfold MsgBuf.modify
  simp only [if_pos]
  congr 1
  funext q'
  split <;> rfl

theorem writeSlot_run (i : Nat) :
    (writeSlot q i m).run s = ((), s.modify q fun b => b.setSlot i m) := by
  simp only [writeSlot, Prog.run_bind, Prog.run_access, modify_modify, setSlot_twice]

theorem addMsg_run :
    (addMsg who q m).run s =
      if s.Room q then (true, s.push who q m) else (false, { s with full := true }) := by
  change Prog.run (if s.Room q then _ else _) s = _
  by_cases h : s.Room q
  · rw [if_pos h, if_pos h]
    simp only [Prog.run_bind, writeSlot_run]
    have hmodify := @modify_modify s q (fun b => b.setSlot (s.buf q).ringHead m)
      fun b => { b with ringHead := ((s.buf q).ringHead + 1) % ringSize }
    have hbuf := congrArg MsgBuf.buf hmodify
    exact Prod.ext rfl (MsgBuf.ext hbuf rfl rfl rfl rfl rfl rfl)
  · rw [if_neg h, if_neg h]
    rfl

end Alone

/-! ## Rings -/

/-- The slot that is free does not count. -/
theorem MessageBuffer.between_setSlot {b : MessageBuffer} (hhead : b.ringHead < ringSize)
    (htail : b.ringTail < ringSize) (m : Msi) :
    Ring.between ringSize (b.setSlot b.ringHead m).ringData b.ringTail b.ringHead =
      Ring.between ringSize b.ringData b.ringTail b.ringHead :=
  Ring.between_congr htail hhead fun _ _ hi => if_neg hi

namespace MsgBuf

variable {s s' : MsgBuf} {who : Adder} {q q' : Queue} {m : Msi}

theorem RingOk.congr (h : s.RingOk q) (hbuf : s'.buf q = s.buf q) (hadded : s'.added q = s.added q)
    (htaken : s'.taken q = s.taken q) : s'.RingOk q := by
  obtain ⟨hhead, htail, hcontent⟩ := h
  refine ⟨by rwa [hbuf], by rwa [hbuf], ?_⟩
  rw [waiting, hbuf, hadded, htaken]
  exact hcontent

/-- Words may be written to the slot that is free. -/
theorem RingOk.setSlot (h : s.RingOk q) {f : MessageBuffer → MessageBuffer}
    (hf : f (s.buf q) = (s.buf q).setSlot (s.buf q).ringHead m) : (s.modify q f).RingOk q := by
  obtain ⟨hhead, htail, hcontent⟩ := h
  refine ⟨?_, ?_, ?_⟩
  · rw [modify_self, hf]
    exact hhead
  · rw [modify_self, hf]
    exact htail
  · rw [waiting, modify_self, hf]
    have hbetween := MessageBuffer.between_setSlot hhead htail m
    exact hcontent.trans (congrArg (s.taken q ++ ·) hbetween.symm)

theorem RingOk.push (h : s.RingOk q) (hroom : s.Room q) : (s.push who q m).RingOk q := by
  obtain ⟨hhead, htail, hcontent⟩ := h
  refine ⟨?_, ?_, ?_⟩
  · rw [push_self]
    exact Nat.mod_lt _ (by decide)
  · rw [push_self]
    exact htail
  · have hpush := @Ring.between_push _ ringSize _ _
      ((s.buf q).setSlot (s.buf q).ringHead m).ringData htail hhead hroom
    have hslot : ((s.buf q).setSlot (s.buf q).ringHead m).ringData (s.buf q).ringHead = m :=
      if_pos rfl
    rw [MessageBuffer.between_setSlot hhead htail, hslot] at hpush
    rw [push_added, List.map_append, waiting, push_self]
    refine Eq.trans ?_ (congrArg (s.taken q ++ ·) hpush).symm
    rw [hcontent, List.append_assoc]
    rfl

theorem RingOk.pop (h : s.RingOk q) (hne : (s.buf q).ringHead ≠ (s.buf q).ringTail) :
    (s.pop q ((s.buf q).ringData (s.buf q).ringTail)).RingOk q := by
  obtain ⟨hhead, htail, hcontent⟩ := h
  refine ⟨?_, ?_, ?_⟩
  · rw [pop_self]
    exact hhead
  · rw [pop_self]
    exact Nat.mod_lt _ (by decide)
  · rw [waiting, Ring.between_pop htail hhead hne.symm] at hcontent
    rw [pop_taken, waiting, pop_self, List.append_assoc]
    exact hcontent

theorem RingOk.modify_other (h : s.RingOk q') (hne : q' ≠ q)
    (f : MessageBuffer → MessageBuffer) : (s.modify q f).RingOk q' :=
  h.congr (MsgBuf.modify_other s hne f) rfl rfl

theorem RingOk.push_other (h : s.RingOk q') (hne : q' ≠ q) : (s.push who q m).RingOk q' :=
  h.congr (if_neg hne) (if_neg hne) rfl

theorem RingOk.pop_other (h : s.RingOk q') (hne : q' ≠ q) : (s.pop q m).RingOk q' :=
  h.congr (if_neg hne) rfl (if_neg hne)

end MsgBuf

end ScuFg.MainLoop
