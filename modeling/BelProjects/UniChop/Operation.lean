import BelProjects.B2b.MiniFsm

/-!
# The control of the UNILAC choppers

Timing messages ask the firmware to write or to read the modules of the chopper unit over the MIL
device bus.  What it has read it sends as timing messages.  A transfer may fail; a variable of the
firmware whose transfer has failed keeps what the stack held before.
-/

namespace UniChop

open B2b (Word Long SysTime TimingMsg evtGid evtNo evtSid evtReserved buildEvtidV1 ebmWriteTM
  commonAheadT)

abbrev Half := BitVec 16

/-! ### Constants -/

def statusOk : Word := 0
def statusOutOfRange : Word := 3
def statusWrBadSync : Word := 8
def statusLateMessage : Word := 10
def statusBadSetting : Word := 11
def statusMil : Word := 16

def milStatOk : Half := 1

def ecaDoStrahlwegWrite : Word := 0xfa0
def ecaDoStrahlwegRead : Word := 0xfa1
def ecaDoMilSWrite : Word := 0xfb0
def ecaDoMilSRead : Word := 0xfb1
def ecaDoQrStop : Word := 0xfc0
def ecaDoQlStop : Word := 0xfc1
def ecaDoHliStop : Word := 0xfc2
def ecaDoHsiStop : Word := 0xfc3
def ecaDoHliCmd : Word := 0xfc4
def ecaDoHsiCmd : Word := 0xfc5
def ecaDoIqStop : Word := 0xf0a

def gidPzuQr : Word := 0x1c0
def gidPzuQl : Word := 0x1c1
def gidPzuUn : Word := 0x1c3
def gidPzuUh : Word := 0x1c4
def gidLocalEcpuTo : Word := 0xff0
def gidLocalEcpuFrom : Word := 0xff1

def ifbFcAddrBusW : Half := 0x11
def ifbFcDataBusW : Half := 0x10
def ifbFcDataBusR : Half := 0x90

def ifbAddrCu : Half := 0x60

def modLogic1Addr : Half := 0x09
def modLogic1RegStrahlwegReg : Half := 0x60
def modLogic1RegStrahlwegMask : Half := 0x62
def modLogic2Addr : Half := 0x08
def modLogic2RegAnforderMask : Half := 0x68
def modRpgIqrAddr : Half := 0x01
def modRpgIqlAddr : Half := 0x02
def modRpgHliAddr : Half := 0x03
def modRpgHsiAddr : Half := 0x04
def modRpgGatelenHiReg : Half := 0x42
def modRpgGatelenLoReg : Half := 0x40
def modRpgEnableReg : Half := 0x10
def modRpgEnableTrue : Half := 0x00f5
def modRpgEnableFalse : Half := 0x0000

def noData : Half := 0x7fff

def invalid : Half := 0xffff

/-! ### The device bus -/

/-- The slaves on the device bus: for each, the address that was last put on the address bus of its
modules, their registers by that address, and the registers of the slave by function code. -/
structure Crate where
  selected : Half → Half
  modules : Half → Half → Half
  slave : Half → Half → Half

def modAddrBus (modAddr modReg : Half) : Half := modAddr <<< 8 ||| modReg

namespace Crate

variable (c : Crate)

def write (ifbAddr fctCode data : Half) : Crate :=
  if fctCode = ifbFcAddrBusW then
    { c with selected := fun b => if b = ifbAddr then data else c.selected b }
  else if fctCode = ifbFcDataBusW then
    { c with
      modules := fun b a =>
        if b = ifbAddr ∧ a = c.selected ifbAddr then data else c.modules b a }
  else
    { c with slave := fun b f => if b = ifbAddr ∧ f = fctCode then data else c.slave b f }

def read (ifbAddr fctCode : Half) : Half :=
  if fctCode = ifbFcDataBusR then c.modules ifbAddr (c.selected ifbAddr)
  else c.slave ifbAddr fctCode

end Crate

/-- The outcome of a transfer; `junk` is what a read that failed returns. -/
structure Transfer where
  busStatus : Half
  junk : Half

/-- One call of the action of the firmware: the modules, the transfers and the readings of the
clock to come, and what has been sent. -/
structure Exec where
  crate : Crate
  transfers : Nat → Transfer
  times : Nat → SysTime
  sent : List TimingMsg

namespace Exec

variable (x : Exec)

/-- The transfer with this number will succeed. -/
def Ok (n : Nat) : Prop := (x.transfers n).busStatus = milStatOk

instance (n : Nat) : Decidable (x.Ok n) := inferInstanceAs (Decidable (_ = _))

/-- A message is sent ahead of its deadline. `fwlib_ecaWriteTM` without `flagForceLate` checks the
deadline as `fwlib_ebmWriteTM` does. -/
def ecaWriteTM (evtId param : Long) : Exec :=
  { x with
    times := fun n => x.times (n + 3)
    sent := x.sent ++
      [ebmWriteTM (x.times 1) (x.times 2) ((x.times 0).ns + commonAheadT) evtId param 0] }

def writeDevMil (ifbAddr fctCode data : Half) : Exec × Half :=
  ({ x with
      crate := if x.Ok 0 then x.crate.write ifbAddr fctCode data else x.crate
      transfers := fun n => x.transfers (n + 1) }, (x.transfers 0).busStatus)

def readDevMil (ifbAddr fctCode : Half) : Exec × Half × Half :=
  ({ x with transfers := fun n => x.transfers (n + 1) }, (x.transfers 0).busStatus,
    if x.Ok 0 then x.crate.read ifbAddr fctCode else (x.transfers 0).junk)

def sendMilDiag (writeFlag : Bool) (status slotSio ifbAddr modAddr modReg data : Half) : Exec :=
  x.ecaWriteTM
    (buildEvtidV1 gidLocalEcpuFrom (if writeFlag then ecaDoMilSWrite else ecaDoMilSRead) 0 0 0 0)
    (status.setWidth 64 <<< 48 ||| (slotSio &&& 0xff).setWidth 64 <<< 40 |||
      (ifbAddr &&& 0xff).setWidth 64 <<< 32 ||| (modAddr &&& 0xff).setWidth 64 <<< 24 |||
      (modReg &&& 0xff).setWidth 64 <<< 16 ||| data.setWidth 64)

def writeModule (ifbAddr addr data : Half) : Exec × Half :=
  let select := x.writeDevMil ifbAddr ifbFcAddrBusW addr
  if select.2 = milStatOk then select.1.writeDevMil ifbAddr ifbFcDataBusW data else select

def readModule (ifbAddr addr : Half) : Exec × Half × Half :=
  let select := x.writeDevMil ifbAddr ifbFcAddrBusW addr
  if select.2 = milStatOk then select.1.readDevMil ifbAddr ifbFcDataBusR
  else (select.1, select.2, 0)

/-- The module address zero stands for the slave itself. -/
def writeToModuleMil (slotSio ifbAddr modAddr modReg data : Half) : Exec × Word :=
  let bus :=
    if modAddr ≠ 0 then x.writeModule ifbAddr (modAddrBus modAddr modReg) data
    else x.writeDevMil ifbAddr modReg data
  (bus.1.sendMilDiag true bus.2 slotSio ifbAddr modAddr modReg data,
    if bus.2 = milStatOk then statusOk else statusMil)

/-- The last argument is what the variable for the result holds; it is returned with what it holds
after the call. -/
def readFromModuleMil (slotSio ifbAddr modAddr modReg data : Half) : Exec × Word × Half :=
  let bus :=
    if modAddr ≠ 0 then x.readModule ifbAddr (modAddrBus modAddr modReg)
    else x.readDevMil ifbAddr modReg
  (bus.1.sendMilDiag false bus.2.1 slotSio ifbAddr modAddr modReg bus.2.2,
    if bus.2.1 = milStatOk then statusOk else statusMil,
    if bus.2.1 = milStatOk then bus.2.2 else data)

end Exec

/-- Some accesses, each of which is made if the one before it has succeeded. -/
structure Chain where
  x : Exec
  status : Word
  slotSio : Half

namespace Chain

variable (c : Chain)

def write (modAddr modReg data : Half) : Chain :=
  if c.status = statusOk then
    let r := c.x.writeToModuleMil c.slotSio ifbAddrCu modAddr modReg data
    { c with
      x := r.1
      status := r.2 }
  else c

def read (modAddr modReg data : Half) : Chain × Half :=
  if c.status = statusOk then
    let r := c.x.readFromModuleMil c.slotSio ifbAddrCu modAddr modReg data
    ({ c with
        x := r.1
        status := r.2.1 }, r.2.2)
  else (c, data)

end Chain

/-! ### Accesses to the modules -/

section Accesses

variable {c : Crate}

theorem Crate.write_modules {ifbAddr fctCode data : Half} (h : fctCode ≠ ifbFcDataBusW) :
    (c.write ifbAddr fctCode data).modules = c.modules := by
  rw [Crate.write, if_neg h]
  split <;> rfl

@[simp] theorem Crate.write_select_selected (ifbAddr addr : Half) :
    (c.write ifbAddr ifbFcAddrBusW addr).selected ifbAddr = addr := by
  simp [Crate.write]

@[simp] theorem Crate.write_select_modules (ifbAddr addr : Half) :
    (c.write ifbAddr ifbFcAddrBusW addr).modules = c.modules :=
  write_modules (by decide)

theorem Crate.write_data_modules (ifbAddr data : Half) :
    (c.write ifbAddr ifbFcDataBusW data).modules = fun b a =>
      if b = ifbAddr ∧ a = c.selected ifbAddr then data else c.modules b a := rfl

theorem Crate.read_data (ifbAddr : Half) :
    c.read ifbAddr ifbFcDataBusR = c.modules ifbAddr (c.selected ifbAddr) := rfl

def reports (evtno : Word) (ms : List TimingMsg) : List TimingMsg :=
  ms.filter fun m => evtNo m.evtId = evtno

def DiagNo (evtno : Word) : Prop := evtno = ecaDoMilSWrite ∨ evtno = ecaDoMilSRead

instance (evtno : Word) : Decidable (DiagNo evtno) := inferInstanceAs (Decidable (_ ∨ _))

variable {x : Exec} {slotSio ifbAddr modAddr modReg data : Half}

namespace Exec

@[simp] theorem ecaWriteTM_crate (evtId param : Long) :
    (x.ecaWriteTM evtId param).crate = x.crate := rfl

theorem reports_sendMilDiag {writeFlag : Bool} {status : Half} {evtno : Word}
    (h : ¬ DiagNo evtno) :
    reports evtno (x.sendMilDiag writeFlag status slotSio ifbAddr modAddr modReg data).sent =
      reports evtno x.sent := by
  have hne : ((if writeFlag then ecaDoMilSWrite else ecaDoMilSRead).setWidth 12).setWidth 32 ≠
      evtno := by
    rintro rfl
    revert h
    cases writeFlag <;> decide
  simp only [reports, sendMilDiag, ecaWriteTM, List.filter_append, B2b.ebmWriteTM_evtId,
    B2b.evtNo_build, List.filter_cons, List.filter_nil, decide_eq_false hne]
  simp

/-- A message that is sent is the last of those with its number. -/
theorem reports_ecaWriteTM {evtno : Word} {evtId : Long} (h : evtNo evtId = evtno)
    (x : Exec) (param : Long) :
    ∃ msg, reports evtno (x.ecaWriteTM evtId param).sent = reports evtno x.sent ++ [msg] ∧
      msg.evtId = evtId ∧ msg.param = param := by
  refine ⟨ebmWriteTM (x.times 1) (x.times 2) ((x.times 0).ns + commonAheadT) evtId param 0, ?_,
    B2b.ebmWriteTM_evtId .., B2b.ebmWriteTM_param ..⟩
  rw [reports, ecaWriteTM, List.filter_append]
  simp [reports, h]

/-- The transfers up to this number will succeed. -/
def OkUpTo (x : Exec) (n : Nat) : Prop := ∀ i, i < n → x.Ok i

instance (n : Nat) : Decidable (x.OkUpTo n) := Nat.decidableBallLT n fun i _ => x.Ok i

theorem OkUpTo.mono {k n : Nat} (h : x.OkUpTo n) (hkn : k ≤ n) : x.OkUpTo k :=
  fun i hi => h i (Nat.lt_of_lt_of_le hi hkn)

theorem okUpTo_add {k : Nat} : x.OkUpTo (k + 2) ↔ x.OkUpTo k ∧ x.Ok k ∧ x.Ok (k + 1) := by
  constructor
  · intro h
    exact ⟨fun i hi => h i (by omega), h k (by omega), h (k + 1) (by omega)⟩
  · rintro ⟨h, h0, h1⟩ i hi
    rcases Nat.lt_or_ge i k with hlt | hge
    · exact h i hlt
    · rcases Nat.eq_or_lt_of_le hge with rfl | hgt
      · exact h0
      · obtain rfl : i = k + 1 := by omega
        exact h1

section Transfers

variable {fctCode : Half}

@[simp] theorem writeDevMil_status : (x.writeDevMil ifbAddr fctCode data).2 = milStatOk ↔ x.Ok 0 :=
  .rfl

@[simp] theorem writeDevMil_ok (n : Nat) :
    (x.writeDevMil ifbAddr fctCode data).1.Ok n ↔ x.Ok (n + 1) := .rfl

theorem writeDevMil_transfers (n : Nat) :
    (x.writeDevMil ifbAddr fctCode data).1.transfers n = x.transfers (n + 1) := rfl

theorem writeDevMil_crate :
    (x.writeDevMil ifbAddr fctCode data).1.crate =
      if x.Ok 0 then x.crate.write ifbAddr fctCode data else x.crate := rfl

@[simp] theorem readDevMil_status : (x.readDevMil ifbAddr fctCode).2.1 = milStatOk ↔ x.Ok 0 := .rfl

theorem readDevMil_transfers (n : Nat) :
    (x.readDevMil ifbAddr fctCode).1.transfers n = x.transfers (n + 1) := rfl

@[simp] theorem readDevMil_crate : (x.readDevMil ifbAddr fctCode).1.crate = x.crate := rfl

theorem readDevMil_data (h : x.Ok 0) :
    (x.readDevMil ifbAddr fctCode).2.2 = x.crate.read ifbAddr fctCode :=
  if_pos h

theorem writeDevMil_modules (h : fctCode ≠ ifbFcDataBusW) :
    (x.writeDevMil ifbAddr fctCode data).1.crate.modules = x.crate.modules := by
  rw [writeDevMil_crate]
  split
  · exact Crate.write_modules h
  · rfl

end Transfers

section Module

variable {addr : Half}

theorem writeModule_status :
    (x.writeModule ifbAddr addr data).2 = milStatOk ↔ x.Ok 0 ∧ x.Ok 1 := by
  by_cases h0 : x.Ok 0 <;> simp [writeModule, h0]

theorem writeModule_transfers (h0 : x.Ok 0) (n : Nat) :
    (x.writeModule ifbAddr addr data).1.transfers n = x.transfers (n + 2) := by
  simp only [writeModule, writeDevMil_status, if_pos h0, writeDevMil_transfers]

theorem writeModule_modules :
    (x.writeModule ifbAddr addr data).1.crate.modules =
      if x.Ok 0 ∧ x.Ok 1 then fun b a =>
        if b = ifbAddr ∧ a = addr then data else x.crate.modules b a
      else x.crate.modules := by
  by_cases h0 : x.Ok 0
  · by_cases h1 : x.Ok 1
    · simp only [writeModule, writeDevMil_status, h0, h1, writeDevMil_crate, writeDevMil_ok,
        if_true, and_self, Crate.write_data_modules, Crate.write_select_selected,
        Crate.write_select_modules]
    · simp only [writeModule, writeDevMil_status, h0, h1, writeDevMil_crate, writeDevMil_ok,
        if_true, if_false, and_false, Crate.write_select_modules]
  · simp only [writeModule, writeDevMil_status, h0, writeDevMil_crate, if_false, false_and]

theorem readModule_status :
    (x.readModule ifbAddr addr).2.1 = milStatOk ↔ x.Ok 0 ∧ x.Ok 1 := by
  by_cases h0 : x.Ok 0 <;> simp [readModule, h0]

theorem readModule_transfers (h0 : x.Ok 0) (n : Nat) :
    (x.readModule ifbAddr addr).1.transfers n = x.transfers (n + 2) := by
  simp only [readModule, writeDevMil_status, if_pos h0, readDevMil_transfers,
    writeDevMil_transfers]

theorem readModule_modules : (x.readModule ifbAddr addr).1.crate.modules = x.crate.modules := by
  have hselect : (x.writeDevMil ifbAddr ifbFcAddrBusW addr).1.crate.modules = x.crate.modules :=
    writeDevMil_modules (by decide)
  rw [readModule]
  split
  · exact hselect
  · exact hselect

theorem readModule_data (h : x.Ok 0 ∧ x.Ok 1) :
    (x.readModule ifbAddr addr).2.2 = x.crate.modules ifbAddr addr := by
  have hselect : (x.writeDevMil ifbAddr ifbFcAddrBusW addr).1.Ok 0 := h.2
  simp only [readModule, writeDevMil_status, if_pos h.1]
  rw [readDevMil_data hselect, Crate.read_data, writeDevMil_crate, if_pos h.1,
    Crate.write_select_selected, Crate.write_select_modules]

end Module

section ModuleMil

theorem status_iff {busStatus : Half} :
    (if busStatus = milStatOk then statusOk else statusMil) = statusOk ↔ busStatus = milStatOk := by
  split
  case isTrue h => exact iff_of_true rfl h
  case isFalse h => exact iff_of_false (by decide) h

theorem writeToModuleMil_status (hmod : modAddr ≠ 0) :
    (x.writeToModuleMil slotSio ifbAddr modAddr modReg data).2 = statusOk ↔ x.Ok 0 ∧ x.Ok 1 := by
  rw [writeToModuleMil, if_pos hmod]
  exact status_iff.trans writeModule_status

theorem writeToModuleMil_transfers (hmod : modAddr ≠ 0) (h0 : x.Ok 0) (n : Nat) :
    (x.writeToModuleMil slotSio ifbAddr modAddr modReg data).1.transfers n =
      x.transfers (n + 2) := by
  rw [writeToModuleMil, if_pos hmod]
  exact writeModule_transfers h0 n

theorem writeToModuleMil_modules (hmod : modAddr ≠ 0) :
    (x.writeToModuleMil slotSio ifbAddr modAddr modReg data).1.crate.modules =
      if x.Ok 0 ∧ x.Ok 1 then fun b a =>
        if b = ifbAddr ∧ a = modAddrBus modAddr modReg then data else x.crate.modules b a
      else x.crate.modules := by
  rw [writeToModuleMil, if_pos hmod]
  exact writeModule_modules

theorem writeToModuleMil_slave (hreg : modReg ≠ ifbFcDataBusW) :
    (x.writeToModuleMil slotSio ifbAddr 0 modReg data).1.crate.modules = x.crate.modules := by
  rw [writeToModuleMil, if_neg (not_not.mpr rfl)]
  exact writeDevMil_modules hreg

theorem readFromModuleMil_status (hmod : modAddr ≠ 0) :
    (x.readFromModuleMil slotSio ifbAddr modAddr modReg data).2.1 = statusOk ↔
      x.Ok 0 ∧ x.Ok 1 := by
  rw [readFromModuleMil, if_pos hmod]
  exact status_iff.trans readModule_status

theorem readFromModuleMil_transfers (hmod : modAddr ≠ 0) (h0 : x.Ok 0) (n : Nat) :
    (x.readFromModuleMil slotSio ifbAddr modAddr modReg data).1.transfers n =
      x.transfers (n + 2) := by
  rw [readFromModuleMil, if_pos hmod]
  exact readModule_transfers h0 n

theorem readFromModuleMil_modules :
    (x.readFromModuleMil slotSio ifbAddr modAddr modReg data).1.crate.modules =
      x.crate.modules := by
  rw [readFromModuleMil]
  split
  · exact readModule_modules
  · rfl

theorem readFromModuleMil_data (hmod : modAddr ≠ 0) :
    (x.readFromModuleMil slotSio ifbAddr modAddr modReg data).2.2 =
      if x.Ok 0 ∧ x.Ok 1 then x.crate.modules ifbAddr (modAddrBus modAddr modReg) else data := by
  rw [readFromModuleMil, if_pos hmod]
  by_cases h : x.Ok 0 ∧ x.Ok 1
  · rw [if_pos h, ← readModule_data h]
    exact if_pos (readModule_status.mpr h)
  · rw [if_neg h]
    exact if_neg fun hstatus => h (readModule_status.mp hstatus)

theorem reports_writeToModuleMil {evtno : Word} (h : ¬ DiagNo evtno) :
    reports evtno (x.writeToModuleMil slotSio ifbAddr modAddr modReg data).1.sent =
      reports evtno x.sent := by
  rw [writeToModuleMil]
  refine (reports_sendMilDiag h).trans ?_
  split
  · rw [writeModule]
    split <;> rfl
  · rfl

theorem reports_readFromModuleMil {evtno : Word} (h : ¬ DiagNo evtno) :
    reports evtno (x.readFromModuleMil slotSio ifbAddr modAddr modReg data).1.sent =
      reports evtno x.sent := by
  rw [readFromModuleMil]
  refine (reports_sendMilDiag h).trans ?_
  split
  · rw [readModule]
    split <;> rfl
  · rfl

end ModuleMil

end Exec

namespace Chain

variable {c : Chain} {k : Nat}

/-- So many accesses to modules have been made from a state, unless one of them has failed. -/
structure After (x : Exec) (k : Nat) (c : Chain) : Prop where
  status : c.status = statusOk ↔ x.OkUpTo (2 * k)
  transfers : c.status = statusOk → ∀ n, c.x.transfers n = x.transfers (n + 2 * k)

theorem After.start : (Chain.mk x statusOk slotSio).After x 0 where
  status := iff_of_true rfl fun _ hi => absurd hi (Nat.not_lt_zero _)
  transfers _ _ := rfl

theorem After.next_ok (h : c.After x k) (hs : c.status = statusOk) :
    c.x.Ok 0 ∧ c.x.Ok 1 ↔ x.OkUpTo (2 * (k + 1)) := by
  have hup := h.status.mp hs
  have h0 := h.transfers hs 0
  have h1 := h.transfers hs 1
  rw [Nat.zero_add] at h0
  rw [Nat.add_comm] at h1
  unfold Exec.Ok
  rw [h0, h1, Nat.mul_succ, Exec.okUpTo_add, and_iff_right hup]
  rfl

theorem After.not_ok (h : c.After x k) (hs : c.status ≠ statusOk) :
    ¬ x.OkUpTo (2 * (k + 1)) := by
  intro hup
  rw [Nat.mul_succ, Exec.okUpTo_add] at hup
  exact hs (h.status.mpr hup.1)

theorem After.read (h : c.After x k) (hmod : modAddr ≠ 0) :
    (c.read modAddr modReg data).1.After x (k + 1) := by
  rw [Chain.read]
  by_cases hs : c.status = statusOk
  · rw [if_pos hs]
    have hread := @Exec.readFromModuleMil_status c.x c.slotSio ifbAddrCu _ modReg data hmod
    refine ⟨hread.trans (h.next_ok hs), ?_⟩
    intro hstatus n
    have hrest := @Exec.readFromModuleMil_transfers c.x c.slotSio ifbAddrCu _ modReg data hmod
      (hread.mp hstatus).1 n
    rw [h.transfers hs (n + 2), Nat.add_right_comm, Nat.add_assoc] at hrest
    exact hrest
  · rw [if_neg hs]
    exact ⟨iff_of_false hs (h.not_ok hs), fun hstatus => absurd hstatus hs⟩

/-- What a variable holds after a read. -/
theorem After.read_data (h : c.After x k) (hmod : modAddr ≠ 0) :
    (c.read modAddr modReg data).2 =
      if x.OkUpTo (2 * (k + 1)) then c.x.crate.modules ifbAddrCu (modAddrBus modAddr modReg)
      else data := by
  rw [Chain.read]
  by_cases hs : c.status = statusOk
  · rw [if_pos hs]
    have hdata := @Exec.readFromModuleMil_data c.x c.slotSio ifbAddrCu _ modReg data hmod
    simpa only [h.next_ok hs] using hdata
  · rw [if_neg hs, if_neg (h.not_ok hs)]

theorem read_modules : (c.read modAddr modReg data).1.x.crate.modules = c.x.crate.modules := by
  rw [Chain.read]
  split
  · exact @Exec.readFromModuleMil_modules c.x c.slotSio ifbAddrCu modAddr modReg data
  · rfl

theorem After.write (h : c.After x k) (hmod : modAddr ≠ 0) :
    (c.write modAddr modReg data).After x (k + 1) := by
  rw [Chain.write]
  by_cases hs : c.status = statusOk
  · rw [if_pos hs]
    have hwrite := @Exec.writeToModuleMil_status c.x c.slotSio ifbAddrCu _ modReg data hmod
    refine ⟨hwrite.trans (h.next_ok hs), ?_⟩
    intro hstatus n
    have hrest := @Exec.writeToModuleMil_transfers c.x c.slotSio ifbAddrCu _ modReg data hmod
      (hwrite.mp hstatus).1 n
    rw [h.transfers hs (n + 2), Nat.add_right_comm, Nat.add_assoc] at hrest
    exact hrest
  · rw [if_neg hs]
    exact ⟨iff_of_false hs (h.not_ok hs), fun hstatus => absurd hstatus hs⟩

theorem After.write_modules (h : c.After x k) (hmod : modAddr ≠ 0)
    (hok : x.OkUpTo (2 * (k + 1))) :
    (c.write modAddr modReg data).x.crate.modules = fun b a =>
      if b = ifbAddrCu ∧ a = modAddrBus modAddr modReg then data else c.x.crate.modules b a := by
  have hs : c.status = statusOk := by
    by_contra hs
    exact h.not_ok hs hok
  rw [Chain.write, if_pos hs]
  exact (Exec.writeToModuleMil_modules hmod).trans (if_pos ((h.next_ok hs).mpr hok))

theorem reports_read {evtno : Word} (h : ¬ DiagNo evtno) :
    reports evtno (c.read modAddr modReg data).1.x.sent = reports evtno c.x.sent := by
  rw [Chain.read]
  split
  · exact @Exec.reports_readFromModuleMil c.x c.slotSio ifbAddrCu modAddr modReg data _ h
  · rfl

end Chain

end Accesses

/-! ### Linacs -/

inductive Linac where
  | hli | hsi
  deriving DecidableEq, Repr

namespace Linac

def evtStop : Linac → Word
  | hli => ecaDoHliStop
  | hsi => ecaDoHsiStop

/-- `MOD_LOGIC1_REG_XXX_ACT_POSEDGE_RD` -/
def regChopRiseAct : Linac → Half
  | hli => 0x74
  | hsi => 0x6c

/-- `MOD_LOGIC1_REG_XXX_ACT_NEGEDGE_RD` -/
def regChopFallAct : Linac → Half
  | hli => 0x76
  | hsi => 0x70

/-- `MOD_LOGIC1_REG_XXX_CTRL_NEGEDGE_RD` -/
def regChopFallCtrl : Linac → Half
  | hli => 0x78
  | hsi => 0x6e

def rpgAddr : Linac → Half
  | hli => modRpgHliAddr
  | hsi => modRpgHsiAddr

end Linac

structure Flags where
  interlockHli : Word
  interlockHsi : Word
  blockHli : Word
  blockHsi : Word
  cciRec : Word
  cciLate : Word
  deriving DecidableEq, Repr

namespace Flags

def clear : Flags := ⟨0, 0, 0, 0, 0, 0⟩

def block (f : Flags) : Linac → Word
  | .hli => f.blockHli
  | .hsi => f.blockHsi

def interlock (f : Flags) : Linac → Word
  | .hli => f.interlockHli
  | .hsi => f.interlockHsi

def sendBpid (f : Flags) (l : Linac) : Word :=
  f.block l <<< 2 ||| f.interlock l <<< 3 ||| (f.cciRec <<< 4 ||| f.cciLate <<< 5)

end Flags

/-! ### Messages -/

structure Message where
  ecaAction : Word
  evtId : Long
  param : Long
  isLate : Bool

/-- The cases of the action; the two commands are one case. -/
inductive Action where
  | strahlwegWrite
  | strahlwegRead
  | milSWrite
  | milSRead
  | iqStop
  | chopStop (l : Linac)
  | cmd
  | other
  deriving DecidableEq, Repr

def Message.action (m : Message) : Action :=
  if m.ecaAction = ecaDoStrahlwegWrite then .strahlwegWrite
  else if m.ecaAction = ecaDoStrahlwegRead then .strahlwegRead
  else if m.ecaAction = ecaDoMilSWrite then .milSWrite
  else if m.ecaAction = ecaDoMilSRead then .milSRead
  else if m.ecaAction = ecaDoIqStop then .iqStop
  else if m.ecaAction = ecaDoHliStop then .chopStop .hli
  else if m.ecaAction = ecaDoHsiStop then .chopStop .hsi
  else if m.ecaAction = ecaDoHliCmd ∨ m.ecaAction = ecaDoHsiCmd then .cmd
  else .other

structure Settings where
  strahlwegReg : Half
  strahlwegMask : Half
  anforderMask : Half
  deriving DecidableEq, Repr

/-- The settings, as they are packed into the parameter of a message. -/
def Settings.ofParam (param : Long) : Settings where
  strahlwegReg := param.extractLsb' 0 16
  strahlwegMask := param.extractLsb' 16 16
  anforderMask := param.extractLsb' 32 16

/-- What the stack holds where the action has its local variables. -/
structure Locals where
  strahlwegReg : Half
  strahlwegMask : Half
  anforderMask : Half
  milData : Half
  milModAddr : Half
  tChopRiseAct : Half
  tChopFallAct : Half
  tChopFallCtrl : Half
  rpgGatelenHi : Half
  rpgGatelenLo : Half

def sidStatus (evtId : Long) : Word :=
  if 15 < (evtSid evtId).toNat then statusOutOfRange else statusOk

/-- The checks of a message from the host. -/
def hostStatus (evtId : Long) : Word :=
  if evtGid evtId ≠ gidLocalEcpuTo then statusBadSetting else sidStatus evtId

/-- The status with which the action returns at once, if it is not the one of success. -/
def Message.check (m : Message) : Word :=
  match m.action with
  | .strahlwegWrite | .strahlwegRead | .milSWrite | .milSRead => hostStatus m.evtId
  | .iqStop | .chopStop _ => sidStatus m.evtId
  | .cmd | .other => statusOk

structure Message.Taken (m : Message) (a : Action) : Prop where
  action : m.action = a
  check : m.check = statusOk
  timely : m.isLate = false

instance (m : Message) (a : Action) : Decidable (m.Taken a) :=
  decidable_of_iff (m.action = a ∧ m.check = statusOk ∧ m.isLate = false)
    ⟨fun ⟨h1, h2, h3⟩ => ⟨h1, h2, h3⟩, fun ⟨h1, h2, h3⟩ => ⟨h1, h2, h3⟩⟩

/-! ### Measured values -/

def edgeTime (validMask timeMask reg : Half) : Half :=
  if reg = 0 then noData else if reg &&& validMask ≠ 0x8000 then invalid else reg &&& timeMask

def riseTime (reg : Half) : Half := edgeTime 0xff80 0x7f reg
def fallTime (reg : Half) : Half := edgeTime 0xc000 0x3fff reg

def lenChopAct (tChopRiseAct tChopFallAct : Half) : Half :=
  if tChopFallAct = invalid ∨ tChopRiseAct = invalid then invalid
  else if tChopFallAct = noData ∧ tChopRiseAct = noData then noData
  else tChopFallAct - tChopRiseAct

def gateNoData : Word := 0x7fffffff
def gateInvalid : Word := 0xffffffff

def gateCounter (hi lo : Half) : Word :=
  (hi &&& 0x1ff).setWidth 32 <<< 16 ||| lo.setWidth 32

/-- The test of the highest bits is a logical one. -/
def rpgGatelen (hi lo : Half) : Word :=
  if hi = 0 then gateNoData else if hi >>> 8 ≠ 0 then gateInvalid else gateCounter hi lo

/-! ### The action -/

section Action

variable (slotSio : Half) (f : Flags) (m : Message) (stale : Locals) (actStatus : Word) (x : Exec)

def strahlwegFlags : Flags :=
  let strahlwegReg : Half := (Settings.ofParam m.param).strahlwegReg
  if m.isLate then
    { f with
      cciRec := 1
      cciLate := 1 }
  else
    { blockHli := ((strahlwegReg >>> 7) &&& 1).setWidth 32
      blockHsi := ((strahlwegReg >>> 6) &&& 1).setWidth 32
      interlockHli := ((strahlwegReg >>> 5) &&& 1).setWidth 32
      interlockHsi := ((strahlwegReg >>> 4) &&& 1).setWidth 32
      cciRec := 1
      cciLate := 0 }

def strahlwegWrite : Exec × Word :=
  if m.isLate then (x, actStatus)
  else
    let s := Settings.ofParam m.param
    let c := (((Chain.mk x statusOk slotSio).write modLogic1Addr modLogic1RegStrahlwegReg
      s.strahlwegReg).write modLogic1Addr modLogic1RegStrahlwegMask s.strahlwegMask).write
        modLogic2Addr modLogic2RegAnforderMask s.anforderMask
    if c.status = statusOk then
      let hli := c.x.writeToModuleMil slotSio ifbAddrCu modRpgHliAddr modRpgEnableReg
        modRpgEnableTrue
      let hsi := hli.1.writeToModuleMil slotSio ifbAddrCu modRpgHsiAddr modRpgEnableReg
        modRpgEnableTrue
      (hsi.1, c.status)
    else (c.x, c.status)

/-- The answer has the Anforder mask at bit 24. -/
def strahlwegRead : Exec × Word :=
  if m.isLate then (x, actStatus)
  else
    let reg := (Chain.mk x statusOk slotSio).read modLogic1Addr modLogic1RegStrahlwegReg
      stale.strahlwegReg
    let mask := reg.1.read modLogic1Addr modLogic1RegStrahlwegMask stale.strahlwegMask
    let anforder := mask.1.read modLogic2Addr modLogic2RegAnforderMask stale.anforderMask
    (anforder.1.x.ecaWriteTM (buildEvtidV1 gidLocalEcpuFrom ecaDoStrahlwegRead 0 0 0 0)
      (reg.2.setWidth 64 ||| mask.2.setWidth 64 <<< 16 ||| anforder.2.setWidth 64 <<< 24),
      anforder.1.status)

def milSWrite : Exec × Word :=
  if m.isLate then (x, actStatus)
  else
    x.writeToModuleMil slotSio ((m.param.extractLsb' 32 8).setWidth 16)
      ((m.param.extractLsb' 24 8).setWidth 16) ((m.param.extractLsb' 16 8).setWidth 16)
      (m.param.extractLsb' 0 16)

def milSRead : Exec × Word :=
  if m.isLate then (x, actStatus)
  else
    let r := x.readFromModuleMil slotSio ((m.param.extractLsb' 32 8).setWidth 16)
      ((m.param.extractLsb' 24 8).setWidth 16) ((m.param.extractLsb' 16 8).setWidth 16)
      stale.milData
    (r.1, r.2.1)

/-- For a group other than the two of the sources the address of the module is not set, and the
number of the event stays zero. -/
def iqStop : Exec × Word :=
  if m.isLate then (x, actStatus)
  else
    let gid := evtGid m.evtId
    let milModAddr :=
      if gid = gidPzuQl then modRpgIqlAddr
      else if gid = gidPzuQr then modRpgIqrAddr
      else stale.milModAddr
    let sendEvtNo :=
      if gid = gidPzuQl then ecaDoQlStop else if gid = gidPzuQr then ecaDoQrStop else 0
    let hi := (Chain.mk x statusOk slotSio).read milModAddr modRpgGatelenHiReg stale.rpgGatelenHi
    let lo := hi.1.read milModAddr modRpgGatelenLoReg stale.rpgGatelenLo
    (lo.1.x.ecaWriteTM (buildEvtidV1 gidLocalEcpuFrom sendEvtNo 0 (evtSid m.evtId) 0 0)
      ((rpgGatelen hi.2 lo.2).setWidth 64),
      if hi.2 >>> 8 ≠ 0 then statusOutOfRange else lo.1.status)

def chopReport (l : Linac) : Exec × Word :=
  if m.isLate then (x, actStatus)
  else
    let gid := evtGid m.evtId
    let milModAddr := if gid = gidPzuUn ∨ gid = gidPzuUh then modLogic1Addr else stale.milModAddr
    let rise := (Chain.mk x statusOk slotSio).read milModAddr l.regChopRiseAct stale.tChopRiseAct
    let fall := rise.1.read milModAddr l.regChopFallAct stale.tChopFallAct
    let ctrl := fall.1.read milModAddr l.regChopFallCtrl stale.tChopFallCtrl
    (ctrl.1.x.ecaWriteTM
      (buildEvtidV1 gidLocalEcpuFrom l.evtStop 0 (evtSid m.evtId) (f.sendBpid l)
        (evtReserved m.evtId))
      ((fallTime ctrl.2).setWidth 64 <<< 48 ||| (riseTime rise.2).setWidth 64 <<< 32 |||
        (fallTime fall.2).setWidth 64 <<< 16 |||
        (lenChopAct (riseTime rise.2) (fallTime fall.2)).setWidth 64),
      ctrl.1.status)

/-- The case of the HLI falls through to that of the HSI, which then keeps what the first one has
set.  The RPG is disabled also after a late message. -/
def chopStop (l : Linac) : Exec × Word :=
  let report := chopReport slotSio f m stale actStatus x l
  ((report.1.writeToModuleMil slotSio ifbAddrCu l.rpgAddr modRpgEnableReg modRpgEnableFalse).1,
    report.2)

end Action

/-- The rest of the crate may change at any time, but not what has been set. -/
def Crate.settings (c : Crate) : Settings where
  strahlwegReg := c.modules ifbAddrCu (modAddrBus modLogic1Addr modLogic1RegStrahlwegReg)
  strahlwegMask := c.modules ifbAddrCu (modAddrBus modLogic1Addr modLogic1RegStrahlwegMask)
  anforderMask := c.modules ifbAddrCu (modAddrBus modLogic2Addr modLogic2RegAnforderMask)

def SettingAt (ifbAddr addr : Half) : Prop :=
  ifbAddr = ifbAddrCu ∧
    (addr = modAddrBus modLogic1Addr modLogic1RegStrahlwegReg ∨
      addr = modAddrBus modLogic1Addr modLogic1RegStrahlwegMask ∨
        addr = modAddrBus modLogic2Addr modLogic2RegAnforderMask)

instance (ifbAddr addr : Half) : Decidable (SettingAt ifbAddr addr) :=
  inferInstanceAs (Decidable (_ ∧ _))

def Crate.measure (c measured : Crate) : Crate where
  selected := c.selected
  modules b a := if SettingAt b a then c.modules b a else measured.modules b a
  slave := measured.slave

/-- A call of the action: the message, what the hardware does meanwhile, and what the stack
holds. -/
structure Call where
  msg : Message
  actStatus : Word
  measured : Crate
  transfers : Nat → Transfer
  times : Nat → SysTime
  stale : Locals
  wrBadSync : Bool

structure Firmware where
  flags : Flags
  crate : Crate
  slotSio : Half

namespace Firmware

variable (s : Firmware) (c : Call)

def exec : Exec := ⟨s.crate.measure c.measured, c.transfers, c.times, []⟩

/-- The cases of the action, for a message that has passed the checks. -/
def dispatch : Flags × Exec × Word :=
  let m := c.msg
  let x := s.exec c
  match m.action with
  | .strahlwegWrite => (strahlwegFlags s.flags m, strahlwegWrite s.slotSio m c.actStatus x)
  | .strahlwegRead => (s.flags, strahlwegRead s.slotSio m c.stale c.actStatus x)
  | .milSWrite => (s.flags, milSWrite s.slotSio m c.actStatus x)
  | .milSRead => (s.flags, milSRead s.slotSio m c.stale c.actStatus x)
  | .iqStop => (s.flags, iqStop s.slotSio m c.stale c.actStatus x)
  | .chopStop l => (s.flags, chopStop s.slotSio s.flags m c.stale c.actStatus x l)
  | .cmd => (Flags.clear, x, c.actStatus)
  | .other => (s.flags, x, c.actStatus)

/-- What follows the cases; an unknown action is not late. -/
def finalStatus (status : Word) : Word :=
  if c.wrBadSync then statusWrBadSync
  else if status = statusOk ∧ c.msg.isLate ∧ c.msg.action ≠ .other then statusLateMessage
  else status

/-- The state afterwards, the messages that have been sent, and the status. -/
def doActionOperation : Firmware × List TimingMsg × Word :=
  if c.msg.check ≠ statusOk then
    ({ s with crate := (s.exec c).crate }, [], c.msg.check)
  else
    let r := s.dispatch c
    ({ s with
        flags := r.1
        crate := r.2.1.crate }, r.2.1.sent, finalStatus c r.2.2)

def next : Firmware := (s.doActionOperation c).1

def sent : List TimingMsg := (s.doActionOperation c).2.1

def run (h : List Call) : Firmware := h.foldl next s

section Calls

variable {s : Firmware} {c : Call}

theorem next_crate (h : c.msg.check = statusOk) :
    (s.next c).crate = (s.dispatch c).2.1.crate := by
  rw [next, doActionOperation, if_neg (not_not.mpr h)]

theorem sent_taken {c : Call} (h : c.msg.check = statusOk) :
    s.sent c = (s.dispatch c).2.1.sent := by
  rw [sent, doActionOperation, if_neg (not_not.mpr h)]

theorem run_concat (h : List Call) (c : Call) : s.run (h ++ [c]) = (s.run h).next c := by
  rw [run, run, List.foldl_append, List.foldl_cons, List.foldl_nil]

end Calls

section Sample

def boot : Firmware := ⟨Flags.clear, ⟨fun _ => 0, fun _ _ => 0, fun _ _ => 0⟩, 0⟩

theorem quiet_bound : (0 : Long).toNat < 2 ^ 63 := by decide

def quietCall (ecaAction : Word) (evtId param : Long) : Call where
  msg := ⟨ecaAction, evtId, param, false⟩
  actStatus := statusOk
  measured := boot.crate
  transfers _ := ⟨milStatOk, 0⟩
  times _ := ⟨0, quiet_bound⟩
  stale := ⟨0, 0, 0, 0, 0, 0, 0, 0, 0, 0⟩
  wrBadSync := false

end Sample

end Firmware

end UniChop
