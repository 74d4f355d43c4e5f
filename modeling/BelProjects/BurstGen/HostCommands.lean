import Mathlib.Logic.Function.Basic
import Mathlib.Data.BitVec

/-!
# Bursts and host commands of the burst generator

The global data of `burstgen.c` and the commands by which the host declares, configures and
removes bursts.  Each burst has a task; bursts are numbered from 1, and bit `i` of a burst
set stands for burst `i + 1`.  A trigger or toggle event is an event id, which a table maps
to the set of bursts registered for it; the event id 0 marks a free entry.

Console output and the commands that only print or measure are left out.
-/

namespace BurstGen

abbrev Word := BitVec 32
abbrev Long := BitVec 64

/-- `N_BURSTS`; task 0 is a dummy. -/
def nBursts : Nat := 17

def nConfigs : Nat := 64

def statusOk : Word := 0
def statusErr : Word := 1

def ctlDis : Word := 0x0000
def ctlEn : Word := 0x0001
def ctlValid : Word := 0x8000

/-- `Task_t`, without the field `state`, which nothing reads, and the function, which is the
same for all tasks. -/
structure Task where
  flag : Word
  ioType : BitVec 8
  ioIndex : BitVec 8
  trigger : Long
  toggle : Long
  setup : Long
  /-- A signed number; negative for an endless burst. -/
  cycle : Long
  period : Long
  deadline : Long
  interval : Long
  lasttick : Long
  action : Long
  failed : Long
  deriving DecidableEq, Repr

structure Control where
  deadline : Long
  bursts : Word
  deriving DecidableEq, Repr

structure Config where
  id : Long
  bursts : Word
  deriving DecidableEq, Repr

structure Fw where
  tasks : Nat → Task
  gBurstsCreated : Word
  gBurstsCycled : Word
  gTrigConfigs : Nat → Config
  gToggConfigs : Nat → Config
  gTrigCtrl : Control
  gToggCtrl : Control

def burstBit (id : Nat) : Word := 1#32 <<< (id - 1)

def toU64 (hi32 lo32 : Word) : Long := hi32 ++ lo32

/-- `setupTasks` on memory that is otherwise zero. -/
def setupTasks : Fw :=
  { tasks := fun _ =>
      { flag := ctlDis, ioType := 0, ioIndex := 0, trigger := 0, toggle := 0, setup := 0, cycle := 0
        period := 0, deadline := 0, interval := 0, lasttick := 0, action := 0, failed := 0 }
    gBurstsCreated := 0
    gBurstsCycled := 0
    gTrigConfigs := fun _ => ⟨0, 0⟩
    gToggConfigs := fun _ => ⟨0, 0⟩
    gTrigCtrl := ⟨0, 0⟩
    gToggCtrl := ⟨0, 0⟩ }

/-! ### Event tables -/

/-- The entry with event id `eId` among the first `n`, the last one if there are several;
`nConfigs` if there is none. -/
def position (configs : Nat → Config) (eId : Long) : Nat → Nat
  | 0 => nConfigs
  | n + 1 => if (configs n).id = eId then n else position configs eId n

def freePosition (configs : Nat → Config) (i : Nat) : Nat → Nat
  | 0 => nConfigs
  | n + 1 => if (configs i).id = 0 then i else freePosition configs (i + 1) n

/-- Set or reset burst `id` in the entry of event `eId`. The result is the entry,
`nConfigs` if there is none. -/
def updateConfigs (configs : Nat → Config) (eId : Long) (id : Nat) (set : Bool) :
    Nat × (Nat → Config) :=
  if eId = 0 ∨ id = 0 then (nConfigs, configs)
  else
    let pos := position configs eId nConfigs
    let pos := if pos = nConfigs then freePosition configs 0 nConfigs else pos
    if pos = nConfigs then (pos, configs)
    else if set then
      (pos, Function.update configs pos ⟨eId, (configs pos).bursts ||| burstBit id⟩)
    else
      let bursts := (configs pos).bursts &&& ~~~burstBit id
      (pos, Function.update configs pos ⟨if bursts = 0 then 0 else (configs pos).id, bursts⟩)

def lookup (configs : Nat → Config) (evtId : Long) : Word :=
  let idx := position configs evtId nConfigs
  if idx = nConfigs then 0 else (configs idx).bursts

/-! ### Host commands -/

def cmdGetParam : Word := 0x22
def cmdGetCycle : Word := 0x23
def cmdLsBurst : Word := 0x24
def cmdMkBurst : Word := 0x25
def cmdRmBurst : Word := 0x26
def cmdDeBurst : Word := 0x27

/-- The commands without an effect on the global data: `CMD_SHOW_ALL`, those that read the
ECA settings, `CMD_LS_FW_ID` and the diagnostic ones. -/
def cmdsWithoutEffect : List Word := [0x21, 0x30, 0x31, 0x32, 0x33, 0x40, 0x41, 0x42, 0x43]

def Fw.updateTask (fw : Fw) (id : Nat) (f : Task → Task) : Fw :=
  { fw with tasks := Function.update fw.tasks id (f (fw.tasks id)) }

def Fw.updateTrig (fw : Fw) (eId : Long) (id : Nat) (set : Bool) : Fw :=
  if eId ≠ 0 then { fw with gTrigConfigs := (updateConfigs fw.gTrigConfigs eId id set).2 } else fw

def Fw.updateTogg (fw : Fw) (eId : Long) (id : Nat) (set : Bool) : Fw :=
  if eId ≠ 0 then { fw with gToggConfigs := (updateConfigs fw.gToggConfigs eId id set).2 } else fw

def getParam (args : Nat → Word) (t : Task) : Task :=
  { t with
    period :=
      if args 4 = 1 then t.period + (args 3).setWidth 64 else (args 3).setWidth 64
    setup := (args 1).setWidth 64 }

/-- The record of a new burst; the fields that are not set keep what they had. -/
def newBurst (args : Nat → Word) (t : Task) : Task :=
  { t with
    ioType := ((args 1) >>> 16).setWidth 8
    ioIndex := (args 1).setWidth 8
    trigger := toU64 (args 2) (args 3)
    toggle := toU64 (args 4) (args 5)
    period := 0, cycle := 0, deadline := 0, flag := ctlValid }

def Fw.mkBurst (fw : Fw) (id : Nat) (args : Nat → Word) : Fw :=
  let fw := fw.updateTask id (newBurst args)
  let fw := { fw with gBurstsCreated := fw.gBurstsCreated ||| burstBit id }
  let fw := fw.updateTrig (fw.tasks id).trigger id true
  fw.updateTogg (fw.tasks id).toggle id true

def clearedBurst (t : Task) : Task :=
  { t with
    ioType := 0, ioIndex := 0, trigger := 0, toggle := 0, period := 0, cycle := 0, setup := 0
    deadline := 0, lasttick := 0, action := 0, failed := 0 }

def Fw.rmBurst (fw : Fw) (id : Nat) : Fw :=
  let fw := fw.updateTask id fun t => { t with flag := ctlDis }
  let fw := { fw with gBurstsCreated := fw.gBurstsCreated &&& ~~~burstBit id }
  let fw := fw.updateTrig (fw.tasks id).trigger id false
  let fw := fw.updateTogg (fw.tasks id).toggle id false
  fw.updateTask id clearedBurst

def enableTask (disen : Word) (t : Task) : Task :=
  { t with flag := if disen ≠ 0 then t.flag ||| ctlEn else t.flag &&& ~~~ctlEn }

/-- The loop of `CMD_DE_BURST` from `first` to `last`. Each of its turns is for task `id`. -/
def Fw.enable (fw : Fw) (id first last : Nat) (disen : Word) : Fw :=
  (List.range' first (last + 1 - first)).foldl (fun fw _ => fw.updateTask id (enableTask disen)) fw

/-- `execHostCmd`; `args` is the shared input. The result is what the host is told. -/
def execHostCmd (fw : Fw) (cmd : Word) (args : Nat → Word) : Word × Fw :=
  let id := (args 0).toNat
  let valid := 0 < id ∧ id < nBursts
  if cmd = 0 then (statusOk, fw)
  else if cmd = cmdGetParam then
    if valid then
      (statusOk, if (fw.tasks id).flag &&& ctlValid ≠ 0 then fw.updateTask id (getParam args) else fw)
    else (statusErr, fw)
  else if cmd = cmdGetCycle then
    if valid then
      (statusOk,
        if (fw.tasks id).flag &&& ctlValid ≠ 0 then
          fw.updateTask id fun t => { t with cycle := toU64 (args 1) (args 2), deadline := 0 }
        else fw)
    else (statusErr, fw)
  else if cmd = cmdLsBurst then
    if id = 0 then (statusOk, { fw with gBurstsCycled := 0 })
    else if id < nBursts then (statusOk, fw)
    else (statusErr, fw)
  else if cmd = cmdMkBurst then
    if valid then (statusOk, fw.mkBurst id args) else (statusErr, fw)
  else if cmd = cmdRmBurst then
    if valid then (statusOk, fw.rmBurst id) else (statusErr, fw)
  else if cmd = cmdDeBurst then
    if nBursts ≤ id then (statusErr, fw)
    else if (fw.tasks id).flag &&& ctlValid = ctlDis then (statusErr, fw)
    else if id = 0 then (statusOk, fw.enable id 1 (nBursts - 1) (args 1))
    else (statusOk, fw.enable id id id (args 1))
  else if cmd ∈ cmdsWithoutEffect then (statusOk, fw)
  else (statusErr, fw)

end BurstGen
