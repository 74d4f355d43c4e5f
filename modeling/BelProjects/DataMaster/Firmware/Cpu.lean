import BelProjects.DataMaster.Layout

/-!
# The state a firmware function works on

A handler reads and writes memory, reads the clock and may send a timing message
to the priority queue.  `clk` lists the readings the clock will give, so that a
handler which reads the clock twice may see two different times.
-/

namespace DataMaster

/-- The eight words of a timing message, as written to the priority queue. -/
structure PqMsg where
  idHi : Word
  idLo : Word
  parHi : Word
  parLo : Word
  res : Word
  tef : Word
  tsHi : Word
  tsLo : Word
  deriving DecidableEq, Repr

structure Cpu where
  mem : Mem
  /-- Successive results of `getSysTime`. -/
  clk : Nat → Time
  /-- `PRIO_CNT_OUT_ALL_GET_0`, the message counter of the priority queue. -/
  pqCnt : Time
  /-- Messages sent to the priority queue, the last one first. -/
  pq : List PqMsg
  /-- Local variable of `main`. -/
  backlog : Word

def Cpu.getSysTime (s : Cpu) : Time × Cpu :=
  (s.clk 0, { s with clk := fun n => s.clk (n + 1) })

variable (P : Platform)

def Cpu.st (s : Cpu) (ptr v : Word) : Cpu := { s with mem := P.st s.mem ptr v }

def Cpu.st64 (s : Cpu) (ptr : Word) (v : Time) : Cpu := { s with mem := P.st64 s.mem ptr v }

@[simp] theorem Cpu.st_mem (s : Cpu) (ptr v : Word) :
    (s.st P ptr v).mem = P.st s.mem ptr v := rfl

@[simp] theorem Cpu.st64_mem (s : Cpu) (ptr : Word) (v : Time) :
    (s.st64 P ptr v).mem = P.st64 s.mem ptr v := rfl

@[simp] theorem Cpu.getSysTime_mem (s : Cpu) : s.getSysTime.2.mem = s.mem := rfl

/-! ### Pointers into the control area -/

def statusPtr : Word := shared shctlStatus
def countPtr : Word := shared (shctlDiag + tDiagMsgCnt)
def boottimePtr : Word := shared (shctlDiag + tDiagBootTs)
def diffsumPtr : Word := shared (shctlDiag + tDiagDifSum)
def diffmaxPtr : Word := shared (shctlDiag + tDiagDifMax)
def diffminPtr : Word := shared (shctlDiag + tDiagDifMin)
def diffwthPtr : Word := shared (shctlDiag + tDiagDifWth)
def diffwcntPtr : Word := shared (shctlDiag + tDiagWarCnt)
def diffwhashPtr : Word := shared (shctlDiag + tDiagWar1stHash)
def diffwtsPtr : Word := shared (shctlDiag + tDiagWar1stTs)
def bcklogmaxPtr : Word := shared (shctlDiag + tDiagBcklogStrk)
def badwaitcntPtr : Word := shared (shctlDiag + tDiagBadWaitCnt)
def startPtr : Word := shared (shctlThrCtl + tTcStart)
def runningPtr : Word := shared (shctlThrCtl + tTcRunning)
def abort1Ptr : Word := shared (shctlThrCtl + tTcAbort)

def thrPtr (i : Nat) : Word := shared (shctlThrDat + i * tTdSize)

def thrStaPtr (i : Nat) : Word := shared (shctlThrSta + i * tTsSize)

/-! ### Fields of nodes -/

/-- The byte for priority `prio` of an index word, `(uint8_t*)word + 3 - prio` on a
big-endian machine. -/
def idxByte (w : Word) (prio : Nat) : BitVec 8 := w.extractLsb' (8 * prio) 8

def setIdxByte (w : Word) (prio : Nat) (v : BitVec 8) : Word :=
  (w &&& ~~~(0xff#32 <<< (8 * prio))) ||| (v.setWidth 32 <<< (8 * prio))

/-- Offset of the pointer to the buffer that index `idx` selects in a buffer list. -/
def bufOffs (idx : BitVec 8) : Word :=
  BitVec.ofNat 32 ((idx &&& qIdxMaxMsk).toNat / (memBlockSize / tCmdSize) * 4)

/-- Offset of the element that index `idx` selects in its buffer. -/
def elOffs (idx : BitVec 8) : Word :=
  BitVec.ofNat 32 ((idx &&& qIdxMaxMsk).toNat % (memBlockSize / tCmdSize) * tCmdSize)

/-- Set the paint bit: the node was visited. -/
def Cpu.paint (s : Cpu) (node : Word) : Cpu :=
  s.st P (node + nodeFlags) (P.ld s.mem (node + nodeFlags) ||| nflgPaintLm32Smsk)

def Platform.defDest (m : Mem) (node : Word) : Word := P.ld m (node + nodeDefDestPtr)

/-- The block has a queue of priority `prio`. -/
def Platform.hasQueue (m : Mem) (node : Word) (prio : Nat) : Bool :=
  (P.ld m (node + nodeFlags) >>> nflgBlockQsPos) &&& (1#32 <<< prio) != 0

def getNodeType (m : Mem) (node : Word) : NodeType :=
  if node = lm32NullPtr then .null
  else NodeType.ofNum (P.ld m (node + nodeFlags) &&& nflgTypeMsk).toNat

def Cpu.setStatus (s : Cpu) (bits : Word) : Cpu :=
  s.st P statusPtr (P.ld s.mem statusPtr ||| bits)

/-! ### Concrete states -/

/-- A CPU with 64 KiB of RAM, used for concrete runs. -/
def samplePlatform : Platform := ⟨0x10000, 0x20000000, by decide⟩

/-- Zeroed memory and a clock that stands at `now`. -/
def sampleCpu (now : Time) : Cpu :=
  { mem := fun _ => 0, clk := fun _ => now, pqCnt := 0, pq := [], backlog := 0 }

def storeAll (m : Mem) (ws : List (Word × Word)) : Mem :=
  ws.foldl (fun m w => P.st m w.1 w.2) m

def Cpu.hostWrites (s : Cpu) (now : Time) (ws : List (Word × Word)) : Cpu :=
  { s with mem := storeAll P s.mem ws, clk := fun _ => now }

end DataMaster
