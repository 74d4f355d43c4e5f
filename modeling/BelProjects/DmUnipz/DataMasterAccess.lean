import BelProjects.DataMaster.Firmware.Cpu

/-!
# What the UNILAC gateway writes to the Data Master

The gateway keeps one record for a block and one for a thread of the Data Master.  It reads a
block over the network, looks for the next element of a queue and prepares the words of a
command and of the write indices; later it writes them.
-/

namespace DmUnipz

open DataMaster

abbrev Long := BitVec 64

/-! ### Statuses -/

def statusOk : Word := 0
def statusOutOfRange : Word := 3
def statusEbReadTimedOut : Word := 7
def statusDmQNotEmpty : Word := 28
def statusInvalidBlkAddr : Word := 36
def statusInvalidThrAddr : Word := 38

structure Failure where
  status : Word
  bad : status ≠ statusOk

/-! ### Addresses -/

/-- `RAM_SIZE` of the gateway's own build. -/
structure Build where
  ramSize : Word
  ramHolds : sharedOffs + shctlEnd ≤ ramSize.toNat

variable (B : Build)

def roundUp (r : Word) : Word :=
  let r := r - 1
  let r := r ||| r >>> 1
  let r := r ||| r >>> 2
  let r := r ||| r >>> 4
  let r := r ||| r >>> 8
  let r := r ||| r >>> 16
  r + 1

def dmExt2BaseAddr (extAddr : Word) : Word := extAddr &&& ~~~(roundUp B.ramSize - 1)

def dmInt2ExtAddr (intAddr extBaseAddr : Word) : Word := intAddr - intBaseAdr + extBaseAddr

/-! ### The records -/

scoped instance neZero_records : NeZero 20 := ⟨by decide⟩

/-- `dmComm`. Only the first five words of the command are ever written to the Data Master. -/
structure DmComm where
  dynpar : Word
  cmdAddr : Word
  cmdData : Fin 20 → Word
  blockWrIdxsAddr : Word
  blockWrIdxs : Word

structure DmThrd where
  dynpar : Word
  cpuIdx : Word
  thrIdx : Word
  tsAddr : Word
  tsDataHi : Word
  tsDataLo : Word
  startAddr : Word
  startData : Word

/-- A write of words to an external address, `fwlib_ebmWriteN`. -/
structure EbmWrite where
  addr : Word
  data : List Word
  deriving DecidableEq

/-- The answers of the Data Master to reads of a block, word by word, and of one word. -/
structure EbmReads where
  block : Word → Except Failure (Nat → Word)
  word : Word → Except Failure Word

/-! ### Threads -/

def dmCheckThr (t : DmThrd) : Word :=
  if t.dynpar = 0 then statusInvalidThrAddr
  else if t.tsAddr = 0 then statusInvalidThrAddr
  else if t.startAddr = 0 then statusInvalidThrAddr
  else statusOk

def dmClearThr (t : DmThrd) : DmThrd := { t with dynpar := 0, tsAddr := 0, startAddr := 0 }

def dmPrepThrStart (t : DmThrd) (startTs : Long) : DmThrd :=
  let extBaseAddr := dmExt2BaseAddr B t.dynpar
  { t with
    tsAddr := extBaseAddr + BitVec.ofNat 32 sharedOffs +
      (BitVec.ofNat 32 shctlThrSta + t.thrIdx * BitVec.ofNat 32 tTsSize + tTsStarttime)
    tsDataHi := (startTs >>> 32).setWidth 32
    tsDataLo := (startTs &&& 0xffffffff).setWidth 32
    startAddr := extBaseAddr + BitVec.ofNat 32 sharedOffs +
      (BitVec.ofNat 32 shctlThrCtl + BitVec.ofNat 32 tTcStart)
    startData := 1#32 <<< t.thrIdx }

/-- `dmStartThread` without the messages for debugging. -/
def dmStartThread (t : DmThrd) : List EbmWrite :=
  [⟨t.tsAddr, [t.tsDataHi, t.tsDataLo]⟩, ⟨t.startAddr, [t.startData]⟩]

/-! ### Commands -/

def dmCheckCmd (c : DmComm) : Word :=
  if c.dynpar = 0 then statusInvalidBlkAddr
  else if c.cmdAddr = 0 then statusInvalidBlkAddr
  else statusOk

def dmClearCmd (c : DmComm) : DmComm := { c with dynpar := 0, cmdAddr := 0 }

def DmComm.setTime (c : DmComm) (cmdValidTime : Long) : DmComm :=
  { c with
    cmdData := Function.update (Function.update c.cmdData 0 ((cmdValidTime >>> 32).setWidth 32)) 1
      ((cmdValidTime &&& 0xffffffff).setWidth 32) }

def dmSetTValidCmdCommon (c : DmComm) (cmdValidTime : Long) : DmComm := c.setTime cmdValidTime

/-- `dmPrepCmdCommon`: the status, and the record, which stays as it is in case of an error. -/
def dmPrepCmdCommon (x : EbmReads) (c : DmComm) (prio : Nat) (checkEmptyQ : Bool)
    (cmdValidTime : Long) : Word × DmComm :=
  if 2 < prio then (statusOutOfRange, c)
  else
    let blockAddr := c.dynpar
    let extBaseAddr := dmExt2BaseAddr B blockAddr
    match x.block blockAddr with
    | .error e => (e.status, c)
    | .ok blockData =>
        let wrIdxs := blockData (blockCmdqWrIdxs >>> 2).toNat
        let rdIdxs := blockData (blockCmdqRdIdxs >>> 2).toNat
        let wrIdx := idxByte wrIdxs prio
        let rdIdx := idxByte rdIdxs prio
        if checkEmptyQ ∧ wrIdx ≠ rdIdx then (statusDmQNotEmpty, c)
        else if wrIdx &&& qIdxMaxOvfMsk ≠ rdIdx &&& qIdxMaxOvfMsk ∧
            wrIdx &&& qIdxMaxMsk = rdIdx &&& qIdxMaxMsk then (statusOutOfRange, c)
        else
          let buffListAddr := dmInt2ExtAddr (blockData ((blockCmdqPtrs >>> 2).toNat + prio)) extBaseAddr
          match x.word (buffListAddr + bufOffs wrIdx) with
          | .error e => (e.status, c)
          | .ok cmdListAddr =>
              let c :=
                { c with
                  cmdAddr := dmInt2ExtAddr cmdListAddr extBaseAddr + elOffs wrIdx
                  cmdData := fun _ => 0
                  blockWrIdxs := setIdxByte wrIdxs prio ((wrIdx + 1) &&& qIdxMaxOvfMsk)
                  blockWrIdxsAddr := blockAddr + blockCmdqWrIdxs }
              (statusOk, c.setTime cmdValidTime)

def flushAction : Word :=
  (3 &&& actTypeMsk) <<< actTypePos ||| (1 &&& actQtyMsk) |||
    (BitVec.ofNat 32 prioHi &&& actPrioMsk) <<< actPrioPos |||
    (1#32 <<< prioLo &&& actFlushPrioMsk) <<< actFlushPrioPos

def dmPrepCmdFlush (c : DmComm) : DmComm :=
  { c with
    cmdData := Function.update (Function.update c.cmdData 2 flushAction) 3 0 }

/-- `dmChangeBlock` without the messages for debugging. -/
def dmChangeBlock (c : DmComm) : List EbmWrite :=
  [⟨c.cmdAddr, [c.cmdData 0, c.cmdData 1, c.cmdData 2, c.cmdData 3, c.cmdData 4]⟩,
    ⟨c.blockWrIdxsAddr, [c.blockWrIdxs]⟩]

end DmUnipz
