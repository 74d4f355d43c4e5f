import BelProjects.DataMaster.Memory

/-!
# Layout of the control area and of nodes

Byte offsets, bit positions and enumerations of `ftm_common.h`, as far as the
firmware's scheduler and node handlers use them.  Offsets into the control area
are counted from its start; offsets into nodes, queue elements and thread records
are pointer differences.
-/

namespace DataMaster

/-! ### Control area -/

/-- `_THR_QTY_` and `_HEAP_SIZE_`. -/
def thrQty : Nat := 8

def preptimeDefault : Time := 1000000

def shctlHeap : Nat := 0
def shctlStatus : Nat := 32
def shctlDiag : Nat := 56
def shctlThrCtl : Nat := 324
def shctlThrSta : Nat := 340
def shctlThrDat : Nat := 532

def tTcStart : Nat := 0
def tTcAbort : Nat := 8
def tTcRunning : Nat := 12

def tDiagMsgCnt : Nat := 0
def tDiagBootTs : Nat := 8
def tDiagDifMin : Nat := 80
def tDiagDifMax : Nat := 88
def tDiagDifSum : Nat := 96
def tDiagDifWth : Nat := 104
def tDiagWarCnt : Nat := 112
def tDiagWar1stHash : Nat := 116
def tDiagWar1stTs : Nat := 120
def tDiagBcklogStrk : Nat := 128
def tDiagBadWaitCnt : Nat := 132

/-- `_T_TD_SIZE_`: size of a thread record. -/
def tTdSize : Nat := 32
def tTdFlags : Word := 0
def tTdMsgCnt : Word := 4
def tTdNodePtr : Word := 12
def tTdDeadline : Word := 16
def tTdDeadlineLo : Word := 20
def tTdCurrtime : Word := 24

/-- `_T_TS_SIZE_`: size of a thread staging area. -/
def tTsSize : Nat := 24
def tTsNodePtr : Word := 4
def tTsStarttime : Word := 8
def tTsPreptime : Word := 16

def shctlStatusUartInitSmsk : Word := 0x1
def shctlStatusEbmInitSmsk : Word := 0x2
def shctlStatusPqInitSmsk : Word := 0x4
def shctlStatusDmInitSmsk : Word := 0x8
def shctlStatusBadActTypeSmsk : Word := 1#32 <<< 13

/-- Defined in the header through the action type's mask and position, so the two
error bits are the same bit. -/
def shctlStatusBadNodeTypeSmsk : Word := shctlStatusBadActTypeSmsk

/-! ### Nodes -/

def lm32NullPtr : Word := 0

def nodeHash : Word := 0x28
def nodeFlags : Word := 0x2C
def nodeDefDestPtr : Word := 0x30

def nflgTypeMsk : Word := 0xff
def nflgPaintLm32Smsk : Word := 1#32 <<< 8
def nflgBlockQsPos : Nat := 20

def blockPeriod : Word := 0
def blockCmdqPtrs : Word := 12
def blockCmdqWrIdxs : Word := 24
def blockCmdqRdIdxs : Word := 28
def blockCmdqFlags : Word := 32
def blockCmdqDnwSmsk : Word := 0x1
def blockCmdqDnrSmsk : Word := 0x2
/-- Mask of the three index bytes in use, for write and for read indices. -/
def blockCmdqIdxsSmsk : Word := 0x00ffffff
def qIdxMaxOvfMsk : BitVec 8 := 7
def qIdxMaxMsk : BitVec 8 := 3

def prioLo : Nat := 0
def prioHi : Nat := 1
def prioIl : Nat := 2

def evtOffsTime : Word := 0

def tmsgIdHi : Word := 8
def tmsgIdLo : Word := 12
def tmsgPar : Word := 16
def tmsgRes : Word := 24
def tmsgTef : Word := 28

def switchTarget : Word := 8
def switchDest : Word := 24

def originDest : Word := 8
def originThr : Word := 20

def startthreadStartoffs : Word := 8
def startthreadThr : Word := 20

def cmdTarget : Word := 8
def cmdValidTime : Word := 12
def cmdAct : Word := 20

/-! ### Queue elements and actions -/

/-- `_MEM_BLOCK_SIZE`: size of a node in bytes. -/
def memBlockSize : Nat := 52

/-- `_T_CMD_SIZE_`: size of a queue element in bytes. -/
def tCmdSize : Nat := 20

def tCmdTime : Word := 0
def tCmdAct : Word := 8
def tCmdFlowDest : Word := 12
def tCmdFlushOvr : Word := 12
def tCmdWaitTime : Word := 12

def actQtyMsk : Word := 0xfffff
def actTypePos : Nat := 20
def actTypeMsk : Word := 0xf
def actPrioPos : Nat := 24
def actPrioMsk : Word := 0x3
def actVabsPos : Nat := 26
def actChpSmsk : Word := 1#32 <<< 27
def actFlushPrioPos : Nat := 28
def actFlushPrioMsk : Word := 0x7
def actWaitAbsSmsk : Word := 1#32 <<< 28

/-- `_T_GRID_OFFS_` and `_T_GRID_SIZE_`: time grid of aligned blocks. -/
def tGridOffs : Time := 0
def tGridSize : Time := 10000

/-- The node types of `ftm_common.h`, in the order of their enumeration. -/
inductive NodeType where
  | unknown | raw | tmsg | cnoop | cflow | cflush | cwait | blockFixed | blockAlign
  | queue | qbuf | share | altdst | origin | startthread | mgmt | covenant | null | cswitch
  deriving DecidableEq, Repr

/-- Node types by number; numbers from `_NODE_TYPE_END_` on mean `unknown`. -/
def NodeType.ofNum : Nat → NodeType
  | 1 => .raw | 2 => .tmsg | 3 => .cnoop | 4 => .cflow | 5 => .cflush | 6 => .cwait
  | 7 => .blockFixed | 8 => .blockAlign | 9 => .queue | 10 => .qbuf | 11 => .share
  | 12 => .altdst | 13 => .origin | 14 => .startthread | 15 => .mgmt | 16 => .covenant
  | 17 => .null | 18 => .cswitch
  | _ => .unknown

/-- The action types of `ftm_common.h`, in the order of their enumeration. -/
inductive ActType where
  | unknown | noop | flow | flush | wait
  deriving DecidableEq, Repr

/-- Action types by number. The table of action handlers ends at
`_ACT_TYPE_END_`; its users do not check that. -/
def ActType.ofNum? : Nat → Option ActType
  | 0 => some .unknown | 1 => some .noop | 2 => some .flow | 3 => some .flush | 4 => some .wait
  | _ => none

end DataMaster
