import BelProjects.DataMaster.Blocks.Enqueue

/-!
# How the host sends commands

The host computes the address of a queue element and the whole new word of write
indices from a copy of the block that it downloaded before.  Then it locks the block's
queues against writing, waits until the lock is effective, writes elements and index
words one after the other and restores the lock bits.
-/

namespace DataMaster

variable (P : Platform)

/-! ### Lock bits -/

/-- What the lock manager wants of a lock bit, and the bit's state before. -/
structure LockFlags where
  set : Bool
  clr : Bool
  stat : Bool
  deriving DecidableEq, Repr

/-- `readInStat`; the flags are shifted, but not masked. -/
def LockFlags.readIn (l : LockFlags) (pos : Nat) (flags : Word) : LockFlags :=
  { l with stat := flags >>> pos != 0 }

/-- `BlockLock::lock`. -/
def lockWord (wr rd : LockFlags) : Word :=
  (if wr.set || wr.stat then 1 else 0) ||| (if rd.set || rd.stat then 2 else 0)

/-- The lock bit that `BlockLock::unlock` leaves behind. -/
def LockFlags.restored (l : LockFlags) : Bool :=
  (l.stat && l.set == l.clr) || (l.set && !l.clr)

/-- `BlockLock::unlock`. -/
def unlockWord (wr rd : LockFlags) : Word :=
  (if wr.restored then 1 else 0) ||| (if rd.restored then 2 else 0)

def wrRequest : LockFlags := { set := true, clr := true, stat := false }

def rdRequest : LockFlags := { set := false, clr := false, stat := false }

/-- `isReady` for one block, from the flags and two readings of the index words. -/
def isReady (wr rd : LockFlags) (flags wrIdx0 rdIdx0 wrIdx1 rdIdx1 : Word) : Bool :=
  let newWrStat := flags >>> 0 != 0
  let newRdStat := flags >>> 1 != 0
  let allNewSet := ((wr.set && newWrStat) || !wr.set) && ((rd.set && newRdStat) || !rd.set)
  let isAct := ((wr.set && wrIdx0 == wrIdx1) || !wr.set) && ((rd.set && rdIdx0 == rdIdx1) || !rd.set)
  allNewSet && isAct

/-! ### Elements and indices -/

/-- Index of queue `prio` in an index word. -/
def eIdx (idxs : Word) (prio : Nat) : BitVec 8 := idxByte idxs prio &&& qIdxMaxOvfMsk

/-- `getCmdWrAdrs`, first word of the element: none if the queue does not exist or is
full, as the copy `m` of the block sees it. -/
def getCmdWrAdrs (m : Mem) (node : Word) (prio : Nat) : Option Nat :=
  let eWrIdx := eIdx (P.ld m (node + blockCmdqWrIdxs)) prio
  let eRdIdx := eIdx (P.ld m (node + blockCmdqRdIdxs)) prio
  if queueList P m node prio = lm32NullPtr then none
  else if eWrIdx &&& qIdxMaxMsk = eRdIdx &&& qIdxMaxMsk ∧ eWrIdx ≠ eRdIdx then none
  else some (P.adr (slotElem P m node prio (eWrIdx &&& qIdxMaxMsk).toNat))

/-- `getCmdInc`: the new word of write indices. -/
def getCmdInc (m : Mem) (node : Word) (prio : Nat) : Word :=
  let wrIdxs := P.ld m (node + blockCmdqWrIdxs)
  setIdxByte wrIdxs prio ((eIdx wrIdxs prio + 1) &&& qIdxMaxOvfMsk)

/-- A command on its way: element address, contents and the index word to follow. -/
structure HostCmd where
  prio : Nat
  cmd : QueuedCmd
  elemAdr : Nat
  newIdxs : Word

def storeCmd (m : Mem) (a : Nat) (x : QueuedCmd) : Mem :=
  Function.update (Function.update (Function.update (Function.update (Function.update m
    a (hiW x.validTime)) (a + 1) (loW x.validTime)) (a + 2) x.act) (a + 3) x.arg1) (a + 4) x.arg2

/-- Where the host is with its commands for a block. `mirror` is its copy of the
block, `stat` the lock flags it found, `plan` what is still to be written. -/
inductive HostPhase where
  | idle
  | creating (mirror : Mem) (plan : List HostCmd)
  | statRead (stat : Word) (plan : List HostCmd)
  | locked (stat : Word) (plan : List HostCmd)
  | polled (stat : Word) (plan : List HostCmd) (flags wrIdxs rdIdxs : Word)
  | ready (stat : Word) (plan : List HostCmd)
  | elemWritten (stat : Word) (c : HostCmd) (plan : List HostCmd)

/-- The host works from a copy of the block and has not locked it yet. -/
def HostPhase.unlockedMirror : HostPhase → Bool
  | .creating _ _ => true
  | .statRead _ _ => true
  | _ => false

/-- One step of the host: its phase and the memory before and after, and the commands
that become visible to the block. -/
inductive SendStep (node : Word) : HostPhase → Mem → HostPhase → Mem → List QueuedCmd → Prop
  | download (m : Mem) : SendStep node .idle m (.creating m []) m []
  | create {mirror m : Mem} {plan : List HostCmd} {prio a : Nat} {x : QueuedCmd} :
      prio < 3 → P.hasQueue mirror node prio = true → x.prio = prio →
      getCmdWrAdrs P mirror node prio = some a →
      SendStep node (.creating mirror plan) m
        (.creating (P.st mirror (node + blockCmdqWrIdxs) (getCmdInc P mirror node prio))
          (plan ++ [⟨prio, x, a, getCmdInc P mirror node prio⟩])) m []
  | readStat {mirror m : Mem} {plan : List HostCmd} :
      SendStep node (.creating mirror plan) m (.statRead (P.ld m (node + blockCmdqFlags)) plan) m []
  | lock {m : Mem} {stat : Word} {plan : List HostCmd} :
      SendStep node (.statRead stat plan) m (.locked stat plan)
        (P.st m (node + blockCmdqFlags) (lockWord (wrRequest.readIn 0 stat) (rdRequest.readIn 1 stat)))
        []
  | poll {m : Mem} {stat : Word} {plan : List HostCmd} :
      SendStep node (.locked stat plan) m
        (.polled stat plan (P.ld m (node + blockCmdqFlags)) (P.ld m (node + blockCmdqWrIdxs))
          (P.ld m (node + blockCmdqRdIdxs))) m []
  | notReady {m : Mem} {stat flags wrIdxs rdIdxs : Word} {plan : List HostCmd} :
      isReady wrRequest rdRequest flags wrIdxs rdIdxs (P.ld m (node + blockCmdqWrIdxs))
        (P.ld m (node + blockCmdqRdIdxs)) = false →
      SendStep node (.polled stat plan flags wrIdxs rdIdxs) m (.locked stat plan) m []
  | ready {m : Mem} {stat flags wrIdxs rdIdxs : Word} {plan : List HostCmd} :
      isReady wrRequest rdRequest flags wrIdxs rdIdxs (P.ld m (node + blockCmdqWrIdxs))
        (P.ld m (node + blockCmdqRdIdxs)) = true →
      SendStep node (.polled stat plan flags wrIdxs rdIdxs) m (.ready stat plan) m []
  | writeElem {m : Mem} {stat : Word} {c : HostCmd} {plan : List HostCmd} :
      SendStep node (.ready stat (c :: plan)) m (.elemWritten stat c plan)
        (storeCmd m c.elemAdr c.cmd) []
  | writeIdxs {m : Mem} {stat : Word} {c : HostCmd} {plan : List HostCmd} :
      SendStep node (.elemWritten stat c plan) m (.ready stat plan)
        (P.st m (node + blockCmdqWrIdxs) c.newIdxs) [c.cmd]
  | unlock {m : Mem} {stat : Word} :
      SendStep node (.ready stat []) m .idle
        (P.st m (node + blockCmdqFlags) (unlockWord (wrRequest.readIn 0 stat) (rdRequest.readIn 1 stat)))
        []
  /-- After three polls in vain the lock bits are restored and nothing is written. -/
  | giveUp {m : Mem} {stat : Word} {plan : List HostCmd} :
      SendStep node (.locked stat plan) m .idle
        (P.st m (node + blockCmdqFlags) (unlockWord (wrRequest.readIn 0 stat) (rdRequest.readIn 1 stat)))
        []

end DataMaster
