import BelProjects.DataMaster.Scheduler.Effects
import Mathlib.Logic.Relation

/-!
# The main loop, access by access

The host writes whole words into the start and the abort register at any time, and the
firmware reads both registers several times in an iteration.  Here an iteration is cut
at these accesses: a step of the machine contains at most one read or one write of a
request register.  Without the host, the steps make up the iteration of `main`.
-/

namespace DataMaster

variable (P : Platform)

/-- Where the firmware is in its loop. The registers hold what it has read before. -/
inductive Pc where
  /-- `if (*abort1)`. -/
  | head
  /-- `*running &= ~(*abort1)`. -/
  | abortRunning
  /-- The deadline of thread `i`. -/
  | abortLoop (i : Nat)
  /-- `heapify(); *abort1 = 0`. -/
  | abortClear
  | dueCheck
  /-- The store of `*start |= (1 << thr)` in `startThread`, with the value read for it. `i` and
  `next` are the number of the executing thread and its next node. -/
  | nodeStart (i : Nat) (next : Word) (start bit : Word)
  /-- `if(*start)`. -/
  | startTest
  /-- `if (*start & (1<<i))`. -/
  | startLoop (i : Nat)
  /-- The preparation of thread `i`, up to `*running |= *start & (1<<i)`. -/
  | startBody (i : Nat)
  /-- The load of `*start &= ~(1 << i)`. -/
  | startLoad (i : Nat)
  /-- Its store. -/
  | startStore (i : Nat) (start : Word)
  | startSort
  deriving DecidableEq, Repr

/-- The rest of an iteration after the handler has returned `next`. -/
def afterNode (s : Cpu) (i : Nat) (next : Word) : Option Cpu :=
  match callDeadline P (nextStored P s next) with
  | none => none
  | some (d, s) => some (finishTop P s i d)

theorem runTop_afterNode {s s₁ : Cpu} {next : Word} (hnode : callNode P s = some (next, s₁)) :
    runTop P s = afterNode P s₁ (thrIdx P s.mem (hp P s.mem 0)) next := by
  rw [runTop_eq, hnode]
  rfl

/-- `startThread` up to the load of the start register. -/
def startThreadLoad (s : Cpu) (node thrData : Word) : Cpu :=
  let offset := P.ld64 s.mem (node + startthreadStartoffs)
  let thr := P.ld s.mem (node + startthreadThr)
  s.st64 P (thrStaOf thr + tTsStarttime) (P.ld64 s.mem (thrData + tTdCurrtime) + offset)

def startThreadBit (m : Mem) (node : Word) : Word :=
  1#32 <<< (P.ld m (node + startthreadThr) % 32).toNat

/-- The start of thread `i` up to the running bits. -/
def startBody (s : Cpu) (i : Nat) : Option Cpu :=
  let s := prepareThr P s i
  let thrData := thrPtr i
  let cursor := P.ld s.mem (thrData + tTdNodePtr)
  match deadlineFuncs P s cursor thrData (getNodeType P s.mem cursor) with
  | none => none
  | some (deadline, s) =>
      let s := s.st64 P (thrData + tTdDeadline) deadline
      some (s.st P runningPtr (P.ld s.mem runningPtr ||| (P.ld s.mem startPtr &&& (1#32 <<< i))))

/-- The loop over the threads goes on after thread `i`. -/
def startNext (i : Nat) : Pc := if i + 1 < thrQty then .startLoop (i + 1) else .startSort

def microStep : Pc × Cpu → Option (Pc × Cpu)
  | (.head, s) => some (if P.ld s.mem abort1Ptr ≠ 0 then .abortRunning else .dueCheck, s)
  | (.abortRunning, s) =>
      some (.abortLoop 0, s.st P runningPtr (P.ld s.mem runningPtr &&& ~~~(P.ld s.mem abort1Ptr)))
  | (.abortLoop i, s) =>
      some (if i + 1 < thrQty then .abortLoop (i + 1) else .abortClear,
        { s with mem := abortDeadline P s.mem i })
  | (.abortClear, s) => some (.dueCheck, { s with mem := P.st (heapify P s.mem) abort1Ptr 0 })
  | (.dueCheck, s) =>
      let (due, s) := topDue P s
      if due then
        if getNodeType P s.mem (topNode P s.mem) = .startthread then
          let node := topNode P s.mem
          let s' := startThreadLoad P { s with backlog := s.backlog + 1 } node (hp P s.mem 0)
          some (.nodeStart (thrIdx P s.mem (hp P s.mem 0)) (P.defDest s.mem node)
            (P.ld s'.mem startPtr) (startThreadBit P s.mem node), s')
        else (runTop P s).map fun s => (.head, s)
      else some (.startTest, recordBacklog P s)
  | (.nodeStart i next start bit, s) =>
      (afterNode P (s.st P startPtr (start ||| bit)) i next).map fun s => (.head, s)
  | (.startTest, s) => some (if P.ld s.mem startPtr ≠ 0 then .startLoop 0 else .head, s)
  | (.startLoop i, s) =>
      some (if P.ld s.mem startPtr &&& (1#32 <<< i) ≠ 0 then .startBody i else startNext i, s)
  | (.startBody i, s) => (startBody P s i).map fun s => (.startLoad i, s)
  | (.startLoad i, s) => some (.startStore i (P.ld s.mem startPtr), s)
  | (.startStore i start, s) =>
      some (startNext i, (s.st P startPtr (start &&& ~~~(1#32 <<< i))).st P (thrPtr i + tTdMsgCnt) 0)
  | (.startSort, s) => some (.head, { s with mem := heapify P s.mem })

/-! ### The steps make up an iteration -/

/-- The firmware gets from one state to another without the host. -/
def MicroRun : Pc × Cpu → Pc × Cpu → Prop :=
  Relation.ReflTransGen fun c c' => microStep P c = some c'

theorem MicroRun.single {c c' : Pc × Cpu} (h : microStep P c = some c') : MicroRun P c c' :=
  Relation.ReflTransGen.single h

theorem startThr_eq (s : Cpu) (i : Nat) : startThr P s i =
    (startBody P s i).map fun s =>
      (s.st P startPtr (P.ld s.mem startPtr &&& ~~~(1#32 <<< i))).st P (thrPtr i + tTdMsgCnt) 0 := by
  simp only [startThr, startBody]
  generalize deadlineFuncs P _ _ _ _ = called
  rcases called with - | ⟨d, s₂⟩ <;> rfl

end DataMaster
