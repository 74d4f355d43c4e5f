import BelProjects.DataMaster.Firmware.Handlers

/-!
# The scheduler

The scheduler heap `hp` holds pointers to the eight thread records, ordered by their
deadlines.  `pass` is one iteration of the endless loop of `main`: the abort phase,
then either the execution of the most urgent node or, when nothing is due, the start
of requested threads.
-/

namespace DataMaster

variable (P : Platform)

/-! ### The heap in memory -/

/-- Pointer to heap entry `i`. -/
def hpPtr (i : Nat) : Word := shared (shctlHeap + i * 4)

def hp (m : Mem) (i : Nat) : Word := P.ld m (hpPtr i)

/-- `DL(x)`: deadline of the thread record at `x`. -/
def dl (m : Mem) (x : Word) : Time := P.ld64 m (x + tTdDeadline)

/-- Child that is copied over the hole at `parent`, or `parent` itself when the
moving entry belongs there and sorting ends. -/
def heapChoice (m : Mem) (moving : Word) (parent : Nat) : Nat :=
  let left := 2 * parent + 1
  let right := left + 1
  let choice := if left < thrQty ∧ dl P m (hp P m left) < dl P m moving then left else parent
  if right < thrQty ∧ dl P m (hp P m right) < dl P m moving ∧
      dl P m (hp P m right) < dl P m (hp P m left) then right
  else choice

/-- The sorting loop of `heapReplace`. A heap of eight entries ends it before the
rounds run out. -/
def heapReplaceLoop (moving : Word) : Nat → Mem → Nat → Mem
  | 0, m, parent => P.st m (hpPtr parent) moving
  | rounds + 1, m, parent =>
      let choice := heapChoice P m moving parent
      let m := P.st m (hpPtr parent) (hp P m choice)
      if choice = parent then P.st m (hpPtr choice) moving
      else heapReplaceLoop moving rounds m choice

def heapReplace (m : Mem) (src : Nat) : Mem := heapReplaceLoop P (hp P m src) thrQty m src

/-- `heapReplace` for every position below `k`, the last one first. -/
def heapifyBelow (m : Mem) : Nat → Mem
  | 0 => m
  | k + 1 => heapifyBelow (heapReplace P m k) k

def heapify (m : Mem) : Mem := heapifyBelow P m (thrQty / 2)

/-! ### Initialisation -/

/-- Loop body of `dmInit`: thread `i` is idle, and its record becomes heap entry `i`. -/
def initThread (m : Mem) (i : Nat) : Mem :=
  let tp := thrPtr i
  let m := P.st64 m (tp + tTdCurrtime) (-1)
  let m := P.st64 m (tp + tTdDeadline) (-1)
  let m := P.st m (tp + tTdFlags) (BitVec.ofNat 32 i)
  let m := P.st64 m (thrStaPtr i + tTsPreptime) preptimeDefault
  let m := P.st64 m (thrStaPtr i + tTsStarttime) 0
  P.st m (hpPtr i) tp

def initThreads (m : Mem) : List Nat → Mem
  | [] => m
  | i :: is => initThreads (initThread P m i) is

def dmInit (s : Cpu) : Cpu :=
  let s := { s with mem := initThreads P s.mem (List.range thrQty) }
  let s := s.st64 P diffsumPtr 0
  let s := s.st64 P diffmaxPtr 0xffffffffffffffff
  let s := s.st64 P diffminPtr 0x7fffffffffffffff
  let s := s.st64 P diffwthPtr 50000
  let s := s.st P diffwcntPtr 0
  let s := s.st P diffwhashPtr 0
  let s := s.st64 P diffwtsPtr 0
  let s := s.st P bcklogmaxPtr 0
  let s := s.st P badwaitcntPtr 0
  let (now, s) := s.getSysTime
  s.st64 P boottimePtr now

/-- `init`, without the set-up of peripherals and the wait for a valid WR time. The
running, start and abort bits keep the values they have. -/
def init (s : Cpu) : Cpu :=
  let s := s.st P statusPtr 0
  let s := s.st64 P countPtr 0
  let s := s.setStatus P shctlStatusUartInitSmsk
  let s := s.setStatus P shctlStatusEbmInitSmsk
  let s := s.setStatus P shctlStatusPqInitSmsk
  let s := dmInit P s
  let s := s.setStatus P shctlStatusDmInitSmsk
  let (now, s) := s.getSysTime
  { s.st64 P boottimePtr now with backlog := 0 }

/-! ### The loop -/

/-- Moves the deadline of thread `i` to infinity if its abort bit is set. -/
def abortDeadline (m : Mem) (i : Nat) : Mem :=
  let deadline := thrPtr i + tTdDeadline
  let bit := ~~~((P.ld m abort1Ptr).setWidth 64 >>> i) &&& 1
  P.st64 m deadline (P.ld64 m deadline ||| (bit - 1))

def abortDeadlines (m : Mem) : List Nat → Mem
  | [] => m
  | i :: is => abortDeadlines (abortDeadline P m i) is

def abortThreads (m : Mem) : Mem :=
  if P.ld m abort1Ptr ≠ 0 then
    let m := P.st m runningPtr (P.ld m runningPtr &&& ~~~(P.ld m abort1Ptr))
    let m := abortDeadlines P m (List.range thrQty)
    let m := heapify P m
    P.st m abort1Ptr 0
  else m

/-- Number of the thread whose record is at `x`. -/
def thrIdx (m : Mem) (x : Word) : Nat := (P.ld m (x + tTdFlags) &&& 7).toNat

def prepTime (m : Mem) (i : Nat) : Time :=
  P.ld64 m (thrStaPtr i + tTsPreptime)

def topDue (s : Cpu) : Bool × Cpu :=
  let (now, s) := s.getSysTime
  let top := hp P s.mem 0
  (decide (dl P s.mem top ≤ now + prepTime P s.mem (thrIdx P s.mem top)), s)

/-- Store the next deadline of the top thread, number `i`, clear its running bit if the
deadline is infinite, and sort it down. -/
def finishTop (s : Cpu) (i : Nat) (deadline : Time) : Cpu :=
  let s := s.st64 P (hp P s.mem 0 + tTdDeadline) deadline
  let stop : Word := if dl P s.mem (hp P s.mem 0) = -1 then 1 else 0
  let s := s.st P runningPtr (P.ld s.mem runningPtr &&& ~~~(stop <<< i))
  { s with mem := heapReplace P s.mem 0 }

/-- Execute the node of the top thread, find its next deadline and sort the heap. -/
def runTop (s : Cpu) : Option Cpu :=
  let i := thrIdx P s.mem (hp P s.mem 0)
  let s := { s with backlog := s.backlog + 1 }
  let top := hp P s.mem 0
  let node := P.ld s.mem (top + tTdNodePtr)
  match nodeFuncs P s node top (getNodeType P s.mem node) with
  | none => none
  | some (next, s) =>
      let s := s.st P (hp P s.mem 0 + tTdNodePtr) next
      let top := hp P s.mem 0
      let node := P.ld s.mem (top + tTdNodePtr)
      match deadlineFuncs P s node top (getNodeType P s.mem node) with
      | none => none
      | some (deadline, s) => some (finishTop P s i deadline)

/-- Set the time sum, the cursor and a first deadline of thread `i` from its staging
area. A start time of 0 means now plus twice the preparation time. -/
def prepareThr (s : Cpu) (i : Nat) : Cpu :=
  let thrData := thrPtr i
  let startTime := P.ld64 s.mem (thrStaPtr i + tTsStarttime)
  let s :=
    if startTime = 0 then
      s.getSysTime.2.st64 P (thrData + tTdCurrtime)
        (s.getSysTime.1 + (prepTime P s.mem i <<< 1))
    else s.st64 P (thrData + tTdCurrtime) startTime
  let s := s.st P (thrData + tTdNodePtr) (P.ld s.mem (thrStaPtr i + tTsNodePtr))
  s.st64 P (thrData + tTdDeadline) (P.ld64 s.mem (thrData + tTdCurrtime))

/-- Start thread `i`; the deadline function of its origin node decides about its first
deadline. -/
def startThr (s : Cpu) (i : Nat) : Option Cpu :=
  let s := prepareThr P s i
  let thrData := thrPtr i
  let cursor := P.ld s.mem (thrData + tTdNodePtr)
  match deadlineFuncs P s cursor thrData (getNodeType P s.mem cursor) with
  | none => none
  | some (deadline, s) =>
      let s := s.st64 P (thrData + tTdDeadline) deadline
      let bit : Word := 1#32 <<< i
      let s := s.st P runningPtr (P.ld s.mem runningPtr ||| (P.ld s.mem startPtr &&& bit))
      let s := s.st P startPtr (P.ld s.mem startPtr &&& ~~~bit)
      -- only the high word of the message counter is cleared
      some (s.st P (thrData + tTdMsgCnt) 0)

def startThreads (s : Cpu) : List Nat → Option Cpu
  | [] => some s
  | i :: is =>
      if P.ld s.mem startPtr &&& (1#32 <<< i) ≠ 0 then
        match startThr P s i with
        | none => none
        | some s => startThreads s is
      else startThreads s is

/-- Keep the longest series of due nodes and begin a new one. -/
def recordBacklog (s : Cpu) : Cpu :=
  let bcklogmax := P.ld s.mem bcklogmaxPtr
  { s.st P bcklogmaxPtr (if bcklogmax < s.backlog then s.backlog else bcklogmax) with backlog := 0 }

/-- The branch of `main` in which no node is due. -/
def serveStarts (s : Cpu) : Option Cpu :=
  let s := recordBacklog P s
  if P.ld s.mem startPtr ≠ 0 then
    match startThreads P s (List.range thrQty) with
    | none => none
    | some s => some { s with mem := heapify P s.mem }
  else some s

def toDueCheck (s : Cpu) : Cpu := { s with mem := abortThreads P s.mem }

def fromDueCheck (s : Cpu) : Option Cpu :=
  let (due, s) := topDue P s
  if due then runTop P s else serveStarts P s

end DataMaster

/-!
## Addresses of the control area

Every word of the control area has its own bus address `P.ctl offs`.  The lemmas
rewrite the firmware's pointers to these addresses, after which two words are told
apart by arithmetic on their offsets.
-/

namespace DataMaster

variable (P : Platform)

theorem Platform.ctl_ne {o o' : Nat} (ho : o % 4 = 0) (ho' : o' % 4 = 0) (h : o ≠ o') :
    P.ctl o ≠ P.ctl o' :=
  fun heq => h (P.ctl_inj heq ho ho')

/-! ### Global words -/

theorem adr_status : P.adr statusPtr = P.ctl 32 := P.adr_shared (by decide)
theorem adr_badwaitcnt : P.adr badwaitcntPtr = P.ctl 188 := P.adr_shared (by decide)
theorem adr_bcklogmax : P.adr bcklogmaxPtr = P.ctl 184 := P.adr_shared (by decide)
theorem adr_start : P.adr startPtr = P.ctl 324 := P.adr_shared (by decide)
theorem adr_abort1 : P.adr abort1Ptr = P.ctl 332 := P.adr_shared (by decide)
theorem adr_running : P.adr runningPtr = P.ctl 336 := P.adr_shared (by decide)

theorem adr_hp {i : Nat} (hi : i < thrQty) : P.adr (hpPtr i) = P.ctl (i * 4) := by
  have hq : thrQty = 8 := rfl
  have hend : shctlEnd = 820 := rfl
  rw [hpPtr, P.adr_shared (by simp only [shctlHeap]; omega)]
  simp only [shctlHeap, Nat.zero_add]

/-! ### Thread records -/

theorem adr_thr {i : Nat} (hi : i < thrQty) {d : Nat} (hd : d < tTdSize) :
    P.adr (thrPtr i + BitVec.ofNat 32 d) = P.ctl (shctlThrDat + i * tTdSize + d) := by
  have hq : thrQty = 8 := rfl
  have hend : shctlEnd = 820 := rfl
  rw [thrPtr, shared_add, P.adr_shared]
  simp only [shctlThrDat, tTdSize] at hd ⊢
  omega

theorem adr_flags {i : Nat} (hi : i < thrQty) :
    P.adr (thrPtr i + tTdFlags) = P.ctl (532 + i * 32) := adr_thr P hi (d := 0) (by decide)

theorem adr_msgCnt {i : Nat} (hi : i < thrQty) :
    P.adr (thrPtr i + tTdMsgCnt) = P.ctl (536 + i * 32) := by
  rw [show 536 + i * 32 = shctlThrDat + i * tTdSize + 4 by simp only [shctlThrDat, tTdSize]; omega]
  exact adr_thr P hi (by decide)

theorem adr_msgCntLo {i : Nat} (hi : i < thrQty) :
    P.adr (thrPtr i + tTdMsgCnt + 4) = P.ctl (540 + i * 32) := by
  rw [show 540 + i * 32 = shctlThrDat + i * tTdSize + 8 by simp only [shctlThrDat, tTdSize]; omega,
    BitVec.add_assoc]
  exact adr_thr P hi (by decide)

theorem adr_nodePtr {i : Nat} (hi : i < thrQty) :
    P.adr (thrPtr i + tTdNodePtr) = P.ctl (544 + i * 32) := by
  rw [show 544 + i * 32 = shctlThrDat + i * tTdSize + 12 by simp only [shctlThrDat, tTdSize]; omega]
  exact adr_thr P hi (by decide)

theorem adr_deadline {i : Nat} (hi : i < thrQty) :
    P.adr (thrPtr i + tTdDeadline) = P.ctl (548 + i * 32) := by
  rw [show 548 + i * 32 = shctlThrDat + i * tTdSize + 16 by simp only [shctlThrDat, tTdSize]; omega]
  exact adr_thr P hi (by decide)

theorem adr_deadlineLo {i : Nat} (hi : i < thrQty) :
    P.adr (thrPtr i + tTdDeadline + 4) = P.ctl (552 + i * 32) := by
  rw [show 552 + i * 32 = shctlThrDat + i * tTdSize + 20 by simp only [shctlThrDat, tTdSize]; omega,
    BitVec.add_assoc]
  exact adr_thr P hi (by decide)

theorem adr_currtime {i : Nat} (hi : i < thrQty) :
    P.adr (thrPtr i + tTdCurrtime) = P.ctl (556 + i * 32) := by
  rw [show 556 + i * 32 = shctlThrDat + i * tTdSize + 24 by simp only [shctlThrDat, tTdSize]; omega]
  exact adr_thr P hi (by decide)

theorem adr_currtimeLo {i : Nat} (hi : i < thrQty) :
    P.adr (thrPtr i + tTdCurrtime + 4) = P.ctl (560 + i * 32) := by
  rw [show 560 + i * 32 = shctlThrDat + i * tTdSize + 28 by simp only [shctlThrDat, tTdSize]; omega,
    BitVec.add_assoc]
  exact adr_thr P hi (by decide)

theorem adr_thrSta {i : Nat} (hi : i < thrQty) {d : Nat} (hd : d < tTsSize) :
    P.adr (thrStaPtr i + BitVec.ofNat 32 d) = P.ctl (shctlThrSta + i * tTsSize + d) := by
  have hq : thrQty = 8 := rfl
  have hend : shctlEnd = 820 := rfl
  rw [thrStaPtr, shared_add, P.adr_shared]
  simp only [shctlThrSta, tTsSize] at hd ⊢
  omega

theorem adr_preptime {i : Nat} (hi : i < thrQty) :
    P.adr (thrStaPtr i + tTsPreptime) = P.ctl (356 + i * 24) := by
  rw [show 356 + i * 24 = shctlThrSta + i * tTsSize + 16 by simp only [shctlThrSta, tTsSize]; omega]
  exact adr_thrSta P hi (by decide)

theorem adr_preptimeLo {i : Nat} (hi : i < thrQty) :
    P.adr (thrStaPtr i + tTsPreptime + 4) = P.ctl (360 + i * 24) := by
  rw [show 360 + i * 24 = shctlThrSta + i * tTsSize + 20 by simp only [shctlThrSta, tTsSize]; omega,
    BitVec.add_assoc]
  exact adr_thrSta P hi (by decide)

theorem adr_starttime {i : Nat} (hi : i < thrQty) :
    P.adr (thrStaPtr i + tTsStarttime) = P.ctl (348 + i * 24) := by
  rw [show 348 + i * 24 = shctlThrSta + i * tTsSize + 8 by simp only [shctlThrSta, tTsSize]; omega]
  exact adr_thrSta P hi (by decide)

theorem adr_starttimeLo {i : Nat} (hi : i < thrQty) :
    P.adr (thrStaPtr i + tTsStarttime + 4) = P.ctl (352 + i * 24) := by
  rw [show 352 + i * 24 = shctlThrSta + i * tTsSize + 12 by simp only [shctlThrSta, tTsSize]; omega,
    BitVec.add_assoc]
  exact adr_thrSta P hi (by decide)

/-- The eight records lie at different addresses. -/
theorem thrPtr_inj {i j : Nat} (hi : i < thrQty) (hj : j < thrQty)
    (h : thrPtr i = thrPtr j) : i = j := by
  have hadr : (0 : Nat) + shctlThrDat + i * tTdSize = 0 + shctlThrDat + j * tTdSize := by
    have hq : thrQty = 8 := rfl
    have hsum := congrArg BitVec.toNat ((BitVec.add_right_inj _).mp h)
    simp only [BitVec.toNat_ofNat, sharedOffs, shctlThrDat, tTdSize] at hsum ⊢
    omega
  simp only [tTdSize] at hadr
  omega

end DataMaster
