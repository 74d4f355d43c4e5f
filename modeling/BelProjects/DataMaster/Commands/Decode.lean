import BelProjects.DataMaster.Commands.Action

/-!
# Reading queue commands

The parameters of a command as the host reports them and as the firmware takes them from
the element, and when both are those the command was created with.
-/

namespace DataMaster

open BigEndian

/-! ### Parameters -/

/-- Parameters of a queue command. What a type does not have is at its default. -/
structure CmdParams where
  type : QCmdType
  validTime : Time
  qty : Nat
  dst : String := ""
  orphaned : Bool := false
  perma : Bool := false
  flushIl : Bool := false
  flushHi : Bool := false
  flushLo : Bool := false
  waitTime : Time := 0
  waitAbs : Bool := false
  deriving DecidableEq, Repr

/-- Parameters of a queue command for the CPU that executes it: destinations are
pointers. -/
structure FwParams where
  type : QCmdType
  prio : Nat
  validTime : Time
  qty : Nat
  dst : Word := lm32NullPtr
  perma : Bool := false
  flushees : BitVec 8 := 0
  waitTime : Time := 0
  waitAbs : Bool := false
  deriving DecidableEq, Repr

/-- The parameters the host reports for an element. A queue element has one flag for
permanent changes, `flowPerma`. -/
def QueueElement.params (qe : QueueElement) : Option CmdParams :=
  match qe.sType with
  | none => none
  | some .noop => some { type := .noop, validTime := qe.validTime, qty := qe.qty }
  | some .flow =>
    some
      { type := .flow, validTime := qe.validTime, qty := qe.qty, dst := qe.flowDst,
        orphaned := qe.orphaned, perma := qe.flowPerma }
  | some .flush =>
    some
      { type := .flush, validTime := qe.validTime, qty := qe.qty, dst := qe.flushOvr,
        orphaned := qe.orphaned, perma := qe.flowPerma, flushIl := qe.flushIl,
        flushHi := qe.flushHi, flushLo := qe.flushLo }
  | some .wait =>
    some
      { type := .wait, validTime := qe.validTime, qty := qe.qty, perma := qe.flowPerma,
        waitTime := qe.waitTime, waitAbs := qe.waitAbs }

/-- The parameters `block` and the action handlers take from an element. -/
def QueuedCmd.fwParams (x : QueuedCmd) : Option FwParams :=
  match ActType.ofNum? (actType x.act) with
  | some .noop =>
    some { type := .noop, prio := x.prio, validTime := x.validTime, qty := x.qty }
  | some .flow =>
    some
      { type := .flow, prio := x.prio, validTime := x.validTime, qty := x.qty, dst := x.arg1,
        perma := x.act &&& actChpSmsk != 0 }
  | some .flush =>
    some
      { type := .flush, prio := x.prio, validTime := x.validTime, qty := x.qty, dst := x.arg1,
        perma := x.act &&& actChpSmsk != 0
        flushees := ((x.act >>> actFlushPrioPos) &&& actFlushPrioMsk).setWidth 8 }
  | some .wait =>
    some
      { type := .wait, prio := x.prio, validTime := x.validTime, qty := x.qty,
        perma := x.act &&& actChpSmsk != 0, waitTime := x.arg1 ++ x.arg2
        waitAbs := x.act &&& actWaitAbsSmsk != 0 }
  | _ => none

/-! ### What the firmware does with them -/

variable (P : Platform)

/-- The effect of a command on the block `node` and the thread, from its parameters. -/
def FwParams.exec (p : FwParams) (s : Cpu) (node thrData : Word) : Word × Cpu :=
  match p.type with
  | .noop => (P.defDest s.mem node, s)
  | .flow => (p.dst, if p.perma then s.st P (node + nodeDefDestPtr) p.dst else s)
  | .flush =>
    let wrIdxs := P.ld s.mem (node + blockCmdqWrIdxs) &&& blockCmdqIdxsSmsk
    let rdIdxs := P.ld s.mem (node + blockCmdqRdIdxs) &&& blockCmdqIdxsSmsk
    let s := s.st P (node + blockCmdqRdIdxs)
      (flushRdIdxs p.flushees (1#8 <<< p.prio) wrIdxs [prioLo, prioHi, prioIl] rdIdxs)
    if p.dst ≠ lm32NullPtr then
      (p.dst, if p.perma then s.st P (node + nodeDefDestPtr) p.dst else s)
    else (P.defDest s.mem node, s)
  | .wait =>
    let tWait := p.waitTime - P.ld64 s.mem (node + blockPeriod)
    let s :=
      if p.waitAbs then
        let (now, s) := s.getSysTime
        if now < tWait then s.st64 P (thrData + tTdCurrtime) tWait
        else s.st P badwaitcntPtr (P.ld s.mem badwaitcntPtr + 1)
      else if p.perma then s.st64 P (node + blockPeriod) p.waitTime
      else s.st64 P (thrData + tTdCurrtime) (P.ld64 s.mem (thrData + tTdCurrtime) + tWait)
    (P.defDest s.mem node, s)

variable {P}

/-- **The action handlers** depend on the element only through these parameters, if the
element is apart from the read indices that a flush writes. -/
theorem actionFuncs_eq {s : Cpu} {node cmd thrData : Word} {p : FwParams} {ty : ActType}
    (hp : (slotCmd P s.mem cmd).fwParams = some p)
    (hty : ActType.ofNum? (actType (slotCmd P s.mem cmd).act) = some ty)
    (hact : P.adr (cmd + tCmdAct) ≠ P.adr (node + blockCmdqRdIdxs))
    (harg : P.adr (cmd + tCmdFlushOvr) ≠ P.adr (node + blockCmdqRdIdxs)) :
    actionFuncs P ty s node cmd thrData = p.exec P s node thrData := by
  unfold QueuedCmd.fwParams at hp
  rw [hty] at hp
  cases ty with
  | unknown => cases hp
  | noop =>
    cases hp
    rfl
  | flow =>
    cases hp
    unfold actionFuncs execFlow FwParams.exec slotCmd
    dsimp only
    by_cases hperm : P.ld s.mem (cmd + tCmdAct) &&& actChpSmsk = 0
    · rw [hperm]
      rfl
    · rw [if_pos hperm, if_pos (bne_iff_ne.2 hperm)]
      rfl
  | flush =>
    cases hp
    unfold actionFuncs execFlush FwParams.exec slotCmd QueuedCmd.prio
    have hovr : cmd + (tCmdAct + 4) = cmd + tCmdFlushOvr := rfl
    simp only [Cpu.st_mem, P.ld_st_other harg, P.ld_st_other hact, hovr]
    by_cases hnull : P.ld s.mem (cmd + tCmdFlushOvr) = lm32NullPtr
    · rw [if_neg (not_not_intro hnull), if_neg (not_not_intro hnull)]
    · rw [if_pos hnull, if_pos hnull]
      by_cases hperm : P.ld s.mem (cmd + tCmdAct) &&& actChpSmsk = 0
      · rw [hperm]
        rfl
      · rw [if_pos hperm, if_pos (bne_iff_ne.2 hperm)]
  | wait =>
    cases hp
    unfold actionFuncs execWait FwParams.exec slotCmd
    have htime : P.ld s.mem (cmd + (tCmdAct + 4)) ++ P.ld s.mem (cmd + (tCmdAct + 8)) =
        P.ld64 s.mem (cmd + tCmdWaitTime) := by
      unfold Platform.ld64
      rw [BitVec.add_assoc]
      rfl
    dsimp only
    rw [htime]
    by_cases habs : P.ld s.mem (cmd + tCmdAct) &&& actWaitAbsSmsk = 0
    · by_cases hperm : P.ld s.mem (cmd + tCmdAct) &&& actChpSmsk = 0
      · rw [habs, hperm]
        rfl
      · rw [habs, if_pos hperm, if_pos (bne_iff_ne.2 hperm)]
        rfl
    · rw [if_pos habs, if_pos (bne_iff_ne.2 habs)]

/-! ### What the host writes -/

/-- The element as the CPU finds it: the bus delivers the bytes as words. -/
def elementOf (b : List Octet) : QueuedCmd where
  validTime := read64 b 0
  act := read32 b 8
  arg1 := read32 b 12
  arg2 := read32 b 16

/-- The element a mini command stands for; `arg` is what a no-op leaves in the buffer. -/
def MiniCommand.element (arg : Word × Word) : MiniCommand → QueuedCmd
  | .noop tValid act => { validTime := tValid, act, arg1 := arg.1, arg2 := arg.2 }
  | .flow tValid act destAdr => { validTime := tValid, act, arg1 := destAdr, arg2 := 0 }
  | .wait tValid act tWait =>
    { validTime := tValid, act, arg1 := tWait.extractLsb' 32 32, arg2 := tWait.extractLsb' 0 32 }
  | .flush tValid act ovrAdr => { validTime := tValid, act, arg1 := ovrAdr, arg2 := 0 }

/-- The part of the element all commands share. -/
theorem header_spec {b : List Octet} (hb : b.length = 24) (tValid : Time) (act : Word) :
    let header := copyTo (copyTo b 0 (be64 tValid)) 8 (be32 act)
    header.length = 24 ∧ read64 header 0 = tValid ∧ read32 header 8 = act ∧
      read32 header 12 = read32 b 12 ∧ read32 header 16 = read32 b 16 := by
  have htime : (copyTo b 0 (be64 tValid)).length = 24 :=
    (length_copyTo (by rw [length_be64]; omega)).trans hb
  have hlen : (copyTo (copyTo b 0 (be64 tValid)) 8 (be32 act)).length = 24 :=
    (length_copyTo (by rw [length_be32]; omega)).trans htime
  have hfit : 8 + (be32 act).length ≤ (copyTo b 0 (be64 tValid)).length := by
    rw [length_be32]
    omega
  have hfit' : 0 + (be64 tValid).length ≤ b.length := by
    rw [length_be64]
    omega
  refine ⟨hlen, ?_, ?_, ?_, ?_⟩
  · rw [read64_copyTo_other hfit (Or.inl (Nat.le_refl 8)), read64_copyTo_same (by omega)]
  · exact read32_copyTo_same (by omega)
  · rw [read32_copyTo_other hfit (Or.inr (by rw [length_be32])),
      read32_copyTo_other hfit' (Or.inr (by rw [length_be64]; omega))]
  · rw [read32_copyTo_other hfit (Or.inr (by rw [length_be32]; omega)),
      read32_copyTo_other hfit' (Or.inr (by rw [length_be64]; omega))]

/-- Two words behind the header, as `flow` and `flush` write them. -/
theorem arguments_spec {b : List Octet} (hb : b.length = 24) (arg : Word) :
    let full := copyTo (copyTo b 12 (be32 arg)) 16 (be32 0)
    full.length = 24 ∧ read64 full 0 = read64 b 0 ∧ read32 full 8 = read32 b 8 ∧
      read32 full 12 = arg ∧ read32 full 16 = 0 := by
  have hfit : 12 + (be32 arg).length ≤ b.length := by
    rw [length_be32]
    omega
  have hlen : (copyTo b 12 (be32 arg)).length = 24 := (length_copyTo hfit).trans hb
  have hfit' : 16 + (be32 0).length ≤ (copyTo b 12 (be32 arg)).length := by
    rw [length_be32]
    omega
  refine ⟨(length_copyTo hfit').trans hlen, ?_, ?_, ?_, ?_⟩
  · rw [read64_copyTo_other hfit' (Or.inl (by omega)),
      read64_copyTo_other hfit (Or.inl (by omega))]
  · rw [read32_copyTo_other hfit' (Or.inl (by omega)),
      read32_copyTo_other hfit (Or.inl (by omega))]
  · rw [read32_copyTo_other hfit' (Or.inl (by omega)), read32_copyTo_same (by omega)]
  · exact read32_copyTo_same (by omega)

theorem length_serialise (mc : MiniCommand) {b : List Octet} (hb : b.length = 24) :
    (mc.serialise b).length = 24 := by
  cases mc with
  | noop tValid act => exact (header_spec hb tValid act).1
  | flow tValid act destAdr => exact (arguments_spec (header_spec hb tValid act).1 destAdr).1
  | flush tValid act ovrAdr => exact (arguments_spec (header_spec hb tValid act).1 ovrAdr).1
  | wait tValid act tWait =>
    have hheader := (header_spec hb tValid act).1
    exact (length_copyTo (by rw [length_be64, hheader]; omega)).trans hheader

/-- **Serialising** writes the element, whatever was in the buffer before. -/
theorem elementOf_serialise (mc : MiniCommand) {b : List Octet} (hb : b.length = 24) :
    elementOf (mc.serialise b) = mc.element (read32 b 12, read32 b 16) := by
  unfold elementOf
  cases mc with
  | noop tValid act =>
    obtain ⟨-, htime, hact, harg1, harg2⟩ := header_spec hb tValid act
    unfold MiniCommand.serialise MiniCommand.element
    rw [htime, hact, harg1, harg2]
  | flow tValid act destAdr =>
    obtain ⟨hlen, htime, hact, -, -⟩ := header_spec hb tValid act
    obtain ⟨-, htime', hact', harg1, harg2⟩ := arguments_spec hlen destAdr
    unfold MiniCommand.serialise MiniCommand.element
    rw [htime', hact', harg1, harg2, htime, hact]
  | flush tValid act ovrAdr =>
    obtain ⟨hlen, htime, hact, -, -⟩ := header_spec hb tValid act
    obtain ⟨-, htime', hact', harg1, harg2⟩ := arguments_spec hlen ovrAdr
    unfold MiniCommand.serialise MiniCommand.element
    rw [htime', hact', harg1, harg2, htime, hact]
  | wait tValid act tWait =>
    obtain ⟨hlen, htime, hact, -, -⟩ := header_spec hb tValid act
    obtain ⟨hhigh, hlow⟩ := @read32_copyTo_be64 _ 12 tWait (by rw [hlen]; omega)
    have hfit : 12 + (be64 tWait).length ≤
        (copyTo (copyTo b 0 (be64 tValid)) 8 (be32 act)).length := by
      rw [hlen, length_be64]
      omega
    unfold MiniCommand.serialise MiniCommand.element
    rw [hhigh, hlow, read64_copyTo_other hfit (Or.inl (by omega)), htime,
      read32_copyTo_other hfit (Or.inl (by omega)), hact]

theorem elementOf_bytes (mc : MiniCommand) {b : List Octet} (hb : b.length = 24) (inc : Word) :
    elementOf (mc.bytes b inc) = mc.element (read32 b 12, read32 b 16) := by
  have hfit : tCmdSize + (be32 inc).length ≤ (mc.serialise b).length := by
    rw [length_serialise mc hb, length_be32]
    decide
  rw [← elementOf_serialise mc hb]
  unfold elementOf MiniCommand.bytes
  rw [read64_copyTo_other hfit (Or.inl (by decide)), read32_copyTo_other hfit (Or.inl (by decide)),
    read32_copyTo_other hfit (Or.inl (by decide)), read32_copyTo_other hfit (Or.inl (by decide))]

end DataMaster
