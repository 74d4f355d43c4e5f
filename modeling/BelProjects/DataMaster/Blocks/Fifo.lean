import BelProjects.DataMaster.Blocks.Enqueue
import BelProjects.Library.Runs

/-!
# First in, first out

The queues of one block under every interleaving of command nodes on any CPU, visits
by any thread and whatever else changes memory outside the queues.  As long as no
command node writes to a full queue and no visit slips, every queue executes its
commands in order and as often as they say, apart from those that a flush removes.
-/

namespace DataMaster

variable (P : Platform)

/-- Memory, and what was enqueued and executed so far. -/
structure QueueState where
  mem : Mem
  inp : List QueuedCmd
  out : List QueuedCmd

/-- What can happen to the queues of block `node`. -/
inductive QueueEvent (node : Word) (base : Nat) (lst : Nat → Nat) (buf : Nat → Nat → Nat) :
    QueueState → QueueState → Prop
  | cmd {st : QueueState} {P' : Platform} {s : Cpu} {cnode thrData : Word} :
      s.mem = st.mem → CmdReaches P P' s.mem node cnode base lst buf →
      (accepted P' s cnode = true → occupancy P s.mem node (cmdPrio P' s.mem cnode) < 4) →
      QueueEvent node base lst buf st
        ⟨(cmd P' s cnode thrData).2.mem, st.inp ++ enqueued P' s cnode thrData, st.out⟩
  | visit {st : QueueState} {s s' : Cpu} {t : Nat} {r : Word} :
      s.mem = st.mem → t < thrQty → ¬ ScanSlip P s node →
      block P s node (thrPtr t) = some (r, s') →
      QueueEvent node base lst buf st ⟨s'.mem, st.inp, st.out ++ executed P s node⟩
  | other {st : QueueState} {m' : Mem} :
      KeepsQueues P st.mem m' node base lst buf →
      QueueEvent node base lst buf st ⟨m', st.inp, st.out⟩

def queueSystem (node : Word) (base : Nat) (lst : Nat → Nat) (buf : Nat → Nat → Nat) (m₀ : Mem) :
    TransitionSystem QueueState where
  init st := st = ⟨m₀, [], []⟩
  step := QueueEvent P node base lst buf

/-- What holds after every step: the block keeps its shape, its queues their invariant,
and every queue has made the moves that its commands account for. -/
structure FifoInv (node : Word) (lst : Nat → Nat) (m₀ : Mem) (st : QueueState) : Prop where
  shape : SameShape P m₀ st.mem node lst
  inv : QueueInv P st.mem node
  moves : ∀ q, q < 3 → P.hasQueue m₀ node q = true →
    CountedQueue.Moves QueuedCmd.qty QueuedCmd.body 4 (queueCmds P m₀ node q) (ofPrio q st.inp)
      (ofPrio q st.out) (st.out.any fun x => x.flushes q) (queueCmds P st.mem node q)

section Run

variable {P} {node : Word} {base : Nat} {lst : Nat → Nat} {buf : Nat → Nat → Nat} {m₀ : Mem}

theorem ofPrio_append (q : Nat) (l l' : List QueuedCmd) :
    ofPrio q (l ++ l') = ofPrio q l ++ ofPrio q l' :=
  List.filter_append l l'

theorem FifoInv.step {st : QueueState} {m' : Mem} {inp out : List QueuedCmd}
    (h : FifoInv P node lst m₀ st) (hstep : QueueStep P st.mem m' node lst inp out) :
    FifoInv P node lst m₀ ⟨m', st.inp ++ inp, st.out ++ out⟩ where
  shape := h.shape.trans hstep.shape
  inv := hstep.inv h.inv
  moves q hq hex := by
    rw [ofPrio_append, ofPrio_append, List.any_append]
    exact (h.moves q hq hex).snoc (hstep.move q hq ((h.shape.queues q hq).trans hex))

theorem QueueEvent.queueStep {st st' : QueueState} (h : QueueEvent P node base lst buf st st')
    (hl : BlockLayout P st.mem node base lst buf) (hinv : QueueInv P st.mem node) :
    ∃ inp out, st'.inp = st.inp ++ inp ∧ st'.out = st.out ++ out ∧
      QueueStep P st.mem st'.mem node lst inp out := by
  cases h with
  | @cmd P' s cnode thrData hmem hr hroom =>
      rw [← hmem] at hl hinv ⊢
      exact ⟨_, [], rfl, (List.append_nil _).symm, hr.cmd_step hl hinv thrData hroom⟩
  | @visit s s' t r hmem ht hslip hblock =>
      rw [← hmem] at hl hinv ⊢
      obtain ⟨r', s'', hblock', hstep⟩ := hl.visit_step hinv ht hslip
      rw [hblock] at hblock'
      obtain ⟨-, rfl⟩ := Prod.mk.inj (Option.some.inj hblock')
      exact ⟨[], _, (List.append_nil _).symm, rfl, hstep⟩
  | other hkeep =>
      exact ⟨[], [], (List.append_nil _).symm, (List.append_nil _).symm,
        hl.queueStep_keeps hkeep hinv⟩

theorem fifoInv_reachable (hl : BlockLayout P m₀ node base lst buf) (hinv : QueueInv P m₀ node) :
    ∀ st, (queueSystem P node base lst buf m₀).Reachable st → FifoInv P node lst m₀ st := by
  refine TransitionSystem.Reachable.invariant _ ?_ ?_
  · rintro st rfl
    exact ⟨⟨fun _ _ => rfl, fun _ _ _ => rfl, fun _ _ _ _ _ => rfl⟩, hinv, fun q _ _ => .nil _⟩
  · intro st st' _ h hevent
    obtain ⟨inp, out, hinp, hout, hstep⟩ :=
      QueueEvent.queueStep hevent (hl.of_sameShape h.shape) h.inv
    obtain ⟨m', inp', out'⟩ := st'
    obtain rfl : inp' = st.inp ++ inp := hinp
    obtain rfl : out' = st.out ++ out := hout
    exact h.step hstep

end Run

/-! ### Runs of a sample block -/

/-- `sampleBlock` visited when its command is valid. -/
def sampleVisit : Cpu := { sampleBlockCpu with clk := fun _ => 10 }

/-- Commands for low priority that fill their queue, and a flush of that queue in the
queue for interlocks. -/
def fullBlockMem : Mem :=
  storeAll samplePlatform sampleBlockMem
    [(sampleBlock + blockCmdqWrIdxs, 0x010004), (sampleElem + tCmdAct, 0x12300001),
      (0x10001200 + tCmdTime + 4, 7), (0x10001200 + tCmdAct, 0x00100001),
      (0x10001400 + nodeFlags, 3), (0x10001400 + cmdTarget, sampleBlock),
      (0x10001400 + cmdAct, 0x00100001)]

def fullBlockCpu : Cpu := { sampleVisit with mem := fullBlockMem }

end DataMaster
