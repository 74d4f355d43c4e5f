import BelProjects.DataMaster.Scheduler.Effects

/-!
# Command nodes without a target

When the target of a command is removed from the schedule, the upload leaves the null
pointer in the command node, and `cmd` has a test for it.  The test comes after the one
for the queue, which follows the null pointer: the word at byte 0x2C of the bus decides
whether the command is passed over or stops the CPU.
-/

namespace DataMaster

variable (P : Platform)

def cmdTypes : List NodeType := [.cnoop, .cflow, .cflush, .cwait]

theorem nodeFuncs_cmd {ty : NodeType} (hty : ty ∈ cmdTypes) (s : Cpu) (node thrData : Word) :
    nodeFuncs P s node thrData ty = some (cmd P s node thrData) := by
  simp only [cmdTypes, List.mem_cons, List.not_mem_nil, or_false] at hty
  rcases hty with rfl | rfl | rfl | rfl <;> rfl

/-- The memory after `cmd` has asked for an abort of all threads. -/
def haltMem (m : Mem) : Mem :=
  P.st (P.st m abort1Ptr 0xffffffff) statusPtr (P.ld m statusPtr ||| shctlStatusBadActTypeSmsk)

section Null

variable {P} {s : Cpu} {node : Word} (hnull : P.ld s.mem (node + cmdTarget) = lm32NullPtr)
include hnull

theorem cmd_null_of_queue (thrData : Word)
    (hqueue : P.hasQueue s.mem lm32NullPtr (cmdPrio P s.mem node) = true) :
    cmd P s node thrData = (P.defDest s.mem node, s.paint P node) := by
  unfold cmd
  simp only [hnull, hqueue, Bool.true_eq_false, if_false, if_true]

/-- It shows none: the CPU is stopped at the node. -/
theorem cmd_null_of_noQueue (thrData : Word)
    (hqueue : P.hasQueue s.mem lm32NullPtr (cmdPrio P s.mem node) = false) :
    cmd P s node thrData = (node, { s with mem := haltMem P s.mem }) := by
  have hne : P.adr statusPtr ≠ P.adr abort1Ptr := by
    rw [adr_status, adr_abort1]
    exact P.ctl_ne (by decide) (by decide) (by decide)
  unfold cmd
  simp only [hnull, hqueue, if_true]
  rw [Cpu.setStatus, Cpu.st_mem, P.ld_st_other hne]
  rfl

end Null

/-- The CPU has been stopped already at this node, which is painted and its own successor. -/
structure AlreadyHalted (s : Cpu) (node : Word) : Prop where
  loops : P.defDest s.mem node = node
  abort : P.ld (s.paint P node).mem abort1Ptr = 0xffffffff
  status : P.ld (s.paint P node).mem statusPtr = P.ld s.mem statusPtr ||| shctlStatusBadActTypeSmsk
  painted : P.adr (node + nodeFlags) ≠ P.adr abort1Ptr → P.adr (node + nodeFlags) ≠ P.adr statusPtr →
    P.ld s.mem (node + nodeFlags) ||| nflgPaintLm32Smsk = P.ld s.mem (node + nodeFlags)

theorem haltMem_eq_paint_iff (s : Cpu) (node : Word) :
    haltMem P s.mem = (s.paint P node).mem ↔
      P.ld (s.paint P node).mem abort1Ptr = 0xffffffff ∧
      P.ld (s.paint P node).mem statusPtr = P.ld s.mem statusPtr ||| shctlStatusBadActTypeSmsk ∧
      (P.adr (node + nodeFlags) ≠ P.adr abort1Ptr → P.adr (node + nodeFlags) ≠ P.adr statusPtr →
        P.ld s.mem (node + nodeFlags) ||| nflgPaintLm32Smsk = P.ld s.mem (node + nodeFlags)) := by
  have hne : P.adr abort1Ptr ≠ P.adr statusPtr := by
    rw [adr_status, adr_abort1]
    exact P.ctl_ne (by decide) (by decide) (by decide)
  have habort : haltMem P s.mem (P.adr abort1Ptr) = 0xffffffff := by
    rw [haltMem, P.st_other hne, P.st_apply, if_pos rfl]
  have hstatus : haltMem P s.mem (P.adr statusPtr) =
      P.ld s.mem statusPtr ||| shctlStatusBadActTypeSmsk := by
    rw [haltMem, P.st_apply, if_pos rfl]
  have hother : ∀ a, a ≠ P.adr abort1Ptr → a ≠ P.adr statusPtr → haltMem P s.mem a = s.mem a := by
    intro a ha hs
    rw [haltMem, P.st_other hs, P.st_other ha]
  have hflags : (s.paint P node).mem (P.adr (node + nodeFlags)) =
      P.ld s.mem (node + nodeFlags) ||| nflgPaintLm32Smsk := by
    rw [Cpu.paint, Cpu.st_mem, P.st_apply, if_pos rfl]
  have hrest : ∀ a, a ≠ P.adr (node + nodeFlags) → (s.paint P node).mem a = s.mem a :=
    fun a ha => P.st_other ha
  constructor
  · intro heq
    refine ⟨?_, ?_, fun ha hs => ?_⟩
    · rw [Platform.ld, ← heq, habort]
    · rw [Platform.ld, ← heq, hstatus]
    · rw [← hflags, ← heq, hother _ ha hs]
      rfl
  · rintro ⟨ha, hs, hf⟩
    funext a
    by_cases haa : a = P.adr abort1Ptr
    · rw [haa, habort, ← ha]
      rfl
    · by_cases has : a = P.adr statusPtr
      · rw [has, hstatus, ← hs]
        rfl
      · by_cases haf : a = P.adr (node + nodeFlags)
        · subst haf
          rw [hother _ haa has, hflags, hf haa has]
          rfl
        · rw [hother _ haa has, hrest a haf]

/-- **A command without target is passed over if and only if the word at the null pointer
shows a queue of its priority**, or the CPU has been stopped at this node before. -/
theorem cmd_null_passedOver_iff {s : Cpu} {node : Word} {ty : NodeType} (hty : ty ∈ cmdTypes)
    (hnull : P.ld s.mem (node + cmdTarget) = lm32NullPtr) (thrData : Word) :
    nodeFuncs P s node thrData ty = some (P.defDest s.mem node, s.paint P node) ↔
      P.hasQueue s.mem lm32NullPtr (cmdPrio P s.mem node) = true ∨ AlreadyHalted P s node := by
  rw [nodeFuncs_cmd P hty, Option.some.injEq]
  cases hqueue : P.hasQueue s.mem lm32NullPtr (cmdPrio P s.mem node) with
  | true => exact iff_of_true (cmd_null_of_queue hnull thrData hqueue) (Or.inl rfl)
  | false =>
    rw [cmd_null_of_noQueue hnull thrData hqueue, Prod.mk.injEq]
    constructor
    · rintro ⟨hdest, hcpu⟩
      obtain ⟨ha, hs, hf⟩ := (haltMem_eq_paint_iff P s node).1 (congrArg Cpu.mem hcpu)
      exact Or.inr ⟨hdest.symm, ha, hs, hf⟩
    · rintro (h | h)
      · cases h
      · refine ⟨h.loops.symm, ?_⟩
        have hmem := (haltMem_eq_paint_iff P s node).2 ⟨h.abort, h.status, h.painted⟩
        rw [hmem]
        rfl

def nullCommand : Cpu := (sampleCpu 1).hostWrites samplePlatform 1 [(sampleNode + nodeFlags, 3)]

theorem cmd_null_sample :
    nodeFuncs samplePlatform nullCommand sampleNode (thrPtr 0) .cnoop =
        some (samplePlatform.defDest nullCommand.mem sampleNode, nullCommand.paint samplePlatform sampleNode) ↔
      samplePlatform.hasQueue nullCommand.mem lm32NullPtr
          (cmdPrio samplePlatform nullCommand.mem sampleNode) = true ∨
        AlreadyHalted samplePlatform nullCommand sampleNode :=
  cmd_null_passedOver_iff samplePlatform (by decide) (by decide +kernel) (thrPtr 0)

/-- **Zeroed memory at the null pointer stops the CPU**, although it says that there is
no target. -/
theorem cmd_null_stops : ¬ ∀ (P : Platform) (s : Cpu) (node thrData : Word) (ty : NodeType),
    ty ∈ cmdTypes → P.ld s.mem (node + cmdTarget) = lm32NullPtr →
      nodeFuncs P s node thrData ty = some (P.defDest s.mem node, s.paint P node) := by
  intro h
  have hret := h samplePlatform nullCommand sampleNode (thrPtr 0) .cnoop (by decide) (by decide +kernel)
  have hfst : (nodeFuncs samplePlatform nullCommand sampleNode (thrPtr 0) .cnoop).map Prod.fst =
      some sampleNode := by
    decide +kernel
  rw [hret] at hfst
  exact absurd hfst (by decide +kernel)

end DataMaster
