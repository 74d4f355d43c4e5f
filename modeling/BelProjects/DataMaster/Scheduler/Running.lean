import BelProjects.DataMaster.Scheduler.Edf

/-!
# The running bits

A thread is active while its deadline is finite, and the running register is meant to
show which threads are active.  Three places write both: the abort phase, the
execution of a node and the start of a thread.  The first two keep them in step; the
start sets the running bit whatever first deadline the origin node gives.
-/

namespace DataMaster

open TransitionSystem

variable (P : Platform)

/-- The running bit of each thread is set exactly while its deadline is finite. -/
def RunningTracks (m : Mem) : Prop :=
  ∀ t, t < thrQty → ((runningBits P m).getLsbD t = true ↔ dl P m (thrPtr t) ≠ -1)

structure RunInv (m : Mem) : Prop where
  sched : SchedInv P m
  number : ∀ t, t < thrQty → thrIdx P m (thrPtr t) = t
  tracks : RunningTracks P m

/-- The bits that the end of an iteration of thread `i` clears. -/
theorem getLsbD_stop (d : Time) {i j : Nat} (hi : i < 32) :
    ((if d = -1 then 1 else 0 : Word) <<< i).getLsbD j = decide (j = i ∧ d = -1) := by
  by_cases hd : d = -1
  · rw [if_pos hd]
    change (1#32 <<< i).getLsbD j = _
    rw [getLsbD_bit hi]
    exact decide_eq_decide.mpr ⟨fun h => ⟨h, hd⟩, fun h => h.1⟩
  · rw [if_neg hd, decide_eq_false fun h => hd h.2]
    change (0#32 <<< i).getLsbD j = false
    rw [BitVec.zero_shiftLeft, BitVec.getLsbD_zero]

/-! ### The phases keep the invariant -/

theorem RunInv.agree {m m' : Mem} (h : RunInv P m)
    (hagree : AgreeOn (schedWords P ++ statusWords P) m m') : RunInv P m' := by
  refine ⟨h.sched.agree P (hagree.sched P), fun t ht => ?_, fun t ht => ?_⟩
  · rw [thrIdx_agree P (hagree.status P) ht, h.number t ht]
  · rw [running_agree P (hagree.status P), dl_agree P (hagree.sched P) t ht]
    exact h.tracks t ht

end DataMaster
