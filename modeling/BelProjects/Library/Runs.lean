import Mathlib.Logic.Relation

/-!
# Runs of a transition system

A system is given by its initial states and a step relation; a state is reachable
if some run leads to it.
-/

structure TransitionSystem (σ : Type*) where
  init : σ → Prop
  step : σ → σ → Prop

namespace TransitionSystem

variable {σ : Type*} (T : TransitionSystem σ)

inductive Reachable : σ → Prop
  | init {s : σ} : T.init s → Reachable s
  | step {s s' : σ} : Reachable s → T.step s s' → Reachable s'

/-- **Invariant rule**: what holds initially and is kept by every step from a
reachable state holds in every reachable state. -/
theorem Reachable.invariant {I : σ → Prop} (hinit : ∀ s, T.init s → I s)
    (hstep : ∀ s s', T.Reachable s → I s → T.step s s' → I s') :
    ∀ s, T.Reachable s → I s := by
  intro s hs
  induction hs with
  | init h => exact hinit _ h
  | step hs hss' ih => exact hstep _ _ hs ih hss'

end TransitionSystem
