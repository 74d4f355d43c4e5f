import Mathlib.Data.Nat.Init

/-!
# Clocked systems

The registers of a synchronous system take new values at every clock edge; `trace` is the
state in each cycle for a sequence of inputs.
-/

namespace Clocked

variable {σ ι : Type*} (step : ι → σ → σ) (init : σ) (inp : Nat → ι)

def trace : Nat → σ
  | 0 => init
  | t + 1 => step (inp t) (trace t)

theorem trace_succ (t : Nat) : trace step init inp (t + 1) = step (inp t) (trace step init inp t) :=
  rfl

variable {step init inp}

/-- **Invariant rule**: what holds in the first cycle and is kept at every edge holds in
every cycle. -/
theorem trace_invariant {I : σ → Prop} (hinit : I init) (hstep : ∀ i s, I s → I (step i s)) (t : Nat) :
    I (trace step init inp t) := by
  induction t with
  | zero => exact hinit
  | succ t ih => exact hstep _ _ ih

/-- What is kept at the edges between two cycles holds until the second one. -/
theorem trace_between {I : σ → Prop} {first last : Nat} (hfirst : I (trace step init inp first))
    (hkept : ∀ t, first ≤ t → t < last → I (trace step init inp t) →
      I (trace step init inp (t + 1))) :
    ∀ t, first ≤ t → t ≤ last → I (trace step init inp t) := by
  intro t hle
  induction t, hle using Nat.le_induction with
  | base => exact fun _ => hfirst
  | succ t hle ih => exact fun hlt => hkept t hle hlt (ih (Nat.le_of_succ_le hlt))

theorem exists_last {p : Nat → Prop} {u : Nat} (h : ∃ t < u, p t) :
    ∃ t < u, p t ∧ ∀ v, t < v → v < u → ¬ p v := by
  induction u with
  | zero =>
      obtain ⟨t, ht, -⟩ := h
      exact absurd ht (Nat.not_lt_zero t)
  | succ u ih =>
      by_cases hu : p u
      · exact ⟨u, Nat.lt_succ_self u, hu, fun v huv hv => absurd huv (Nat.not_lt.mpr (Nat.le_of_lt_succ hv))⟩
      · obtain ⟨t, ht, hp⟩ := h
        have hne : t ≠ u := fun heq => hu (heq ▸ hp)
        obtain ⟨t', ht', hp', hnone⟩ := ih ⟨t, Nat.lt_of_le_of_ne (Nat.le_of_lt_succ ht) hne, hp⟩
        refine ⟨t', Nat.lt_succ_of_lt ht', hp', fun v hv hvu => ?_⟩
        rcases Nat.lt_succ_iff_lt_or_eq.mp hvu with hlt | rfl
        · exact hnone v hv hlt
        · exact hu

end Clocked
