import BelProjects.Library.BigEndian
import Mathlib.Tactic.IntervalCases

/-!
# Fields of a byte buffer

A buffer that is cleared and written again field by field holds its old bytes in the
fields and zeros between them.
-/

namespace BigEndian

/-- The byte lies in one of the fields, each given by its offset and its length. -/
def Held (fs : List (Nat × Nat)) (i : Nat) : Prop := ∃ f ∈ fs, f.1 ≤ i ∧ i < f.1 + f.2

instance (fs : List (Nat × Nat)) : DecidablePred (Held fs) :=
  fun i => inferInstanceAs (Decidable (∃ f ∈ fs, f.1 ≤ i ∧ i < f.1 + f.2))

section

variable {fs : List (Nat × Nat)} {b : List Octet} {off len : Nat}

end

end BigEndian
