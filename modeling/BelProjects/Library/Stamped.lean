import Mathlib.Data.List.Induction

/-!
# Registers that remember a stamp

A register holds a value with the stamp it came with.  A write is ignored when it carries
the stamp that is stored, which makes repetitions harmless; a write with any other stamp
replaces the value, also when its stamp is older.
-/

@[ext]
structure Stamped (T V : Type*) where
  stamp : T
  value : V
  deriving DecidableEq, Repr

namespace Stamped

variable {T V : Type*}

/-- Writes with one stamp carry one value. -/
def Consistent (ms : List (Stamped T V)) : Prop :=
  ∀ m ∈ ms, ∀ m' ∈ ms, m.stamp = m'.stamp → m.value = m'.value

variable [DecidableEq T]

def put (r m : Stamped T V) : Stamped T V := if m.stamp ≠ r.stamp then m else r

theorem put_same {r m : Stamped T V} (h : m.stamp = r.stamp) : r.put m = r :=
  if_neg (not_not.mpr h)

theorem put_other {r m : Stamped T V} (h : m.stamp ≠ r.stamp) : r.put m = m := if_pos h

/-- Writes that all carry the stored stamp change nothing. -/
theorem foldl_put_same {r : Stamped T V} {ms : List (Stamped T V)}
    (h : ∀ m ∈ ms, m.stamp = r.stamp) : ms.foldl put r = r := by
  induction ms with
  | nil => rfl
  | cons m ms ih =>
      rw [List.foldl_cons, put_same (h m List.mem_cons_self)]
      exact ih fun m' hm' => h m' (List.mem_cons_of_mem _ hm')

theorem foldl_put_last {r m : Stamped T V} {ms : List (Stamped T V)}
    (hcons : Consistent (ms ++ [m])) (hother : ∃ m' ∈ ms ++ [m], m'.stamp ≠ r.stamp) :
    (ms ++ [m]).foldl put r = m := by
  induction ms using List.reverseRecOn generalizing m with
  | nil =>
      obtain ⟨m', hm', hne⟩ := hother
      rw [List.nil_append, List.mem_singleton] at hm'
      rw [List.nil_append, List.foldl_cons, List.foldl_nil]
      exact put_other (hm' ▸ hne)
  | append_singleton ms m₁ ih =>
      rw [List.foldl_append, List.foldl_cons, List.foldl_nil]
      have hsub : ∀ m' ∈ ms ++ [m₁], m' ∈ ms ++ [m₁] ++ [m] :=
        fun m' hm' => List.mem_append_left _ hm'
      by_cases hbefore : ∃ m' ∈ ms ++ [m₁], m'.stamp ≠ r.stamp
      · rw [ih (fun a ha b hb => hcons a (hsub a ha) b (hsub b hb)) hbefore]
        by_cases hstamp : m.stamp = m₁.stamp
        · -- a repetition is ignored, and its value is the one that is stored
          have hvalue : m.value = m₁.value :=
            hcons m (by simp) m₁ (by simp) hstamp
          rw [put_same hstamp]
          exact (Stamped.ext hstamp hvalue).symm
        · exact put_other hstamp
      · have hnone : ∀ m' ∈ ms ++ [m₁], m'.stamp = r.stamp :=
          fun m' hm' => not_not.mp fun h => hbefore ⟨m', hm', h⟩
        rw [foldl_put_same hnone]
        obtain ⟨m', hm', hne⟩ := hother
        rcases List.mem_append.mp hm' with hold | hlast
        · exact absurd (hnone m' hold) hne
        · rw [List.mem_singleton] at hlast
          exact put_other (hlast ▸ hne)

/-- **The value after a series of writes** is that of the last one, unless all of them carry
the stamp that was stored before. -/
theorem foldl_put_value {r : Stamped T V} {ms : List (Stamped T V)} (hcons : Consistent ms) :
    (ms.foldl put r).value =
      if ∀ m ∈ ms, m.stamp = r.stamp then r.value else (ms.getLast?.getD r).value := by
  split
  · rename_i hsame
    rw [foldl_put_same hsame]
  · rename_i hother
    push Not at hother
    induction ms using List.reverseRecOn with
    | nil => exact absurd hother (by simp)
    | append_singleton ms m => rw [foldl_put_last hcons hother, List.getLast?_concat, Option.getD_some]

end Stamped
