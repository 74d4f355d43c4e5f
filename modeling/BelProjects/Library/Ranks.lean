import Mathlib.Data.Finset.Card
import Mathlib.Data.Finset.Filter
import Mathlib.Logic.Relation

/-!
# Ranks

Along a relation that has no cycle and leads into a finite set, a number decreases from step
to step: how many elements of the set can still be reached.
-/

namespace Ranks

open Relation

variable {α : Type*} {r : α → α → Prop}

open Classical in
theorem exists_rank (S : Finset α) (hinto : ∀ a b, r a b → b ∈ S)
    (hacyclic : ∀ a, ¬ TransGen r a a) :
    ∃ rank : α → Nat, (∀ a, rank a ≤ S.card) ∧ ∀ a b, r a b → rank b < rank a := by
  refine ⟨fun a => (S.filter fun b => TransGen r a b).card, fun a => Finset.card_filter_le _ _, ?_⟩
  intro a b hab
  apply Finset.card_lt_card
  rw [Finset.ssubset_iff_of_subset]
  · refine ⟨b, Finset.mem_filter.2 ⟨hinto a b hab, .single hab⟩, ?_⟩
    intro hb
    exact hacyclic b (Finset.mem_filter.1 hb).2
  · intro c hc
    obtain ⟨hin, hbc⟩ := Finset.mem_filter.1 hc
    exact Finset.mem_filter.2 ⟨hin, .head hab hbc⟩

end Ranks
