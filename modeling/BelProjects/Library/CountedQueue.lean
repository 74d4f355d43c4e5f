import Mathlib.Algebra.GroupWithZero.Nat
import Mathlib.Data.List.Basic
import Mathlib.Data.List.Flatten

/-!
# Queues whose entries are executed several times

An entry `x` of the queue is to be executed `qty x` times; `name x` is what is
executed.  The queue executes its head and counts it down, and removes it with its last
execution.  What has been executed and what the queue still holds always follow the
order in which the entries were put in; unless entries are dropped, they are exactly
what was put in.
-/

namespace CountedQueue

variable {α β : Type*} (qty : α → Nat) (name : α → β)

/-- The executions that the entries of `l` stand for. -/
def runs (l : List α) : List β := l.flatMap fun x => List.replicate (qty x) (name x)

/-- One step of a queue of capacity `cap`: from `q`, taking in `inp` and executing
`out`, to `q'`. Entries may get lost only if `lossy`. -/
inductive Move (cap : Nat) : List α → List α → List α → Bool → List α → Prop
  | idle (q : List α) : Move cap q [] [] false q
  | push (q : List α) (x : α) : q.length < cap → Move cap q [x] [] false (q ++ [x])
  | skip (x : α) (q : List α) : qty x = 0 → Move cap (x :: q) [] [] false q
  | run (x x' : α) (q : List α) : qty x = qty x' + 1 → name x' = name x →
      Move cap (x :: q) [] [x] false (if qty x' = 0 then q else x' :: q)
  | drop (q q' : List α) : q'.Sublist q → Move cap q [] [] true q'
  | runDrop (x x' : α) (q q' : List α) : qty x = qty x' + 1 → name x' = name x →
      q'.Sublist (if qty x' = 0 then q else x' :: q) → Move cap (x :: q) [] [x] true q'

/-- The steps of a queue one after the other. -/
inductive Moves (cap : Nat) : List α → List α → List α → Bool → List α → Prop
  | nil (q : List α) : Moves cap q [] [] false q
  | snoc {q inp out q' inp' out' q'' : List α} {lossy lossy' : Bool} :
      Moves cap q inp out lossy q' → Move qty name cap q' inp' out' lossy' q'' →
      Moves cap q (inp ++ inp') (out ++ out') (lossy || lossy') q''

variable {qty name} {cap : Nat}

theorem runs_append (l l' : List α) :
    runs qty name (l ++ l') = runs qty name l ++ runs qty name l' := List.flatMap_append

theorem runs_cons (x : α) (l : List α) :
    runs qty name (x :: l) = List.replicate (qty x) (name x) ++ runs qty name l := rfl

theorem runs_sublist {l l' : List α} (h : l'.Sublist l) :
    (runs qty name l').Sublist (runs qty name l) := h.flatMap _

/-- One execution of the head. -/
theorem runs_counted {x x' : α} (hqty : qty x = qty x' + 1) (hname : name x' = name x)
    (q : List α) : [x].map name ++ runs qty name (if qty x' = 0 then q else x' :: q) =
      runs qty name (x :: q) := by
  rw [runs_cons, hqty, List.replicate_succ, List.map_singleton]
  split
  · rename_i h0
    rw [h0]
    rfl
  · rw [runs_cons, hname]
    rfl

/-- A step keeps the capacity. -/
theorem Move.length_le {q inp out q' : List α} {lossy : Bool}
    (h : Move qty name cap q inp out lossy q') (hq : q.length ≤ cap) : q'.length ≤ cap := by
  cases h with
  | idle => exact hq
  | push _ x hlt =>
      rw [List.length_append]
      exact hlt
  | skip x _ h0 =>
      rw [List.length_cons] at hq
      omega
  | run x x' q _ _ =>
      rw [List.length_cons] at hq
      split
      · omega
      · rwa [List.length_cons]
  | drop _ q' hsub => exact Nat.le_trans hsub.length_le hq
  | runDrop x x' q _ _ _ hsub =>
      rw [List.length_cons] at hq
      refine Nat.le_trans hsub.length_le ?_
      split
      · omega
      · rwa [List.length_cons]

/-- A step that takes nothing in makes the queue no longer. -/
theorem Move.length_le_of_nil {q out q' : List α} {lossy : Bool}
    (h : Move qty name cap q [] out lossy q') : q'.length ≤ q.length := by
  cases h with
  | idle => exact Nat.le_refl _
  | skip x _ h0 => exact Nat.le_succ _
  | run x x' q _ _ =>
      split
      · exact Nat.le_succ _
      · exact Nat.le_refl _
  | drop _ q' hsub => exact hsub.length_le
  | runDrop x x' q _ _ _ hsub =>
      refine Nat.le_trans hsub.length_le ?_
      split
      · exact Nat.le_succ _
      · exact Nat.le_refl _

/-- A step makes up no entries. -/
theorem Move.name_mem {q inp out q' : List α} {lossy : Bool}
    (h : Move qty name cap q inp out lossy q') {y : α} (hy : y ∈ q') :
    ∃ z ∈ q ++ inp, name y = name z := by
  have hhead : ∀ {x x' : α} {q : List α}, name x' = name x →
      y ∈ (if qty x' = 0 then q else x' :: q) → ∃ z ∈ (x :: q) ++ [], name y = name z := by
    intro x x' q hname hy
    rw [List.append_nil]
    split at hy
    · exact ⟨y, List.mem_cons_of_mem _ hy, rfl⟩
    · rcases List.mem_cons.mp hy with rfl | hy
      · exact ⟨x, List.mem_cons_self, hname⟩
      · exact ⟨y, List.mem_cons_of_mem _ hy, rfl⟩
  cases h with
  | idle => exact ⟨y, by rwa [List.append_nil], rfl⟩
  | push _ x hlt => exact ⟨y, hy, rfl⟩
  | skip x _ h0 => exact ⟨y, by rw [List.append_nil]; exact List.mem_cons_of_mem _ hy, rfl⟩
  | run x x' q _ hname => exact hhead hname hy
  | drop _ q' hsub => exact ⟨y, by rw [List.append_nil]; exact hsub.subset hy, rfl⟩
  | runDrop x x' q _ _ hname hsub => exact hhead hname (hsub.subset hy)

/-- A step executes a part of what is due, in order. -/
theorem Move.runs_sublist {q inp out q' : List α} {lossy : Bool}
    (h : Move qty name cap q inp out lossy q') :
    (out.map name ++ runs qty name q').Sublist (runs qty name (q ++ inp)) := by
  cases h with
  | idle => rw [List.append_nil]; exact List.Sublist.refl _
  | push _ x hlt => exact List.Sublist.refl _
  | skip x _ h0 =>
      rw [List.append_nil, runs_cons, h0]
      exact List.Sublist.refl _
  | run x x' q hqty hname =>
      rw [List.append_nil, runs_counted hqty hname]
  | drop _ q' hsub =>
      rw [List.append_nil]
      exact CountedQueue.runs_sublist hsub
  | runDrop x x' q q' hqty hname hsub =>
      rw [List.append_nil, ← runs_counted hqty hname]
      exact (List.Sublist.refl _).append (CountedQueue.runs_sublist hsub)

/-- A step that drops nothing executes the part that is missing afterwards. -/
theorem Move.runs_eq {q inp out q' : List α} (h : Move qty name cap q inp out false q') :
    out.map name ++ runs qty name q' = runs qty name (q ++ inp) := by
  cases h with
  | idle => rw [List.append_nil]; rfl
  | push _ x hlt => rfl
  | skip x _ h0 =>
      rw [List.append_nil, runs_cons, h0]
      rfl
  | run x x' q hqty hname => rw [List.append_nil, runs_counted hqty hname]

/-- **Order**: what has been executed and what is still held come from what was put
in, in that order. -/
theorem Moves.runs_sublist {q inp out q' : List α} {lossy : Bool}
    (h : Moves qty name cap q inp out lossy q') :
    (out.map name ++ runs qty name q').Sublist (runs qty name (q ++ inp)) := by
  induction h with
  | nil => rw [List.append_nil]; exact List.Sublist.refl _
  | @snoc inp out q' inp' out' q'' _ _ _ hmove ih =>
      have hlast := (List.Sublist.refl (out.map name)).append hmove.runs_sublist
      rw [List.map_append, List.append_assoc]
      refine hlast.trans ?_
      rw [runs_append, ← List.append_assoc q, runs_append, ← List.append_assoc]
      exact ih.append (List.Sublist.refl _)

/-- **Conservation**: if nothing was dropped, nothing is missing. -/
theorem Moves.runs_eq {q inp out q' : List α} {lossy : Bool}
    (h : Moves qty name cap q inp out lossy q') (hlossy : lossy = false) :
    out.map name ++ runs qty name q' = runs qty name (q ++ inp) := by
  induction h with
  | nil => rw [List.append_nil]; rfl
  | @snoc inp out q' inp' out' q'' l l' _ hmove ih =>
      obtain ⟨rfl, rfl⟩ := Bool.or_eq_false_iff.mp hlossy
      rw [List.map_append, List.append_assoc, hmove.runs_eq, runs_append, ← List.append_assoc,
        ih rfl, ← runs_append, List.append_assoc]

/-! ### Progress -/

/-- Number of steps that empty the queue: an entry without executions takes a step of
its own. -/
def work (qty : α → Nat) (l : List α) : Nat := (l.map fun x => max 1 (qty x)).sum

theorem work_append (l l' : List α) : work qty (l ++ l') = work qty l + work qty l' := by
  rw [work, List.map_append, List.sum_append, work, work]

theorem work_cons (x : α) (l : List α) : work qty (x :: l) = max 1 (qty x) + work qty l := by
  rw [work, List.map_cons, List.sum_cons, work]

theorem work_sublist {l l' : List α} (h : l'.Sublist l) : work qty l' ≤ work qty l := by
  induction h with
  | slnil => exact Nat.le_refl _
  | cons x _ ih =>
      rw [work_cons]
      omega
  | cons_cons x _ ih =>
      rw [work_cons, work_cons]
      omega

theorem work_counted {x x' : α} (hqty : qty x = qty x' + 1) (q : List α) :
    work qty (if qty x' = 0 then q else x' :: q) + 1 = work qty (x :: q) := by
  rw [work_cons]
  split
  · omega
  · rw [work_cons]
    omega

theorem Move.work_le {q inp out q' : List α} {lossy : Bool}
    (h : Move qty name cap q inp out lossy q') : work qty q' ≤ work qty q + work qty inp := by
  cases h with
  | idle => exact Nat.le_add_right _ _
  | push _ x hlt => exact Nat.le_of_eq (work_append q [x])
  | skip x _ h0 =>
      rw [work_cons]
      omega
  | run x x' q hqty hname =>
      have hdone := work_counted hqty q
      omega
  | drop _ q' hsub =>
      have hle : work qty _ ≤ work qty _ := work_sublist hsub
      omega
  | runDrop x x' q q' hqty hname hsub =>
      have hle : work qty _ ≤ work qty _ := work_sublist hsub
      have hdone := work_counted hqty q
      omega

/-- `l` is what remains of `L`: some entries are gone, and the next one may have been
executed before. -/
def Rest (qty : α → Nat) (name : α → β) (L l : List α) : Prop :=
  ∃ D T, L = D ++ T ∧ (l = T ∨ ∃ x x' T', T = x :: T' ∧ l = x' :: T' ∧ name x' = name x ∧
    qty x' ≤ qty x)

theorem Rest.refl (l : List α) : Rest qty name l l := ⟨[], l, rfl, Or.inl rfl⟩

theorem Rest.head {L l : List α} {x y : α} (h : Rest qty name L (x :: l)) (hname : name y = name x)
    (hqty : qty y ≤ qty x) : Rest qty name L l ∧ Rest qty name L (y :: l) := by
  obtain ⟨D, T, hL, hT | ⟨z, z', T', hT, hl, hz, hq⟩⟩ := h
  · subst hT
    refine ⟨⟨D ++ [x], l, by rw [hL]; simp, Or.inl rfl⟩, D, x :: l, hL, Or.inr ?_⟩
    exact ⟨x, y, l, rfl, rfl, hname, hqty⟩
  · obtain ⟨rfl, rfl⟩ := List.cons.inj hl
    refine ⟨⟨D ++ [z], l, by rw [hL, hT]; simp, Or.inl rfl⟩, D, T, hL, Or.inr ?_⟩
    exact ⟨z, y, l, hT, rfl, hname.trans hz, Nat.le_trans hqty hq⟩

theorem Move.rest {L q inp out q' : List α} (h : Move qty name cap q inp out false q')
    (hrest : Rest qty name L q) : Rest qty name (L ++ inp) q' := by
  cases h with
  | idle => rwa [List.append_nil]
  | push _ x hlt =>
      obtain ⟨D, T, rfl, rfl | ⟨z, z', T', rfl, rfl, hz, hq⟩⟩ := hrest
      · exact ⟨D, q ++ [x], List.append_assoc _ _ _, Or.inl rfl⟩
      · exact ⟨D, z :: (T' ++ [x]), by simp, Or.inr ⟨z, z', T' ++ [x], rfl, rfl, hz, hq⟩⟩
  | skip x _ h0 =>
      rw [List.append_nil]
      exact (hrest.head rfl (Nat.le_refl _)).1
  | run x x' q hqty hname =>
      rw [List.append_nil]
      have hhead := hrest.head hname (by omega)
      split
      · exact hhead.1
      · exact hhead.2

theorem Moves.rest {q inp out q' : List α} {lossy : Bool}
    (h : Moves qty name cap q inp out lossy q') (hlossy : lossy = false) :
    Rest qty name (q ++ inp) q' := by
  induction h with
  | nil => rw [List.append_nil]; exact .refl _
  | @snoc inp out q' inp' out' q'' l l' _ hmove ih =>
      obtain ⟨rfl, rfl⟩ := Bool.or_eq_false_iff.mp hlossy
      rw [← List.append_assoc]
      exact hmove.rest (ih rfl)

theorem Rest.length_runs_le {A B l : List α} (h : Rest qty name (A ++ B) l)
    (hwork : work qty l ≤ work qty B) :
    (runs qty name l).length ≤ (runs qty name B).length := by
  have hlen : ∀ L : List α, (runs qty name L).length = (L.map qty).sum := by
    intro L
    rw [runs, List.length_flatMap]
    simp
  obtain ⟨D, T, hAB, hT⟩ := h
  rcases Nat.le_total T.length B.length with hle | hge
  · -- `T` is a part of `B`
    have hsub : T.Sublist B :=
      (List.suffix_of_suffix_length_le ⟨D, hAB.symm⟩ ⟨A, rfl⟩ hle).sublist
    have hTB : (runs qty name T).length ≤ (runs qty name B).length := (runs_sublist hsub).length_le
    refine Nat.le_trans ?_ hTB
    rcases hT with rfl | ⟨x, x', T', rfl, rfl, -, hq⟩
    · exact Nat.le_refl _
    · rw [hlen, hlen, List.map_cons, List.map_cons, List.sum_cons, List.sum_cons]
      omega
  · -- `B` is a part of `T`, so there is nothing left before `B`
    have hsuf : B <:+ T := List.suffix_of_suffix_length_le ⟨A, rfl⟩ ⟨D, hAB.symm⟩ hge
    rcases hT with rfl | ⟨x, x', T', rfl, rfl, -, hq⟩
    · obtain ⟨C, hC⟩ := hsuf
      cases C with
      | nil => rw [← hC]; exact Nat.le_refl _
      | cons c C =>
          rw [← hC, List.cons_append, work_cons, work_append] at hwork
          omega
    · obtain ⟨C, hC⟩ := hsuf
      cases C with
      | nil =>
          rw [List.nil_append] at hC
          rw [hC, hlen, hlen, List.map_cons, List.map_cons, List.sum_cons, List.sum_cons]
          omega
      | cons c C =>
          obtain ⟨-, rfl⟩ : c = x ∧ C ++ B = T' := List.cons.inj hC
          rw [work_cons, work_append] at hwork
          omega

/-- **Progress**: if nothing was dropped and no more work is left than behind `x`, then
`x` and what came before it have been executed completely. -/
theorem Moves.runs_prefix {q inp out q' A B : List α} {x : α} {lossy : Bool}
    (h : Moves qty name cap q inp out lossy q') (hlossy : lossy = false)
    (hsplit : q ++ inp = A ++ x :: B) (hwork : work qty q' ≤ work qty B) :
    runs qty name (A ++ [x]) <+: out.map name := by
  have heq := h.runs_eq hlossy
  have hrest := h.rest hlossy
  rw [hsplit, show A ++ x :: B = (A ++ [x]) ++ B by simp] at heq hrest
  rw [runs_append] at heq
  have hle := hrest.length_runs_le hwork
  refine List.prefix_of_prefix_length_le ⟨runs qty name B, rfl⟩
    (heq ▸ ⟨runs qty name q', rfl⟩) ?_
  have hlen := congrArg List.length heq
  rw [List.length_append, List.length_append] at hlen
  omega

end CountedQueue
