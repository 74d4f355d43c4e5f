import Mathlib.Logic.Basic

/-!
# Programs that may throw

A program changes a state step by step and may throw at any step.  What it has changed
until then stays changed, unless a handler puts it back.
-/

namespace Programs

variable {ε σ α β γ : Type}

/-- The state a program leaves, whether it returns or throws. -/
def after (p : EStateM ε σ α) (s : σ) : σ :=
  match p s with
  | .ok _ s' => s'
  | .error _ s' => s'

def Throws (p : EStateM ε σ α) (s : σ) : Prop := ∃ e s', p s = .error e s'

instance (p : EStateM ε σ α) (s : σ) : Decidable (Throws p s) :=
  match h : p s with
  | .ok _ _ => .isFalse fun ⟨_, _, ht⟩ => by rw [h] at ht; cases ht
  | .error e s' => .isTrue ⟨e, s', h⟩

/-- A program that leaves a part of the state as it is. -/
def Keeps (f : σ → γ) (p : EStateM ε σ α) : Prop := ∀ s, f (after p s) = f s

theorem after_ok {p : EStateM ε σ α} {s s' : σ} {a : α} (h : p s = .ok a s') : after p s = s' := by
  unfold after
  rw [h]

theorem after_error {p : EStateM ε σ α} {s s' : σ} {e : ε} (h : p s = .error e s') :
    after p s = s' := by
  unfold after
  rw [h]

/-! ### One program after another -/

theorem bind_of_ok {p : EStateM ε σ α} {q : α → EStateM ε σ β} {s s' : σ} {a : α}
    (h : p s = .ok a s') : (p >>= q) s = q a s' := by
  change EStateM.bind p q s = _
  unfold EStateM.bind
  rw [h]

theorem bind_of_error {p : EStateM ε σ α} {q : α → EStateM ε σ β} {s s' : σ} {e : ε}
    (h : p s = .error e s') : (p >>= q) s = .error e s' := by
  change EStateM.bind p q s = _
  unfold EStateM.bind
  rw [h]

/-- A sequence returns what its second part does behind the first one. -/
theorem bind_ok_iff {p : EStateM ε σ α} {q : α → EStateM ε σ β} {s s' : σ} {b : β} :
    (p >>= q) s = .ok b s' ↔ ∃ a t, p s = .ok a t ∧ q a t = .ok b s' := by
  cases h : p s with
  | ok a t =>
    rw [bind_of_ok h]
    constructor
    · intro hq
      exact ⟨a, t, rfl, hq⟩
    · rintro ⟨c, u, hc, hq⟩
      cases hc
      exact hq
  | error e t =>
    rw [bind_of_error h]
    constructor
    · intro hq
      cases hq
    · rintro ⟨c, u, hc, -⟩
      cases hc

theorem Throws.bind {p : EStateM ε σ α} {s : σ} (h : Throws p s) (q : α → EStateM ε σ β) :
    Throws (p >>= q) s := by
  obtain ⟨e, s', he⟩ := h
  exact ⟨e, s', bind_of_error he⟩

/-- What throws early leaves the state as the early part does. -/
theorem after_bind_of_throws {p : EStateM ε σ α} {s : σ} (h : Throws p s)
    (q : α → EStateM ε σ β) : after (p >>= q) s = after p s := by
  obtain ⟨e, s', he⟩ := h
  rw [after_error he, after_error (bind_of_error he)]

/-- A check that passes and changes nothing leaves the rest where it has started. -/
theorem after_bind_of_passes {p : EStateM ε σ Unit} {s : σ} (hkeeps : after p s = s)
    (h : ¬ Throws p s) (q : Unit → EStateM ε σ β) : after (p >>= q) s = after (q ()) s := by
  cases hp : p s with
  | ok a t =>
    rw [after_ok hp] at hkeeps
    rw [hkeeps] at hp
    unfold after
    rw [bind_of_ok hp]
  | error e t => exact absurd ⟨e, t, hp⟩ h

/-! ### What programs keep -/

section Keeps

variable {f : σ → γ}

theorem keeps_pure (a : α) : Keeps f (pure a : EStateM ε σ α) := fun _ => rfl

theorem keeps_throw (e : ε) : Keeps f (throw e : EStateM ε σ α) := fun _ => rfl

theorem keeps_get : Keeps f (get : EStateM ε σ σ) := fun _ => rfl

theorem keeps_modify {g : σ → σ} (h : ∀ s, f (g s) = f s) :
    Keeps f (modify g : EStateM ε σ PUnit) := h

/-- Behind a program, the rest leaves what it keeps as that program has left it. -/
theorem after_bind_keeps {p : EStateM ε σ α} {q : α → EStateM ε σ β} (hq : ∀ a, Keeps f (q a))
    (s : σ) : f (after (p >>= q) s) = f (after p s) := by
  cases h : p s with
  | ok a t =>
    have hafter : after (p >>= q) s = after (q a) t := by
      unfold after
      rw [bind_of_ok h]
    rw [after_ok h, hafter, hq a t]
  | error e t => rw [after_error h, after_error (bind_of_error h)]

theorem Keeps.bind {p : EStateM ε σ α} {q : α → EStateM ε σ β} (hp : Keeps f p)
    (hq : ∀ a, Keeps f (q a)) : Keeps f (p >>= q) := fun s =>
  (after_bind_keeps hq s).trans (hp s)

theorem keeps_forM {p : α → EStateM ε σ PUnit} (hp : ∀ a, Keeps f (p a)) (as : List α) :
    Keeps f (as.forM p) := by
  induction as with
  | nil => exact keeps_pure _
  | cons a as ih => exact (hp a).bind fun _ => ih

theorem keeps_foldlM {p : β → α → EStateM ε σ β} (hp : ∀ b a, Keeps f (p b a)) (as : List α) :
    ∀ b, Keeps f (as.foldlM p b) := by
  induction as with
  | nil => exact keeps_pure
  | cons a as ih => exact fun b => (hp b a).bind ih

theorem keeps_filterAuxM {p : α → EStateM ε σ Bool} (hp : ∀ a, Keeps f (p a)) (as : List α) :
    ∀ acc, Keeps f (as.filterAuxM p acc) := by
  induction as with
  | nil => exact keeps_pure
  | cons a as ih => exact fun acc => (hp a).bind fun b => ih (bif b then a :: acc else acc)

theorem keeps_filterM {p : α → EStateM ε σ Bool} (hp : ∀ a, Keeps f (p a)) (as : List α) :
    Keeps f (as.filterM p) :=
  (keeps_filterAuxM hp as []).bind fun _ => keeps_pure _

theorem keeps_ite {c : Prop} [Decidable c] {p q : EStateM ε σ α} (hp : Keeps f p)
    (hq : Keeps f q) : Keeps f (if c then p else q) := by
  split
  · exact hp
  · exact hq

end Keeps

/-! ### Invariants of programs -/

/-- A program that ends in `I` where it starts in `I`, whether it returns or throws. -/
def Maintains (I : σ → Prop) (p : EStateM ε σ α) : Prop := ∀ s, I s → I (after p s)

theorem Keeps.maintains {f : σ → γ} {p : EStateM ε σ α} (h : Keeps f p) (P : γ → Prop) :
    Maintains (fun s => P (f s)) p := by
  intro s hs
  rw [h s]
  exact hs

section Maintains

variable {I : σ → Prop}

theorem maintains_pure (a : α) : Maintains I (pure a : EStateM ε σ α) := fun _ h => h

theorem maintains_throw (e : ε) : Maintains I (throw e : EStateM ε σ α) := fun _ h => h

theorem maintains_modify {g : σ → σ} (h : ∀ s, I s → I (g s)) :
    Maintains I (modify g : EStateM ε σ PUnit) := h

theorem Maintains.bind {p : EStateM ε σ α} {q : α → EStateM ε σ β} (hp : Maintains I p)
    (hq : ∀ a, Maintains I (q a)) : Maintains I (p >>= q) := by
  intro s hs
  have hend := hp s hs
  cases h : p s with
  | ok a t =>
    have hafter : after (p >>= q) s = after (q a) t := by
      unfold after
      rw [bind_of_ok h]
    rw [after_ok h] at hend
    rw [hafter]
    exact hq a t hend
  | error e t =>
    rw [after_error h] at hend
    rw [after_error (bind_of_error h)]
    exact hend

/-- What follows a look at the state may rely on what holds of it. -/
theorem maintains_get_bind {q : σ → EStateM ε σ α} (h : ∀ s, I s → I (after (q s) s)) :
    Maintains I (get >>= q) := h

/-- Behind a check that passes, the rest may rely on its result. -/
theorem after_bind_maintains {p : EStateM ε σ α} {q : α → EStateM ε σ β} {s : σ}
    (hp : I (after p s)) (hq : ∀ a t, p s = .ok a t → I t → I (after (q a) t)) :
    I (after (p >>= q) s) := by
  cases h : p s with
  | ok a t =>
    have hafter : after (p >>= q) s = after (q a) t := by
      unfold after
      rw [bind_of_ok h]
    rw [after_ok h] at hp
    rw [hafter]
    exact hq a t h hp
  | error e t =>
    rw [after_error h] at hp
    rw [after_error (bind_of_error h)]
    exact hp

theorem maintains_forM {p : α → EStateM ε σ PUnit} {as : List α} (hp : ∀ a ∈ as, Maintains I (p a)) :
    Maintains I (as.forM p) := by
  induction as with
  | nil => exact maintains_pure _
  | cons a as ih =>
    refine (hp a List.mem_cons_self).bind fun _ => ih ?_
    intro b hb
    exact hp b (List.mem_cons_of_mem a hb)

end Maintains

/-- A relation between result and state that every step of a loop keeps. -/
theorem foldlM_ok {R : β → σ → Prop} {p : β → α → EStateM ε σ β} {as : List α}
    (hp : ∀ b, ∀ a ∈ as, ∀ s b' t, R b s → p b a s = .ok b' t → R b' t) {b b' : β} {s t : σ}
    (hb : R b s) (h : as.foldlM p b s = .ok b' t) : R b' t := by
  induction as generalizing b s with
  | nil =>
    cases h
    exact hb
  | cons a as ih =>
    rw [List.foldlM_cons, bind_ok_iff] at h
    obtain ⟨c, u, hstep, hrest⟩ := h
    refine ih ?_ (hp b a List.mem_cons_self s c u hb hstep) hrest
    intro b x hx
    exact hp b x (List.mem_cons_of_mem a hx)

/-- What every step of a loop makes of its result, the loop does. -/
theorem foldlM_returns {P : β → Prop} {p : β → α → EStateM ε σ β} {as : List α}
    (hp : ∀ b a s b' t, P b → p b a s = .ok b' t → P b') {b b' : β} {s t : σ} (hb : P b)
    (h : as.foldlM p b s = .ok b' t) : P b' :=
  foldlM_ok (R := fun b _ => P b) (fun b a _ => hp b a) hb h

/-- A relation between the elements that are still to come and the state. -/
theorem forM_ok {R : List α → σ → Prop} {p : α → EStateM ε σ PUnit} {as : List α}
    (hp : ∀ a as s t, R (a :: as) s → p a s = .ok ⟨⟩ t → R as t) {s t : σ} (hs : R as s)
    (h : as.forM p s = .ok ⟨⟩ t) : R [] t := by
  induction as generalizing s with
  | nil =>
    cases h
    exact hs
  | cons a as ih =>
    change (p a >>= fun _ => as.forM p) s = _ at h
    obtain ⟨c, u, hstep, hrest⟩ := bind_ok_iff.1 h
    exact ih (hp a as s u hs hstep) hrest

/-- Whatever a program returns, if it returns, has the property. -/
def Returns (P : α → Prop) (p : EStateM ε σ α) : Prop := ∀ s a t, p s = .ok a t → P a

section Returns

variable {P : α → Prop} {R : β → Prop}

theorem returns_pure {a : α} (h : P a) : Returns P (pure a : EStateM ε σ α) := by
  intro s b t hb
  cases hb
  exact h

theorem Returns.bind {p : EStateM ε σ α} {q : α → EStateM ε σ β} (hp : Returns P p)
    (hq : ∀ a, P a → Returns R (q a)) : Returns R (p >>= q) := by
  intro s b u h
  obtain ⟨a, t, hfirst, hrest⟩ := bind_ok_iff.1 h
  exact hq a (hp s a t hfirst) t b u hrest

theorem returns_bind {p : EStateM ε σ α} {q : α → EStateM ε σ β} (hq : ∀ a, Returns R (q a)) :
    Returns R (p >>= q) :=
  Returns.bind (P := fun _ => True) (fun _ _ _ _ => trivial) fun a _ => hq a

theorem returns_ite {c : Prop} [Decidable c] {p q : EStateM ε σ α} (hp : Returns P p)
    (hq : Returns P q) : Returns P (if c then p else q) := by
  split
  · exact hp
  · exact hq

end Returns

/-! ### Two programs at once -/

/-- Run from related states both programs return the same, or both throw, and they leave
related states. -/
def Alike (R : σ → σ → Prop) (p q : EStateM ε σ α) : Prop :=
  ∀ s t, R s t →
    (∃ a s' t', p s = .ok a s' ∧ q t = .ok a t' ∧ R s' t') ∨
      ∃ e e' s' t', p s = .error e s' ∧ q t = .error e' t' ∧ R s' t'

section Alike

variable {R : σ → σ → Prop}

theorem alike_pure (a : α) : Alike R (pure a : EStateM ε σ α) (pure a) := fun s t h =>
  Or.inl ⟨a, s, t, rfl, rfl, h⟩

theorem alike_throw (e e' : ε) : Alike R (throw e : EStateM ε σ α) (throw e') := fun s t h =>
  Or.inr ⟨e, e', s, t, rfl, rfl, h⟩

theorem alike_modify {f g : σ → σ} (h : ∀ s t, R s t → R (f s) (g t)) :
    Alike R (modify f : EStateM ε σ PUnit) (modify g) := fun s t hst =>
  Or.inl ⟨⟨⟩, f s, g t, rfl, rfl, h s t hst⟩

theorem Alike.bind {p p' : EStateM ε σ α} {q q' : α → EStateM ε σ β} (hp : Alike R p p')
    (hq : ∀ a, Alike R (q a) (q' a)) : Alike R (p >>= q) (p' >>= q') := by
  intro s t h
  rcases hp s t h with ⟨a, s', t', hs, ht, h'⟩ | ⟨e, e', s', t', hs, ht, h'⟩
  · rw [bind_of_ok hs, bind_of_ok ht]
    exact hq a s' t' h'
  · exact Or.inr ⟨e, e', s', t', bind_of_error hs, bind_of_error ht, h'⟩

theorem alike_ite {c : Prop} [Decidable c] {p p' q q' : EStateM ε σ α} (hp : c → Alike R p p')
    (hq : ¬ c → Alike R q q') : Alike R (if c then p else q) (if c then p' else q') := by
  by_cases hc : c
  · rw [if_pos hc, if_pos hc]
    exact hp hc
  · rw [if_neg hc, if_neg hc]
    exact hq hc

/-- One throws if and only if the other does, and they leave related states. -/
theorem Alike.outcome {p q : EStateM ε σ α} (h : Alike R p q) {s t : σ} (hst : R s t) :
    (Throws p s ↔ Throws q t) ∧ R (after p s) (after q t) := by
  rcases h s t hst with ⟨a, s', t', hs, ht, h'⟩ | ⟨e, e', s', t', hs, ht, h'⟩
  · refine ⟨⟨?_, ?_⟩, ?_⟩
    · rintro ⟨e, u, he⟩
      rw [hs] at he
      cases he
    · rintro ⟨e, u, he⟩
      rw [ht] at he
      cases he
    · rw [after_ok hs, after_ok ht]
      exact h'
  · refine ⟨⟨fun _ => ⟨e', t', ht⟩, fun _ => ⟨e, s', hs⟩⟩, ?_⟩
    rw [after_error hs, after_error ht]
    exact h'

end Alike

/-! ### Transactions -/

/-- Runs a program. If it throws what `caught` accepts, then `restore` puts back what was
saved before. -/
def transaction (caught : ε → Bool) (save : σ → γ) (restore : γ → σ → σ) (p : EStateM ε σ α) :
    EStateM ε σ α := fun s =>
  match p s with
  | .ok a s' => .ok a s'
  | .error e s' => if caught e then .error e (restore (save s) s') else .error e s'

theorem transaction_error (caught : ε → Bool) {save : σ → γ} {restore : γ → σ → σ}
    {p : EStateM ε σ α} {s s' : σ} {e : ε} (hcaught : caught e = true)
    (h : transaction caught save restore p s = .error e s') :
    ∃ t, p s = .error e t ∧ s' = restore (save s) t := by
  unfold transaction at h
  split at h
  next => cases h
  next e₁ t hp =>
    split at h
    next =>
      cases h
      exact ⟨t, hp, rfl⟩
    next hnot =>
      cases h
      exact absurd hcaught hnot

end Programs
