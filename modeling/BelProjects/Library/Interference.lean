import BelProjects.Library.Runs

/-!
# Programs with interference

A program makes one access to a shared state after the other. Between two accesses others may
change the state, and an assertion about it is good for the next access only if it is stable.
-/

namespace Interference

/-- A program: it returns, or it changes the state and goes on with what it has seen there. -/
inductive Prog (σ α : Type) where
  | ret (a : α)
  | act (upd : σ → σ) (next : σ → Prog σ α)

namespace Prog

variable {σ α β γ : Type}

def bind : Prog σ α → (α → Prog σ β) → Prog σ β
  | ret a, q => q a
  | act upd next, q => act upd fun s => (next s).bind q

instance : Monad (Prog σ) where
  pure := ret
  bind := bind

def access (upd : σ → σ) (see : σ → α) : Prog σ α := act upd fun s => ret (see s)

@[simp] theorem pure_eq (a : α) : (pure a : Prog σ α) = ret a := rfl

@[simp] theorem ret_bind (a : α) (q : α → Prog σ β) : ret a >>= q = q a := rfl

@[simp] theorem act_bind (upd : σ → σ) (next : σ → Prog σ α) (q : α → Prog σ β) :
    act upd next >>= q = act upd fun s => next s >>= q := rfl

/-- What a program does without interference. -/
def run : Prog σ α → σ → α × σ
  | ret a, s => (a, s)
  | act upd next, s => (next s).run (upd s)

@[simp] theorem run_ret (a : α) (s : σ) : (ret a : Prog σ α).run s = (a, s) := rfl

@[simp] theorem run_access (upd : σ → σ) (see : σ → α) (s : σ) :
    (access upd see).run s = (see s, upd s) := rfl

@[simp] theorem run_bind (p : Prog σ α) (q : α → Prog σ β) (s : σ) :
    (p >>= q).run s = (q (p.run s).1).run (p.run s).2 := by
  induction p generalizing s with
  | ret a => rfl
  | act upd next ih => exact ih s (upd s)

/-! ### Assertions -/

/-- An assertion that interference does not break. -/
def Stable (R : σ → σ → Prop) (A : σ → Prop) : Prop := ∀ s s', A s → R s s' → A s'

variable {R : σ → σ → Prop} {I A B : σ → Prop}

theorem Stable.and (hA : Stable R A) (hB : Stable R B) : Stable R fun s => A s ∧ B s :=
  fun s s' h hR => ⟨hA s s' h.1 hR, hB s s' h.2 hR⟩

theorem Stable.star (hA : Stable R A) {s s' : σ} (h : A s) (hR : Relation.ReflTransGen R s s') :
    A s' := by
  induction hR with
  | refl => exact h
  | tail _ hstep ih => exact hA _ _ ih hstep

/-- From a state, whatever happens between the accesses, the invariant holds behind each of them
and the postcondition at the end. -/
def Safe (R : σ → σ → Prop) (I : σ → Prop) : Prog σ α → (α → σ → Prop) → σ → Prop
  | ret a, Q, s => Q a s
  | act upd next, Q, s =>
      ∀ s₁, Relation.ReflTransGen R s s₁ → I (upd s₁) ∧ (next s₁).Safe R I Q (upd s₁)

/-- **Access rule**: what is asserted before an access has to be stable. -/
theorem Safe.access {upd : σ → σ} {see : σ → α} {Q : α → σ → Prop} {s : σ} (hA : Stable R A)
    (hs : A s) (h : ∀ s₁, A s₁ → I (upd s₁) ∧ Q (see s₁) (upd s₁)) :
    (access upd see).Safe R I Q s := by
  intro s₁ hR
  exact h s₁ (hA.star hs hR)

/-- **Sequence rule**. -/
theorem Safe.bind {p : Prog σ α} {q : α → Prog σ β} {P : α → σ → Prop} {Q : β → σ → Prop} {s : σ}
    (hp : p.Safe R I P s) (hq : ∀ a s₁, P a s₁ → (q a).Safe R I Q s₁) : (p >>= q).Safe R I Q s := by
  induction p generalizing s with
  | ret a => exact hq a s hp
  | act upd next ih =>
      intro s₁ hR
      obtain ⟨hI, hnext⟩ := hp s₁ hR
      exact ⟨hI, ih s₁ hnext⟩

theorem Safe.mono {p : Prog σ α} {P Q : α → σ → Prop} {s : σ} (hp : p.Safe R I P s)
    (h : ∀ a s₁, P a s₁ → Q a s₁) : p.Safe R I Q s := by
  induction p generalizing s with
  | ret a => exact h a s hp
  | act upd next ih =>
      intro s₁ hR
      obtain ⟨hI, hnext⟩ := hp s₁ hR
      exact ⟨hI, ih s₁ hnext⟩

theorem Safe.interfere {p : Prog σ α} {Q : α → σ → Prop} (hQ : ∀ a, Stable R (Q a)) {s s' : σ}
    (hp : p.Safe R I Q s) (hR : R s s') : p.Safe R I Q s' := by
  cases p with
  | ret a => exact hQ a s s' hp hR
  | act upd next => exact fun s₁ hR' => hp s₁ (.head hR hR')

/-! ### Programs that do not see the interference -/

/-- The accesses of a program lead related states to related ones, and see the same in them. -/
def Respects (S : σ → σ → Prop) : Prog σ α → Prop
  | ret _ => True
  | act upd next => (∀ e s, S e s → S (upd e) (upd s) ∧ next e = next s) ∧ ∀ s, (next s).Respects S

/-- An assertion that holds behind each access of a program that runs alone. -/
def Along (J : σ → Prop) : Prog σ α → σ → Prop
  | ret _, _ => True
  | act upd next, s => J (upd s) ∧ (next s).Along J (upd s)

section Respects

variable {S : σ → σ → Prop} {J : σ → Prop}

theorem Respects.bind {p : Prog σ α} {q : α → Prog σ β} (hp : p.Respects S)
    (hq : ∀ a, (q a).Respects S) : (p >>= q).Respects S := by
  induction p with
  | ret a => exact hq a
  | act upd next ih =>
    refine ⟨fun e s hes => ⟨(hp.1 e s hes).1, ?_⟩, fun s => ih s (hp.2 s)⟩
    change next e >>= q = next s >>= q
    rw [(hp.1 e s hes).2]

theorem Along.run {p : Prog σ α} {s : σ} (hs : J s) (hp : p.Along J s) : J (p.run s).2 := by
  induction p generalizing s with
  | ret a => exact hs
  | act upd next ih => exact ih s hp.1 hp.2

end Respects

/-! ### Assertions that no access breaks -/

/-- A program none of whose accesses breaks an assertion. -/
def Preserves (A : σ → Prop) : Prog σ α → Prop
  | ret _ => True
  | act upd next => (∀ s, A s → A (upd s)) ∧ ∀ s, (next s).Preserves A

theorem Preserves.bind {p : Prog σ α} {q : α → Prog σ β} (hp : p.Preserves A)
    (hq : ∀ a, (q a).Preserves A) : (p >>= q).Preserves A := by
  induction p with
  | ret a => exact hq a
  | act upd next ih => exact ⟨hp.1, fun s => ih s (hp.2 s)⟩

/-- **Frame rule**: what neither the program nor interference breaks holds at the end as well. -/
theorem Safe.frame {p : Prog σ α} {Q : α → σ → Prop} {s : σ} (hp : p.Safe R I Q s)
    (hpres : p.Preserves A) (hA : Stable R A) (hs : A s) :
    p.Safe R I (fun a s => Q a s ∧ A s) s := by
  induction p generalizing s with
  | ret a => exact ⟨hp, hs⟩
  | act upd next ih =>
    intro s₁ hR
    obtain ⟨hI, hnext⟩ := hp s₁ hR
    exact ⟨hI, ih s₁ hnext (hpres.2 s₁) (hpres.1 s₁ (hA.star hs hR))⟩

/-! ### What programs leave alone -/

variable {f : σ → γ}

end Prog

/-! ### One party that runs programs -/

/-- A party runs one program after the other while others interfere. -/
def system {σ : Type} (init : σ → Prop) (R : σ → σ → Prop) (start : σ → Prog σ Unit → Prop) :
    TransitionSystem (σ × Prog σ Unit) where
  init c := init c.1 ∧ c.2 = .ret ()
  step c c' :=
    (R c.1 c'.1 ∧ c'.2 = c.2) ∨ (c.2 = .ret () ∧ start c.1 c'.2 ∧ c'.1 = c.1) ∨
      ∃ upd next, c.2 = .act upd next ∧ c' = (upd c.1, next c.1)

/-- **Invariant rule**: each program is safe and leaves the state as the next one needs it. -/
theorem system_invariant {σ : Type} {init : σ → Prop} {R : σ → σ → Prop}
    {start : σ → Prog σ Unit → Prop} {I idle : σ → Prop} (hinit : ∀ s, init s → idle s)
    (hidle : ∀ s, idle s → I s) (hI : Prog.Stable R I) (hstable : Prog.Stable R idle)
    (hstart : ∀ s p, idle s → start s p → p.Safe R I (fun _ => idle) s) :
    ∀ c, (system init R start).Reachable c → I c.1 ∧ (c.2 = .ret () → idle c.1) := by
  have hsafe : ∀ c, (system init R start).Reachable c →
      I c.1 ∧ c.2.Safe R I (fun _ => idle) c.1 := by
    apply TransitionSystem.Reachable.invariant
    · rintro ⟨s, p⟩ ⟨hs, rfl⟩
      exact ⟨hidle s (hinit s hs), hinit s hs⟩
    · rintro ⟨s, p⟩ ⟨s', p'⟩ - ⟨hs, hp⟩ (⟨hR, rfl⟩ | ⟨rfl, hp', rfl⟩ | ⟨upd, next, rfl, heq⟩)
      · exact ⟨hI s s' hs hR, hp.interfere (fun _ => hstable) hR⟩
      · exact ⟨hs, hstart _ p' hp hp'⟩
      · cases heq
        exact hp s .refl
  intro c hc
  obtain ⟨hIc, hc⟩ := hsafe c hc
  refine ⟨hIc, fun hret => ?_⟩
  rw [hret] at hc
  exact hc

section Run

variable {σ : Type} {init : σ → Prop} {R : σ → σ → Prop} {start : σ → Prog σ Unit → Prop}

/-- A program may run to its end without interference. -/
theorem reachable_run {p : Prog σ Unit} {s : σ} (h : (system init R start).Reachable (s, p)) :
    (system init R start).Reachable ((p.run s).2, .ret ()) := by
  induction p generalizing s with
  | ret a => exact h
  | act upd next ih => exact ih s (h.step (.inr (.inr ⟨upd, next, rfl, rfl⟩)))

theorem reachable_call {p : Prog σ Unit} {s : σ}
    (h : (system init R start).Reachable (s, .ret ())) (hp : start s p) :
    (system init R start).Reachable ((p.run s).2, .ret ()) :=
  reachable_run (h.step (.inr (.inl ⟨rfl, hp, rfl⟩)))

theorem reachable_interfere {p : Prog σ Unit} {s s' : σ}
    (h : (system init R start).Reachable (s, p)) (hR : R s s') :
    (system init R start).Reachable (s', p) :=
  h.step (.inl ⟨hR, rfl⟩)

end Run

end Interference
