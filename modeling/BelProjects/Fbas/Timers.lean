import Mathlib.Logic.Function.Iterate
import Mathlib.Data.List.FinRange
import BelProjects.Fbas.Messages

/-!
# The software timers of FBAS nodes

`timer.c` keeps a fixed pool of timers, which the interrupt of the hardware timer ticks.  The
entry action of the state 'configured' registers three of them each time it is called, and
nothing gives a timer back: the third configuration leaves a null pointer behind.

The interrupt reads and writes a timer as a whole, and the main program meets it between any
two of its own accesses; `start_interrupted` and `isExpired_interrupted` say that a tick in the
middle of an operation is as a tick before or after it.
-/

namespace Fbas

def nTimers : Nat := 8

structure Timer where
  periodMs : Word
  elapsedMs : Word
  inUse : Bool
  running : Bool
  deriving DecidableEq, Repr

namespace Timer

def tick (t : Timer) : Timer :=
  if t.running then { t with elapsedMs := t.elapsedMs + 1 } else t

def init (t : Timer) (periodMs : Word) : Timer :=
  { t with periodMs, elapsedMs := 0, running := false, inUse := false }

def clearElapsed (t : Timer) : Timer := { t with elapsedMs := 0 }

def start (t : Timer) : Timer := { t.clearElapsed with running := true }

def isExpired (t : Timer) : Bool := t.running && t.periodMs ≤ t.elapsedMs

def tested (t : Timer) : Timer := if t.isExpired then { t with running := false } else t

theorem iterate_tick_idle {t : Timer} (hidle : t.running = false) (k : Nat) :
    Timer.tick^[k] t = t := by
  induction k with
  | zero => rfl
  | succ k ih => rw [Function.iterate_succ_apply', ih, tick, hidle, if_neg (by decide)]

theorem iterate_tick_running {t : Timer} (hrunning : t.running = true) (k : Nat) :
    (Timer.tick^[k] t).running = true := by
  induction k with
  | zero => exact hrunning
  | succ k ih =>
      rw [Function.iterate_succ_apply', tick, if_pos ih]
      exact ih

theorem start_interrupted (t : Timer) (k : Nat) :
    { Timer.tick^[k] t.clearElapsed with running := true } =
      if t.running then Timer.tick^[k] t.start else t.start := by
  cases hrunning : t.running with
  | true =>
      have hstart : t.clearElapsed = t.start := by
        cases t
        simp only [clearElapsed, start] at hrunning ⊢
        rw [hrunning]
      have hticked := iterate_tick_running (t := t.start) rfl k
      rw [if_pos rfl, hstart]
      cases hk : Timer.tick^[k] t.start
      rw [hk] at hticked
      simp only at hticked
      rw [hticked]
  | false =>
      have hidle : t.clearElapsed.running = false := hrunning
      rw [iterate_tick_idle hidle, if_neg (by decide)]
      rfl

theorem isExpired_interrupted (t : Timer) (k : Nat) :
    (t.running && t.periodMs ≤ (Timer.tick^[k] t).elapsedMs) =
      (Timer.tick^[k] t).isExpired := by
  have hperiod : (Timer.tick^[k] t).periodMs = t.periodMs := by
    induction k with
    | zero => rfl
    | succ k ih =>
        rw [Function.iterate_succ_apply', ← ih, tick]
        split <;> rfl
  rw [isExpired, hperiod]
  cases hrunning : t.running with
  | true => rw [iterate_tick_running hrunning]
  | false => rw [iterate_tick_idle hrunning, hrunning]

end Timer

inductive TimerVar where
  | pTimerMpsTtl | pTimerRegistr | pTimerConsole
  deriving DecidableEq, Repr

def TimerVar.periodMs : TimerVar → Word
  | .pTimerMpsTtl => 1
  | .pTimerRegistr => 1000
  | .pTimerConsole => 60000

def TimerVar.order : TimerVar → Nat
  | .pTimerMpsTtl => 0
  | .pTimerRegistr => 1
  | .pTimerConsole => 2

structure Timers where
  timers : Fin nTimers → Timer
  /-- What a null pointer reads and writes. -/
  atNull : Timer
  ptr : TimerVar → Option (Fin nTimers)

namespace Timers

def get (s : Timers) : Option (Fin nTimers) → Timer
  | some i => s.timers i
  | none => s.atNull

def set (s : Timers) (p : Option (Fin nTimers)) (t : Timer) : Timers :=
  match p with
  | some i => { s with timers := Function.update s.timers i t }
  | none => { s with atNull := t }

def timerTickTimers (s : Timers) : Timers := { s with timers := fun i => (s.timers i).tick }

def timerStart (s : Timers) (p : Option (Fin nTimers)) : Timers :=
  if (s.get p).inUse then s.set p (s.get p).start else s

def timerRegister (s : Timers) (periodMs : Word) : Option (Fin nTimers) × Timers :=
  match (List.finRange nTimers).find? fun i => !(s.timers i).inUse with
  | none => (none, s)
  | some i => (some i, s.set (some i) { (s.timers i).init periodMs with inUse := true })

def timerIsExpired (s : Timers) (p : Option (Fin nTimers)) : Bool × Timers :=
  ((s.get p).isExpired, s.set p (s.get p).tested)

/-- An assignment of `initTimers`. -/
def register (s : Timers) (v : TimerVar) : Timers :=
  let r := s.timerRegister v.periodMs
  { r.2 with ptr := Function.update r.2.ptr v r.1 }

/-- `initTimers`, with its status. -/
def initTimers (s : Timers) : Bool × Timers :=
  let s := ((s.register .pTimerMpsTtl).register .pTimerRegistr).register .pTimerConsole
  ((s.ptr .pTimerMpsTtl).isSome && (s.ptr .pTimerRegistr).isSome && (s.ptr .pTimerConsole).isSome, s)

/-- What `extern_entryActionConfigured` does to the timers: it ignores the status. The
hardware timer was found, or it was not. -/
def entryActionConfigured (s : Timers) (hwTimer : Bool) : Timers :=
  if hwTimer then s.initTimers.2 else s

end Timers

/-! ### Runs -/

inductive TimerOp where
  | configure
  | tick
  | start (v : TimerVar)
  | isExpired (v : TimerVar)
  deriving DecidableEq, Repr

namespace Timers

def step (hwTimer : Bool) (s : Timers) : TimerOp → Timers
  | .configure => s.entryActionConfigured hwTimer
  | .tick => s.timerTickTimers
  | .start v => s.timerStart (s.ptr v)
  | .isExpired v => (s.timerIsExpired (s.ptr v)).2

def run (hwTimer : Bool) (s : Timers) (ops : List TimerOp) : Timers := ops.foldl (step hwTimer) s

theorem run_append (hwTimer : Bool) (s : Timers) (ops : List TimerOp) (op : TimerOp) :
    s.run hwTimer (ops ++ [op]) = (s.run hwTimer ops).step hwTimer op := by
  rw [run, List.foldl_append]
  rfl

/-- The pool as the program starts, with what is at address 0. -/
def boot (atNull : Timer) : Timers :=
  { timers := fun _ => ⟨0, 0, false, false⟩
    atNull
    ptr := fun _ => none }

/-- The number of tests in a run that report timer `v` expired. -/
def reports (hwTimer : Bool) (v : TimerVar) (s : Timers) : List TimerOp → Nat
  | [] => 0
  | op :: ops =>
      (if op = .isExpired v ∧ (s.timerIsExpired (s.ptr v)).1 then 1 else 0) +
        reports hwTimer v (s.step hwTimer op) ops

/-- The three timers are there, and they are three. -/
def Registered (s : Timers) : Prop :=
  ∃ f : TimerVar → Fin nTimers, Function.Injective f ∧ ∀ v, s.ptr v = some (f v)

end Timers

def configurations (ops : List TimerOp) : Nat := ops.count .configure

def ticks (ops : List TimerOp) : Nat := ops.count .tick

namespace Timers

/-! ### The pool -/

def Used (s : Timers) (n : Nat) : Prop := ∀ i, (s.timers i).inUse = true ↔ i.val < n

/-- The pointer to the `n`th timer. -/
def slot (n : Nat) : Option (Fin nTimers) := if h : n < nTimers then some ⟨n, h⟩ else none

theorem slot_eq_some {n : Nat} {i : Fin nTimers} : slot n = some i ↔ i.val = n := by
  rw [slot]
  split
  · rw [Option.some.injEq, eq_comm, Fin.ext_iff]
  · rename_i hn
    constructor
    · intro h
      cases h
    · intro h
      exact absurd (h ▸ i.isLt) hn

theorem timerRegister_slot {s : Timers} {n : Nat} (hused : s.Used n) (periodMs : Word) :
    s.timerRegister periodMs =
      (slot n, match slot n with
        | none => s
        | some i => s.set (some i) ⟨periodMs, 0, true, false⟩) := by
  have hfind : ((List.finRange nTimers).find? fun i => !(s.timers i).inUse) = slot n := by
    rw [slot]
    split
    · rename_i hn
      rw [List.find?_eq_some_iff_getElem]
      refine ⟨?_, n, by simpa using hn, by simp, ?_⟩
      · have hfree := mt (hused ⟨n, hn⟩).mp (Nat.lt_irrefl n)
        simpa using hfree
      · intro j hj
        have htaken := (hused ⟨j, hj.trans hn⟩).mpr hj
        simpa using htaken
    · rename_i hn
      rw [List.find?_eq_none]
      intro i _
      have htaken := (hused i).mpr (i.isLt.trans_le (Nat.not_lt.mp hn))
      simpa using htaken
  rw [timerRegister, hfind]
  cases slot n <;> rfl

theorem register_ptr {s : Timers} {n : Nat} (hused : s.Used n) (v : TimerVar) :
    (s.register v).ptr = Function.update s.ptr v (slot n) := by
  simp only [register, timerRegister_slot hused]
  cases slot n <;> rfl

theorem register_timers {s : Timers} {n : Nat} (hused : s.Used n) (v : TimerVar)
    (i : Fin nTimers) :
    (s.register v).timers i =
      if i.val = n then ⟨v.periodMs, 0, true, false⟩ else s.timers i := by
  simp only [register, timerRegister_slot hused]
  cases hslot : slot n with
  | none =>
      rw [if_neg]
      intro hi
      rw [slot_eq_some.mpr hi] at hslot
      cases hslot
  | some j =>
      have hj := slot_eq_some.mp hslot
      simp only [set, Function.update_apply, Fin.ext_iff, hj]

theorem register_used {s : Timers} {n : Nat} (hused : s.Used n) (v : TimerVar) :
    (s.register v).Used (n + 1) := by
  intro i
  rw [register_timers hused]
  split
  · rename_i hi
    simp [hi]
  · rename_i hi
    rw [hused i]
    omega

/-- The state of pool and pointers after `k` configurations. -/
structure Configured (s : Timers) (k : Nat) : Prop where
  used : s.Used (3 * k)
  ptr : ∀ v, s.ptr v = if k = 0 then none else slot (3 * (k - 1) + v.order)
  period : ∀ v i, s.ptr v = some i → (s.timers i).periodMs = v.periodMs

theorem boot_configured (atNull : Timer) : (boot atNull).Configured 0 where
  used i := by simp [boot]
  ptr _ := rfl
  period _ _ h := by cases h

/-- One entry into the state 'configured': the next three timers are taken. -/
theorem initTimers_spec {s : Timers} {n : Nat} (hused : s.Used n) :
    s.initTimers.2.Used (n + 3) ∧ (∀ v, s.initTimers.2.ptr v = slot (n + v.order)) ∧
      ∀ (v : TimerVar) (i : Fin nTimers), i.val = n + v.order →
        s.initTimers.2.timers i = ⟨v.periodMs, 0, true, false⟩ := by
  have hone := register_used hused .pTimerMpsTtl
  have htwo := register_used hone .pTimerRegistr
  refine ⟨register_used htwo .pTimerConsole, ?_, ?_⟩
  · intro v
    simp only [initTimers, register_ptr htwo, register_ptr hone, register_ptr hused]
    cases v <;> rfl
  · intro v i hi
    simp only [initTimers, register_timers htwo, register_timers hone, register_timers hused]
    cases v with
    | pTimerMpsTtl =>
        have hval : i.val = n := hi
        rw [if_neg (by omega), if_neg (by omega), if_pos hval]
    | pTimerRegistr =>
        have hval : i.val = n + 1 := hi
        rw [if_neg (by omega), if_pos hval]
    | pTimerConsole =>
        have hval : i.val = n + 1 + 1 := hi
        rw [if_pos hval]

/-- All operations but a configuration keep which timers are in use, their periods and the
pointers. -/
structure Keeps (s s' : Timers) : Prop where
  inUse : ∀ i, (s'.timers i).inUse = (s.timers i).inUse
  periodMs : ∀ i, (s'.timers i).periodMs = (s.timers i).periodMs
  ptr : s'.ptr = s.ptr

theorem set_keeps {s : Timers} {p : Option (Fin nTimers)} {t : Timer}
    (hinUse : t.inUse = (s.get p).inUse) (hperiod : t.periodMs = (s.get p).periodMs) :
    Keeps s (s.set p t) := by
  cases p with
  | none => exact ⟨fun _ => rfl, fun _ => rfl, rfl⟩
  | some j =>
      refine ⟨fun i => ?_, fun i => ?_, rfl⟩ <;>
      · simp only [set, Function.update_apply]
        split
        · rename_i hij
          subst hij
          assumption
        · rfl

theorem step_keeps (hwTimer : Bool) (s : Timers) {op : TimerOp} (hop : op ≠ .configure) :
    Keeps s (s.step hwTimer op) := by
  cases op with
  | configure => exact absurd rfl hop
  | tick =>
      refine ⟨fun i => ?_, fun i => ?_, rfl⟩ <;>
      · simp only [step, timerTickTimers, Timer.tick]
        split <;> rfl
  | start v =>
      simp only [step, timerStart]
      split
      · exact set_keeps rfl rfl
      · exact ⟨fun _ => rfl, fun _ => rfl, rfl⟩
  | isExpired v =>
      refine set_keeps ?_ ?_ <;>
      · rw [Timer.tested]
        split <;> rfl

theorem Configured.step {hwTimer : Bool} {s : Timers} {k : Nat} (h : s.Configured k)
    (hhw : hwTimer = true) (op : TimerOp) :
    (s.step hwTimer op).Configured (k + if op = .configure then 1 else 0) := by
  by_cases hop : op = .configure
  · subst hop
    obtain ⟨hused, hptr, htimers⟩ := initTimers_spec h.used
    simp only [Timers.step, entryActionConfigured, hhw, if_true]
    refine ⟨hused, ?_, ?_⟩
    · intro v
      rw [hptr, if_neg (Nat.succ_ne_zero k), Nat.add_sub_cancel]
    · intro v i hi
      rw [hptr] at hi
      rw [htimers v i (slot_eq_some.mp hi)]
  · rw [if_neg hop, Nat.add_zero]
    have hkeeps := step_keeps hwTimer s hop
    refine ⟨fun i => by rw [hkeeps.inUse]; exact h.used i, ?_, ?_⟩
    · rw [hkeeps.ptr]
      exact h.ptr
    · intro v i hi
      rw [hkeeps.ptr] at hi
      rw [hkeeps.periodMs]
      exact h.period v i hi

theorem run_configured (atNull : Timer) (ops : List TimerOp) :
    ((boot atNull).run true ops).Configured (configurations ops) := by
  induction ops using List.reverseRecOn with
  | nil => exact boot_configured atNull
  | append_singleton ops op ih =>
      have hstep := ih.step rfl op
      rw [run_append, configurations, List.count_append, List.count_singleton]
      simp only [beq_iff_eq]
      exact hstep

/-- Without the hardware timer nothing is registered. -/
theorem run_unregistered (atNull : Timer) (ops : List TimerOp) (v : TimerVar) :
    ((boot atNull).run false ops).ptr v = none := by
  induction ops using List.reverseRecOn with
  | nil => rfl
  | append_singleton ops op ih =>
      rw [run_append]
      by_cases hop : op = .configure
      · subst hop
        exact ih
      · rw [(step_keeps false _ hop).ptr]
        exact ih

theorem Configured.registered_iff {s : Timers} {k : Nat} (h : s.Configured k) :
    s.Registered ↔ k = 1 ∨ k = 2 := by
  constructor
  · rintro ⟨f, _, hf⟩
    have hlast := hf .pTimerConsole
    rw [h.ptr] at hlast
    split at hlast
    · cases hlast
    · have hval := slot_eq_some.mp hlast
      have hlt := (f .pTimerConsole).isLt
      have hn : nTimers = 8 := rfl
      have horder : TimerVar.pTimerConsole.order = 2 := rfl
      omega
  · intro hk
    have hroom : ∀ v : TimerVar, 3 * (k - 1) + v.order < nTimers := by
      intro v
      have hn : nTimers = 8 := rfl
      have horder : v.order ≤ 2 := by cases v <;> decide
      omega
    refine ⟨fun v => ⟨3 * (k - 1) + v.order, hroom v⟩, ?_, ?_⟩
    · intro v w hvw
      have horder : v.order = w.order := by
        have := Fin.ext_iff.mp hvw
        dsimp only at this
        omega
      revert horder
      cases v <;> cases w <;> decide
    · intro v
      rw [h.ptr, if_neg (by omega), slot, dif_pos (hroom v)]

/-! ### Expiry -/

/-- Timer `i` belongs to the variable `v` alone. -/
structure Owns (s : Timers) (v : TimerVar) (i : Fin nTimers) : Prop where
  ptr : s.ptr v = some i
  alone : ∀ w, s.ptr w = some i → w = v
  period : (s.timers i).periodMs = v.periodMs
  inUse : (s.timers i).inUse = true

theorem Configured.owns {s : Timers} {k : Nat} (h : s.Configured k) (hk : k = 1 ∨ k = 2)
    (v : TimerVar) : ∃ i, s.Owns v i := by
  obtain ⟨f, hinj, hf⟩ := h.registered_iff.mpr hk
  refine ⟨f v, hf v, ?_, h.period v _ (hf v), ?_⟩
  · intro w hw
    rw [hf w, Option.some.injEq] at hw
    exact hinj hw
  · have hval := hf v
    rw [h.ptr, if_neg (by omega)] at hval
    rw [h.used, slot_eq_some.mp hval]
    have horder : v.order ≤ 2 := by cases v <;> decide
    omega

theorem Keeps.owns {s s' : Timers} (h : Keeps s s') {v : TimerVar} {i : Fin nTimers}
    (howns : s.Owns v i) : s'.Owns v i where
  ptr := by rw [h.ptr]; exact howns.ptr
  alone w hw := howns.alone w (by rwa [h.ptr] at hw)
  period := by rw [h.periodMs]; exact howns.period
  inUse := by rw [h.inUse]; exact howns.inUse

theorem set_other {s : Timers} {p : Option (Fin nTimers)} {i : Fin nTimers} (hp : p ≠ some i)
    (t : Timer) : (s.set p t).timers i = s.timers i := by
  cases p with
  | none => rfl
  | some j => exact Function.update_of_ne (fun h => hp (congrArg some h.symm)) _ _

/-- Operations on the other variables leave a timer as it is. -/
theorem Owns.step_other {hwTimer : Bool} {s : Timers} {v : TimerVar} {i : Fin nTimers}
    (h : s.Owns v i) {op : TimerOp} (hconfigure : op ≠ .configure) (hstart : op ≠ .start v)
    (htest : op ≠ .isExpired v) (htick : op ≠ .tick) :
    (s.step hwTimer op).timers i = s.timers i := by
  cases op with
  | configure => exact absurd rfl hconfigure
  | tick => exact absurd rfl htick
  | start w =>
      have hw : s.ptr w ≠ some i := fun hw => hstart (by rw [h.alone w hw])
      simp only [step, timerStart]
      split
      · exact set_other hw _
      · rfl
  | isExpired w => exact set_other (fun hw => htest (by rw [h.alone w hw])) _

theorem Owns.test {s : Timers} {v : TimerVar} {i : Fin nTimers} (h : s.Owns v i) :
    (s.timerIsExpired (s.ptr v)).1 = (s.timers i).isExpired ∧
      (s.timerIsExpired (s.ptr v)).2.timers i = (s.timers i).tested := by
  rw [h.ptr]
  exact ⟨rfl, Function.update_self ..⟩

/-- The operations after a start, up to the next one or the next configuration. -/
def Unrestarted (v : TimerVar) (ops : List TimerOp) : Prop :=
  ∀ op ∈ ops, op ≠ .configure ∧ op ≠ .start v

instance (v : TimerVar) (ops : List TimerOp) : Decidable (Unrestarted v ops) :=
  inferInstanceAs (Decidable (∀ op ∈ ops, op ≠ .configure ∧ op ≠ .start v))

/-- What a timer that was started `n` ticks ago owes in the operations `ops`: it is reported
once, in the first test after its period, and not before. -/
structure ExpiresOnce (hwTimer : Bool) (v : TimerVar) (s : Timers) (n : Nat)
    (ops : List TimerOp) : Prop where
  notEarly : n + ticks ops < v.periodMs.toNat → s.reports hwTimer v ops = 0
  once : s.reports hwTimer v ops ≤ 1
  due : ∀ ops', ops = ops' ++ [.isExpired v] → v.periodMs.toNat ≤ n + ticks ops' →
    s.reports hwTimer v ops = 1

theorem Owns.reports_idle {hwTimer : Bool} {v : TimerVar} {i : Fin nTimers} :
    ∀ {ops : List TimerOp} {s : Timers}, s.Owns v i → (s.timers i).running = false →
      Unrestarted v ops → s.reports hwTimer v ops = 0
  | [], _, _, _, _ => rfl
  | op :: ops, s, h, hidle, hops => by
      obtain ⟨hconfigure, hstart⟩ := hops op List.mem_cons_self
      have hexpired : (s.timers i).isExpired = false := by rw [Timer.isExpired, hidle]; rfl
      have hidle' : ((s.step hwTimer op).timers i).running = false := by
        by_cases htick : op = .tick
        · subst htick
          simp only [step, timerTickTimers, Timer.tick, hidle]
          exact hidle
        by_cases htest : op = .isExpired v
        · subst htest
          simp only [step, h.test.2, Timer.tested, hexpired]
          exact hidle
        · rw [h.step_other hconfigure hstart htest htick]
          exact hidle
      have hrest : (s.step hwTimer op).reports hwTimer v ops = 0 :=
        ((step_keeps hwTimer s hconfigure).owns h).reports_idle hidle'
          fun o ho => hops o (List.mem_cons_of_mem _ ho)
      rw [reports, hrest, h.test.1, hexpired, if_neg fun hc => by cases hc.2]

theorem ExpiresOnce.cons {hwTimer : Bool} {v : TimerVar} {s s' : Timers} {n d : Nat} {op : TimerOp}
    {ops : List TimerOp} (hreports : s.reports hwTimer v (op :: ops) = s'.reports hwTimer v ops)
    (hticks : ∀ l, ticks (op :: l) = d + ticks l)
    (hlast : op = .isExpired v → n < v.periodMs.toNat) (h : ExpiresOnce hwTimer v s' (n + d) ops) :
    ExpiresOnce hwTimer v s n (op :: ops) where
  notEarly hearly := by
    rw [hticks] at hearly
    rw [hreports]
    exact h.notEarly (by omega)
  once := by
    rw [hreports]
    exact h.once
  due ops' hops' hperiod := by
    rw [hreports]
    cases ops' with
    | nil =>
        have hop : op = .isExpired v := (List.cons.inj hops').1
        exact absurd (hlast hop) (Nat.not_lt.mpr hperiod)
    | cons o rest =>
        obtain ⟨rfl, hrest⟩ := List.cons.inj hops'
        rw [hticks] at hperiod
        exact h.due rest hrest (by omega)

theorem Owns.reports_running {hwTimer : Bool} {v : TimerVar} {i : Fin nTimers} :
    ∀ {ops : List TimerOp} {s : Timers} {n : Nat}, s.Owns v i → (s.timers i).running = true →
      (s.timers i).elapsedMs.toNat = n → Unrestarted v ops → n + ticks ops < 2 ^ 32 →
      ExpiresOnce hwTimer v s n ops
  | [], _, _, _, _, _, _, _ => ⟨fun _ => rfl, Nat.zero_le _, fun ops' h => by simp at h⟩
  | op :: ops, s, n, h, hrunning, hn, hops, hlt => by
      obtain ⟨hconfigure, hstart⟩ := hops op List.mem_cons_self
      have hops' : Unrestarted v ops := fun o ho => hops o (List.mem_cons_of_mem _ ho)
      have howns := (step_keeps hwTimer s hconfigure).owns h
      by_cases htick : op = .tick
      · subst htick
        have hticks : ∀ l, ticks (.tick :: l) = 1 + ticks l := fun l => by
          rw [ticks, List.count_cons_self, Nat.add_comm]
          rfl
        rw [hticks] at hlt
        have htimer : (s.step hwTimer .tick).timers i =
            { s.timers i with elapsedMs := (s.timers i).elapsedMs + 1 } := if_pos hrunning
        refine .cons ?_ hticks (fun hc => by cases hc) (howns.reports_running ?_ ?_ hops' ?_)
        · rw [reports, if_neg (fun hc => by cases hc.1), Nat.zero_add]
        · rw [htimer]
          exact hrunning
        · rw [htimer]
          have hadd := BitVec.toNat_add (s.timers i).elapsedMs 1
          rw [hn] at hadd
          have hone : (1 : Word).toNat = 1 := rfl
          rw [hone, Nat.mod_eq_of_lt (by omega)] at hadd
          exact hadd
        · omega
      have hticks : ∀ l, ticks (op :: l) = 0 + ticks l := fun l => by
        rw [ticks, List.count_cons_of_ne htick, Nat.zero_add]
        rfl
      rw [hticks, Nat.zero_add] at hlt
      by_cases htest : op = .isExpired v
      · subst htest
        have hexpired : (s.timers i).isExpired = true ↔ v.periodMs.toNat ≤ n := by
          rw [Timer.isExpired, hrunning, h.period, Bool.true_and, decide_eq_true_iff,
            BitVec.le_def, hn]
        have htested : (s.step hwTimer (.isExpired v)).timers i = (s.timers i).tested := h.test.2
        by_cases hperiod : v.periodMs.toNat ≤ n
        · have hidle : ((s.step hwTimer (.isExpired v)).timers i).running = false := by
            rw [htested, Timer.tested, if_pos (hexpired.mpr hperiod)]
          have hone : s.reports hwTimer v (.isExpired v :: ops) = 1 := by
            rw [reports, howns.reports_idle hidle hops', if_pos]
            exact ⟨rfl, h.test.1.trans (hexpired.mpr hperiod)⟩
          refine ⟨fun hearly => ?_, hone.le, fun _ _ _ => hone⟩
          exact absurd hperiod (Nat.not_le.mpr ((Nat.le_add_right ..).trans_lt hearly))
        · have hnot : (s.timers i).tested = s.timers i := if_neg (mt hexpired.mp hperiod)
          refine .cons ?_ hticks (fun _ => Nat.not_le.mp hperiod)
            (howns.reports_running ?_ ?_ hops' hlt)
          · rw [reports, h.test.1, if_neg fun hc => hperiod (hexpired.mp hc.2), Nat.zero_add]
          · rw [htested, hnot]
            exact hrunning
          · rw [htested, hnot]
            exact hn
      · have hsame : (s.step hwTimer op).timers i = s.timers i :=
          h.step_other hconfigure hstart htest htick
        refine .cons ?_ hticks (fun hc => absurd hc htest) (howns.reports_running ?_ ?_ hops' hlt)
        · rw [reports, if_neg fun hc => htest hc.1, Nat.zero_add]
        · rw [hsame]
          exact hrunning
        · rw [hsame]
          exact hn

theorem Owns.started {hwTimer : Bool} {s : Timers} {v : TimerVar} {i : Fin nTimers}
    (h : s.Owns v i) :
    (s.step hwTimer (.start v)).timers i = (s.timers i).start := by
  have hinUse : (s.get (s.ptr v)).inUse = true := by rw [h.ptr]; exact h.inUse
  simp only [step, timerStart, if_pos hinUse]
  rw [h.ptr]
  exact Function.update_self ..

theorem Configured.fresh {s : Timers} {k : Nat} (h : s.Configured k) {v : TimerVar}
    {i : Fin nTimers} (howns : (s.step true .configure).Owns v i) :
    ((s.step true .configure).timers i).running = false := by
  obtain ⟨_, hptr, htimers⟩ := initTimers_spec h.used
  have hstep : s.step true .configure = s.initTimers.2 := rfl
  have hi := howns.ptr
  rw [hstep, hptr] at hi
  rw [hstep, htimers v i (slot_eq_some.mp hi)]

def Valid (hwTimer : Bool) (s : Timers) (ops : List TimerOp) : Prop :=
  ∀ pre, pre <+: ops → 0 < configurations pre → (s.run hwTimer pre).Registered

theorem valid_iff (hwTimer : Bool) (atNull : Timer) (ops : List TimerOp) :
    Valid hwTimer (boot atNull) ops ↔
      configurations ops = 0 ∨ hwTimer = true ∧ configurations ops ≤ 2 := by
  constructor
  · intro h
    by_cases hzero : configurations ops = 0
    · exact Or.inl hzero
    have hregistered := h ops (List.prefix_rfl) (Nat.pos_of_ne_zero hzero)
    cases hwTimer with
    | false =>
        obtain ⟨f, _, hf⟩ := hregistered
        have hnull := run_unregistered atNull ops .pTimerConsole
        rw [hf] at hnull
        cases hnull
    | true =>
        have hk := (run_configured atNull ops).registered_iff.mp hregistered
        exact Or.inr ⟨rfl, by omega⟩
  · rintro h pre hpre hpos
    have hle : configurations pre ≤ configurations ops := hpre.sublist.count_le _
    rcases h with hzero | ⟨rfl, htwo⟩
    · omega
    · exact (run_configured atNull pre).registered_iff.mpr (by omega)

/-- **When the timers stay valid**: the pointers are valid from the first configuration on if
and only if there are no more than two configurations; and then, in every run and for each of
the three timers, every start is reported once, in the first test after the period, and not
before, and nothing is reported between a configuration and the next start. A timer that is
not tested for 49.7 days overflows. -/
theorem timers_stay_valid (hwTimer : Bool) (atNull : Timer) (ops : List TimerOp) :
    (Valid hwTimer (boot atNull) ops ↔
      configurations ops = 0 ∨ hwTimer = true ∧ configurations ops ≤ 2) ∧
    (hwTimer = true → configurations ops ≤ 2 → ∀ v pre post, Unrestarted v post →
      (ops = pre ++ .start v :: post → 0 < configurations pre → ticks post < 2 ^ 32 →
        ExpiresOnce hwTimer v ((boot atNull).run hwTimer (pre ++ [.start v])) 0 post) ∧
      (ops = pre ++ .configure :: post →
        ((boot atNull).run hwTimer (pre ++ [.configure])).reports hwTimer v post = 0)) := by
  refine ⟨valid_iff hwTimer atNull ops, ?_⟩
  rintro rfl htwo v pre post hpost
  have hpre := run_configured atNull pre
  constructor
  · rintro rfl hpos hlt
    rw [configurations, List.count_append, ← configurations] at htwo
    obtain ⟨i, howns⟩ := hpre.owns (by omega) v
    have hstarted : (((boot atNull).run true pre).step true (.start v)).timers i =
        (((boot atNull).run true pre).timers i).start := howns.started
    rw [run_append]
    refine ((step_keeps true _ (by simp)).owns howns).reports_running ?_ ?_ hpost (by omega)
    · rw [hstarted]
      rfl
    · rw [hstarted]
      rfl
  · rintro rfl
    rw [configurations, List.count_append, List.count_cons_self, ← configurations] at htwo
    rw [run_append]
    have hafter := hpre.step rfl .configure
    rw [if_pos rfl] at hafter
    obtain ⟨i, howns⟩ := hafter.owns (by omega) v
    exact howns.reports_idle (hpre.fresh howns) hpost

/-- The lifetime timer after a second configuration. -/
theorem timers_stay_valid_sample :
    ExpiresOnce true .pTimerMpsTtl
      ((boot ⟨0, 0, false, false⟩).run true
        ([.configure, .start .pTimerMpsTtl, .configure] ++ [.start .pTimerMpsTtl])) 0
      [.isExpired .pTimerMpsTtl, .tick, .start .pTimerConsole, .isExpired .pTimerMpsTtl] :=
  ((timers_stay_valid true ⟨0, 0, false, false⟩
    [.configure, .start .pTimerMpsTtl, .configure, .start .pTimerMpsTtl,
      .isExpired .pTimerMpsTtl, .tick, .start .pTimerConsole, .isExpired .pTimerMpsTtl]).2 rfl
    (by decide) .pTimerMpsTtl [.configure, .start .pTimerMpsTtl, .configure] _ (by decide)).1 rfl
    (by decide) (by decide)

/-- **The third configuration finds two free timers**: the console timer is a null pointer,
and `initTimers` says so to nobody. -/
theorem timers_run_out : ∃ (atNull : Timer) (ops : List TimerOp),
    ops = [.configure, .configure, .configure] ∧
      ¬ ((boot atNull).run true ops).Registered ∧
      ((boot atNull).run true ops).ptr .pTimerConsole = none := by
  refine ⟨⟨0, 0, false, false⟩, _, rfl, ?_, ?_⟩
  · rw [(run_configured _ _).registered_iff]
    decide
  · rw [(run_configured _ _).ptr]
    decide

end Timers

end Fbas
