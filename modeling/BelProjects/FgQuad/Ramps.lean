import BelProjects.FgQuad.Segments
import Mathlib.Data.Nat.Count

/-!
# Ramps from a chain of tuples

When each tuple is there in time, the strobes of a ramp follow each other at the distance of
the frequency counter and show the parabolas of the tuples one after the other.
-/

namespace FgQuad

open Datapath

/-- The machine takes over a new tuple in this clock. -/
def Datapath.reload (s : Datapath) : Bool :=
  s.control.state = .quadInc && s.stpReached && s.freqEn && s.control.coeffRcvd

section Chain

variable (s : Nat → Datapath) (inp : Nat → Inputs) (tuple : Nat → Tuple) (t₀ : Nat)

/-- The reloads between the start and clock `t`. -/
def reloads (t : Nat) : Nat := Nat.count (fun u => t₀ < u ∧ (s u).reload = true) t

/-- A chain of tuples from a start up to clock `last`: the first one is there at the start, its
selections since the start value was written, and each other one while the step counter is
expired. -/
structure Supply (last : Nat) : Prop where
  idle : (s t₀).control.state = .idle
  start : (inp t₀).syncStart = true
  selected : ∃ w < t₀, (inp w).loadStart = true ∧
    ∀ u, w ≤ u → u ≤ t₀ → (inp u).syncRst = false ∧ (inp u).stepSel = (tuple 0).stepSel
  first : (inp t₀).Presents (tuple 0)
  quiet : ∀ t, t₀ < t → t ≤ last → (inp t).Quiet
  supplied : ∀ t, t₀ < t → t ≤ last → (s t).stpReached = true →
    (inp t).Presents (tuple (reloads s t₀ t + 1))

/-- Each tuple has been written with its pulse of `a_en` while the step counter was running. -/
structure Chain (last : Nat) : Prop extends Supply s inp tuple t₀ last where
  received : ∀ t, t₀ < t → t ≤ last → (s t).stpReached = true →
    ∃ w, t₀ < w ∧ w < t ∧ (inp w).aEn = true ∧ (s w).stpReached = false ∧ reloads s t₀ w = reloads s t₀ t

/-- The clocks in which the frequency counter has run down. -/
def tick : Nat → Nat
  | 0 => t₀ + cFreqCnt (s t₀).reg.freqSel + 3
  | n + 1 => tick n + cFreqCnt (s (tick n)).reg.freqSel + 2

/-- The place in the chain up to tick `n`. -/
def place : Nat → Place
  | 0 => ⟨0, 0⟩
  | n + 1 => (place n).next tuple

def Place.reloaded (p : Place) : Nat := if p.Expired then p.segment - 1 else p.segment

/-- Up to clock `bound` the machine finds the coefficients it needs. -/
def Fed (bound : Nat) : Prop := ∀ n, tick s t₀ n ≤ bound → (place tuple n).Expired →
  (s (tick s t₀ n)).stpReached = true → reloads s t₀ (tick s t₀ n) = (place tuple n).reloaded →
  (s (tick s t₀ n)).control.coeffRcvd = true

/-- Where a running machine is in clock `u`. -/
inductive Phase (u : Nat) : Prop where
  | waiting (n d : Nat) (htick : u + d = tick s t₀ n) (hd : d ≤ 2 ^ 13)
      (hbefore : ∀ m < n, tick s t₀ m + 3 ≤ u) (hholding : Holding tuple (place tuple n) (s u))
      (hfreq : (s u).freqCnt = BitVec.ofNat 14 d - 1) (hreloads : reloads s t₀ u = (place tuple n).reloaded)
  | ticked (n : Nat) (htick : u = tick s t₀ n + 1)
      (hticked : Ticked tuple (place tuple n) (s (tick s t₀ n)).reg.freqSel (s u))
      (hwithin : (place tuple n).sample ≤ lastSample tuple (place tuple n).segment)
      (hreloads : reloads s t₀ u = (place tuple (n + 1)).reloaded)
  | added (n : Nat) (htick : u = tick s t₀ n + 2)
      (hadded : Added tuple (place tuple n) (s (tick s t₀ n)).reg.freqSel (s u))
      (hwithin : (place tuple n).sample ≤ lastSample tuple (place tuple n).segment)
      (hreloads : reloads s t₀ u = (place tuple (n + 1)).reloaded)

variable {s inp tuple t₀}

variable (s t₀) in
theorem tick_lt_succ (n : Nat) : tick s t₀ n + 4 < tick s t₀ (n + 1) := by
  have hbound := (cFreqCnt_bounds (s (tick s t₀ n)).reg.freqSel).1
  rw [tick]
  omega

variable (s t₀) in
theorem tick_strictMono : StrictMono (tick s t₀) :=
  strictMono_nat_of_lt_succ fun n => by
    have := tick_lt_succ s t₀ n
    omega

variable (s t₀) in
theorem lt_tick (n : Nat) : t₀ + 2 < tick s t₀ n := by
  have hzero : t₀ + 2 < tick s t₀ 0 := by
    rw [tick]
    omega
  exact lt_of_lt_of_le hzero ((tick_strictMono s t₀).monotone (Nat.zero_le n))

theorem tick_window {m n i j : Nat} (hi : i ≤ 4) (hj : j ≤ 4) (h : tick s t₀ m + i = tick s t₀ n + j) :
    m = n := by
  have hnear := tick_lt_succ s t₀
  have hmono := tick_strictMono s t₀
  rcases lt_trichotomy m n with hlt | heq | hgt
  · have hle : tick s t₀ (m + 1) ≤ tick s t₀ n := hmono.monotone hlt
    have := hnear m
    omega
  · exact heq
  · have hle : tick s t₀ (n + 1) ≤ tick s t₀ m := hmono.monotone hgt
    have := hnear n
    omega

variable (s t₀) in
theorem reloads_succ (t : Nat) : reloads s t₀ (t + 1) =
    reloads s t₀ t + if t₀ < t ∧ (s t).reload = true then 1 else 0 := Nat.count_succ _ _

theorem reload_of_ne {x : Datapath} (h : x.control.state ≠ .quadInc) : x.reload = false := by
  simp [Datapath.reload, h]

/-- The machine finds no parameters in this clock. -/
def Datapath.stops (s : Datapath) : Bool :=
  s.control.state = .quadInc && s.stpReached && s.freqEn && !s.control.coeffRcvd

theorem coeffRcvd_step {i : Inputs} {x : Datapath} (hi : i.Quiet) :
    (x.step i).control.coeffRcvd = (!x.reload && (i.aEn || x.control.coeffRcvd)) := by
  cases hst : x.control.state with
  | quadInc =>
      cases hstp : x.stpReached <;> cases hfreq : x.freqEn <;> cases hold : x.control.coeffRcvd <;>
        simp [step, controlSm, Datapath.reload, hi.syncRst, hst, hstp, hfreq, hold]
  | idle | load | linInc | addXQ =>
      simp [step, controlSm, Datapath.reload, hi.syncRst, hi.syncStart, hst]

theorem signalStateChange_step {i : Inputs} {x : Datapath} (hi : i.syncRst = false) :
    (x.step i).control.signalStateChange = x.stops := by
  cases hst : x.control.state with
  | quadInc =>
      cases hstp : x.stpReached <;> cases hfreq : x.freqEn <;> cases hold : x.control.coeffRcvd <;>
        simp [step, controlSm, Datapath.stops, hi, hst, hstp, hfreq, hold]
  | idle | load | linInc | addXQ => simp [step, controlSm, Datapath.stops, hi, hst]

theorem stalled_step {i : Inputs} {x : Datapath} (hi : i.Quiet) (hreload : x.reload = false)
    (h : x.stpReached = true ∨ x.control.state = .idle) :
    (x.step i).stpReached = true ∨ (x.step i).control.state = .idle := by
  cases hst : x.control.state with
  | idle => exact Or.inr (by simp [step, controlSm, hi.syncRst, hi.syncStart, hst])
  | load | linInc | addXQ =>
      have hstp : x.control.stepCnt.msb = true := by
        simpa [stpReached, hst] using h
      exact Or.inl (by simp [step, controlSm, stpReached, hi.syncRst, hst, hstp])
  | quadInc =>
      have hstp : x.stpReached = true := by
        simpa [hst] using h
      cases hfreq : x.freqEn with
      | false =>
          refine Or.inl ?_
          simpa [step, controlSm, stpReached, hi.syncRst, hst, hfreq] using hstp
      | true =>
          have hrcvd : x.control.coeffRcvd = false := by
            simpa [Datapath.reload, hst, hstp, hfreq] using hreload
          exact Or.inr (by simp [step, controlSm, hi.syncRst, hst, hstp, hfreq, hrcvd])

/-- Between two clocks with the same number of reloads there is none. -/
theorem no_reload_between {t w : Nat} (ht : t₀ < t) (hcount : reloads s t₀ w ≤ reloads s t₀ t) {u : Nat}
    (hu : t ≤ u) (huw : u < w) : (s u).reload = false := by
  by_contra hreload
  rw [Bool.not_eq_false] at hreload
  have hstep := reloads_succ s t₀ u
  rw [if_pos ⟨lt_of_lt_of_le ht hu, hreload⟩] at hstep
  have hbefore : reloads s t₀ t ≤ reloads s t₀ u := Nat.count_monotone _ hu
  have hafter : reloads s t₀ (u + 1) ≤ reloads s t₀ w := Nat.count_monotone _ huw
  omega

theorem stalled (hrun : ∀ t, s (t + 1) = (s t).step (inp t)) {t w : Nat} (ht : t₀ < t)
    (hquiet : ∀ u, t ≤ u → u < w → (inp u).Quiet) (hcount : reloads s t₀ w ≤ reloads s t₀ t)
    (hstp : (s t).stpReached = true) : ∀ u, t ≤ u → u ≤ w →
      (s u).stpReached = true ∨ (s u).control.state = .idle := by
  intro u hu
  induction u, hu using Nat.le_induction with
  | base => exact fun _ => Or.inl hstp
  | succ u hu ih =>
      intro huw
      rw [hrun]
      exact stalled_step (hquiet u hu huw) (no_reload_between ht hcount hu huw) (ih (Nat.le_of_succ_le huw))

variable {last : Nat}

theorem Supply.stepSel (h : Supply s inp tuple t₀ last) (hrun : ∀ t, s (t + 1) = (s t).step (inp t)) :
    (s t₀).reg.stepSel = (tuple 0).stepSel := by
  obtain ⟨w, hw, hload, hsame⟩ := h.selected
  have hfrom (u : Nat) (hu : w + 1 ≤ u) : u ≤ t₀ → (s u).reg.stepSel = (tuple 0).stepSel := by
    induction u, hu using Nat.le_induction with
    | base =>
        intro _
        obtain ⟨hrst, hsel⟩ := hsame w le_rfl hw.le
        rw [hrun, ← hsel]
        simp only [step, regFile, hrst, hload, Bool.or_true, Bool.false_eq_true, if_false, if_true]
        split <;> rfl
    | succ u hu ih =>
        intro hle
        obtain ⟨hrst, hsel⟩ := hsame u (Nat.le_of_succ_le hu) (Nat.le_of_succ_le hle)
        have hold := ih (Nat.le_of_succ_le hle)
        rw [hrun]
        simp only [step, regFile, hrst, Bool.false_eq_true, if_false]
        cases (s u).stpReached <;> cases (inp u).syncStart <;> cases (inp u).loadStart <;>
          cases (s u).control.incQuad <;> simp [hold, hsel]
  exact hfrom t₀ hw le_rfl

def IdleQuiet (x : Datapath) : Prop := x.control.state = .idle → x.control.incQuad = false

theorem idleQuiet_step {x : Datapath} (i : Inputs) : IdleQuiet (x.step i) := by
  intro hidle
  cases hrst : i.syncRst with
  | true => simp [step, controlSm, hrst]
  | false =>
      cases hst : x.control.state with
      | quadInc =>
          cases hstp : x.stpReached <;> cases hfreq : x.freqEn <;> cases hrcvd : x.control.coeffRcvd <;>
            simp_all [step, controlSm]
      | idle | load | linInc | addXQ => simp [step, controlSm, hrst, hst]

theorem idleQuiet_run (hrun : ∀ t, s (t + 1) = (s t).step (inp t)) (hinit : IdleQuiet (s 0)) :
    ∀ t, IdleQuiet (s t)
  | 0 => hinit
  | t + 1 => by
      rw [hrun]
      exact idleQuiet_step _

/-! ## From the start to the first tick -/

theorem swStrobe_step {i : Inputs} {x : Datapath} (hi : i.syncRst = false) :
    (x.step i).swStrobe = decide (x.control.state = .addXQ) := by
  cases hst : x.control.state with
  | quadInc =>
      cases hstp : x.stpReached <;> cases hfreq : x.freqEn <;> cases hrcvd : x.control.coeffRcvd <;>
        simp [swStrobe, step, controlSm, hi, hst, hstp, hfreq, hrcvd]
  | idle | load | linInc | addXQ => simp [swStrobe, step, controlSm, hi, hst]

theorem stepCnt_first (hsel : (s t₀).reg.stepSel = (tuple 0).stepSel) :
    BitVec.ofNat 16 (cStepCnt (s t₀).reg.stepSel) = (place tuple 0).stepCnt tuple := by
  have hnot : ¬ (place tuple 0).Expired := fun h => absurd h.1 (Nat.lt_irrefl 0)
  rw [Place.stepCnt, if_neg hnot, hsel, (cStepCnt_eq _).1]
  rfl

theorem Supply.control_start (h : Supply s inp tuple t₀ last) (hrun : ∀ t, s (t + 1) = (s t).step (inp t)) :
    (s (t₀ + 1)).control = { (s t₀).control with
      state := .quadInc, isRunning := false, incQuad := false, addLinQuad := false, freqCntEn := false,
      signalStateChange := false, segmentFinished := false, coeffRcvd := false,
      stepCnt := BitVec.ofNat 16 (cStepCnt (s t₀).reg.stepSel) } := by
  obtain ⟨w, hw, -, hsame⟩ := h.selected
  obtain ⟨hrst, -⟩ := hsame t₀ hw.le le_rfl
  rw [hrun]
  simp [step, controlSm, hrst, h.idle, h.start]

theorem Supply.stpReached_start (h : Supply s inp tuple t₀ last)
    (hrun : ∀ t, s (t + 1) = (s t).step (inp t)) : (s (t₀ + 1)).stpReached = false := by
  have hnot : ¬ (place tuple 0).Expired := fun hexp => absurd hexp.1 (Nat.lt_irrefl 0)
  rw [stpReached, h.control_start hrun, stepCnt_first (h.stepSel hrun), msb_stepCnt, decide_eq_false hnot]

/-- Two clocks after the start the machine holds the first value and counts. -/
theorem Supply.begin (h : Supply s inp tuple t₀ last) (hrun : ∀ t, s (t + 1) = (s t).step (inp t))
    (hquiet : IdleQuiet (s t₀)) (hlast : t₀ < last) :
    Phase s tuple t₀ (t₀ + 2) ∧ (s (t₀ + 1)).swStrobe = false ∧ (s (t₀ + 2)).swStrobe = false := by
  obtain ⟨w, hw, -, hsame⟩ := h.selected
  obtain ⟨hrst, -⟩ := hsame t₀ hw.le le_rfl
  have hq₁ := h.quiet (t₀ + 1) (Nat.lt_succ_self _) hlast
  have hsel := h.stepSel hrun
  obtain ⟨hbound, hbound'⟩ := cFreqCnt_bounds (s t₀).reg.freqSel
  have hcontrol := h.control_start hrun
  obtain ⟨ha, hqq, hx⟩ := regFile_load (s := s t₀) hrst (Or.inr h.start) (hquiet h.idle)
  obtain ⟨ha', hqq', hx'⟩ := h.first.shifted
  have hfreq : (s (t₀ + 1)).freqCnt = BitVec.ofNat 14 (cFreqCnt (s t₀).reg.freqSel) := by
    rw [hrun]
    simp [step, nextFreqCnt, h.start]
  have hen : (s (t₀ + 1)).freqEn = false := by
    rw [freqEn, hfreq]
    simpa using freqEn_ofNat_sub (s t₀).reg.freqSel 0 (by decide)
  have hnot : ¬ (place tuple 0).Expired := fun hexp => absurd hexp.1 (Nat.lt_irrefl 0)
  have hstp := h.stpReached_start hrun
  have hstep : s (t₀ + 2) = (s (t₀ + 1)).step (inp (t₀ + 1)) := hrun (t₀ + 1)
  have hcontrol₂ : (s (t₀ + 2)).control = { (s (t₀ + 1)).control with
      incQuad := false, addLinQuad := false, freqCntEn := true, isRunning := true,
      signalStateChange := false, segmentFinished := false,
      coeffRcvd := (inp (t₀ + 1)).aEn || (s (t₀ + 1)).control.coeffRcvd } := by
    have hstate : (s (t₀ + 1)).control.state = .quadInc := by
      rw [hcontrol]
    rw [hstep]
    simp [step, controlSm, hq₁.syncRst, hstate, hen]
  obtain ⟨ka, kq, kx⟩ := regFile_keep (s := s (t₀ + 1)) hq₁ hstp (by rw [hcontrol])
  have hreg : (s (t₀ + 1)).reg = (s t₀).regFile (inp t₀) := by
    rw [hrun]
    rfl
  have hholding : Holding tuple (place tuple 0) (s (t₀ + 2)) := by
    refine ⟨by rw [hcontrol₂, hcontrol], by rw [hcontrol₂], by rw [hcontrol₂], ?_, ?_, ?_, ?_,
      fun hexp => absurd hexp hnot, Nat.zero_le _⟩
    · rw [hcontrol₂, hcontrol]
      exact stepCnt_first hsel
    · rw [hstep]
      exact ka.trans (by rw [hreg]; exact ha.trans ha')
    · rw [hstep]
      refine kq.trans ?_
      rw [hreg]
      exact (hqq.trans hqq').trans (Tuple.slope_zero _).symm
    · rw [hstep]
      refine kx.trans ?_
      rw [hreg]
      exact (hx.trans hx').trans (Tuple.value_zero _).symm
  refine ⟨.waiting 0 (cFreqCnt (s t₀).reg.freqSel + 1) ?_ (by omega) (fun m hm => absurd hm (Nat.not_lt_zero m))
    hholding ?_ ?_, by rw [swStrobe, hcontrol], by rw [swStrobe, hcontrol₂]⟩
  · rw [tick]
    omega
  · rw [hstep]
    have hkeep : (s (t₀ + 1)).nextFreqCnt (inp (t₀ + 1)) = (s (t₀ + 1)).freqCnt := by
      simp [nextFreqCnt, hq₁.syncRst, hq₁.syncStart, hen, hcontrol]
    refine hkeep.trans ?_
    rw [hfreq, BitVec.ofNat_add]
    exact (BitVec.add_sub_cancel _ _).symm
  · have hnone : ∀ u < t₀ + 2, ¬ (t₀ < u ∧ (s u).reload = true) := by
      rintro u hu ⟨hlt, hreload⟩
      obtain rfl : u = t₀ + 1 := by omega
      simp [Datapath.reload, hstp] at hreload
    rw [reloads, Place.reloaded, if_neg hnot, Nat.count_iff_forall_not.mpr hnone]
    rfl

/-! ## From clock to clock -/

theorem Place.reloaded_next (p : Place) :
    (p.next tuple).reloaded = p.reloaded + if p.Expired then 1 else 0 := by
  have hnext := next_expired tuple p
  have htwo := two_le_lastSample tuple p.segment
  by_cases hlast : p.sample = lastSample tuple p.segment
  · have hnot : ¬ p.Expired := by
      rintro ⟨-, hzero⟩
      omega
    rw [Place.reloaded, if_pos (hnext.mpr hlast), Place.reloaded, if_neg hnot, if_neg hnot, Place.next,
      if_pos hlast]
    rfl
  · rw [Place.reloaded, if_neg (fun hexp => hlast (hnext.mp hexp)), Place.reloaded, Place.next, if_neg hlast]
    by_cases hexp : p.Expired
    · rw [if_pos hexp, if_pos hexp]
      exact (Nat.sub_add_cancel hexp.1).symm
    · rw [if_neg hexp, if_neg hexp]
      rfl

/-- Once a tuple has been received it stays so until the reload. -/
theorem coeffRcvd_of_pulse (hrun : ∀ t, s (t + 1) = (s t).step (inp t)) {t w : Nat}
    (hquiet : ∀ u, t₀ < u → u ≤ t → (inp u).Quiet) (hw : t₀ < w) (hwt : w < t)
    (hen : (inp w).aEn = true) (hcount : reloads s t₀ w = reloads s t₀ t) :
    (s t).control.coeffRcvd = true := by
  have hnone (u : Nat) (hu : w ≤ u) (hut : u < t) : (s u).reload = false :=
    no_reload_between hw hcount.ge hu hut
  have hkept (u : Nat) (hu : w + 1 ≤ u) : u ≤ t → (s u).control.coeffRcvd = true := by
    induction u, hu using Nat.le_induction with
    | base =>
        intro _
        rw [hrun]
        rw [coeffRcvd_step (hquiet w hw hwt.le), hnone w le_rfl hwt, hen]
        rfl
    | succ u hu ih =>
        intro hut
        have hwu : w ≤ u := Nat.le_of_succ_le hu
        rw [hrun]
        rw [coeffRcvd_step (hquiet u (lt_of_lt_of_le hw hwu) (Nat.le_of_lt hut)), hnone u hwu hut,
          ih (Nat.le_of_lt hut), Bool.or_true]
        rfl
  exact hkept t hwt le_rfl

theorem Chain.fed (h : Chain s inp tuple t₀ last) (hrun : ∀ t, s (t + 1) = (s t).step (inp t)) :
    Fed s tuple t₀ last := by
  intro n hn hexp hstp hreloads
  have hlt := lt_tick s t₀ n
  obtain ⟨w, hw, hwt, hen, -, hcount⟩ := h.received (tick s t₀ n) (by omega) hn hstp
  exact coeffRcvd_of_pulse hrun (fun u hu hut => h.quiet u hu (hut.trans hn)) hw hwt hen hcount

theorem Supply.presents (h : Supply s inp tuple t₀ last) {t : Nat} (ht : t₀ < t) (hlast : t ≤ last)
    (hstp : (s t).stpReached = true) {p : Place} (hexp : p.Expired) (hreloads : reloads s t₀ t = p.reloaded) :
    (inp t).Presents (tuple p.segment) := by
  have hp := h.supplied t ht hlast hstp
  have hsegment : p.reloaded + 1 = p.segment := by
    rw [Place.reloaded, if_pos hexp]
    exact Nat.sub_add_cancel hexp.1
  rwa [hreloads, hsegment] at hp

theorem freqCnt_succ (d : Nat) : BitVec.ofNat 14 (d + 1) - 1 = BitVec.ofNat 14 d := by
  rw [BitVec.ofNat_add]
  exact BitVec.add_sub_cancel _ _

/-- One clock of a running machine: the next phase, and when it gives a strobe. -/
theorem Phase.step (h : Supply s inp tuple t₀ last) (hfed : Fed s tuple t₀ last)
    (hrun : ∀ t, s (t + 1) = (s t).step (inp t)) {u : Nat}
    (hu : t₀ + 2 ≤ u) (hlast : u ≤ last) (hphase : Phase s tuple t₀ u) :
    Phase s tuple t₀ (u + 1) ∧ ((s (u + 1)).swStrobe = true ↔ ∃ n, u + 1 = tick s t₀ n + 3) := by
  have hlt : t₀ < u := by
    omega
  have hq := h.quiet u hlt hlast
  have hstrobe : (s (u + 1)).swStrobe = decide ((s u).control.state = .addXQ) := by
    rw [hrun]
    exact swStrobe_step hq.syncRst
  have hmono := tick_strictMono s t₀
  rw [hstrobe, decide_eq_true_iff]
  cases hphase with
  | waiting n d htick hd hbefore hholding hfreq hreloads =>
      have hstp := hholding.stpReached
      have hp (hexp : (place tuple n).Expired) : (inp u).Presents (tuple (place tuple n).segment) :=
        h.presents hlt hlast (by rw [hstp, decide_eq_true hexp]) hexp hreloads
      have hnever : ¬ ((s u).control.state = .addXQ) := by
        rw [hholding.state]
        decide
      have hnone : ¬ ∃ m, u + 1 = tick s t₀ m + 3 := by
        rintro ⟨m, hm⟩
        rcases Nat.lt_or_ge m n with hmn | hmn
        · have := hbefore m hmn
          omega
        · have := hmono.monotone hmn
          omega
      refine ⟨?_, iff_of_false hnever hnone⟩
      have hcount := reloads_succ s t₀ u
      cases d with
      | zero =>
          have hen : (s u).freqEn = true := by
            rw [freqEn, hfreq]
            rfl
          obtain rfl : u = tick s t₀ n := htick
          have hrcvd (hexp : (place tuple n).Expired) : (s (tick s t₀ n)).control.coeffRcvd = true :=
            hfed n hlast hexp (by rw [hstp, decide_eq_true hexp]) hreloads
          have hticked := hholding.tick hq hp hen hrcvd
          refine .ticked n rfl (by rw [hrun]; exact hticked) hholding.within ?_
          have hreload : (s (tick s t₀ n)).reload = decide (place tuple n).Expired := by
            by_cases hexp : (place tuple n).Expired
            · simp [Datapath.reload, hholding.state, hstp, hen, hrcvd hexp, hexp]
            · simp [Datapath.reload, hstp, hexp]
          rw [hcount, hreload, hreloads, place, Place.reloaded_next]
          simp [hlt]
      | succ d =>
          have hen : (s u).freqEn = false := by
            rw [freqEn, hfreq, freqCnt_succ, BitVec.msb_eq_false_iff_two_mul_lt, BitVec.toNat_ofNat]
            omega
          obtain ⟨hnext, hfreq'⟩ := hholding.wait hq hp hen
          refine .waiting n d (by omega) (by omega) (fun m hm => (hbefore m hm).trans (Nat.le_succ u))
            (by rw [hrun]; exact hnext) ?_ ?_
          · rw [hrun, hfreq', hfreq, freqCnt_succ]
          · have hreload : (s u).reload = false := by
              simp [Datapath.reload, hen]
            rw [hcount, hreload, hreloads]
            simp
  | ticked n htick hticked hwithin hreloads =>
      have hnever : ¬ ((s u).control.state = .addXQ) := by
        rw [hticked.state]
        decide
      have hnone : ¬ ∃ m, u + 1 = tick s t₀ m + 3 := by
        rintro ⟨m, hm⟩
        obtain rfl : n = m := tick_window (i := 2) (j := 3) (by decide) (by decide) (by rw [← hm, htick])
        omega
      refine ⟨.added n (by omega) (by rw [hrun]; exact hticked.add hq) hwithin ?_, iff_of_false hnever hnone⟩
      have hreload : (s u).reload = false := reload_of_ne (by rw [hticked.state]; decide)
      rw [reloads_succ s t₀, hreload, hreloads]
      simp
  | added n htick hadded hwithin hreloads =>
      have hbound := cFreqCnt_bounds (s (tick s t₀ n)).reg.freqSel
      have hstp : (s u).stpReached = decide ((place tuple n).next tuple).Expired := by
        rw [stpReached, hadded.stepCnt, msb_stepCnt]
      have hp (hexp : ((place tuple n).next tuple).Expired) :
          (inp u).Presents (tuple ((place tuple n).next tuple).segment) :=
        h.presents hlt hlast (by rw [hstp, decide_eq_true hexp]) hexp hreloads
      obtain ⟨hholding, -, hfreq⟩ := hadded.strobe hq hp hwithin
      refine ⟨?_, iff_of_true hadded.state ⟨n, by omega⟩⟩
      refine .waiting (n + 1) (cFreqCnt (s (tick s t₀ n)).reg.freqSel - 1) ?_ (by omega) ?_
        (by rw [hrun]; exact hholding) ?_ ?_
      · rw [tick]
        omega
      · intro m hm
        have := hmono.monotone (Nat.le_of_lt_succ hm)
        omega
      · obtain ⟨c, hc⟩ : ∃ c, cFreqCnt (s (tick s t₀ n)).reg.freqSel = c + 2 := ⟨_, (Nat.sub_add_cancel hbound.1.le).symm⟩
        rw [hrun, hfreq, hc, freqCnt_succ]
        rfl
      · have hreload : (s u).reload = false := reload_of_ne (by rw [hadded.state]; decide)
        rw [reloads_succ s t₀, hreload, hreloads]
        simp

/-- The run of a chain: a phase in every clock, and strobes three clocks after the ticks. -/
theorem Supply.phase (h : Supply s inp tuple t₀ last) (hfed : Fed s tuple t₀ last)
    (hrun : ∀ t, s (t + 1) = (s t).step (inp t))
    (hquiet : IdleQuiet (s t₀)) (hlast : t₀ < last) : ∀ u, t₀ + 2 ≤ u → u ≤ last + 1 →
      Phase s tuple t₀ u := by
  intro u hu
  induction u, hu using Nat.le_induction with
  | base => exact fun _ => (h.begin hrun hquiet hlast).1
  | succ u hu ih =>
      intro hle
      have hul : u ≤ last := Nat.le_of_succ_le_succ hle
      exact (Phase.step h hfed hrun hu hul (ih (hul.trans (Nat.le_succ last)))).1

theorem Supply.strobe_iff (h : Supply s inp tuple t₀ last) (hfed : Fed s tuple t₀ last)
    (hrun : ∀ t, s (t + 1) = (s t).step (inp t))
    (hquiet : IdleQuiet (s t₀)) (hpos : t₀ < last) {u : Nat} (hu : t₀ < u) (hlast : u ≤ last + 1) :
    (s u).swStrobe = true ↔ ∃ n, u = tick s t₀ n + 3 := by
  rcases Nat.lt_or_ge (t₀ + 2) u with hlater | hearly
  · obtain ⟨v, rfl⟩ : ∃ v, u = v + 1 := ⟨u - 1, by omega⟩
    have hv : t₀ + 2 ≤ v := by
      omega
    exact (Phase.step h hfed hrun hv (by omega) (h.phase hfed hrun hquiet hpos v hv (by omega))).2
  · -- the first two clocks come before every tick
    obtain ⟨-, hone, htwo⟩ := h.begin hrun hquiet hpos
    have hnone : ¬ ∃ n, u = tick s t₀ n + 3 := by
      rintro ⟨n, hn⟩
      have := lt_tick s t₀ n
      omega
    refine iff_of_false ?_ hnone
    have hcases : u = t₀ + 1 ∨ u = t₀ + 2 := by
      omega
    rcases hcases with rfl | rfl
    · rw [hone]
      decide
    · rw [htwo]
      decide

theorem Supply.not_stops (h : Supply s inp tuple t₀ last) (hfed : Fed s tuple t₀ last)
    (hrun : ∀ t, s (t + 1) = (s t).step (inp t)) (hquiet : IdleQuiet (s t₀)) {u : Nat} (hu : t₀ < u)
    (hlast : u ≤ last) : (s u).stops = false := by
  have hpos : t₀ < last := lt_of_lt_of_le hu hlast
  rcases Nat.lt_or_ge u (t₀ + 2) with hearly | hlater
  · obtain rfl : u = t₀ + 1 := by
      omega
    simp [Datapath.stops, h.stpReached_start hrun]
  · cases h.phase hfed hrun hquiet hpos u hlater (Nat.le_succ_of_le hlast) with
    | waiting n d htick hd hbefore hholding hfreq hreloads =>
        by_cases hexp : (place tuple n).Expired
        · cases d with
          | zero =>
              obtain rfl : u = tick s t₀ n := htick
              have hstp : (s (tick s t₀ n)).stpReached = true := by
                rw [hholding.stpReached, decide_eq_true hexp]
              simp [Datapath.stops, hfed n hlast hexp hstp hreloads]
          | succ d =>
              have hen : (s u).freqEn = false := by
                rw [freqEn, hfreq, freqCnt_succ, BitVec.msb_eq_false_iff_two_mul_lt, BitVec.toNat_ofNat]
                omega
              simp [Datapath.stops, hen]
        · simp [Datapath.stops, hholding.stpReached, hexp]
    | ticked n htick hticked hwithin hreloads => simp [Datapath.stops, hticked.state]
    | added n htick hadded hwithin hreloads => simp [Datapath.stops, hadded.state]

theorem Supply.waiting (h : Supply s inp tuple t₀ last) (hfed : Fed s tuple t₀ last)
    (hrun : ∀ t, s (t + 1) = (s t).step (inp t)) (hquiet : IdleQuiet (s t₀)) {n u : Nat}
    (hbegin : t₀ + 2 ≤ u) (hbefore : ∀ m < n, tick s t₀ m + 3 ≤ u) (hle : u ≤ tick s t₀ n) (hlast : u ≤ last + 1) :
    Holding tuple (place tuple n) (s u) ∧ (s u).freqCnt = BitVec.ofNat 14 (tick s t₀ n - u) - 1 ∧
      reloads s t₀ u = (place tuple n).reloaded := by
  have hmono := tick_strictMono s t₀
  cases h.phase hfed hrun hquiet (by omega) u hbegin hlast with
  | waiting m d htick hd hbefore' hholding hfreq hreloads =>
      obtain rfl : m = n := by
        rcases lt_trichotomy m n with hlt | heq | hgt
        · have := hbefore m hlt
          omega
        · exact heq
        · have := hbefore' n hgt
          omega
      have hd' : tick s t₀ m - u = d := by
        omega
      rw [hd']
      exact ⟨hholding, hfreq, hreloads⟩
  | ticked m htick hticked hwithin hreloads | added m htick hadded hwithin hreloads =>
      exfalso
      rcases Nat.lt_or_ge m n with hlt | hge
      · have := hbefore m hlt
        omega
      · have := hmono.monotone hge
        omega

theorem Supply.strobe_value (h : Supply s inp tuple t₀ last) (hfed : Fed s tuple t₀ last)
    (hrun : ∀ t, s (t + 1) = (s t).step (inp t)) (hquiet : IdleQuiet (s t₀)) {n : Nat}
    (hlast : tick s t₀ n + 3 ≤ last + 1) :
    (s (tick s t₀ n + 3)).reg.x =
      (tuple (place tuple (n + 1)).segment).value (place tuple (n + 1)).sample := by
  have hmono := tick_strictMono s t₀
  have hlate := lt_tick s t₀ n
  have hnext := tick_lt_succ s t₀ n
  have hbefore (m : Nat) (hm : m < n + 1) : tick s t₀ m + 3 ≤ tick s t₀ n + 3 :=
    Nat.add_le_add_right (hmono.monotone (Nat.le_of_lt_succ hm)) 3
  obtain ⟨hholding, -, -⟩ := h.waiting hfed hrun hquiet (by omega) hbefore (by omega) hlast
  exact hholding.x

/-! ## The samples of each segment -/

variable (tuple) in
/-- The strobes before the first sample of segment `i + 1`. -/
def before : Nat → Nat
  | 0 => (tuple 0).steps - 2
  | i + 1 => before i + (tuple (i + 1)).steps

theorem place_add {n : Nat} {p : Place} (hp : place tuple n = p) :
    ∀ k, p.sample + k ≤ lastSample tuple p.segment → place tuple (n + k) = ⟨p.segment, p.sample + k⟩
  | 0, _ => hp
  | k + 1, hk => by
      have hne : p.sample + k ≠ lastSample tuple p.segment := by
        omega
      rw [← Nat.add_assoc, place, place_add hp k (by omega), Place.next, if_neg hne]
      rfl

variable (tuple) in
def Place.index (p : Place) : Nat :=
  match p.segment with
  | 0 => p.sample
  | i + 1 => before tuple i + 1 + p.sample

theorem two_lt_steps (p : Tuple) : 2 < p.steps := by
  have hpow : 1 ≤ 2 ^ p.stepSel.toNat := Nat.one_le_two_pow
  rw [Tuple.steps]
  omega

variable (tuple) in
theorem before_strictMono : StrictMono (before tuple) :=
  strictMono_nat_of_lt_succ fun i => by
    have hsteps := two_lt_steps (tuple (i + 1))
    rw [before]
    omega

theorem Place.index_next {p : Place} (hwithin : p.sample ≤ lastSample tuple p.segment) :
    (p.next tuple).index tuple = p.index tuple + 1 := by
  obtain ⟨i, j⟩ := p
  rw [Place.next]
  split
  · next hlast =>
      cases i with
      | zero => exact congrArg (· + 1) hlast.symm
      | succ i =>
          have hsteps := two_lt_steps (tuple (i + 1))
          have hj : j = (tuple (i + 1)).steps - 1 := hlast
          change before tuple (i + 1) + 1 + 0 = before tuple i + 1 + j + 1
          rw [before, hj]
          omega
  · cases i with
    | zero => rfl
    | succ i => rfl

theorem place_within : ∀ n, (place tuple n).sample ≤ lastSample tuple (place tuple n).segment
  | 0 => Nat.zero_le _
  | n + 1 => by
      have hwithin := place_within n
      rw [place, Place.next]
      split
      · exact Nat.zero_le _
      · next hne => exact Nat.lt_of_le_of_ne hwithin hne

theorem place_index : ∀ n, (place tuple n).index tuple = n
  | 0 => rfl
  | n + 1 => by
      rw [place, Place.index_next (place_within n), place_index n]

/-- Segment `i + 1` begins with its first sample, one tick after the strobes before it. -/
theorem place_before : ∀ i, place tuple (before tuple i + 1) = ⟨i + 1, 0⟩
  | 0 => by
      have hsteps := two_lt_steps (tuple 0)
      have hlast : lastSample tuple 0 = before tuple 0 := rfl
      have hplace : place tuple (0 + before tuple 0) = ⟨0, 0 + before tuple 0⟩ :=
        place_add rfl _ (by rw [← hlast]; exact (Nat.zero_add _).le)
      rw [Nat.zero_add] at hplace
      rw [place, hplace, Place.next]
      exact if_pos hlast.symm
  | i + 1 => by
      have hsteps := two_lt_steps (tuple (i + 1))
      have hlast : lastSample tuple (i + 1) = (tuple (i + 1)).steps - 1 := rfl
      have hplace := place_add (place_before i) ((tuple (i + 1)).steps - 1) (by rw [hlast]; exact (Nat.zero_add _).le)
      have hindex : before tuple (i + 1) = before tuple i + 1 + ((tuple (i + 1)).steps - 1) := by
        rw [before]
        omega
      rw [place, hindex, hplace, Place.next]
      exact if_pos ((Nat.zero_add _).trans hlast.symm)

variable (tuple) in
theorem place_of_sample : (∀ j, 0 < j → j ≤ (tuple 0).steps - 2 → place tuple (j - 1 + 1) = ⟨0, j⟩) ∧
    ∀ i j, j < (tuple (i + 1)).steps → place tuple (before tuple i + j + 1) = ⟨i + 1, j⟩ := by
  constructor
  · intro j hj hle
    have hplace : place tuple (0 + j) = ⟨0, 0 + j⟩ :=
      place_add (p := ⟨0, 0⟩) rfl j (by simpa [lastSample] using hle)
    rw [Nat.sub_add_cancel hj]
    simpa using hplace
  · intro i j hj
    have hlast : lastSample tuple (i + 1) = (tuple (i + 1)).steps - 1 := rfl
    have hplace := place_add (place_before i) j (by rw [hlast]; simp; omega)
    rw [Nat.add_right_comm]
    simpa using hplace

/-- At a tick the frequency counter has run down, and the machine still holds the sample before. -/
theorem Supply.at_tick (h : Supply s inp tuple t₀ last) (hfed : Fed s tuple t₀ last)
    (hrun : ∀ t, s (t + 1) = (s t).step (inp t)) (hquiet : IdleQuiet (s t₀)) {n : Nat}
    (hlast : tick s t₀ n ≤ last + 1) :
    (s (tick s t₀ n)).freqEn = true ∧ Holding tuple (place tuple n) (s (tick s t₀ n)) ∧
      reloads s t₀ (tick s t₀ n) = (place tuple n).reloaded := by
  have hmono := tick_strictMono s t₀
  have hlate := lt_tick s t₀ n
  have hbefore (m : Nat) (hm : m < n) : tick s t₀ m + 3 ≤ tick s t₀ n := by
    have hle : tick s t₀ (m + 1) ≤ tick s t₀ n := hmono.monotone hm
    have := tick_lt_succ s t₀ m
    omega
  obtain ⟨hholding, hfreq, hreloads⟩ := h.waiting hfed hrun hquiet (by omega) hbefore le_rfl hlast
  refine ⟨?_, hholding, hreloads⟩
  rw [freqEn, hfreq, Nat.sub_self]
  rfl

def Tuple.sample (p : Tuple) (j : Nat) : BitVec 32 :=
  (BitVec.ofInt 64 (p.c.toInt * 2 ^ 32 + j * (p.b.toInt * 2 ^ p.shiftB) +
    (j * (j - 1) / 2 : Nat) * (p.a.toInt * 2 ^ p.shiftA))).extractLsb' 32 32

end Chain

end FgQuad
