import BelProjects.FgQuad.Ramps

/-!
# The end of a chain

At a tick without new coefficients the machine stops. The registers have been loaded from the
ports for a whole sample by then, and keep what they loaded.
-/

namespace FgQuad

open Datapath

variable {s : Nat → Datapath} {inp : Nat → Inputs} {tuple : Nat → Tuple} {t₀ last bound : Nat}

theorem Supply.mono (h : Supply s inp tuple t₀ last) (hle : bound ≤ last) : Supply s inp tuple t₀ bound :=
  ⟨h.idle, h.start, h.selected, h.first, fun t ht hb => h.quiet t ht (hb.trans hle),
    fun t ht hb => h.supplied t ht (hb.trans hle)⟩

/-- The registers of a machine that has stopped after the tuples up to segment `i`. -/
structure Stopped (s : Nat → Datapath) (tuple : Nat → Tuple) (t₀ i u : Nat) : Prop where
  state : (s u).control.state = .idle
  incQuad : (s u).control.incQuad = false
  x : (s u).reg.x = (tuple (i + 1)).c64
  reloads : reloads s t₀ u = i

/-- In one clock the registers keep the start value, or load it again. -/
theorem Stopped.step {i u : Nat} (h : Supply s inp tuple t₀ last) (hrun : ∀ t, s (t + 1) = (s t).step (inp t))
    (hu : t₀ < u) (hlast : u ≤ last) (hstopped : Stopped s tuple t₀ i u) : Stopped s tuple t₀ i (u + 1) := by
  have hq := h.quiet u hu hlast
  have hcontrol : (s (u + 1)).control.state = .idle ∧ (s (u + 1)).control.incQuad = false := by
    rw [hrun]
    constructor <;> simp [Datapath.step, controlSm, hq.syncRst, hq.syncStart, hstopped.state]
  have hreload : (s u).reload = false := reload_of_ne (by rw [hstopped.state]; decide)
  refine ⟨hcontrol.1, hcontrol.2, ?_, ?_⟩
  · rw [hrun]
    cases hstp : (s u).stpReached with
    | true =>
        have hp := h.supplied u hu hlast hstp
        rw [hstopped.reloads] at hp
        exact (regFile_load hq.syncRst (Or.inl hstp) hstopped.incQuad).2.2.trans hp.shifted.2.2
    | false => exact (regFile_keep hq hstp hstopped.incQuad).2.2.trans hstopped.x
  · rw [reloads_succ, hreload, hstopped.reloads]
    simp

theorem Supply.stop (h : Supply s inp tuple t₀ last) (hfed : Fed s tuple t₀ bound)
    (hrun : ∀ t, s (t + 1) = (s t).step (inp t)) (hquiet : IdleQuiet (s t₀)) {n i : Nat}
    (hn : tick s t₀ n = bound + 1) (hlast : tick s t₀ n ≤ last) (hplace : place tuple n = ⟨i + 1, 0⟩)
    (hrcvd : (s (tick s t₀ n)).control.coeffRcvd = false) :
    (s (tick s t₀ n)).stops = true ∧ Stopped s tuple t₀ i (tick s t₀ n + 1) := by
  have hbound : bound ≤ last := by
    omega
  obtain ⟨hfreq, hholding, hreloads⟩ := (h.mono hbound).at_tick hfed hrun hquiet hn.le
  have hexp : (place tuple n).Expired := by
    rw [hplace]
    exact ⟨Nat.succ_pos i, rfl⟩
  have hstp : (s (tick s t₀ n)).stpReached = true := by
    rw [hholding.stpReached, decide_eq_true hexp]
  have hlt := lt_tick s t₀ n
  have hu : t₀ < tick s t₀ n := by
    omega
  have hq := h.quiet _ hu hlast
  have hcount : reloads s t₀ (tick s t₀ n) = i := by
    rw [hreloads, Place.reloaded, if_pos hexp, hplace]
    rfl
  have hp := h.supplied _ hu hlast hstp
  rw [hcount] at hp
  have hreload : (s (tick s t₀ n)).reload = false := by
    simp [Datapath.reload, hrcvd]
  refine ⟨by simp [Datapath.stops, hholding.state, hstp, hfreq, hrcvd], ?_, ?_, ?_, ?_⟩
  · rw [hrun]
    simp [Datapath.step, controlSm, hq.syncRst, hholding.state, hstp, hfreq, hrcvd]
  · rw [hrun]
    simp [Datapath.step, controlSm, hq.syncRst, hholding.state, hstp, hfreq, hrcvd]
  · rw [hrun]
    exact (regFile_load hq.syncRst (Or.inl hstp) hholding.incQuad).2.2.trans hp.shifted.2.2
  · rw [reloads_succ, hreload, hcount]
    simp

/-- After its stop the machine stays as it is. -/
theorem Stopped.run {i u : Nat} (h : Supply s inp tuple t₀ last) (hrun : ∀ t, s (t + 1) = (s t).step (inp t))
    (hu : t₀ < u) (hstopped : Stopped s tuple t₀ i u) : ∀ v, u ≤ v → v ≤ last + 1 → Stopped s tuple t₀ i v := by
  intro v hv
  induction v, hv using Nat.le_induction with
  | base => exact fun _ => hstopped
  | succ v hv ih =>
      intro hle
      exact (ih (Nat.le_of_succ_le hle)).step h hrun (lt_of_lt_of_le hu hv) (Nat.le_of_succ_le_succ hle)

theorem Supply.pulse_of_coeffRcvd (h : Supply s inp tuple t₀ last)
    (hrun : ∀ t, s (t + 1) = (s t).step (inp t)) : ∀ u, t₀ + 1 ≤ u → u ≤ last + 1 →
      (s u).control.coeffRcvd = true → ∃ w, t₀ < w ∧ w < u ∧ (inp w).aEn = true ∧ reloads s t₀ w = reloads s t₀ u := by
  intro u hu
  induction u, hu using Nat.le_induction with
  | base =>
      intro _ hrcvd
      rw [h.control_start hrun] at hrcvd
      cases hrcvd
  | succ u hu ih =>
      intro hle hrcvd
      rw [hrun, coeffRcvd_step (h.quiet u hu (Nat.le_of_succ_le_succ hle)), Bool.and_eq_true,
        Bool.not_eq_true', Bool.or_eq_true] at hrcvd
      obtain ⟨hreload, hen | hold⟩ := hrcvd
      · refine ⟨u, hu, Nat.lt_succ_self u, hen, ?_⟩
        rw [reloads_succ, hreload]
        simp
      · obtain ⟨w, hw, hwu, hen, hcount⟩ := ih (Nat.le_of_succ_le hle) hold
        refine ⟨w, hw, Nat.lt_succ_of_lt hwu, hen, ?_⟩
        rw [reloads_succ, hreload, hcount]
        simp

end FgQuad
