import BelProjects.ButisT0.Reception

/-!
# Disturbed bursts

With any line at its input, the decoder adopts the timestamp of a burst at the first pulse after
it, whenever that comes.  The time is astray from a pulse on for which the timestamp was not
meant, and the period check covers that only if the pulse comes early.
-/

namespace ButisT0

/-- The time at the output in clock `t`, as it should be. -/
def trueTime (origin : Timestamp) (t : Nat) : Timestamp := origin + BitVec.ofNat 64 (5 * t)

theorem trueTime_succ (origin : Timestamp) (t : Nat) : trueTime origin (t + 1) = trueTime origin t + 5 := by
  have hofNat : BitVec.ofNat 64 (5 * (t + 1)) = BitVec.ofNat 64 (5 * t) + 5 := by
    rw [Nat.mul_succ, BitVec.ofNat_add]
    rfl
  rw [trueTime, trueTime, hofNat, BitVec.add_assoc]

variable {g : Generics}

/-! ### The checks of the period -/

section Step

variable {s : Receiver} {serial_i : Bool} {crc : Byte}

theorem Receiver.ser2par_period : (s.ser2par g).period_error_s = s.period_error_s := by
  unfold Receiver.ser2par Receiver.sample Receiver.endOfBit
  dsimp only
  split_ifs <;> rfl

theorem Receiver.step_period_ser2par (h : s.decoder_mode_s = .ser2par) :
    (s.step g false serial_i crc).period_error_s = s.period_error_s := by
  rw [Receiver.step, if_neg Bool.false_ne_true, Receiver.byMode_ser2par h]
  exact Receiver.ser2par_period

theorem Receiver.step_period_newPulse (h : s.newPulse = true) : (s.step g false serial_i crc).period_error_s =
    decide (s.ratiocounter_s < 2000 - g.g_BuTis_T0_precision) := by
  obtain ⟨hmode, hone, htwo⟩ := Receiver.newPulse_iff.mp h
  have hquiet : s.quiet.decoder_mode_s = .waitForSignal := hmode
  have hone' : s.quiet.serial1_s = true := hone
  have htwo' : s.quiet.serial2_s = false := htwo
  rw [Receiver.step, if_neg Bool.false_ne_true, Receiver.byMode, hquiet]
  dsimp only
  rw [Receiver.waitForSignal]
  dsimp only
  rw [if_pos hone', if_pos htwo']
  rfl

theorem Receiver.step_period_kept (h : s.newPulse = false) (herror : s.period_error_s = true) :
    (s.step g false serial_i crc).period_error_s = true := by
  rw [Receiver.step, if_neg Bool.false_ne_true]
  change (s.quiet.byMode g crc).period_error_s = true
  unfold Receiver.byMode
  cases hmode : s.quiet.decoder_mode_s with
  | waitForSignal =>
      dsimp only
      rw [Receiver.waitForSignal]
      dsimp only
      by_cases hone : s.quiet.serial1_s = true
      · have htwo : ¬ s.quiet.serial2_s = false := by
          intro htwo
          have hpulse : s.newPulse = true := Receiver.newPulse_iff.mpr ⟨hmode, hone, htwo⟩
          exact Bool.false_ne_true (h.symm.trans hpulse)
        rw [if_pos hone, if_neg htwo]
      · rw [if_neg hone]
        exact herror
  | ser2par => exact Receiver.ser2par_period.trans herror
  | crcResult => exact herror
  | waitForZeros =>
      dsimp only
      unfold Receiver.waitForZeros
      split_ifs <;> exact herror

theorem Receiver.step_ratio_newPulse (h : s.newPulse = true) :
    (s.step g false serial_i crc).ratiocounter_s = 0 := by
  rw [Receiver.step, if_neg Bool.false_ne_true]
  exact if_pos h

theorem Receiver.step_ratio (h : s.newPulse = false) : (s.step g false serial_i crc).ratiocounter_s =
    if s.ratiocounter_s < 2000 + g.g_BuTis_T0_precision then s.ratiocounter_s + 1 else s.ratiocounter_s := by
  rw [Receiver.step, if_neg Bool.false_ne_true]
  exact if_neg (by rw [h]; exact Bool.false_ne_true)

theorem Receiver.step_nosignal (h : s.newPulse = false)
    (hratio : s.ratiocounter_s < 2000 + g.g_BuTis_T0_precision) :
    (s.step g false serial_i crc).error_nosignal_s = false := by
  rw [Receiver.step, if_neg Bool.false_ne_true]
  exact (if_neg (by rw [h]; exact Bool.false_ne_true)).trans (if_pos hratio)

end Step

namespace Decoder

variable {s : Decoder} {line : Nat → Bool} {origin : Timestamp}

/-- The clocks since the last pulse, up to the end of the counter. -/
theorem Since.ratio {t u : Nat} (h : s.Since g line t u) : (s.stateAt g line u).receiver.ratiocounter_s =
    min (u - t - 1) (2000 + g.g_BuTis_T0_precision) := by
  induction u, Nat.succ_le_of_lt h.lt using Nat.le_induction with
  | base =>
      rw [receiver_succ, Receiver.step_ratio_newPulse h.pulse]
      omega
  | succ u hle ih =>
      have hquiet : (s.stateAt g line u).receiver.newPulse = false := by
        rw [← Bool.not_eq_true]
        exact h.none u hle (Nat.lt_succ_self u)
      rw [receiver_succ, Receiver.step_ratio hquiet,
        ih ⟨hle, h.pulse, fun v hv hvu => h.none v hv (Nat.lt_succ_of_lt hvu)⟩]
      split_ifs <;> omega

/-- The pulse in clock `u` comes too early after the one before. -/
def Early (g : Generics) (s : Decoder) (line : Nat → Bool) (u : Nat) : Prop :=
  ∃ t, s.Since g line t u ∧ u - t - 1 < 2000 - g.g_BuTis_T0_precision

/-- The timestamp of the burst from the pulse in clock `t` on is meant for a pulse in clock `u`. -/
def Announced (g : Generics) (line : Nat → Bool) (origin : Timestamp) (t u : Nat) : Prop :=
  dataWord (bits g line t) + 10 = trueTime origin (u + 1)

/-- From the pulse in clock `u` on the time is wrong: the burst before was good, but not meant for
this pulse; or it failed the check, and the time has been wrong for `n` pulses. -/
inductive Astray (g : Generics) (s : Decoder) (line : Nat → Bool) (origin : Timestamp) : Nat → Nat → Prop
  | load {t u : Nat} : s.Since g line t u → s.Pulse g line u → CrcOk (bits g line t) →
      ¬ Announced g line origin t u → Astray g s line origin u 0
  | keep {t u n : Nat} : s.Since g line t u → s.Pulse g line u → ¬ CrcOk (bits g line t) →
      Astray g s line origin t n → n < 2 → Astray g s line origin u (n + 1)

theorem Astray.pulse {u n : Nat} (h : Astray g s line origin u n) : s.Pulse g line u := by
  cases h with
  | load _ hu => exact hu
  | keep _ hu => exact hu

theorem Astray.since {u n : Nat} (h : Astray g s line origin u n) : ∃ t, s.Since g line t u := by
  cases h with
  | load ht => exact ⟨_, ht⟩
  | keep ht => exact ⟨_, ht⟩

theorem Astray.le {u n : Nat} (h : Astray g s line origin u n) : n ≤ 2 := by
  cases h with
  | load => exact Nat.zero_le 2
  | keep _ _ _ _ hn => exact hn

/-! ### The clock of the timestamp -/

theorem timekeeper_succ (t : Nat) : (s.stateAt g line (t + 1)).timekeeper =
    (s.stateAt g line t).timekeeper.step false (s.stateAt g line t).receiver.newPulse
      (s.stateAt g line t).receiver.error_s (s.stateAt g line t).receiver.timestamp_rec_s := by
  rw [stateAt_succ]
  rfl

theorem timekeeper_calm {t : Nat} (h : ¬ s.Pulse g line t) :
    (s.stateAt g line (t + 1)).timekeeper.error_counter_s = (s.stateAt g line t).timekeeper.error_counter_s ∧
      (s.stateAt g line (t + 1)).timestamp_o = (s.stateAt g line t).timestamp_o + 5 := by
  have hstep : (s.stateAt g line (t + 1)).timekeeper = _ := timekeeper_succ t
  have hquiet : (s.stateAt g line t).receiver.newPulse = false := by
    rw [← Bool.not_eq_true]
    exact h
  rw [Timekeeper.step, if_neg Bool.false_ne_true, hquiet, if_neg Bool.false_ne_true] at hstep
  rw [timestamp_o, hstep]
  exact ⟨rfl, rfl⟩

theorem timekeeper_load {t : Nat} (h : s.Pulse g line t)
    (herror : (s.stateAt g line t).receiver.error_s = false) :
    (s.stateAt g line (t + 1)).timekeeper.error_counter_s = 0 ∧
      (s.stateAt g line (t + 1)).timestamp_o = (s.stateAt g line t).receiver.timestamp_rec_s + 10 := by
  have hstep : (s.stateAt g line (t + 1)).timekeeper = _ := timekeeper_succ t
  have hpulse : (s.stateAt g line t).receiver.newPulse = true := h
  rw [Timekeeper.step, if_neg Bool.false_ne_true, if_pos hpulse, if_pos herror] at hstep
  rw [timestamp_o, hstep]
  exact ⟨rfl, rfl⟩

theorem timekeeper_keep {t : Nat} (h : s.Pulse g line t)
    (herror : (s.stateAt g line t).receiver.error_s = true) :
    (s.stateAt g line (t + 1)).timekeeper.error_counter_s =
        (if (s.stateAt g line t).timekeeper.error_counter_s < 3 then
          (s.stateAt g line t).timekeeper.error_counter_s + 1
        else (s.stateAt g line t).timekeeper.error_counter_s) ∧
      (s.stateAt g line (t + 1)).timestamp_o = (s.stateAt g line t).timestamp_o + 5 := by
  have hstep : (s.stateAt g line (t + 1)).timekeeper = _ := timekeeper_succ t
  have hpulse : (s.stateAt g line t).receiver.newPulse = true := h
  have hfailed : ¬ (s.stateAt g line t).receiver.error_s = false := by
    rw [herror]
    decide
  rw [Timekeeper.step, if_neg Bool.false_ne_true, if_pos hpulse, if_neg hfailed] at hstep
  rw [timestamp_o, hstep]
  exact ⟨rfl, rfl⟩

theorem Since.succ {t : Nat} (h : s.Pulse g line t) : s.Since g line t (t + 1) :=
  ⟨Nat.lt_succ_self t, h, fun _ hv hvu => absurd hv (Nat.not_lt.mpr (Nat.le_of_lt_succ hvu))⟩

theorem Since.calm {t u : Nat} (h : s.Since g line t u) (hu : ¬ s.Pulse g line u) :
    s.Since g line t (u + 1) := by
  refine ⟨Nat.lt_succ_of_lt h.lt, h.pulse, fun v hv hvu => ?_⟩
  rcases Nat.lt_succ_iff_lt_or_eq.mp hvu with hlt | rfl
  · exact h.none v hv hlt
  · exact hu

theorem exists_good {u : Nat} (herror : (s.stateAt g line u).receiver.error_s = false)
    (hu : s.Pulse g line u) :
    ∃ t, s.Since g line t u ∧ CrcOk (bits g line t) ∧
      (s.stateAt g line u).receiver.timestamp_rec_s = dataWord (bits g line t) := by
  have hbefore : ∃ t < u, s.Pulse g line t := by
    by_contra hnone
    have hreset := (before_pulses fun v hv hp => hnone ⟨v, hv, hp⟩).1
    exact Bool.false_ne_true (herror.symm.trans hreset)
  obtain ⟨t, htu, ht, hnone⟩ := Clocked.exists_last hbefore
  have hsince : s.Since g line t u := ⟨htu, ht, hnone⟩
  have hresult := hsince.concluded_pulse hu
  refine ⟨t, hsince, ?_, hresult.stamp⟩
  have hcheck := hresult.error.symm.trans herror
  exact Decidable.not_not.mp (of_decide_eq_false hcheck)

/-- **Where the time can be wrong** with fewer than three failed checks. -/
theorem astray_of_wrong (t : Nat) : (s.stateAt g line t).timekeeper.error_counter_s ≤ 3 ∧
    ((s.stateAt g line t).timekeeper.error_counter_s < 3 →
      (s.stateAt g line t).timestamp_o = trueTime origin t ∨
      ∃ l, s.Since g line l t ∧ Astray g s line origin l (s.stateAt g line t).timekeeper.error_counter_s) := by
  induction t with
  | zero => exact ⟨Nat.le_refl 3, fun h => absurd h (Nat.lt_irrefl 3)⟩
  | succ t ih =>
      obtain ⟨hle, hwrong⟩ := ih
      by_cases hpulse : s.Pulse g line t
      · by_cases herror : (s.stateAt g line t).receiver.error_s = false
        · obtain ⟨hcount, htime⟩ := timekeeper_load hpulse herror
          obtain ⟨l, hsince, hcrc, hstamp⟩ := exists_good herror hpulse
          rw [hcount]
          refine ⟨Nat.zero_le 3, fun _ => ?_⟩
          by_cases hmeant : Announced g line origin l t
          · left
            rw [htime, hstamp]
            exact hmeant
          · exact Or.inr ⟨t, Since.succ hpulse, Astray.load hsince hpulse hcrc hmeant⟩
        · have herror' : (s.stateAt g line t).receiver.error_s = true := by rwa [Bool.not_eq_false] at herror
          obtain ⟨hcount, htime⟩ := timekeeper_keep hpulse herror'
          by_cases hlast : (s.stateAt g line t).timekeeper.error_counter_s < 3
          · rw [if_pos hlast] at hcount
            rw [hcount]
            refine ⟨hlast, fun hlt => ?_⟩
            rcases hwrong hlast with hright | ⟨l, hsince, hastray⟩
            · left
              rw [htime, hright, trueTime_succ]
            · have hcheck := (hsince.concluded_pulse hpulse).error.symm.trans herror'
              exact Or.inr ⟨t, Since.succ hpulse, Astray.keep hsince hpulse (of_decide_eq_true hcheck) hastray
                (Nat.lt_of_succ_lt_succ hlt)⟩
          · rw [if_neg hlast] at hcount
            rw [hcount]
            exact ⟨hle, fun hlt => absurd hlt hlast⟩
      · obtain ⟨hcount, htime⟩ := timekeeper_calm hpulse
        rw [hcount]
        refine ⟨hle, fun hlt => ?_⟩
        rcases hwrong hlt with hright | ⟨l, hsince, hastray⟩
        · left
          rw [htime, hright, trueTime_succ]
        · exact Or.inr ⟨l, hsince.calm hpulse, hastray⟩

theorem wrong_until {t u : Nat} (htu : t ≤ u) (hnone : ∀ v, t ≤ v → v < u → ¬ s.Pulse g line v)
    (hwrong : (s.stateAt g line t).timestamp_o ≠ trueTime origin t) :
    (s.stateAt g line u).timekeeper.error_counter_s = (s.stateAt g line t).timekeeper.error_counter_s ∧
      (s.stateAt g line u).timestamp_o ≠ trueTime origin u := by
  induction u, htu using Nat.le_induction with
  | base => exact ⟨rfl, hwrong⟩
  | succ u hle ih =>
      obtain ⟨hcount, hu⟩ := ih fun v hv hvu => hnone v hv (Nat.lt_succ_of_lt hvu)
      obtain ⟨hcount', htime⟩ := timekeeper_calm (hnone u hle (Nat.lt_succ_self u))
      refine ⟨hcount'.trans hcount, fun heq => hu ?_⟩
      rw [htime, trueTime_succ] at heq
      exact (BitVec.add_left_inj _).mp heq

theorem Astray.wrong {u n : Nat} (h : Astray g s line origin u n) :
    (s.stateAt g line (u + 1)).timekeeper.error_counter_s = n ∧
      (s.stateAt g line (u + 1)).timestamp_o ≠ trueTime origin (u + 1) := by
  induction h with
  | @load t u hsince hpulse hcrc hmeant =>
      have hresult := hsince.concluded_pulse hpulse
      have herror : (s.stateAt g line u).receiver.error_s = false :=
        hresult.error.trans (decide_eq_false (not_not_intro hcrc))
      obtain ⟨hcount, htime⟩ := timekeeper_load hpulse herror
      rw [htime, hresult.stamp]
      exact ⟨hcount, hmeant⟩
  | @keep t u n hsince hpulse hcrc hastray hn ih =>
      have herror : (s.stateAt g line u).receiver.error_s = true :=
        (hsince.concluded_pulse hpulse).error.trans (decide_eq_true hcrc)
      obtain ⟨hcount, htime⟩ := timekeeper_keep hpulse herror
      obtain ⟨hcount', hwrong⟩ := wrong_until (Nat.succ_le_of_lt hsince.lt)
        (fun v hv hvu => hsince.none v hv hvu) ih.2
      rw [hcount'.trans ih.1, if_pos (Nat.lt_succ_of_lt hn)] at hcount
      refine ⟨hcount, fun heq => hwrong ?_⟩
      rw [htime, trueTime_succ] at heq
      exact (BitVec.add_left_inj _).mp heq

theorem Early.period_error {t u : Nat} (h : Early g s line t) (hsince : s.Since g line t u) :
    (s.stateAt g line u).receiver.period_error_s = true := by
  induction u, Nat.succ_le_of_lt hsince.lt using Nat.le_induction with
  | base =>
      obtain ⟨t', hsince', hearly⟩ := h
      rw [receiver_succ, Receiver.step_period_newPulse hsince.pulse, hsince'.ratio]
      exact decide_eq_true (by omega)
  | succ u hle ih =>
      have hquiet : (s.stateAt g line u).receiver.newPulse = false := by
        rw [← Bool.not_eq_true]
        exact hsince.none u hle (Nat.lt_succ_self u)
      rw [receiver_succ]
      exact Receiver.step_period_kept hquiet
        (ih ⟨hle, hsince.pulse, fun v hv hvu => hsince.none v hv (Nat.lt_succ_of_lt hvu)⟩)

/-- Two clocks after a pulse that is not early only the count of failed checks is left. -/
theorem uncertain_after {t u : Nat} (hsince : s.Since g line t u) (hpulse : s.Pulse g line u)
    (hearly : ¬ Early g s line u)
    (hcount : (s.stateAt g line (u + 1)).timekeeper.error_counter_s ≠ 3) :
    (s.stateAt g line (u + 2)).uncertain_o = false := by
  have hg := g.two_le
  have hinside : ¬ s.Pulse g line (u + 1) := hpulse.none_inside (Nat.lt_succ_self u) (by omega)
  have hquiet : (s.stateAt g line (u + 1)).receiver.newPulse = false := by
    rw [← Bool.not_eq_true]
    exact hinside
  have hmode := hpulse.mode_inside (Nat.lt_succ_self u) (by omega)
  have hperiod : (s.stateAt g line (u + 2)).receiver.period_error_s = false := by
    rw [receiver_succ, Receiver.step_period_ser2par hmode, receiver_succ,
      Receiver.step_period_newPulse hpulse, hsince.ratio]
    refine decide_eq_false fun hlt => hearly ⟨t, hsince, ?_⟩
    omega
  have hnosignal : (s.stateAt g line (u + 2)).receiver.error_nosignal_s = false := by
    rw [receiver_succ]
    refine Receiver.step_nosignal hquiet ?_
    rw [receiver_succ, Receiver.step_ratio_newPulse hpulse]
    omega
  rw [uncertain_o, hperiod, hnosignal, (timekeeper_calm hinside).1, decide_eq_false hcount]
  rfl

/-! ### What is adopted -/

/-- The time at the output is right in every clock in which it is said to be certain. -/
def Truthful (g : Generics) (s : Decoder) (line : Nat → Bool) (origin : Timestamp) : Prop :=
  ∀ t, (s.stateAt g line t).uncertain_o = false → (s.stateAt g line t).timestamp_o = trueTime origin t

def Loads (g : Generics) (s : Decoder) (line : Nat → Bool) (u : Nat) : Prop :=
  s.Pulse g line u ∧ (s.stateAt g line u).receiver.error_s = false

/-- In the period before every load a burst was received completely, with the right check byte. -/
def LoadsFresh (g : Generics) (s : Decoder) (line : Nat → Bool) : Prop :=
  ∀ u, Loads g s line u → ∃ t, s.Pulse g line t ∧ CrcOk (bits g line t) ∧
    t + 1 + 80 * g.g_clockcyclesperbit < u ∧ u ≤ t + (2000 + g.g_BuTis_T0_precision)

theorem truthful_iff : Truthful g s line origin ↔ ∀ u n, Astray g s line origin u n → Early g s line u := by
  constructor
  · intro htrue u n hastray
    by_contra hearly
    have hg := g.two_le
    obtain ⟨t, hsince⟩ := hastray.since
    obtain ⟨hcount, hwrong⟩ := hastray.wrong
    have hle := hastray.le
    have hinside : ¬ s.Pulse g line (u + 1) :=
      hastray.pulse.none_inside (Nat.lt_succ_self u) (by omega)
    have hcertain := uncertain_after hsince hastray.pulse hearly (by omega)
    obtain ⟨-, hstill⟩ := wrong_until (Nat.le_succ (u + 1)) (fun v hv hvu => by
      obtain rfl : v = u + 1 := by omega
      exact hinside) hwrong
    exact hstill (htrue (u + 2) hcertain)
  · intro hearly t hcertain
    rw [uncertain_o, Bool.or_eq_false_iff, Bool.or_eq_false_iff] at hcertain
    obtain ⟨⟨hcount, hperiod⟩, -⟩ := hcertain
    obtain ⟨hle, hwrong⟩ := @astray_of_wrong g s line origin t
    have hne := of_decide_eq_false hcount
    rcases hwrong (by omega) with hright | ⟨l, hsince, hastray⟩
    · exact hright
    · rw [(hearly l _ hastray).period_error hsince] at hperiod
      exact absurd hperiod Bool.true_eq_false.mp

theorem loadsFresh_iff : LoadsFresh g s line ↔ ∀ t u, s.Since g line t u → s.Pulse g line u →
    CrcOk (bits g line t) → u ≤ t + (2000 + g.g_BuTis_T0_precision) := by
  constructor
  · intro hfresh t u hsince hpulse hcrc
    have herror : (s.stateAt g line u).receiver.error_s = false :=
      (hsince.concluded_pulse hpulse).error.trans (decide_eq_false (not_not_intro hcrc))
    obtain ⟨t', hpulse', -, hlong, hle⟩ := hfresh u ⟨hpulse, herror⟩
    have hlast : t' ≤ t := by
      by_contra hlt
      exact hsince.none t' (by omega) (by omega) hpulse'
    omega
  · rintro hnear u ⟨hpulse, herror⟩
    obtain ⟨t, hsince, hcrc, -⟩ := exists_good herror hpulse
    refine ⟨t, hsince.pulse, hcrc, ?_, hnear t u hsince hpulse hcrc⟩
    by_contra hle
    exact hsince.pulse.none_inside hsince.lt (Nat.le_of_not_lt hle) hpulse

/-- **What is adopted**, from any line: certain times are right and loads are fresh if and only if
no pulse after a good burst comes later than in a period, and every pulse from which on the time
is astray comes too early. -/
theorem adopts_iff (g : Generics) (s : Decoder) (line : Nat → Bool) (origin : Timestamp) :
    (Truthful g s line origin ∧ LoadsFresh g s line) ↔
      (∀ t u, s.Since g line t u → s.Pulse g line u → CrcOk (bits g line t) →
        u ≤ t + (2000 + g.g_BuTis_T0_precision)) ∧
      ∀ u n, Astray g s line origin u n → Early g s line u := by
  rw [truthful_iff, loadsFresh_iff]
  exact And.comm

end Decoder

end ButisT0
