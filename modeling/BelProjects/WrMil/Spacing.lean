import BelProjects.WrMil.MilGateway
import Mathlib.Data.List.Chain

/-!
# Spacing of MIL telegrams

The burst protection knows the last converted event only.  As long as the telegrams with the
time of day and the fill events do not come close to others, the deadlines of all telegrams are
an interval apart.
-/

namespace WrMil

open B2b (Word Long SysTime evtGid evtNo evtSid buildEvtidV1)

/-! ### Deadlines in a row -/

/-- The second deadline is at least the minimum interval after the first one. -/
def Follows (d d' : Long) : Prop := d.toNat + milSendMinInterval.toNat ≤ d'.toNat

instance (d d' : Long) : Decidable (Follows d d') := inferInstanceAs (Decidable (_ ≤ _))

/-- Two deadlines are at least the minimum interval apart. -/
def Apart (d d' : Long) : Prop := Follows d d' ∨ Follows d' d

instance (d d' : Long) : Decidable (Apart d d') := inferInstanceAs (Decidable (_ ∨ _))

theorem Follows.trans {a b c : Long} (hab : Follows a b) (hbc : Follows b c) : Follows a c := by
  rw [Follows] at hab hbc ⊢
  omega

instance : Trans Follows Follows Follows := ⟨Follows.trans⟩

theorem Follows.of_le {a b c : Long} (hab : a.toNat ≤ b.toNat) (hbc : Follows b c) :
    Follows a c := by
  rw [Follows] at hbc ⊢
  omega

/-- A row stays one when its head is put earlier. -/
theorem row_of_le {a b : Long} {ds : List Long} (hab : a.toNat ≤ b.toNat)
    (h : List.IsChain Follows (b :: ds)) : List.IsChain Follows (a :: ds) := by
  cases ds with
  | nil => exact List.IsChain.singleton a
  | cons d ds =>
    obtain ⟨hbd, hds⟩ := List.isChain_cons_cons.mp h
    exact List.isChain_cons_cons.mpr ⟨hbd.of_le hab, hds⟩

/-! ### Histories -/

/-- The deadlines of the MIL telegrams among the writes of a call. -/
def telegrams (out : List EcaWrite) : List Long :=
  (out.filter fun w => decide w.IsTelegram).map EcaWrite.deadline

/-- The gateway, and the deadlines of all telegrams that it has handed over. -/
structure History where
  gateway : Gateway
  sent : List Long

def History.boot : History := ⟨.boot, []⟩

variable (S : Settings)

def History.event (h : History) (actStatus : Word) (ev : Event) : History :=
  ⟨(h.gateway.event S actStatus ev).gateway,
    h.sent ++ telegrams (h.gateway.event S actStatus ev).out⟩

def History.run (h : History) : List (Word × Event) → History
  | [] => h
  | (actStatus, ev) :: evs => (h.event S actStatus ev).run evs

/-! ### When telegrams do not come close to others -/

def History.Last (h : History) (p : Long → Prop) : Prop := ∀ l ∈ h.sent.getLast?, p l

instance (h : History) (p : Long → Prop) [DecidablePred p] : Decidable (h.Last p) :=
  Option.decidableForallMem _

/-- The time from a converted event to its last telegram. -/
def trainNs (recEvtId : Long) : Nat :=
  if evtNo recEvtId = S.utcTrigger then 1000 * S.trigUtcDelay.toNat + 5 * (1000 * S.utcUtcDelay.toNat)
  else 0

def Accepted (recEvtId : Long) : Prop := evtGid recEvtId = S.milDomain ∧ evtSid recEvtId ≤ 15

def FillDue (g : Gateway) : Prop := S.requestFillEvt ≠ 0 ∧ g.inhibitFillEvents = 1

/-- A converted event either comes after a converted event, which the burst protection knows, or
is due an interval after the last telegram; its times are below `2 ^ 64`.  A fill event is sent
when the deadline of the last telegram is over. -/
def History.Clear (h : History) : Event → Prop
  | .milEvt recDeadline recEvtId flagIsLate x =>
      Accepted S recEvtId →
        (h.Last fun l => l ≠ h.gateway.previousTime →
          Follows l (due S recDeadline flagIsLate x)) ∧
        (due S recDeadline flagIsLate x).toNat + trainNs S recEvtId < 2 ^ 64 ∧
        h.gateway.previousTime.toNat + milSendMinInterval.toNat + trainNs S recEvtId < 2 ^ 64
  | .milTlu _ _ _ x | .other x =>
      FillDue S h.gateway → h.Last fun l => l.toNat ≤ x.fillTime.ns.toNat

instance (recEvtId : Long) : Decidable (Accepted S recEvtId) := inferInstanceAs (Decidable (_ ∧ _))

instance (g : Gateway) : Decidable (FillDue S g) := inferInstanceAs (Decidable (_ ∧ _))

instance (h : History) (ev : Event) : Decidable (h.Clear S ev) :=
  match ev with
  | .milEvt _ _ _ _ => inferInstanceAs (Decidable (_ → _ ∧ _ ∧ _))
  | .milTlu _ _ _ _ => inferInstanceAs (Decidable (_ → _))
  | .other _ => inferInstanceAs (Decidable (_ → _))

def History.ClearRun (h : History) : List (Word × Event) → Prop
  | [] => True
  | (actStatus, ev) :: evs => h.Clear S ev ∧ (h.event S actStatus ev).ClearRun evs

instance History.decClearRun : (h : History) → (evs : List (Word × Event)) →
    Decidable (h.ClearRun S evs)
  | _, [] => isTrue trivial
  | h, (actStatus, ev) :: evs =>
      have := History.decClearRun (h.event S actStatus ev) evs
      inferInstanceAs (Decidable (_ ∧ _))

/-! ### Telegrams of one call -/

theorem telegrams_append (out out' : List EcaWrite) :
    telegrams (out ++ out') = telegrams out ++ telegrams out' := by
  simp [telegrams]

theorem row_telegrams {out : List EcaWrite}
    (h : List.IsChain Follows (out.map EcaWrite.deadline)) :
    List.IsChain Follows (telegrams out) := by
  rw [List.isChain_iff_pairwise] at h ⊢
  exact h.sublist (List.filter_sublist.map _)

theorem delayNs_toNat {delay : Word} (h : 0 ≤ delay.toInt) :
    (delayNs delay).toNat = 1000 * delay.toNat := by
  have hmsb : delay.msb = false := by
    rw [BitVec.msb_eq_false_iff_two_mul_lt]
    rw [BitVec.toInt] at h
    split at h <;> omega
  have hsmall := delay.isLt
  have hfit : 1000 * delay.toNat < 2 ^ 64 := by omega
  rw [delayNs, BitVec.signExtend_eq_setWidth_of_msb_false hmsb, BitVec.toNat_mul,
    BitVec.toNat_setWidth_of_le (by decide), Nat.mul_comm]
  exact Nat.mod_eq_of_lt hfit

section Trains

variable {S}

theorem utcTelegrams_row (hutc : 25 ≤ S.utcUtcDelay.toInt) (evtUtcs : List Word) :
    ∀ (i : Nat) (deadline evtId : Long),
      deadline.toNat + evtUtcs.length * (1000 * S.utcUtcDelay.toNat) < 2 ^ 64 →
      List.IsChain Follows
        (deadline :: (utcTelegrams S i deadline evtId evtUtcs).map EcaWrite.deadline) := by
  induction evtUtcs with
  | nil => exact fun _ deadline _ _ => List.IsChain.singleton deadline
  | cons evtUtc evtUtcs ih =>
    intro i deadline evtId hfit
    have hdelay : (delayNs S.utcUtcDelay).toNat = 1000 * S.utcUtcDelay.toNat :=
      delayNs_toNat (by omega)
    have hmin : 25 ≤ S.utcUtcDelay.toNat := by
      rw [BitVec.toInt] at hutc
      split at hutc <;> omega
    rw [List.length_cons, Nat.add_mul, Nat.one_mul] at hfit
    have hnext : (deadline + delayNs S.utcUtcDelay).toNat =
        deadline.toNat + 1000 * S.utcUtcDelay.toNat := by
      rw [BitVec.toNat_add, hdelay]
      exact Nat.mod_eq_of_lt (by omega)
    apply List.isChain_cons_cons.mpr
    constructor
    · change deadline.toNat + 25000 ≤ (deadline + delayNs S.utcUtcDelay).toNat
      omega
    · apply ih
      change (deadline + delayNs S.utcUtcDelay).toNat + _ < _
      omega

theorem le_of_row {d d' : Long} {ds : List Long} (h : List.IsChain Follows (d :: ds))
    (hd' : d' ∈ d :: ds) : d.toNat ≤ d'.toNat := by
  rcases List.mem_cons.mp hd' with rfl | hin
  · exact Nat.le_refl _
  · have hfollows : Follows d d' := h.rel_cons hin
    rw [Follows] at hfollows
    omega

/-- There are five telegrams with the time of day. -/
theorem makeMilTimestamp_length (tai utcOffsetMs : Long) :
    (makeMilTimestamp tai utcOffsetMs).length = 5 := rfl

theorem converted_row (hutc : 25 ≤ S.utcUtcDelay.toInt) (htrig : 0 ≤ S.trigUtcDelay.toInt)
    {recEvtId sendDeadline : Long} (hfit : sendDeadline.toNat + trainNs S recEvtId < 2 ^ 64) :
    List.IsChain Follows ((converted S recEvtId sendDeadline).map EcaWrite.deadline) := by
  rw [trainNs] at hfit
  rw [converted, List.map_cons]
  by_cases htrain : evtNo recEvtId = S.utcTrigger
  · rw [if_pos htrain] at hfit ⊢
    have hsmall : sendDeadline.toNat + 1000 * S.trigUtcDelay.toNat < 2 ^ 64 := by omega
    have hstart : (sendDeadline + delayNs S.trigUtcDelay).toNat =
        sendDeadline.toNat + 1000 * S.trigUtcDelay.toNat := by
      rw [BitVec.toNat_add, delayNs_toNat htrig]
      exact Nat.mod_eq_of_lt hsmall
    have hbefore : sendDeadline.toNat ≤ (sendDeadline + delayNs S.trigUtcDelay).toNat := by omega
    apply row_of_le hbefore
    apply utcTelegrams_row hutc
    rw [makeMilTimestamp_length]
    omega
  · rw [if_neg htrain]
    exact List.IsChain.singleton _

theorem converted_le (hutc : 25 ≤ S.utcUtcDelay.toInt) (htrig : 0 ≤ S.trigUtcDelay.toInt)
    {recEvtId sendDeadline d : Long} (hfit : sendDeadline.toNat + trainNs S recEvtId < 2 ^ 64)
    (hd : d ∈ (converted S recEvtId sendDeadline).map EcaWrite.deadline) :
    sendDeadline.toNat ≤ d.toNat := by
  have hds := converted_row hutc htrig hfit
  rw [converted, List.map_cons] at hds hd
  exact le_of_row hds hd

end Trains

theorem telegrams_monitored {recDeadline : Long} {milEvent : Option MilEvent} :
    telegrams (monitored S recDeadline milEvent) = [] := by
  cases milEvent with
  | none => rfl
  | some m =>
    rw [monitored]
    split
    · have hgid : ¬ EcaWrite.IsTelegram ⟨recDeadline - posttriggerTlu + 1000000,
          buildEvtidV1 locMilRec m.code 0 m.virtAcc 0 m.data, S.milDomain.setWidth 64 <<< 32⟩ := by
        rw [EcaWrite.IsTelegram, B2b.evtGid_build]
        decide
      rw [telegrams, List.filter_cons_of_neg (by rwa [decide_eq_true_eq])]
      rfl
    · rfl

/-! ### One step -/

section Step

variable {S} {h : History}

theorem append_row {sent ds : List Long} (hrow : List.IsChain Follows sent)
    (hds : List.IsChain Follows ds) (hlast : ∀ l ∈ sent.getLast?, ∀ d ∈ ds, Follows l d) :
    List.IsChain Follows (sent ++ ds) := by
  apply List.isChain_append.mpr
  refine ⟨hrow, hds, ?_⟩
  intro l hl d hd
  exact hlast l hl d (List.mem_of_head? hd)

/-- The protected deadline is neither before the one asked for nor close to the last one. -/
theorem protect_ge {g : Gateway} (sendDeadline : Long)
    (hfit : g.previousTime.toNat + milSendMinInterval.toNat < 2 ^ 64) :
    sendDeadline.toNat ≤ (g.protect sendDeadline).toNat ∧
      Follows g.previousTime (g.protect sendDeadline) := by
  have hsum : (g.previousTime + milSendMinInterval).toNat =
      g.previousTime.toNat + milSendMinInterval.toNat := by
    rw [BitVec.toNat_add]
    exact Nat.mod_eq_of_lt hfit
  rw [Gateway.protect, Follows]
  split
  · rename_i hless
    rw [BitVec.lt_def] at hless
    constructor
    · omega
    · exact hsum.ge
  · rename_i hless
    rw [BitVec.lt_def] at hless
    constructor
    · exact Nat.le_refl _
    · omega

/-- A call writes a fill event exactly when one is due. -/
theorem fill_cases (g : Gateway) (t : SysTime) :
    ¬ FillDue S g ∧ (g.fill S t).2 = [] ∨
      FillDue S g ∧ ∃ milTelegram evtId,
        (g.fill S t).2 = [ecaTelegram S (t.ns + milSendMinInterval) milTelegram evtId] := by
  rw [Gateway.fill, FillDue]
  by_cases hrequest : S.requestFillEvt = 0
  · rw [if_pos hrequest]
    exact Or.inl ⟨fun hdue => hdue.1 hrequest, rfl⟩
  · rw [if_neg hrequest]
    dsimp only
    by_cases hinhibit : g.inhibitFillEvents - 1 = 0
    · rw [if_pos hinhibit]
      exact Or.inr ⟨⟨hrequest, by bv_omega⟩, _, _, rfl⟩
    · rw [if_neg hinhibit]
      exact Or.inl ⟨fun hdue => hinhibit (by rw [hdue.2]; rfl), rfl⟩

/-- Telegrams of a call that writes at most a fill event. -/
theorem fill_row (hrow : List.IsChain Follows h.sent) {g : Gateway} {t : SysTime}
    {out : List EcaWrite} (hout : telegrams out = [])
    (hdue : FillDue S g → h.Last fun l => l.toNat ≤ t.ns.toNat) :
    List.IsChain Follows (h.sent ++ telegrams (out ++ (g.fill S t).2)) := by
  rw [telegrams_append, hout, List.nil_append]
  rcases fill_cases (S := S) g t with ⟨-, hnone⟩ | ⟨hfill, milTelegram, evtId, hone⟩
  · rw [hnone]
    exact append_row hrow List.IsChain.nil (fun _ _ _ hd => absurd hd List.not_mem_nil)
  · rw [hone]
    apply append_row hrow
    · exact row_telegrams (List.IsChain.singleton _)
    · intro l hl d hd
      have hd : d = t.ns + milSendMinInterval := by
        obtain ⟨w, hw, rfl⟩ := List.mem_map.mp hd
        rw [List.mem_singleton.mp (List.mem_of_mem_filter hw)]
        rfl
      have hbound := t.bound
      have hsmall : t.ns.toNat + milSendMinInterval.toNat < 2 ^ 64 := by
        change _ + 25000 < _
        omega
      rw [hd, Follows, BitVec.toNat_add, Nat.mod_eq_of_lt hsmall]
      have hover := hdue hfill l hl
      omega

theorem converted_step (hutc : 25 ≤ S.utcUtcDelay.toInt) (htrig : 0 ≤ S.trigUtcDelay.toInt)
    (hrow : List.IsChain Follows h.sent) {recEvtId asked : Long} {t : SysTime}
    (hlast : h.Last fun l => l ≠ h.gateway.previousTime → Follows l asked)
    (hasked : asked.toNat + trainNs S recEvtId < 2 ^ 64)
    (hprev : h.gateway.previousTime.toNat + milSendMinInterval.toNat + trainNs S recEvtId < 2 ^ 64) :
    List.IsChain Follows (h.sent ++ telegrams (converted S recEvtId (h.gateway.protect asked) ++
      (Gateway.fill S ⟨h.gateway.protect asked, resetInhibitCounter⟩ t).2)) := by
  obtain ⟨hge, hfollows⟩ := protect_ge asked (Nat.lt_of_le_of_lt (Nat.le_add_right _ _) hprev)
  have hfit : (h.gateway.protect asked).toNat + trainNs S recEvtId < 2 ^ 64 := by
    rw [Gateway.protect]
    split
    · rw [BitVec.toNat_add]
      exact Nat.lt_of_le_of_lt (Nat.add_le_add_right (Nat.mod_le _ _) _) hprev
    · exact hasked
  -- a call that converts an event resets the counter first
  have hfill : (Gateway.fill S ⟨h.gateway.protect asked, resetInhibitCounter⟩ t).2 = [] := by
    rcases fill_cases (S := S) ⟨h.gateway.protect asked, resetInhibitCounter⟩ t with
      ⟨-, hnone⟩ | ⟨⟨-, hdue⟩, -⟩
    · exact hnone
    · exact absurd hdue (show resetInhibitCounter ≠ 1 by decide)
  rw [hfill, List.append_nil]
  apply append_row hrow (row_telegrams (converted_row hutc htrig hfit))
  intro l hl d hd
  have hfirst : Follows l (h.gateway.protect asked) := by
    by_cases hsame : l = h.gateway.previousTime
    · rw [hsame]
      exact hfollows
    · exact Nat.le_trans (hlast l hl hsame) hge
  have hle : (h.gateway.protect asked).toNat ≤ d.toNat :=
    converted_le hutc htrig hfit ((List.filter_sublist.map _).subset hd)
  exact Nat.le_trans hfirst hle

theorem History.event_row (hutc : 25 ≤ S.utcUtcDelay.toInt) (htrig : 0 ≤ S.trigUtcDelay.toInt)
    (hrow : List.IsChain Follows h.sent) {actStatus : Word} {ev : Event} (hclear : h.Clear S ev) :
    List.IsChain Follows (h.event S actStatus ev).sent := by
  cases ev with
  | milTlu recDeadline flagIsLate milEvent x =>
    exact fill_row hrow (telegrams_monitored S) hclear
  | other x => exact fill_row hrow rfl hclear
  | milEvt recDeadline recEvtId flagIsLate x =>
    rw [History.event, Gateway.event]
    split
    · exact append_row hrow List.IsChain.nil (fun _ _ _ hd => absurd hd List.not_mem_nil)
    · rename_i hgid
      split
      · exact append_row hrow List.IsChain.nil (fun _ _ _ hd => absurd hd List.not_mem_nil)
      · rename_i hsid
        obtain ⟨hlast, hdue, hprev⟩ := hclear ⟨not_not.mp hgid, BitVec.not_lt.mp hsid⟩
        exact converted_step hutc htrig hrow hlast hdue hprev

theorem History.run_row (hutc : 25 ≤ S.utcUtcDelay.toInt) (htrig : 0 ≤ S.trigUtcDelay.toInt)
    (hrow : List.IsChain Follows h.sent) {evs : List (Word × Event)} (hclear : h.ClearRun S evs) :
    List.IsChain Follows (h.run S evs).sent := by
  induction evs generalizing h with
  | nil => exact hrow
  | cons ev evs ih =>
    obtain ⟨hev, hevs⟩ := hclear
    exact ih (History.event_row hutc htrig hrow hev) hevs

end Step

/-- In a run of clear steps the deadlines of any two telegrams are the minimum interval apart. -/
theorem telegrams_apart (S : Settings) (hutc : 25 ≤ S.utcUtcDelay.toInt)
    (htrig : 0 ≤ S.trigUtcDelay.toInt) (evs : List (Word × Event))
    (hclear : History.boot.ClearRun S evs) : (History.boot.run S evs).sent.Pairwise Apart := by
  have hrow := History.run_row hutc htrig List.IsChain.nil hclear
  rw [List.isChain_iff_pairwise] at hrow
  exact hrow.imp Or.inl

def defaultSettings : Settings where
  utcTrigger := 0xf6
  utcUtcDelay := 30
  trigUtcDelay := 0
  utcOffset := 1199142000000
  requestFillEvt := 1
  milLatency := 0
  milDomain := 0x12c
  milMon := 0
  useBlackbox := false

/-- The event `evtno` of the ring, received in time. -/
theorem now_bound : (1800000000000000000 : Long).toNat < 2 ^ 63 := by decide

def ringEvent (evtno : Word) (deadline : Long) : Word × Event :=
  let now : SysTime := ⟨1800000000000000000, now_bound⟩
  (statusOk, .milEvt deadline (buildEvtidV1 0x12c evtno 0 1 0 0) false ⟨now, now, now, true⟩)

/-- The trigger of the time of day, and another event a millisecond later. -/
theorem telegrams_apart_millisecond :
    (25 ≤ defaultSettings.utcUtcDelay.toInt ∧ 0 ≤ defaultSettings.trigUtcDelay.toInt ∧
      History.boot.ClearRun defaultSettings
        [ringEvent 0xf6 1800000000000000000, ringEvent 0x20 1800000000001000000]) ∧
    (History.boot.run defaultSettings
      [ringEvent 0xf6 1800000000000000000, ringEvent 0x20 1800000000001000000]).sent.Pairwise
        Apart :=
  ⟨by decide +kernel, telegrams_apart defaultSettings (by decide) (by decide) _ (by decide +kernel)⟩

/-- The same with 30 microseconds in between. -/
theorem telegrams_collide :
    ¬ ∀ (S : Settings), 25 ≤ S.utcUtcDelay.toInt → 0 ≤ S.trigUtcDelay.toInt →
      ∀ evs : List (Word × Event), (History.boot.run S evs).sent.Pairwise Apart := by
  intro h
  have hapart := h defaultSettings (by decide) (by decide)
    [ringEvent 0xf6 1800000000000000000, ringEvent 0x20 1800000000000030000]
  revert hapart
  decide +kernel

end WrMil
