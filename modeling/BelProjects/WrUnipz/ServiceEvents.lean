import BelProjects.WrUnipz.Cycles
import BelProjects.Library.Runs

/-!
# Service events

A service event should come after the last event of the cycle that its Pulszentrale plays, and
not too late to be sent.  Its offset is taken from the present table, or from the time since the
last sync, and packed into 16 bits.  Beside the firmware the story keeps the deadlines of the
messages of the cycle that each Pulszentrale plays.
-/

namespace WrUnipz

/-- The firmware, the deadlines of what has been sent for the coming cycle, and of the cycle that
is played. -/
structure Story where
  fw : Firmware
  prepared : Fin nPz → List Long
  playing : Fin nPz → List Long

namespace Story

def boot : Story := ⟨Firmware.reset, fun _ => [], fun _ => []⟩

def enter (g : Story) : Story := ⟨g.fw.entryActionOperation, fun _ => [], fun _ => []⟩

/-- The deadlines that an input sends for the tables of a Pulszentrale. -/
def deadlines (g : Story) (x : Input) (i : Fin nPz) : List Long :=
  (played i (g.fw.step x).2).map Message.deadline

def next (g : Story) (x : Input) : Story where
  fw := (g.fw.step x).1
  prepared := fun i => if x.sync.isSome then [] else g.prepared i ++ g.deadlines x i
  playing := fun i =>
    if x.sync.isSome ∧ g.fw.nextVacc i ≠ noVacc then g.prepared i ++ g.deadlines x i
    else g.playing i

/-- The firmware enters 'op ready' and leaves it, any number of times. -/
def system : TransitionSystem Story where
  init g := g = boot.enter
  step g g' := g' = g.enter ∨ ∃ x, g' = g.next x

def table (g : Story) (i : Fin nPz) : DataTable :=
  g.fw.bigData i (tableIdx (g.fw.actChan i) (g.fw.actVacc i))

def Announces (e : MilEvent) (i : Fin nPz) : Prop :=
  e.evtCode.toNat = i.1 + 1 ∧
    (e.evtData.setWidth 32 = evtDataPrepAcc ∨ e.evtData.setWidth 32 = evtDataZeroAcc)

instance (e : MilEvent) (i : Fin nPz) : Decidable (Announces e i) :=
  inferInstanceAs (Decidable (_ ∧ _))

/-- The service event is sent once, after the cycle and in time, and its table is one of the
Pulszentrale. -/
structure Served (g : Story) (e : MilEvent) (i : Fin nPz) : Prop where
  inside : tableIdx (g.fw.actChan i) (g.fw.actVacc i) < nVacc * nChn
  sent : ∃ m, (g.fw.step (.mil e)).2 = [.service i m] ∧
    (∀ d ∈ g.playing i, d.toNat + tDiffMil.toNat * 1000 ≤ m.deadline.toNat) ∧
      (e.sysTime i).toNat + lateLimit.toNat ≤ m.deadline.toNat

def lastMoment (g : Story) (e : MilEvent) (i : Fin nPz) : Nat :=
  ((e.sysTime i).toNat - g.fw.syncPrevT4.toNat + lateLimit.toNat) / 1000

/-- When an offset in microseconds leads to, after the last sync. -/
def afterSync (g : Story) (us : Nat) : Nat :=
  g.fw.syncPrevT4.toNat + us * 1000 + milCalibOffset.toNat

structure Fit (g : Story) (e : MilEvent) (i : Fin nPz) : Prop where
  /-- A cycle has been played. -/
  played : ¬ (g.fw.actVacc i = noVacc ∧ g.fw.actChan i = 0)
  /-- The table is short enough for 16 bits. -/
  short : (getVaccLen (g.table i)).toNat + tDiffMil.toNat < 2 ^ 16
  /-- The last sync is not long ago. -/
  recent : g.lastMoment e i < 2 ^ 16
  /-- The cycle does not go on behind the present table and the last moment. -/
  covered : ∀ d ∈ g.playing i, d.toNat ≤ g.afterSync (getVaccLen (g.table i)).toNat ∨
    d.toNat + tDiffMil.toNat * 1000 ≤ g.afterSync (g.lastMoment e i)

end Story

/-! ### The table that is looked at -/

structure Story.Numbers (g : Story) : Prop where
  act : ∀ i, g.fw.actVacc i = noVacc ∨ (g.fw.actVacc i).toNat < nVacc
  next : ∀ i, g.fw.nextVacc i = noVacc ∨ (g.fw.nextVacc i).toNat < nVacc
  actChan : ∀ i, g.fw.actChan i = 0 ∨ g.fw.actChan i = 1
  nextChan : ∀ i, g.fw.nextChan i = 0 ∨ g.fw.nextChan i = 1

namespace Story.Numbers

variable {g : Story}

theorem boot : Story.boot.enter.Numbers :=
  ⟨fun _ => .inl rfl, fun _ => .inl rfl, fun _ => .inl rfl, fun _ => .inl rfl⟩

theorem enter (h : g.Numbers) : g.enter.Numbers :=
  ⟨fun _ => .inl rfl, fun _ => .inl rfl, h.actChan, h.nextChan⟩

theorem sync (h : g.Numbers) (e : MilEvent) (p c : Fin nPz → List Long) :
    Story.Numbers ⟨(g.fw.sync e).1, p, c⟩ := by
  refine ⟨fun i => ?_, fun _ => .inl rfl, fun i => ?_, h.nextChan⟩
  · simp only [Firmware.sync]
    split
    · exact h.next i
    · exact h.act i
  · simp only [Firmware.sync]
    split
    · exact h.nextChan i
    · exact h.actChan i

theorem announce (h : g.Numbers) (e : MilEvent) (ipz : Fin nPz) (p c : Fin nPz → List Long) :
    Story.Numbers ⟨(g.fw.announce e ipz).1, p, c⟩ := by
  refine ⟨h.act, fun i => ?_, h.actChan, fun i => ?_⟩
  · simp only [Firmware.announce, setAt]
    split
    · right
      have hlt := e.virtAcc.isLt
      have hsixteen : nVacc = 16 := rfl
      rw [BitVec.toNat_setWidth]
      omega
    · exact h.next i
  · simp only [Firmware.announce, setAt]
    split
    · split
      · exact .inr rfl
      · exact .inl rfl
    · exact h.nextChan i

theorem tables (h : g.Numbers) (b : BigData) (f : Bool) (p c : Fin nPz → List Long) :
    Story.Numbers ⟨{ g.fw with bigData := b, flagClearAllPZ := f }, p, c⟩ :=
  ⟨h.act, h.next, h.actChan, h.nextChan⟩

theorem step (h : g.Numbers) (x : Input) : (g.next x).Numbers := by
  rw [Story.next]
  cases x with
  | cmd cmd m =>
      simp only [Firmware.step, Firmware.cmdHandler]
      split
      · exact h.tables _ _ _ _
      split
      · exact h.tables _ _ _ _
      · exact h.tables _ _ _ _
  | mil e =>
      simp only [Firmware.step, Firmware.doActionOperation]
      split
      · exact h.sync e _ _
      split
      · split
        · exact h.announce e _ _ _
        · exact h.tables _ _ _ _
      split
      · exact h.tables _ _ _ _
      split
      · exact h.tables _ _ _ _
      · exact h.tables _ _ _ _

theorem of_reachable (h : Story.system.Reachable g) : g.Numbers := by
  refine TransitionSystem.Reachable.invariant system ?_ ?_ g h
  · rintro g rfl
    exact boot
  · rintro g g' - hg (rfl | ⟨x, rfl⟩)
    · exact hg.enter
    · exact hg.step x

/-- The table lies outside only if no cycle has been played on the first channel. -/
theorem inside_iff (h : g.Numbers) (i : Fin nPz) :
    tableIdx (g.fw.actChan i) (g.fw.actVacc i) < nVacc * nChn ↔
      ¬ (g.fw.actVacc i = noVacc ∧ g.fw.actChan i = 0) := by
  have hin : ∀ chan vacc : Word, chan = 0 ∨ chan = 1 → vacc.toNat < nVacc →
      tableIdx chan vacc < nVacc * nChn := by
    intro chan vacc hchan hvacc
    have hsixteen : nVacc = 16 := rfl
    have hall : nVacc * nChn = 32 := rfl
    rw [hall, tableIdx, BitVec.toNat_add]
    rcases hchan with rfl | rfl
    · have hbase : ((0 : Word) * 16).toNat = 0 := rfl
      rw [hbase]
      omega
    · have hbase : ((1 : Word) * 16).toNat = 16 := rfl
      rw [hbase]
      omega
  rcases h.act i with hact | hact
  · rw [hact]
    rcases h.actChan i with hchan | hchan
    · rw [hchan]
      exact iff_of_false (by decide) (by simp)
    · rw [hchan]
      exact iff_of_true (by decide) (by decide)
  · refine iff_of_true (hin _ _ (h.actChan i) hact) ?_
    rintro ⟨hno, -⟩
    rw [hno] at hact
    exact absurd hact (by decide)

end Story.Numbers

/-! ### The message that is sent -/

theorem getVaccLen_lt (evts : DataTable) : (getVaccLen evts).toNat < 2 ^ 16 := by
  have hfold : ∀ (l : List (Fin nEvt)) (usOffset : Word), usOffset.toNat < 2 ^ 16 →
      (l.foldl (fun usOffset (i : Fin nEvt) =>
        let tmp := (evts.data i >>> 16) &&& 0xffff
        if bit evts.validFlags i && decide (usOffset < tmp) then tmp else usOffset)
          usOffset).toNat < 2 ^ 16 := by
    intro l
    induction l with
    | nil => exact fun _ h => h
    | cons i l ih =>
        intro usOffset h
        rw [List.foldl_cons]
        apply ih
        dsimp only
        split
        · rw [BitVec.toNat_and]
          exact Nat.lt_of_le_of_lt Nat.and_le_right (by decide)
        · exact h
  exact hfold _ 0 (by decide)

/-- The offset of a service event in its entry, which has 16 bits for it. -/
theorem servEvt_offset {evt : Word} (hevt : evt.toNat < 2 ^ 16) (virtAcc offs : Word) :
    (evt ||| ((virtAcc &&& 0xf) <<< 8) ||| ((offs &&& 0xffff) <<< 16)).extractLsb' 16 16 =
      offs.setWidth 16 := by
  have hhigh := getElem_of_small hevt
  apply BitVec.eq_of_getLsbD_eq
  intro i hi
  interval_cases i <;> simp [hhigh]

namespace Firmware

/-- The offset of a service event after the last sync. -/
def servOffs (s : Firmware) (e : MilEvent) (i : Fin nPz) : Word :=
  let servOffs :=
    (getVaccLen (s.bigData i (tableIdx (s.actChan i) (s.actVacc i))) &&& 0xffff) + tDiffMil
  let tmpOffs := ((e.sysTime i - s.syncPrevT4 + lateLimit) / 1000).setWidth 32
  if servOffs < tmpOffs then tmpOffs else servOffs

/-- The service event that is sent after the cycle. -/
def servMsg (s : Firmware) (e : MilEvent) (i : Fin nPz) (evt : Word) : Message :=
  writeTM (evt ||| ((e.virtAcc.setWidth 32 &&& 0xf) <<< 8) |||
    ((s.servOffs e i &&& 0xffff) <<< 16)) s.syncPrevT4 i (e.virtAcc.setWidth 32) 0 0

theorem service_eq {s : Firmware} {e : MilEvent} {i : Fin nPz} (h : Story.Announces e i) :
    ∃ evt : Word, evt.toNat < 2 ^ 16 ∧
      s.step (.mil e) = (s, [.service i (s.servMsg e i evt)]) := by
  obtain ⟨hcode, hdata⟩ := h
  have hi := i.isLt
  have hseven : nPz = 7 := rfl
  have hsync : ¬ e.evtCode.toNat = evt50HzSynch := by
    rw [hcode, evt50HzSynch]
    omega
  have hpz : evtPz1 ≤ e.evtCode.toNat ∧ e.evtCode.toNat ≤ evtPz7 := by
    rw [hcode, evtPz1, evtPz7]
    omega
  have hipz : Fin.ofNat nPz (e.evtCode.toNat - 1) = i := by
    apply Fin.ext
    rw [hcode, Fin.val_ofNat]
    exact Nat.mod_eq_of_lt (by omega)
  have hservice : ¬ e.evtData.setWidth 32 &&& evtDataService = 0 := by
    rcases hdata with hdata | hdata <;> rw [hdata] <;> decide
  have hstep : s.step (.mil e) = (s, s.service e i) := by
    rw [step, doActionOperation, if_neg hsync, if_pos hpz]
    dsimp only
    rw [if_neg hservice, hipz]
  rcases hdata with hdata | hdata
  · refine ⟨evtAuxPrpNxtAcc, by decide, ?_⟩
    rw [hstep, service, hdata]
    rfl
  · refine ⟨evtMagnDown, by decide, ?_⟩
    rw [hstep, service, hdata]
    rfl

theorem toNat_servMsg_deadline {s : Firmware} {e : MilEvent} {i : Fin nPz} {evt : Word}
    (hevt : evt.toNat < 2 ^ 16) (hsync : s.syncPrevT4.toNat < 2 ^ 63) :
    (s.servMsg e i evt).deadline.toNat =
      s.syncPrevT4.toNat + (s.servOffs e i).toNat % 2 ^ 16 * 1000 + milCalibOffset.toNat := by
  have hcarries := writeTM_carries (evt ||| ((e.virtAcc.setWidth 32 &&& 0xf) <<< 8) |||
    ((s.servOffs e i &&& 0xffff) <<< 16)) s.syncPrevT4 i e.virtAcc false 0
  have hdeadline : (s.servMsg e i evt).deadline = _ := hcarries.deadline
  rw [servEvt_offset hevt] at hdeadline
  have hoffs : ((((s.servOffs e i).setWidth 16).setWidth 64 : Long) * 1000).toNat =
      (s.servOffs e i).toNat % 2 ^ 16 * 1000 := by
    have hlong : (1000 : Long).toNat = 1000 := rfl
    have hlt := Nat.mod_lt (s.servOffs e i).toNat (Nat.two_pow_pos 16)
    rw [BitVec.toNat_mul, BitVec.toNat_setWidth, BitVec.toNat_setWidth, hlong,
      Nat.mod_eq_of_lt (Nat.lt_trans hlt (by decide)), Nat.mod_eq_of_lt (by omega)]
  have hlt := Nat.mod_lt (s.servOffs e i).toNat (Nat.two_pow_pos 16)
  have hcalib : milCalibOffset.toNat = 27000 := rfl
  rw [hdeadline, BitVec.toNat_add, BitVec.toNat_add, hoffs, hcalib]
  generalize (s.servOffs e i).toNat % 2 ^ 16 = offs at hlt ⊢
  rw [Nat.mod_eq_of_lt (by omega : s.syncPrevT4.toNat + offs * 1000 < 2 ^ 64),
    Nat.mod_eq_of_lt (by omega)]

end Firmware

/-! ### The offset -/

section Offsets

variable {len tmp sync now : Nat} {playing : List Long}

/-- What is left of an offset in 16 bits leads after the cycle and far enough ahead only if
nothing is lost. -/
theorem offset_fits_iff (hclock : sync ≤ now)
    (htmp : tmp = (now - sync + 250000) / 1000) (hlen : len < 2 ^ 16) :
    ((∀ d ∈ playing, d.toNat + 45000 ≤
        sync + max (len + 45) (tmp % 2 ^ 32) % 2 ^ 16 * 1000 + 27000) ∧
      now + 250000 ≤ sync + max (len + 45) (tmp % 2 ^ 32) % 2 ^ 16 * 1000 + 27000) ↔
    len + 45 < 2 ^ 16 ∧ tmp < 2 ^ 16 ∧ ∀ d ∈ playing,
      d.toNat ≤ sync + len * 1000 + 27000 ∨ d.toNat + 45000 ≤ sync + tmp * 1000 + 27000 := by
  constructor
  · rintro ⟨hafter, htime⟩
    have hrecent : tmp < 2 ^ 16 := by omega
    have hshort : len + 45 < 2 ^ 16 := by omega
    refine ⟨hshort, hrecent, fun d hd => ?_⟩
    have hd := hafter d hd
    omega
  · rintro ⟨hshort, hrecent, hcovered⟩
    have hmax : max (len + 45) (tmp % 2 ^ 32) % 2 ^ 16 = max (len + 45) tmp := by omega
    rw [hmax]
    refine ⟨fun d hd => ?_, by omega⟩
    have hd := hcovered d hd
    omega

end Offsets

namespace Firmware

theorem toNat_servOffs {s : Firmware} {e : MilEvent} {i : Fin nPz}
    (hclock : s.syncPrevT4.toNat ≤ (e.sysTime i).toNat) (hnow : (e.sysTime i).toNat < 2 ^ 63) :
    (s.servOffs e i).toNat =
      max ((getVaccLen (s.bigData i (tableIdx (s.actChan i) (s.actVacc i)))).toNat + 45)
        (((e.sysTime i).toNat - s.syncPrevT4.toNat + 250000) / 1000 % 2 ^ 32) := by
  have hlen := getVaccLen_lt (s.bigData i (tableIdx (s.actChan i) (s.actVacc i)))
  rw [servOffs]
  generalize getVaccLen (s.bigData i (tableIdx (s.actChan i) (s.actVacc i))) = len at hlen ⊢
  have hmask : (len &&& 0xffff : Word) = len := by
    apply BitVec.eq_of_toNat_eq
    have hmask : (0xffff : Word).toNat = 2 ^ 16 - 1 := rfl
    rw [BitVec.toNat_and, hmask, Nat.and_two_pow_sub_one_eq_mod, Nat.mod_eq_of_lt hlen]
  have hserv : ((len &&& 0xffff) + tDiffMil : Word).toNat = len.toNat + 45 := by
    have hdiff : tDiffMil.toNat = 45 := rfl
    rw [hmask, BitVec.toNat_add, hdiff, Nat.mod_eq_of_lt (by omega)]
  have htmp : (((e.sysTime i - s.syncPrevT4 + lateLimit) / 1000).setWidth 32 : Word).toNat =
      ((e.sysTime i).toNat - s.syncPrevT4.toNat + 250000) / 1000 % 2 ^ 32 := by
    have hlimit : lateLimit.toNat = 250000 := rfl
    have hthousand : (1000 : Long).toNat = 1000 := rfl
    have hsum : (e.sysTime i - s.syncPrevT4 + lateLimit).toNat =
        (e.sysTime i).toNat - s.syncPrevT4.toNat + 250000 := by
      rw [BitVec.toNat_add, BitVec.toNat_sub_of_le (by rw [BitVec.le_def]; exact hclock), hlimit,
        Nat.mod_eq_of_lt (by omega)]
    rw [BitVec.toNat_setWidth, BitVec.toNat_udiv, hsum, hthousand]
  by_cases hlt : (len &&& 0xffff) + tDiffMil <
      ((e.sysTime i - s.syncPrevT4 + lateLimit) / 1000).setWidth 32
  · rw [if_pos hlt, htmp]
    rw [BitVec.lt_def, hserv, htmp] at hlt
    exact (Nat.max_eq_right (Nat.le_of_lt hlt)).symm
  · rw [if_neg hlt, hserv]
    rw [BitVec.lt_def, hserv, htmp] at hlt
    exact (Nat.max_eq_left (Nat.le_of_not_lt hlt)).symm

end Firmware

/-- In every reachable state a service event is served exactly if it has what it needs. -/
theorem Story.service_served_iff {g : Story} (hg : Story.system.Reachable g) {e : MilEvent}
    {i : Fin nPz} (he : Announces e i) (hclock : g.fw.syncPrevT4.toNat ≤ (e.sysTime i).toNat)
    (hnow : (e.sysTime i).toNat < 2 ^ 63) : g.Served e i ↔ g.Fit e i := by
  obtain ⟨evt, hevt, hstep⟩ := g.fw.service_eq he
  have hsync : g.fw.syncPrevT4.toNat < 2 ^ 63 := Nat.lt_of_le_of_lt hclock hnow
  have hdeadline := @Firmware.toNat_servMsg_deadline g.fw e i evt hevt hsync
  rw [Firmware.toNat_servOffs hclock hnow] at hdeadline
  have hinside := (Numbers.of_reachable hg).inside_iff i
  have hfits := @offset_fits_iff _ _ _ _ (g.playing i) hclock rfl (getVaccLen_lt (g.table i))
  constructor
  · rintro ⟨hin, m, hsent, hafter, htime⟩
    rw [hstep] at hsent
    obtain rfl : g.fw.servMsg e i evt = m := (Sent.service.inj (List.cons.inj hsent).1).2
    rw [hdeadline] at htime
    simp only [hdeadline] at hafter
    obtain ⟨hshort, hrecent, hcovered⟩ := hfits.mp ⟨hafter, htime⟩
    exact ⟨hinside.mp hin, hshort, hrecent, hcovered⟩
  · rintro ⟨hplayed, hshort, hrecent, hcovered⟩
    obtain ⟨hafter, htime⟩ := hfits.mpr ⟨hshort, hrecent, hcovered⟩
    refine ⟨hinside.mpr hplayed, g.fw.servMsg e i evt, ?_, ?_, ?_⟩
    · rw [hstep]
    · rw [hdeadline]
      exact hafter
    · rw [hdeadline]
      exact htime

section Sample

/-- An event of the first Pulszentrale, or for all, at a given time. -/
def eventAt (now : Long) (evtCode : BitVec 8) (evtData : BitVec 4) : MilEvent :=
  ⟨evtCode, 0, evtData, now, none, fun _ => now, Shared.single 0 0 []⟩

def Story.afterCycle : Story :=
  ((Story.boot.enter.next (prepInput 0)).next (prepInput 1)).next
    (.mil (eventAt 20000000 0x21 0))

theorem Story.afterCycle_reachable : Story.system.Reachable Story.afterCycle :=
  .step (.step (.step (.init rfl) (.inr ⟨_, rfl⟩)) (.inr ⟨_, rfl⟩)) (.inr ⟨_, rfl⟩)

theorem Story.afterCycle_served : Story.afterCycle.Served (eventAt 21000000 0x1 0xe) 0 := by
  have he : Announces (eventAt 21000000 0x1 0xe) 0 := by decide
  have hclock : Story.afterCycle.fw.syncPrevT4.toNat ≤
        ((eventAt 21000000 0x1 0xe).sysTime 0).toNat ∧
      ((eventAt 21000000 0x1 0xe).sysTime 0).toNat < 2 ^ 63 := by decide +kernel
  have hfit : ¬ (Story.afterCycle.fw.actVacc 0 = noVacc ∧ Story.afterCycle.fw.actChan 0 = 0) ∧
      (getVaccLen (Story.afterCycle.table 0)).toNat + tDiffMil.toNat < 2 ^ 16 ∧
        Story.afterCycle.lastMoment (eventAt 21000000 0x1 0xe) 0 < 2 ^ 16 ∧
          (Story.afterCycle.playing 0).all (fun d => decide (d.toNat ≤
            Story.afterCycle.afterSync (getVaccLen (Story.afterCycle.table 0)).toNat)) := by
    decide +kernel
  refine (service_served_iff afterCycle_reachable he hclock.1 hclock.2).mpr
    ⟨hfit.1, hfit.2.1, hfit.2.2.1, fun d hd => .inl ?_⟩
  exact of_decide_eq_true (List.all_eq_true.mp hfit.2.2.2 d hd)

/-- No cycle has been played, and the table is looked for far outside. -/
theorem Story.no_cycle_played :
    ¬ ∀ (g : Story), Story.system.Reachable g → ∀ (e : MilEvent) (i : Fin nPz),
      Announces e i → g.fw.syncPrevT4.toNat ≤ (e.sysTime i).toNat →
        (e.sysTime i).toNat < 2 ^ 63 → g.Served e i := by
  intro h
  have hserved := h Story.boot.enter (.init rfl) (eventAt 21000000 0x1 0xe) 0 (by decide)
    (by decide) (by decide)
  exact absurd hserved.inside (by decide)

end Sample

end WrUnipz
