import BelProjects.WrMil.F50

/-!
# Valid data of the 50 Hz regulation

The lock state is reported and the Data Master is tuned from the last stamps of the mains and of
the Data Master.  They are valid when all of them have been received since the regulation has
been started and the average cycle lengths are within the limits.
-/

namespace WrF50

open B2b (Word Long SysTime TimingMsg evtGid buildEvtidV1)

/-! ### Histories -/

/-- The regulation, the stamps received since it has been started, the newest one first, and the
messages of the last step. -/
structure History where
  f50 : F50
  mains : List Long
  dm : List Long
  out : List Output

def History.enter (s : F50) (setF50Offset setMode : Word) : History :=
  ⟨s.enter setF50Offset setMode, [], [], []⟩

def History.event (h : History) (actStatus : Word) (ev : Event) : History where
  f50 := (h.f50.event actStatus ev).f50
  mains :=
    match ev with
    | .f50Tlu recDeadline recEvtId _ _ =>
        if evtGid recEvtId = pzuF50 then (recDeadline - posttriggerTlu) :: h.mains else h.mains
    | _ => h.mains
  dm :=
    match ev with
    | .f50Dm recDeadline recEvtId _ _ =>
        if evtGid recEvtId = pzuF50 then recDeadline :: h.dm else h.dm
    | _ => h.dm
  out := (h.f50.event actStatus ev).out

def History.run (h : History) : List (Word × Event) → History
  | [] => h
  | (actStatus, ev) :: evs => (h.event actStatus ev).run evs

/-! ### Valid data -/

def Received (stamps : Stamps) (received : List Long) : Prop :=
  nStamps ≤ received.length ∧ ∀ i : Fin nStamps, received[20 - i.1]? = some (stamps i)

/-- The last stamps have all been received, and their average cycle lengths are good. -/
structure History.Valid (h : History) : Prop where
  mains : Received h.f50.stampsF50 h.mains
  dm : Received h.f50.stampsDm h.dm
  mainsLength : InLimits h.f50.stampsF50
  dmLength : InLimits h.f50.stampsDm

def Output.isTune : Output → Bool
  | .network _ => true
  | .eca _ => false

/-- The regulation acts on valid data only. -/
structure History.Regular (h : History) : Prop where
  lock : h.f50.getLockState = .locked → h.Valid
  tune : h.out.any Output.isTune = true → h.Valid

/-! ### When the data are valid -/

/-- A cycle of the mains that completes its stamps finds good ones, and stamps of the Data Master
that are complete and good, unless none has come at all and it is not simulated.  A cycle of the
Data Master that comes in lock is a good one. -/
def History.Clear (h : History) : Event → Prop
  | .f50Tlu recDeadline recEvtId _ _ =>
      evtGid recEvtId = pzuF50 → nStamps ≤ h.mains.length + 1 →
        h.dm ≠ [] ∨ h.f50.setMode &&& maskLockSim ≠ 0 →
          InLimits (shiftStamps (recDeadline - posttriggerTlu) h.f50.stampsF50) ∧
          nStamps ≤ h.dm.length ∧ InLimits h.f50.stampsDm
  | .f50Dm recDeadline recEvtId _ _ =>
      evtGid recEvtId = pzuF50 → h.f50.getLockState = .locked →
        InLimits (shiftStamps recDeadline h.f50.stampsDm)
  | .other _ | .clearDiag => True

def History.ClearRun (h : History) : List (Word × Event) → Prop
  | [] => True
  | (actStatus, ev) :: evs => h.Clear ev ∧ (h.event actStatus ev).ClearRun evs

instance (h : History) (ev : Event) : Decidable (h.Clear ev) :=
  match ev with
  | .f50Tlu _ _ _ _ => inferInstanceAs (Decidable (_ → _ → _ → _))
  | .f50Dm _ _ _ _ => inferInstanceAs (Decidable (_ → _ → _))
  | .other _ => isTrue trivial
  | .clearDiag => isTrue trivial

instance History.decClearRun : (h : History) → (evs : List (Word × Event)) →
    Decidable (h.ClearRun evs)
  | _, [] => isTrue trivial
  | h, (actStatus, ev) :: evs =>
      have := History.decClearRun (h.event actStatus ev) evs
      inferInstanceAs (Decidable (_ ∧ _))

/-! ### Stamps -/

/-- As far as stamps have been received, they are the last ones. -/
def Fed (stamps : Stamps) (received : List Long) : Prop :=
  ∀ i : Fin nStamps, 20 - i.1 < received.length → received[20 - i.1]? = some (stamps i)

theorem Fed.nil {stamps : Stamps} : Fed stamps [] := by
  intro i hi
  exact absurd hi (Nat.not_lt_zero _)

theorem Fed.shift {stamps : Stamps} {received : List Long} (h : Fed stamps received)
    (newStamp : Long) : Fed (shiftStamps newStamp stamps) (newStamp :: received) := by
  intro i hi
  rw [List.length_cons] at hi
  rw [shiftStamps]
  split
  · rename_i hlt
    change i.1 + 1 < 21 at hlt
    have hindex : 20 - i.1 = (20 - (i.1 + 1)) + 1 := by omega
    have hin : 20 - (i.1 + 1) < received.length := by omega
    rw [hindex, List.getElem?_cons_succ]
    exact h ⟨i.1 + 1, hlt⟩ hin
  · rename_i hlast
    change ¬ i.1 + 1 < 21 at hlast
    have hindex : 20 - i.1 = 0 := by omega
    rw [hindex, List.getElem?_cons_zero]

theorem Fed.received {stamps : Stamps} {received : List Long} (h : Fed stamps received)
    (hlength : nStamps ≤ received.length) : Received stamps received := by
  refine ⟨hlength, fun i => h i ?_⟩
  change 21 ≤ _ at hlength
  omega

/-! ### What a step does -/

section Step

variable {s : F50}

theorem updateStamps_eq (newStamp : Long) (stamps : Stamps) :
    updateStamps newStamp stamps = (shiftStamps newStamp stamps, true) := by
  rw [updateStamps]
  simp only [Bool.or_true]

/-- The second state has the stamps, the count of cycles and the mode of the first. -/
structure F50.SameData (s s' : F50) : Prop where
  stampsF50 : s'.stampsF50 = s.stampsF50
  stampsDm : s'.stampsDm = s.stampsDm
  getNCycles : s'.getNCycles = s.getNCycles
  setMode : s'.setMode = s.setMode
  validDm : s'.validDm = true → s.validDm = true ∨ s.setMode &&& maskLockSim ≠ 0

theorem F50.SameData.trans {s s' s'' : F50} (h : s.SameData s') (h' : s'.SameData s'') :
    s.SameData s'' where
  stampsF50 := h'.stampsF50.trans h.stampsF50
  stampsDm := h'.stampsDm.trans h.stampsDm
  getNCycles := h'.getNCycles.trans h.getNCycles
  setMode := h'.setMode.trans h.setMode
  validDm hvalid := by
    rcases h'.validDm hvalid with hvalid | hsim
    · exact h.validDm hvalid
    · rw [h.setMode] at hsim
      exact Or.inr hsim

theorem F50.simulate_same (s : F50) : s.SameData s.simulate := by
  rw [simulate]
  split
  · rename_i hsim
    exact ⟨rfl, rfl, rfl, rfl, fun _ => Or.inr hsim.1⟩
  · exact ⟨rfl, rfl, rfl, rfl, Or.inl⟩

theorem F50.setLock_same (s : F50) (tluStamp : Long) : s.SameData (s.setLock tluStamp) := by
  rw [setLock]
  split
  · split
    · exact ⟨rfl, rfl, rfl, rfl, Or.inl⟩
    · exact ⟨rfl, rfl, rfl, rfl, Or.inl⟩
  · exact ⟨rfl, rfl, rfl, rfl, Or.inl⟩

theorem F50.tune_same (s : F50) (tluStamp : Long) (x : Meets) :
    s.SameData (s.tune tluStamp x).1 := ⟨rfl, rfl, rfl, rfl, Or.inl⟩

/-- A cycle of the mains: its stamp is put in, and either the lock state is unknown and nothing is
sent, or there are enough cycles and there is something of the Data Master. -/
theorem F50.mains_spec (s : F50) (tluStamp : Long) (x : Meets) :
    (s.mainsStamp tluStamp).SameData (s.mains tluStamp x).1 ∧
      ((s.mains tluStamp x).1.getLockState = .unkwn ∧ (s.mains tluStamp x).2 = [] ∨
        BitVec.ofNat 32 nStamps ≤ (s.mainsStamp tluStamp).getNCycles ∧
          ((s.mainsStamp tluStamp).validDm = true ∨
            (s.mainsStamp tluStamp).setMode &&& maskLockSim ≠ 0)) := by
  rw [mains]
  dsimp only
  generalize s.mainsStamp tluStamp = m
  split
  · exact ⟨⟨rfl, rfl, rfl, rfl, Or.inl⟩, Or.inl ⟨rfl, rfl⟩⟩
  · rename_i hcycles
    have hsim := m.simulate_same
    split
    · rename_i hvalid
      refine ⟨(hsim.trans (F50.setLock_same _ tluStamp)).trans (F50.tune_same _ tluStamp x), ?_⟩
      exact Or.inr ⟨BitVec.not_lt.mp hcycles, hsim.validDm hvalid.1⟩
    · exact ⟨hsim.trans ⟨rfl, rfl, rfl, rfl, Or.inl⟩, Or.inl ⟨rfl, rfl⟩⟩

theorem F50.mainsStamp_spec (s : F50) (tluStamp : Long) :
    (s.mainsStamp tluStamp).stampsF50 = shiftStamps tluStamp s.stampsF50 ∧
      (s.mainsStamp tluStamp).stampsDm = s.stampsDm ∧
      (s.mainsStamp tluStamp).getNCycles = s.getNCycles + 1 ∧
      (s.mainsStamp tluStamp).setMode = s.setMode ∧
      (s.mainsStamp tluStamp).validDm = s.validDm := by
  rw [mainsStamp, updateStamps_eq]
  exact ⟨rfl, rfl, rfl, rfl, rfl⟩

theorem F50.dmStamp_spec (s : F50) (recDeadline : Long) :
    (s.dmStamp recDeadline).stampsDm = shiftStamps recDeadline s.stampsDm ∧
      (s.dmStamp recDeadline).stampsF50 = s.stampsF50 ∧
      (s.dmStamp recDeadline).getLockState = s.getLockState ∧
      (s.dmStamp recDeadline).getNCycles = s.getNCycles := by
  rw [dmStamp, updateStamps_eq]
  exact ⟨rfl, rfl, rfl, rfl⟩

end Step

/-! ### Runs -/

section Runs

variable {h : History}

/-- What holds in every run of clear steps. -/
structure History.Inv (h : History) : Prop where
  mains : Fed h.f50.stampsF50 h.mains
  dm : Fed h.f50.stampsDm h.dm
  cycles : h.f50.getNCycles.toNat ≤ h.mains.length
  validDm : h.f50.validDm = true → h.dm ≠ [] ∨ h.f50.setMode &&& maskLockSim ≠ 0
  regular : h.Regular

theorem History.Inv.enter (s : F50) (setF50Offset setMode : Word) :
    (History.enter s setF50Offset setMode).Inv where
  mains := Fed.nil
  dm := Fed.nil
  cycles := Nat.le_refl 0
  validDm hvalid := by cases hvalid
  regular := {
    lock := fun hlock => by cases hlock
    tune := fun hout => by cases hout }

/-- A step that takes no stamp and sends nothing. -/
theorem History.Inv.idle (hi : h.Inv) {s : F50} (hf50 : s.stampsF50 = h.f50.stampsF50)
    (hdm : s.stampsDm = h.f50.stampsDm) (hcycles : s.getNCycles.toNat ≤ h.f50.getNCycles.toNat)
    (hmode : s.setMode = h.f50.setMode) (hvalid : s.validDm = h.f50.validDm)
    (hlock : s.getLockState = .locked → h.f50.getLockState = .locked) :
    History.Inv ⟨s, h.mains, h.dm, []⟩ where
  mains := hf50 ▸ hi.mains
  dm := hdm ▸ hi.dm
  cycles := Nat.le_trans hcycles hi.cycles
  validDm hv := by
    rw [hmode]
    exact hi.validDm (hvalid ▸ hv)
  regular := {
    lock := fun hlocked => by
      have hgood := hi.regular.lock (hlock hlocked)
      exact {
        mains := hf50 ▸ hgood.mains
        dm := hdm ▸ hgood.dm
        mainsLength := hf50 ▸ hgood.mainsLength
        dmLength := hdm ▸ hgood.dmLength }
    tune := fun hout => by cases hout }

/-- A cycle of the Data Master. -/
theorem History.Inv.dmStamp (hi : h.Inv) {recDeadline : Long}
    (hclear : h.f50.getLockState = .locked → InLimits (shiftStamps recDeadline h.f50.stampsDm)) :
    History.Inv ⟨h.f50.dmStamp recDeadline, h.mains, recDeadline :: h.dm, []⟩ := by
  obtain ⟨hdm, hf50, hlock, hcycles⟩ := h.f50.dmStamp_spec recDeadline
  have hfed : Fed (h.f50.dmStamp recDeadline).stampsDm (recDeadline :: h.dm) := by
    rw [hdm]
    exact hi.dm.shift recDeadline
  exact {
    mains := hf50 ▸ hi.mains
    dm := hfed
    cycles := hcycles ▸ hi.cycles
    validDm := fun _ => Or.inl (List.cons_ne_nil _ _)
    regular := {
      lock := fun hlocked => by
        have hlocked : h.f50.getLockState = .locked := hlock ▸ hlocked
        have hgood := hi.regular.lock hlocked
        exact {
          mains := hf50 ▸ hgood.mains
          dm := hfed.received (Nat.le_succ_of_le hgood.dm.1)
          mainsLength := hf50 ▸ hgood.mainsLength
          dmLength := hdm ▸ hclear hlocked }
      tune := fun hout => by cases hout } }

theorem History.Inv.mainsStamp (hi : h.Inv) {tluStamp : Long} {x : Meets}
    (hclear : nStamps ≤ h.mains.length + 1 →
      h.dm ≠ [] ∨ h.f50.setMode &&& maskLockSim ≠ 0 →
        InLimits (shiftStamps tluStamp h.f50.stampsF50) ∧ nStamps ≤ h.dm.length ∧
          InLimits h.f50.stampsDm) :
    History.Inv ⟨(h.f50.mains tluStamp x).1, tluStamp :: h.mains, h.dm,
      (h.f50.mains tluStamp x).2⟩ := by
  obtain ⟨hsame, hact⟩ := h.f50.mains_spec tluStamp x
  obtain ⟨hf50, hdm, hcycles, hmode, hvalid⟩ := h.f50.mainsStamp_spec tluStamp
  have hnew := hsame.stampsF50.trans hf50
  have hold := hsame.stampsDm.trans hdm
  have hfed : Fed (h.f50.mains tluStamp x).1.stampsF50 (tluStamp :: h.mains) := by
    rw [hnew]
    exact hi.mains.shift tluStamp
  have hcount : (h.f50.getNCycles + 1).toNat ≤ h.mains.length + 1 := by
    have hle := hi.cycles
    rw [BitVec.toNat_add]
    exact Nat.le_trans (Nat.mod_le _ _) (Nat.add_le_add_right hle 1)
  have hsomething : h.f50.validDm = true ∨ h.f50.setMode &&& maskLockSim ≠ 0 →
      h.dm ≠ [] ∨ h.f50.setMode &&& maskLockSim ≠ 0 := by
    rintro (hv | hsim)
    · exact hi.validDm hv
    · exact Or.inr hsim
  have hgood : (h.f50.mains tluStamp x).1.getLockState = .unkwn ∧ (h.f50.mains tluStamp x).2 = [] ∨
      History.Valid ⟨(h.f50.mains tluStamp x).1, tluStamp :: h.mains, h.dm,
        (h.f50.mains tluStamp x).2⟩ := by
    rcases hact with hunknown | ⟨henough, hdata⟩
    · exact Or.inl hunknown
    · rw [hvalid, hmode] at hdata
      rw [hcycles, BitVec.le_def] at henough
      have hlength : nStamps ≤ h.mains.length + 1 := Nat.le_trans henough hcount
      obtain ⟨hmainsLength, hdmCount, hdmLength⟩ := hclear hlength (hsomething hdata)
      apply Or.inr
      exact {
        mains := hfed.received hlength
        dm := hold ▸ hi.dm.received hdmCount
        mainsLength := hnew ▸ hmainsLength
        dmLength := hold ▸ hdmLength }
  exact {
    mains := hfed
    dm := hold ▸ hi.dm
    cycles := by
      rw [hsame.getNCycles, hcycles]
      exact hcount
    validDm := fun hv => by
      have hdata := hsame.validDm hv
      rw [hvalid, hmode] at hdata
      rw [hsame.setMode, hmode]
      exact hsomething hdata
    regular := {
      lock := fun hlocked => by
        rcases hgood with ⟨hunknown, -⟩ | hgood
        · rw [hunknown] at hlocked
          cases hlocked
        · exact hgood
      tune := fun hout => by
        rcases hgood with ⟨-, hnone⟩ | hgood
        · rw [hnone] at hout
          cases hout
        · exact hgood } }

theorem History.Inv.event (hi : h.Inv) {actStatus : Word} {ev : Event} (hclear : h.Clear ev) :
    (h.event actStatus ev).Inv := by
  cases ev with
  | other x => exact hi.idle rfl rfl (Nat.le_refl _) rfl rfl id
  | clearDiag =>
    refine hi.idle (s := h.f50.clearDiag) rfl rfl ?_ rfl rfl ?_
    · rw [F50.clearDiag]
      dsimp only
      split
      · rename_i hmany
        exact Nat.le_of_lt hmany
      · exact Nat.le_refl _
    · intro hlock
      cases hlock
  | f50Dm recDeadline recEvtId flagIsLate x =>
    rw [History.event, F50.event]
    by_cases hgid : evtGid recEvtId = pzuF50
    · simp only [hgid, ne_eq, not_true_eq_false, if_false, if_true]
      exact hi.dmStamp (hclear hgid)
    · simp only [hgid, ne_eq, not_false_eq_true, if_true, if_false]
      exact hi.idle rfl rfl (Nat.le_refl _) rfl rfl id
  | f50Tlu recDeadline recEvtId flagIsLate x =>
    rw [History.event, F50.event]
    by_cases hgid : evtGid recEvtId = pzuF50
    · simp only [hgid, ne_eq, not_true_eq_false, if_false, if_true]
      exact hi.mainsStamp (hclear hgid)
    · simp only [hgid, ne_eq, not_false_eq_true, if_true, if_false]
      exact hi.idle rfl rfl (Nat.le_refl _) rfl rfl id

theorem History.Inv.run (hi : h.Inv) {evs : List (Word × Event)} (hclear : h.ClearRun evs) :
    (h.run evs).Inv := by
  induction evs generalizing h with
  | nil => exact hi
  | cons ev evs ih =>
    obtain ⟨hev, hevs⟩ := hclear
    exact ih (hi.event hev) hevs

end Runs

/-- In a run of clear steps since the start, whatever was kept from before, the regulation is in
lock and tunes the Data Master only with valid data. -/
theorem regular_of_clear (s : F50) (setF50Offset setMode : Word) (evs : List (Word × Event))
    (hclear : (History.enter s setF50Offset setMode).ClearRun evs) :
    ((History.enter s setF50Offset setMode).run evs).Regular :=
  ((History.Inv.enter s setF50Offset setMode).run hclear).regular

def F50.boot : F50 where
  setF50Offset := 0
  setMode := 0
  stampsF50 := fun _ => 0
  stampsDm := fun _ => 0
  t0F50 := 0
  t1F50 := 0
  t2F50 := 0
  t0Dm := 0
  t1Dm := 0
  validF50 := false
  validDm := false
  getTDmAct := 0
  getTDmSet := 0
  getOffsDmAct := 0
  getDtDmAct := 0
  getLockState := .unkwn
  getLockDate := 0
  getNLocked := 0
  getNCycles := 0
  getNSent := 0

/-- What a call meets at the time `now`. -/
def meetsAt (now : SysTime) : Meets := ⟨now, now, now, now, true⟩

def startTime : SysTime := ⟨1800000000000000000, by decide⟩

/-- The start of the `i`-th cycle of the Data Master, and of the mains. -/
def dmCycle (i : Nat) : Word × Event :=
  (statusOk, .f50Dm (startTime.ns + BitVec.ofNat 64 i * 20000000)
    (buildEvtidV1 pzuF50 ecaDoF50Dm 0 0 0 0) false (meetsAt startTime))

def mainsCycle (i : Nat) : Word × Event :=
  (statusOk, .f50Tlu (startTime.ns + BitVec.ofNat 64 i * 20000000 + posttriggerTlu)
    (buildEvtidV1 pzuF50 0xa01 0 0 0 0) false (meetsAt startTime))

def cycles (n : Nat) : List (Word × Event) :=
  (List.range n).flatMap fun i => [dmCycle i, mainsCycle i]

theorem regular_of_clear_cycles :
    (History.enter F50.boot 0 maskLockDm).ClearRun (cycles 21) ∧
      ((History.enter F50.boot 0 maskLockDm).run (cycles 21)).Regular :=
  ⟨by decide +kernel, regular_of_clear F50.boot 0 maskLockDm _ (by decide +kernel)⟩

/-- After one cycle of the Data Master only, the 21st cycle of the mains tunes it. -/
theorem tuned_without_stamps :
    ¬ ∀ (s : F50) (setF50Offset setMode : Word) (evs : List (Word × Event)),
      ((History.enter s setF50Offset setMode).run evs).Regular := by
  intro h
  have htune : ((History.enter F50.boot 0 maskLockDm).run
      (dmCycle 0 :: (List.range 21).map mainsCycle)).out.any Output.isTune = true := by
    decide +kernel
  have hcount := ((h F50.boot 0 maskLockDm _).tune htune).dm.1
  revert hcount
  decide +kernel

end WrF50
