import BelProjects.WrUnipz.Operation
import Mathlib.Data.List.Perm.Basic
import Mathlib.Tactic.IntervalCases

/-!
# The messages of a cycle

A cycle begins after a 50 Hz event and ends with the next one. For each Pulszentrale the
firmware remembers the last announcement, and at the end of the cycle that is what it plays.
-/

namespace WrUnipz

/-! ## What a message carries -/

/-- A message for an entry of an event table, in a cycle with a given start. -/
structure Carries (m : Message) (entry : Word) (start : Long) (pz : Fin nPz) (virtAcc : BitVec 4) (noBeam : Bool) :
    Prop where
  deadline : m.deadline = start + (entry.extractLsb' 16 16).setWidth 64 * 1000 + milCalibOffset
  gid : m.evtId.extractLsb' 48 12 = (gid pz).setWidth 12
  evtNo : m.evtId.extractLsb' 36 12 = (entry.setWidth 8).setWidth 12
  sid : m.evtId.extractLsb' 20 12 = virtAcc.setWidth 12
  /-- The data of `EVT_COMMAND` name a Pulszentrale and stay as they are. -/
  noBeam : entry.setWidth 8 ≠ 0xff#8 → m.evtId.getLsbD 2 = noBeam

theorem getElem_of_small {w : Word} {n : Nat} (h : w.toNat < 2 ^ n) : ∀ (k : Nat) (hk : k < 32), n ≤ k → w[k] = false := by
  intro k _ hk
  exact Nat.testBit_lt_two_pow (Nat.lt_of_lt_of_le h (Nat.pow_le_pow_right (by decide) hk))

theorem evtId_fields {g c v d : Word} (hc : c.toNat < 2 ^ 12) (hv : v.toNat < 2 ^ 12) (hd : d.toNat < 2 ^ 20) :
    let evtId : Long := (0x1#64 <<< 60) ||| (g.setWidth 64 <<< 48) ||| (c.setWidth 64 <<< 36) |||
      (v.setWidth 64 <<< 20) ||| d.setWidth 64
    evtId.extractLsb' 48 12 = g.setWidth 12 ∧ evtId.extractLsb' 36 12 = c.setWidth 12 ∧
      evtId.extractLsb' 20 12 = v.setWidth 12 ∧ evtId.extractLsb' 0 20 = d.setWidth 20 := by
  have hc' := getElem_of_small hc
  have hv' := getElem_of_small hv
  have hd' := getElem_of_small hd
  refine ⟨?_, ?_, ?_, ?_⟩
  all_goals
    apply BitVec.eq_of_getLsbD_eq
    intro i hi
    interval_cases i <;> simp [hc', hv', hd']

def sentData (uniEvt flagNochop : Word) : Word :=
  let evtData := (uniEvt >>> 12) &&& 0x000f
  if uniEvt &&& 0x00ff ≠ evtCommand then (evtData &&& 0xb) ||| ((flagNochop &&& 0x1) <<< 2) else evtData

theorem writeTM_carries (entry : Word) (start : Long) (pz : Fin nPz) (virtAcc : BitVec 4) (noBeam : Bool)
    (short : Word) : Carries (writeTM entry start pz (virtAcc.setWidth 32) (if noBeam then 1 else 0) short)
      entry start pz virtAcc noBeam := by
  have hcode : (entry &&& 0x00ff).toNat < 2 ^ 12 := by
    rw [BitVec.toNat_and]
    exact Nat.lt_of_le_of_lt Nat.and_le_right (by decide)
  have hvacc : (virtAcc.setWidth 32).toNat < 2 ^ 12 := by
    rw [BitVec.toNat_setWidth]
    have := virtAcc.isLt
    omega
  have hdata : (sentData entry (if noBeam then 1 else 0)).toNat < 2 ^ 20 := by
    have hsmall (x y : Word) (hy : y.toNat < 2 ^ 20) : (x &&& y).toNat < 2 ^ 20 := by
      rw [BitVec.toNat_and]
      exact Nat.lt_of_le_of_lt Nat.and_le_right hy
    rw [sentData]
    split
    · rw [BitVec.toNat_or]
      refine Nat.or_lt_two_pow (hsmall _ _ (by decide)) ?_
      cases noBeam <;> decide
    · exact hsmall _ _ (by decide)
  obtain ⟨hgid, hevt, hsid, hlow⟩ := evtId_fields (g := gid pz) hcode hvacc hdata
  refine ⟨?_, hgid, ?_, ?_, ?_⟩
  · have hoffset : ((((entry >>> 16) &&& 0xffff) * 1000 : Word).setWidth 64 : Long) =
        (entry.extractLsb' 16 16).setWidth 64 * 1000 := by
      have hlow : (entry >>> 16) &&& 0xffff = (entry.extractLsb' 16 16).setWidth 32 := by
        apply BitVec.eq_of_getLsbD_eq
        intro i hi
        interval_cases i <;> simp
      rw [hlow]
      apply BitVec.eq_of_toNat_eq
      have hlt := (entry.extractLsb' 16 16).isLt
      have hword : (1000 : Word).toNat = 1000 := rfl
      have hlong : (1000 : Long).toNat = 1000 := rfl
      simp only [BitVec.toNat_setWidth, BitVec.toNat_mul, hword, hlong]
      generalize (entry.extractLsb' 16 16).toNat = offset at hlt ⊢
      have hbound : offset * 1000 < 2 ^ 32 := by
        omega
      have hmod (n : Nat) (hn : n < 2 ^ 32) : n % 2 ^ 32 = n ∧ n % 2 ^ 64 = n :=
        ⟨Nat.mod_eq_of_lt hn, Nat.mod_eq_of_lt (Nat.lt_trans hn (by decide))⟩
      obtain ⟨hlow32, hlow64⟩ := hmod offset (by omega)
      rw [hlow32, hlow64, (hmod _ hbound).1]
    exact congrArg (start + · + milCalibOffset) hoffset
  · refine hevt.trans ?_
    apply BitVec.eq_of_getLsbD_eq
    intro i hi
    interval_cases i <;> simp
  · refine hsid.trans ?_
    apply BitVec.eq_of_getLsbD_eq
    intro i hi
    interval_cases i <;> simp
  · intro hne
    have hne' : entry &&& 0x00ff ≠ evtCommand := by
      intro heq
      apply hne
      apply BitVec.eq_of_getLsbD_eq
      intro i hi
      have hbit := congrArg (fun w : Word => w.getLsbD i) heq
      interval_cases i <;> simpa [evtCommand] using hbit
    have hbit := congrArg (fun w : BitVec 20 => w.getLsbD 2) hlow
    have hsent : ((sentData entry (if noBeam then 1 else 0)).setWidth 20).getLsbD 2 = noBeam := by
      rw [sentData, if_pos hne']
      cases noBeam <;> simp
    rw [hsent, BitVec.getLsbD_extractLsb'] at hbit
    exact hbit

/-! ## One event -/

def Input.sync : Input → Option MilEvent
  | .mil e => if e.evtCode.toNat = evt50HzSynch then some e else none
  | .cmd _ _ => none

def Input.announce (i : Fin nPz) : Input → Option MilEvent
  | .mil e =>
      if (evtPz1 ≤ e.evtCode.toNat ∧ e.evtCode.toNat ≤ evtPz7) ∧ Fin.ofNat nPz (e.evtCode.toNat - 1) = i ∧
          e.evtData.setWidth 32 &&& evtDataService = 0 then some e
      else none
  | .cmd _ _ => none

structure Announced where
  vacc : Word
  chan : Word
  chopNo : Word
  chopShort : Word

def Firmware.next (s : Firmware) (i : Fin nPz) : Announced :=
  ⟨s.nextVacc i, s.nextChan i, s.nextChopNo i, s.nextChopShort i⟩

def MilEvent.noBeam (e : MilEvent) : Bool := e.evtData.setWidth 32 &&& evtDataNoChop ≠ 0

def MilEvent.chan (e : MilEvent) : Word := if e.evtData.setWidth 32 &&& evtDataChannel ≠ 0 then 1 else 0

def MilEvent.announced (e : MilEvent) : Announced :=
  ⟨e.virtAcc.setWidth 32, e.chan, if e.noBeam then 1 else 0, e.chan⟩

def MilEvent.table (e : MilEvent) (s : Firmware) (i : Fin nPz) : DataTable :=
  s.bigData i (tableIdx e.chan (e.virtAcc.setWidth 32))

/-- The messages from event tables, for one Pulszentrale. -/
def played (i : Fin nPz) (l : List Sent) : List Message :=
  l.filterMap fun
    | .vacc pz m => if pz = i then some m else none
    | .service _ _ => none

theorem played_service {i : Fin nPz} {l : List Sent} (h : ∀ x ∈ l, ∃ pz m, x = Sent.service pz m) :
    played i l = [] := by
  rw [played, List.filterMap_eq_nil_iff]
  intro x hx
  obtain ⟨pz, m, rfl⟩ := h x hx
  rfl

theorem played_map (i j : Fin nPz) (l : List Message) :
    played i (l.map (Sent.vacc j)) = if j = i then l else [] := by
  rw [played, List.filterMap_map]
  by_cases h : j = i
  · rw [if_pos h]
    simp [h]
  · rw [if_neg h]
    simp [h]

theorem Firmware.service_played (s : Firmware) (e : MilEvent) (i j : Fin nPz) : played i (s.service e j) = [] := by
  apply played_service
  intro x hx
  simp only [service, List.mem_append, List.mem_ite_nil_right, List.mem_singleton] at hx
  rcases hx with ((⟨-, rfl⟩ | ⟨-, rfl⟩) | ⟨-, rfl⟩) | ⟨-, rfl⟩ <;> exact ⟨_, _, rfl⟩

theorem Firmware.noBeam_played (s : Firmware) (e : MilEvent) (i : Fin nPz) : played i (s.noBeam e) = [] := by
  apply played_service
  intro x hx
  rw [noBeam, List.mem_flatMap] at hx
  obtain ⟨j, -, hx⟩ := hx
  split at hx
  · rw [List.mem_singleton] at hx
    exact ⟨_, _, hx⟩
  · cases hx

theorem flatMap_single {α : Type*} {i : Fin nPz} {l : List (Fin nPz)} (hl : l.Nodup) (hi : i ∈ l) (x : List α) :
    (l.flatMap fun j => if j = i then x else []) = x := by
  induction l with
  | nil => cases hi
  | cons j l ih =>
      rw [List.nodup_cons] at hl
      rw [List.flatMap_cons]
      by_cases hj : j = i
      · subst hj
        have hnone : (l.flatMap fun j' => if j' = j then x else []) = [] := by
          rw [List.flatMap_eq_nil_iff]
          intro j' hj'
          exact if_neg (fun heq : j' = j => hl.1 (heq ▸ hj'))
        rw [if_pos rfl, hnone, List.append_nil]
      · rw [if_neg hj, List.nil_append]
        exact ih hl.2 ((List.mem_cons.mp hi).resolve_left (Ne.symm hj))

theorem Firmware.playAnnounced_played (s : Firmware) (deadline : Long) (i : Fin nPz) :
    played i (s.playAnnounced deadline) =
      if (s.next i).vacc ≠ noVacc then
        pzRunVacc (s.bigData i (tableIdx (s.next i).chan (s.next i).vacc)) deadline i (s.next i).vacc
          (s.next i).chopNo (s.next i).chopShort false
      else [] := by
  have hpart (j : Fin nPz) : played i (if s.nextVacc j ≠ noVacc then
      (pzRunVacc (s.bigData j (tableIdx (s.nextChan j) (s.nextVacc j))) deadline j (s.nextVacc j)
        (s.nextChopNo j) (s.nextChopShort j) false).map (Sent.vacc j) else []) =
      if j = i then (if (s.next i).vacc ≠ noVacc then
        pzRunVacc (s.bigData i (tableIdx (s.next i).chan (s.next i).vacc)) deadline i (s.next i).vacc
          (s.next i).chopNo (s.next i).chopShort false else []) else [] := by
    by_cases hj : j = i
    · subst hj
      rw [if_pos rfl]
      split
      · next hvacc =>
          rw [played_map, if_pos rfl]
          exact (if_pos hvacc).symm
      · next hvacc => exact (if_neg hvacc).symm
    · rw [if_neg hj]
      split
      · rw [played_map, if_neg hj]
      · rfl
  rw [playAnnounced, played, List.filterMap_flatMap]
  exact (List.flatMap_congr fun j _ => hpart j).trans
    (flatMap_single (List.nodup_finRange nPz) (List.mem_finRange i) _)

theorem Firmware.step_other {s : Firmware} {x : Input} {i : Fin nPz} (hs : x.sync = none) (ha : x.announce i = none) :
    (s.step x).1.next i = s.next i ∧ played i (s.step x).2 = [] := by
  cases x with
  | cmd cmd m =>
      refine ⟨?_, rfl⟩
      simp only [step, cmdHandler]
      split
      · rfl
      · split <;> rfl
  | mil e =>
      have hsync : e.evtCode.toNat ≠ evt50HzSynch := by
        intro h
        simp [Input.sync, h] at hs
      simp only [step, doActionOperation, if_neg hsync]
      split
      · next hpz =>
          split
          · next hservice =>
              have hi : Fin.ofNat nPz (e.evtCode.toNat - 1) ≠ i := by
                intro h
                rw [Input.announce, if_pos ⟨hpz, h, hservice⟩] at ha
                cases ha
              constructor
              · simp only [announce, next, setAt, if_neg (Ne.symm hi)]
              · exact (played_map i _ _).trans (if_neg hi)
          · exact ⟨rfl, s.service_played e i _⟩
      · split
        · exact ⟨rfl, s.noBeam_played e i⟩
        · split <;> exact ⟨rfl, rfl⟩

theorem Firmware.step_announce {s : Firmware} {x : Input} {i : Fin nPz} {e : MilEvent} (ha : x.announce i = some e) :
    (s.step x).1.next i = e.announced ∧ (s.step x).1.bigData = s.bigData ∧
      played i (s.step x).2 = pzRunVacc (e.table s i) s.predictNxtCycle i e.announced.vacc e.announced.chopNo
        e.announced.chopShort true := by
  cases x with
  | cmd cmd m => cases ha
  | mil e' =>
      rw [Input.announce] at ha
      split at ha
      · next h =>
          obtain ⟨hpz, hi, hservice⟩ := h
          cases ha
          have hsync : e.evtCode.toNat ≠ evt50HzSynch := by
            have hle := hpz.2
            rw [evtPz7] at hle
            rw [evt50HzSynch]
            omega
          simp only [step, doActionOperation, if_neg hsync, if_pos hpz, if_pos hservice, hi]
          refine ⟨?_, rfl, ?_⟩
          · simp [announce, next, setAt, MilEvent.announced, MilEvent.chan, MilEvent.noBeam]
          · refine (played_map i i _).trans ((if_pos rfl).trans ?_)
            simp [MilEvent.announced, MilEvent.chan, MilEvent.noBeam, MilEvent.table]
      · cases ha

theorem Firmware.step_sync {s : Firmware} {x : Input} {e : MilEvent} (hs : x.sync = some e) (i : Fin nPz) :
    ((s.step x).1.next i).vacc = noVacc ∧ played i (s.step x).2 =
      if (s.next i).vacc ≠ noVacc then
        pzRunVacc (s.bigData i (tableIdx (s.next i).chan (s.next i).vacc)) e.deadline i (s.next i).vacc
          (s.next i).chopNo (s.next i).chopShort false
      else [] := by
  cases x with
  | cmd cmd m => cases hs
  | mil e' =>
      rw [Input.sync] at hs
      split at hs
      · next h =>
          cases hs
          simp only [step, doActionOperation, if_pos h]
          exact ⟨rfl, s.playAnnounced_played e.deadline i⟩
      · cases hs

/-! ## Cycles of a run -/

section Run

variable (s : Nat → Firmware) (inp : Nat → Input)

def sent (t : Nat) : List Sent := ((s t).step (inp t)).2

structure Cycle (first last : Nat) (e : MilEvent) : Prop where
  begins : first = 0 ∨ ∃ c, first = c + 1 ∧ (inp c).sync.isSome
  quiet : ∀ t, first ≤ t → t < last → (inp t).sync = none
  ends : (inp last).sync = some e
  le : first ≤ last

/-- All the messages from event tables that a cycle sends for a Pulszentrale. -/
def cyclePlayed (i : Fin nPz) (first last : Nat) : List Message :=
  (List.range' first (last + 1 - first)).flatMap fun t => played i (sent s inp t)

variable {s inp} {s₀ : Firmware} {first last : Nat} {e₂ : MilEvent} {i : Fin nPz}

/-- Until a Pulszentrale is announced there is nothing to play for it. -/
theorem Cycle.unannounced (h : Cycle inp first last e₂) (hstart : s 0 = s₀.entryActionOperation)
    (hrun : ∀ t, s (t + 1) = ((s t).step (inp t)).1) {u : Nat} (hu : first ≤ u) (hlast : u ≤ last)
    (hnone : ∀ t, first ≤ t → t < u → (inp t).announce i = none) : ((s u).next i).vacc = noVacc := by
  induction u, hu using Nat.le_induction with
  | base =>
      rcases h.begins with rfl | ⟨c, rfl, hsync⟩
      · rw [hstart]
        rfl
      · obtain ⟨e, he⟩ := Option.isSome_iff_exists.mp hsync
        rw [hrun]
        exact (Firmware.step_sync he i).1
  | succ u hu ih =>
      have hother := Firmware.step_other (s := s u) (h.quiet u hu hlast) (hnone u hu (Nat.lt_succ_self u))
      rw [hrun, hother.1]
      exact ih (Nat.le_of_succ_le hlast) fun t ht hlt => hnone t ht (Nat.lt_succ_of_lt hlt)

theorem Cycle.remembered (h : Cycle inp first last e₂) (hrun : ∀ t, s (t + 1) = ((s t).step (inp t)).1) {t₁ : Nat}
    {e : MilEvent} (ht : first ≤ t₁) (ha : (inp t₁).announce i = some e)
    (hnone : ∀ t, t₁ < t → t < last → (inp t).announce i = none) {u : Nat} (hu : t₁ + 1 ≤ u) (hlast : u ≤ last) :
    (s u).next i = e.announced := by
  induction u, hu using Nat.le_induction with
  | base =>
      rw [hrun]
      exact (Firmware.step_announce ha).1
  | succ u hu ih =>
      have hother := Firmware.step_other (s := s u) (h.quiet u (ht.trans (Nat.le_of_succ_le hu)) hlast)
        (hnone u hu hlast)
      rw [hrun, hother.1]
      exact ih (Nat.le_of_succ_le hlast)

theorem MilEvent.announced_vacc (e : MilEvent) : e.announced.vacc ≠ noVacc := by
  intro h
  have hlt := e.virtAcc.isLt
  have hnat := congrArg BitVec.toNat h
  rw [announced, BitVec.toNat_setWidth] at hnat
  have hno : noVacc.toNat = 2 ^ 32 - 1 := rfl
  omega

theorem pzRunVacc_eq (evts : DataTable) (tStart : Long) (i : Fin nPz) (e : MilEvent) (isPrep : Bool) :
    pzRunVacc evts tStart i e.announced.vacc e.announced.chopNo e.announced.chopShort isPrep =
      (evts.events.filter fun j : Fin nEvt => bit evts.prepFlags j == isPrep).map fun j =>
        writeTM (evts.data j) tStart i (e.virtAcc.setWidth 32) (if e.noBeam then 1 else 0) e.chan := rfl

def entryMsg (evts : DataTable) (predicted measured : Long) (i : Fin nPz) (e : MilEvent) (j : Fin nEvt) : Message :=
  writeTM (evts.data j) (if bit evts.prepFlags j then predicted else measured) i (e.virtAcc.setWidth 32)
    (if e.noBeam then 1 else 0) e.chan

/-- The two halves of a table. -/
theorem pzRunVacc_entryMsg (evts : DataTable) (predicted measured : Long) (i : Fin nPz) (e : MilEvent) :
    pzRunVacc evts predicted i e.announced.vacc e.announced.chopNo e.announced.chopShort true =
      (evts.events.filter fun j : Fin nEvt => bit evts.prepFlags j).map (entryMsg evts predicted measured i e) ∧
    pzRunVacc evts measured i e.announced.vacc e.announced.chopNo e.announced.chopShort false =
      (evts.events.filter fun j : Fin nEvt => !bit evts.prepFlags j).map (entryMsg evts predicted measured i e) := by
  rw [pzRunVacc_eq, pzRunVacc_eq]
  constructor
  · have hfilter : (evts.events.filter fun j : Fin nEvt => bit evts.prepFlags j == true) =
        evts.events.filter fun j : Fin nEvt => bit evts.prepFlags j := by
      refine List.filter_congr fun j _ => ?_
      cases bit evts.prepFlags j <;> rfl
    rw [hfilter]
    refine List.map_congr_left fun j hj => ?_
    rw [List.mem_filter] at hj
    rw [entryMsg, if_pos hj.2]
  · have hfilter : (evts.events.filter fun j : Fin nEvt => bit evts.prepFlags j == false) =
        evts.events.filter fun j : Fin nEvt => !bit evts.prepFlags j := by
      refine List.filter_congr fun j _ => ?_
      cases bit evts.prepFlags j <;> rfl
    rw [hfilter]
    refine List.map_congr_left fun j hj => ?_
    rw [List.mem_filter, Bool.not_eq_true'] at hj
    rw [entryMsg, hj.2]
    rfl

theorem flatMap_two {α : Type*} {f : Nat → List α} {t₁ : Nat} (hle : first ≤ t₁) (hlt : t₁ < last)
    (hnone : ∀ t, first ≤ t → t < last → t ≠ t₁ → f t = []) :
    (List.range' first (last + 1 - first)).flatMap f = f t₁ ++ f last := by
  have hsplit : List.range' first (last + 1 - first) = List.range' first (t₁ - first) ++
      (t₁ :: (List.range' (t₁ + 1) (last - (t₁ + 1)) ++ [last])) := by
    have hrest : List.range' t₁ (last + 1 - t₁) = t₁ :: (List.range' (t₁ + 1) (last - (t₁ + 1)) ++ [last]) := by
      have hlength : last + 1 - t₁ = last - (t₁ + 1) + 1 + 1 := by
        omega
      have hlast : t₁ + 1 + (last - (t₁ + 1)) = last := by
        omega
      rw [hlength, List.range'_succ, List.range'_1_concat, hlast]
    have hlength : last + 1 - first = t₁ - first + (last + 1 - t₁) := by
      omega
    have hfirst : first + (t₁ - first) = t₁ := by
      omega
    rw [hlength, ← List.range'_append_1, hfirst, hrest]
  have hbefore : (List.range' first (t₁ - first)).flatMap f = [] := by
    rw [List.flatMap_eq_nil_iff]
    intro t ht
    rw [List.mem_range'_1] at ht
    exact hnone t ht.1 (by omega) (by omega)
  have hafter : (List.range' (t₁ + 1) (last - (t₁ + 1))).flatMap f = [] := by
    rw [List.flatMap_eq_nil_iff]
    intro t ht
    rw [List.mem_range'_1] at ht
    exact hnone t (by omega) (by omega) (by omega)
  rw [hsplit, List.flatMap_append, List.flatMap_cons, List.flatMap_append, hbefore, hafter]
  simp

/-- **What a cycle plays.** For a Pulszentrale that is not announced no table is played. For one
that is announced, whose earlier announcements in the cycle had no early events and whose table at
the end of the cycle is that of the last announcement, the messages are one for each event of
the table: the early ones at the announcement with the predicted start, the others at the end
with the measured one. -/
theorem cycle_played (h : Cycle inp first last e₂) (hstart : s 0 = s₀.entryActionOperation)
    (hrun : ∀ t, s (t + 1) = ((s t).step (inp t)).1) (i : Fin nPz) :
    ((∀ t, first ≤ t → t < last → (inp t).announce i = none) →
      ∀ t, first ≤ t → t ≤ last → played i (sent s inp t) = []) ∧
    ∀ t₁ e, first ≤ t₁ → t₁ < last → (inp t₁).announce i = some e →
      (∀ t, t₁ < t → t < last → (inp t).announce i = none) →
      (∀ t e', first ≤ t → t < t₁ → (inp t).announce i = some e' →
        ∀ j ∈ (e'.table (s t) i).events, bit (e'.table (s t) i).prepFlags j = false) →
      e.table (s last) i = e.table (s t₁) i →
      ∃ msg : Fin nEvt → Message,
        (∀ j ∈ (e.table (s t₁) i).events, Carries (msg j) ((e.table (s t₁) i).data j)
          (if bit (e.table (s t₁) i).prepFlags j then (s t₁).predictNxtCycle else e₂.deadline) i e.virtAcc e.noBeam) ∧
        played i (sent s inp t₁) =
          ((e.table (s t₁) i).events.filter fun j : Fin nEvt => bit (e.table (s t₁) i).prepFlags j).map msg ∧
        played i (sent s inp last) =
          ((e.table (s t₁) i).events.filter fun j : Fin nEvt => !bit (e.table (s t₁) i).prepFlags j).map msg ∧
        (∀ t, first ≤ t → t < last → t ≠ t₁ → played i (sent s inp t) = []) ∧
        (cyclePlayed s inp i first last).Perm ((e.table (s t₁) i).events.map msg) := by
  have hlast : played i (sent s inp last) = _ := (Firmware.step_sync (s := s last) h.ends i).2
  constructor
  · intro hnone t ht hle
    rcases Nat.lt_or_ge t last with hlt | hge
    · exact (Firmware.step_other (h.quiet t ht hlt) (hnone t ht hlt)).2
    · obtain rfl : t = last := le_antisymm hle hge
      rw [hlast, h.unannounced hstart hrun ht le_rfl hnone]
      exact if_neg (fun hne => hne rfl)
  · intro t₁ e ht hlt ha hafter hbefore hsame
    have hother (t : Nat) (hfirst : first ≤ t) (htl : t < last) (hne : t ≠ t₁) : played i (sent s inp t) = [] := by
      cases hann : (inp t).announce i with
      | none => exact (Firmware.step_other (h.quiet t hfirst htl) hann).2
      | some e' =>
          have hearly : t < t₁ := by
            rcases Nat.lt_or_gt_of_ne hne with hlt' | hgt
            · exact hlt'
            · rw [hafter t hgt htl] at hann
              cases hann
          rw [sent, (Firmware.step_announce hann).2.2, pzRunVacc_eq, List.map_eq_nil_iff, List.filter_eq_nil_iff]
          intro j hj
          rw [hbefore t e' hfirst hearly hann j hj]
          decide
    have hnext := h.remembered hrun ht ha hafter (Nat.succ_le_of_lt hlt) le_rfl
    have hfirst : played i (sent s inp t₁) = _ := (Firmware.step_announce (s := s t₁) ha).2.2
    rw [hnext, if_pos e.announced_vacc] at hlast
    have htable : (s last).bigData i (tableIdx e.announced.chan e.announced.vacc) = e.table (s t₁) i := hsame
    rw [htable] at hlast
    generalize hT : e.table (s t₁) i = T at hlast hfirst htable ⊢
    obtain ⟨hprep, hrest⟩ := pzRunVacc_entryMsg T (s t₁).predictNxtCycle e₂.deadline i e
    rw [hprep] at hfirst
    rw [hrest] at hlast
    refine ⟨entryMsg T (s t₁).predictNxtCycle e₂.deadline i e, fun j _ => writeTM_carries _ _ _ _ _ _, hfirst,
      hlast, hother, ?_⟩
    rw [cyclePlayed, flatMap_two ht hlt hother, hfirst, hlast, ← List.map_append]
    exact (List.filter_append_perm _ _).map _

end Run

/-! ### Some cycles -/

def Firmware.reset : Firmware :=
  ⟨fun _ _ => .cleared, fun _ => 0, fun _ => 0, fun _ => 0, fun _ => 0, fun _ => 0, fun _ => 0, 0, 0, 0, 0, 0, false⟩

def Firmware.rounds (inp : Nat → Input) : Nat → Firmware
  | 0 => Firmware.reset.entryActionOperation
  | t + 1 => ((Firmware.rounds inp t).step (inp t)).1

/-- Shared memory with a table for the first Pulszentrale, virtual accelerator and channel. -/
def Shared.single (validFlags prepFlags : Word) (data : List Word) : Shared where
  evtFlag n := [1, validFlags, prepFlags, validFlags].getD n 0
  evtData n := data.getD n 0

def MilEvent.of (evtCode : BitVec 8) (evtData : BitVec 4) (m : Shared) : MilEvent :=
  ⟨evtCode, 0, evtData, 0, none, fun _ => 0, m⟩

def prepInput : Nat → Input
  | 0 => .mil (.of 0x20 0 (.single 3 1 [0x000a0005, 0x00140006]))
  | 1 => .mil (.of 0x1 0 (.single 0 0 []))
  | _ => .mil (.of 0x21 0 (.single 0 0 []))

theorem prepInput_cycle : Cycle prepInput 0 2 (.of 0x21 0 (.single 0 0 [])) := by
  refine ⟨Or.inl rfl, ?_, rfl, by decide⟩
  intro t _ ht
  interval_cases t <;> rfl

theorem cycle_played_prep : (cyclePlayed (Firmware.rounds prepInput) prepInput 0 0 2).length = 2 := by
  have hstart : Firmware.rounds prepInput 0 = Firmware.reset.entryActionOperation := rfl
  have hannounce : (prepInput 1).announce 0 = some (.of 0x1 0 (.single 0 0 [])) := rfl
  have hfirst : ∀ t e, 0 ≤ t → t < 1 → (prepInput t).announce 0 = some e →
      ∀ j ∈ (e.table (Firmware.rounds prepInput t) 0).events,
        bit (e.table (Firmware.rounds prepInput t) 0).prepFlags j = false := by
    intro t e _ ht ha
    obtain rfl : t = 0 := Nat.lt_one_iff.mp ht
    cases ha
  have hsame := (Firmware.step_announce (s := Firmware.rounds prepInput 1) hannounce).2.1
  obtain ⟨msg, -, -, -, -, hperm⟩ := (cycle_played prepInput_cycle hstart (fun _ => rfl) 0).2 1 _ (by decide) (by decide)
    hannounce (fun t h₁ h₂ => by omega) hfirst (congrFun (congrFun hsame 0) _)
  rw [hperm.length_eq, List.length_map]
  decide +kernel

/-- The table is announced with 'no beam', and has a command event. -/
def commandInput : Nat → Input
  | 0 => .mil (.of 0x20 0 (.single 1 0 [0x000a00ff]))
  | 1 => .mil (.of 0x1 0x2 (.single 0 0 []))
  | _ => .mil (.of 0x21 0 (.single 0 0 []))

def twiceInput : Nat → Input
  | 0 => .mil (.of 0x20 0 (.single 1 1 [0x000a0005]))
  | 1 => .mil (.of 0x1 0 (.single 0 0 []))
  | 2 => .mil (.of 0x1 0 (.single 0 0 []))
  | _ => .mil (.of 0x21 0 (.single 0 0 []))

/-- A table that sends its event later becomes active between the announcement and the cycle. -/
def commitInput : Nat → Input
  | 0 => .mil (.of 0x20 0 (.single 1 1 [0x000a0005]))
  | 1 => .mil (.of 0x1 0 (.single 0 0 []))
  | 2 => .mil (.of 0x20 0 (.single 1 0 [0x000a0005]))
  | _ => .mil (.of 0x21 0 (.single 0 0 []))

/-- The messages of a cycle are those of a version of the table of the last announcement, all
with its 'no beam'. -/
def PlayedOnce (inp : Nat → Input) : Prop :=
  ∀ first last e₂, Cycle inp first last e₂ → ∀ i t₁ e, first ≤ t₁ → t₁ < last → (inp t₁).announce i = some e →
    (∀ t, t₁ < t → t < last → (inp t).announce i = none) →
    ∃ t ≤ last, ∃ msg : Fin nEvt → Message,
      (∀ j ∈ (e.table (Firmware.rounds inp t) i).events, (msg j).evtId.getLsbD 2 = e.noBeam) ∧
      (cyclePlayed (Firmware.rounds inp) inp i first last).Perm ((e.table (Firmware.rounds inp t) i).events.map msg)

/-- A command event keeps its data, early events of an earlier announcement have been sent, and
a commit in a cycle mixes two versions of a table. -/
theorem not_played_once : ¬ PlayedOnce commandInput ∧ ¬ PlayedOnce twiceInput ∧ ¬ PlayedOnce commitInput := by
  refine ⟨?_, ?_, ?_⟩
  · intro h
    have hcycle : Cycle commandInput 0 2 (.of 0x21 0 (.single 0 0 [])) := by
      refine ⟨Or.inl rfl, ?_, rfl, by decide⟩
      intro t _ ht
      interval_cases t <;> rfl
    obtain ⟨t, -, msg, hmsg, hperm⟩ := h 0 2 _ hcycle 0 1 (.of 0x1 0x2 (.single 0 0 [])) (by decide) (by decide) rfl
      (fun t h₁ h₂ => by omega)
    have hbits : ∀ m ∈ cyclePlayed (Firmware.rounds commandInput) commandInput 0 0 2, m.evtId.getLsbD 2 = false := by
      decide +kernel
    have hlength : (cyclePlayed (Firmware.rounds commandInput) commandInput 0 0 2).length = 1 := by
      decide +kernel
    rw [hperm.length_eq, List.length_map, List.length_eq_one_iff] at hlength
    obtain ⟨j, hj⟩ := hlength
    have hnone := hbits (msg j) (hperm.mem_iff.mpr (by rw [hj]; exact List.mem_singleton_self _))
    rw [hmsg j (by rw [hj]; exact List.mem_singleton_self _)] at hnone
    exact absurd hnone (by decide)
  · intro h
    have hcycle : Cycle twiceInput 0 3 (.of 0x21 0 (.single 0 0 [])) := by
      refine ⟨Or.inl rfl, ?_, rfl, by decide⟩
      intro t _ ht
      interval_cases t <;> rfl
    obtain ⟨t, ht, msg, -, hperm⟩ := h 0 3 _ hcycle 0 2 (.of 0x1 0 (.single 0 0 [])) (by decide) (by decide) rfl
      (fun t h₁ h₂ => by omega)
    have hlength := hperm.length_eq
    rw [List.length_map] at hlength
    interval_cases t <;> revert hlength <;> decide +kernel
  · intro h
    have hcycle : Cycle commitInput 0 3 (.of 0x21 0 (.single 0 0 [])) := by
      refine ⟨Or.inl rfl, ?_, rfl, by decide⟩
      intro t _ ht
      interval_cases t <;> rfl
    obtain ⟨t, ht, msg, -, hperm⟩ := h 0 3 _ hcycle 0 1 (.of 0x1 0 (.single 0 0 [])) (by decide) (by decide) rfl
      (fun t h₁ h₂ => by interval_cases t; rfl)
    have hlength := hperm.length_eq
    rw [List.length_map] at hlength
    interval_cases t <;> revert hlength <;> decide +kernel

end WrUnipz
