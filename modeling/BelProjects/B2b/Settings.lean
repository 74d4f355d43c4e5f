import Mathlib.Logic.Function.Basic
import Mathlib.Tactic.ByContra

/-!
# Settings of the central B2B unit

The host writes a set of values to registers in the DP RAM and submits it.  The firmware
copies the registers to the entry of the SID in register `sidEExt`, which is what a transfer
on that SID uses.
-/

namespace B2b

abbrev Word := BitVec 32
abbrev Long := BitVec 64

/-- The set values in the DP RAM, in the order of their offsets. Corrections are stored as
`float`. -/
inductive Register where
  | sidEExt | gidExt | mode | tH1ExtHi | tH1ExtLo | nHExt | cTrigExt | nBuckExt | cPhase
  | fFinTune | fMBTune
  | sidEInj | gidInj | lSidInj | lBpidInj | lParamInjHi | lParamInjLo | tH1InjHi | tH1InjLo
  | nHInj | cTrigInj | nBuckInj
  deriving DecidableEq, Repr

abbrev Shared := Register → Word

/-- The register behind the pointer `pSharedSet..` of the firmware. -/
def pSharedSet : Register → Register
  | .nBuckInj => .cTrigInj
  | r => r

def Shared.read (shared : Shared) (r : Register) : Word := shared (pSharedSet r)

def joinHiLo (hi lo : Word) : Long := hi.setWidth 64 <<< 32 ||| lo.setWidth 64

/-! ### Modes and statuses -/

def modeOff : Word := 0
def modeBse : Word := 1
def modeB2e : Word := 2
def modeB2c : Word := 3
def modeB2bFBeat : Word := 4
def modeB2ePShift : Word := 5
def modeB2bPShiftE : Word := 6
def modeB2bPShiftI : Word := 7

def statusOk : Word := 0
def statusOutOfRange : Word := 3
def statusWrBadSync : Word := 8
def statusLateMessage : Word := 20
def statusBadSetting : Word := 22

/-- The modes in which the beam is injected into another ring. -/
def flagInject (mode : Word) : Bool :=
  mode = modeB2c || mode = modeB2bFBeat || mode = modeB2bPShiftE || mode = modeB2bPShiftI

/-! ### The settings of all SIDs -/

def nSid : Nat := 16

structure Setting where
  flagValid : Bool
  gid : Word
  mode : Word
  tH1Ext : Long
  nHExt : Word
  tH1Inj : Long
  nHInj : Word
  lSidInj : Word
  lBpidInj : Word
  lParamInj : Long
  cPhase : Word
  cTrigExt : Word
  cTrigInj : Word
  nBuckExt : Word
  nBuckInj : Word
  fFinTune : Word
  fMBTune : Word
  deriving DecidableEq, Repr

def Setting.zero : Setting := ⟨false, 0, 0, 0, 0, 0, 0, 0, 0, 0, 0, 0, 0, 0, 0, 0, 0⟩

abbrev Settings := Fin nSid → Setting

def clearAllSid : Settings := fun _ => .zero

def sidIndex (sid : Word) : Option (Fin nSid) :=
  if h : sid.toNat < nSid then some ⟨sid.toNat, h⟩ else none

/-! ### Submission -/

def Setting.copyExt (x : Setting) (shared : Shared) : Setting :=
  { x with
    mode := shared.read .mode
    gid := shared.read .gidExt
    tH1Ext := joinHiLo (shared.read .tH1ExtHi) (shared.read .tH1ExtLo)
    nHExt := shared.read .nHExt
    cTrigExt := shared.read .cTrigExt
    nBuckExt := shared.read .nBuckExt
    fFinTune := shared.read .fFinTune
    cPhase := shared.read .cPhase }

/-- The additional values required in case of injection into another ring. -/
def Setting.copyInj (x : Setting) (shared : Shared) : Setting :=
  { x with
    gid := x.gid + shared.read .gidInj
    lSidInj := shared.read .lSidInj
    lBpidInj := shared.read .lBpidInj
    lParamInj := joinHiLo (shared.read .lParamInjHi) (shared.read .lParamInjLo)
    tH1Inj := joinHiLo (shared.read .tH1InjHi) (shared.read .tH1InjLo)
    nHInj := shared.read .nHInj
    cTrigInj := shared.read .cTrigInj
    nBuckInj := shared.read .nBuckInj
    fMBTune := shared.read .fMBTune }

/-- Without injection; the LSA SID is left as it is. -/
def Setting.clearInj (x : Setting) : Setting :=
  { x with tH1Inj := 0, nHInj := 0, lBpidInj := 0, lParamInj := 0, cTrigInj := 0, nBuckInj := 0
           fMBTune := 0 }

/-- The entry of a SID after an accepted submission. -/
def Setting.submitted (x : Setting) (shared : Shared) : Setting :=
  let x := x.copyExt shared
  let x := if flagInject (shared.read .mode) then x.copyInj shared else x.clearInj
  { x with flagValid := true }

/-- Submit the registers. The status comes with the new settings. -/
def setSubmit (shared : Shared) (sets : Settings) : Word × Settings :=
  match sidIndex (shared.read .sidEExt) with
  | none => (statusOutOfRange, sets)
  | some sid =>
      let sets := Function.update sets sid { sets sid with flagValid := false }
      if flagInject (shared.read .mode) ∧ shared.read .sidEInj ≠ shared.read .sidEExt then
        (statusBadSetting, sets)
      else
        (statusOk, Function.update sets sid ((sets sid).submitted shared))

/-- The registers hold a set that is accepted for a SID. -/
structure Accepted (shared : Shared) (sid : Fin nSid) : Prop where
  index : sidIndex (shared .sidEExt) = some sid
  joined : flagInject (shared .mode) = true → shared .sidEInj = shared .sidEExt

instance (shared : Shared) (sid : Fin nSid) : Decidable (Accepted shared sid) :=
  decidable_of_iff (sidIndex (shared .sidEExt) = some sid ∧
      (flagInject (shared .mode) = true → shared .sidEInj = shared .sidEExt))
    ⟨fun ⟨h₁, h₂⟩ => ⟨h₁, h₂⟩, fun ⟨h₁, h₂⟩ => ⟨h₁, h₂⟩⟩

theorem Setting.submitted_flagValid (x : Setting) (shared : Shared) (valid : Bool) :
    Setting.submitted { x with flagValid := valid } shared = x.submitted shared := by
  simp only [submitted]
  split <;> rfl

theorem setSubmit_accepted {shared : Shared} {sid : Fin nSid} (h : Accepted shared sid)
    (sets : Settings) :
    setSubmit shared sets =
      (statusOk, Function.update sets sid ((sets sid).submitted shared)) := by
  have hindex : sidIndex (shared.read .sidEExt) = some sid := h.index
  have hjoined : ¬ (flagInject (shared.read .mode) = true ∧
      shared.read .sidEInj ≠ shared.read .sidEExt) := fun hbad => hbad.2 (h.joined hbad.1)
  rw [setSubmit, hindex]
  simp only [if_neg hjoined, Function.update_self, Setting.submitted_flagValid,
    Function.update_idem]

/-- A rejected submission at most makes the setting of its own SID invalid. -/
theorem setSubmit_rejected {shared : Shared} (h : ∀ sid, ¬ Accepted shared sid)
    (sets : Settings) :
    (setSubmit shared sets).1 ≠ statusOk ∧
      ∀ sid, (setSubmit shared sets).2 sid =
        if sidIndex (shared .sidEExt) = some sid then { sets sid with flagValid := false }
        else sets sid := by
  have hread : shared.read .sidEExt = shared .sidEExt := rfl
  rw [setSubmit, hread]
  cases hindex : sidIndex (shared .sidEExt) with
  | none =>
      refine ⟨(by decide : statusOutOfRange ≠ statusOk), fun sid => ?_⟩
      rw [if_neg (fun hsome => Option.some_ne_none sid hsome.symm)]
  | some own =>
      have hbad : flagInject (shared.read .mode) = true ∧
          shared.read .sidEInj ≠ shared .sidEExt := by
        by_contra hgood
        refine h own ⟨hindex, fun hinject => ?_⟩
        by_contra hne
        exact hgood ⟨hinject, hne⟩
      simp only [if_pos hbad]
      refine ⟨(by decide : statusBadSetting ≠ statusOk), fun sid => ?_⟩
      by_cases hsid : sid = own
      · subst hsid
        rw [Function.update_self, if_pos rfl]
      · rw [Function.update_of_ne hsid, if_neg (fun hsome => hsid (Option.some.inj hsome).symm)]

theorem setSubmit_other {shared : Shared} {sid : Fin nSid}
    (h : sidIndex (shared .sidEExt) ≠ some sid) (sets : Settings) :
    (setSubmit shared sets).2 sid = sets sid := by
  by_cases haccepted : ∃ own, Accepted shared own
  · obtain ⟨own, hown⟩ := haccepted
    have hne : sid ≠ own := fun heq => h (heq ▸ hown.index)
    rw [setSubmit_accepted hown]
    exact Function.update_of_ne hne _ _
  · rw [(setSubmit_rejected (not_exists.mp haccepted) sets).2 sid, if_neg h]

end B2b
