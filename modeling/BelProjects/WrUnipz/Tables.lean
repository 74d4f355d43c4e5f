import Mathlib.Algebra.GroupWithZero.Nat
import Mathlib.Data.Fin.VecNotation
import Mathlib.Data.List.FinRange

/-!
# The event tables of the UNILAC

For each Pulszentrale, virtual accelerator and channel there is one table with up to 20 events.
The host writes a table to shared memory, the firmware copies it at a commit.
-/

namespace WrUnipz

abbrev Word := BitVec 32
abbrev Long := BitVec 64

abbrev nEvt : Nat := 20
abbrev nVacc : Nat := 16
abbrev nChn : Nat := 2
abbrev nPz : Nat := 7
abbrev nFlag : Nat := 4

scoped instance : NeZero nVacc := ⟨by decide⟩
scoped instance : NeZero nChn := ⟨by decide⟩
scoped instance : NeZero nPz := ⟨by decide⟩

/-- `dataTable`: one virtual accelerator of one Pulszentrale. -/
structure DataTable where
  validFlags : Word
  prepFlags : Word
  evtFlags : Word
  data : Fin nEvt → Word

def DataTable.cleared : DataTable := ⟨0, 0, 0, fun _ => 0⟩

/-- `bigData`; what lies behind the tables of a Pulszentrale is other memory. -/
abbrev BigData := Fin nPz → Nat → DataTable

structure Key where
  pz : Fin nPz
  vacc : Fin nVacc
  chn : Fin nChn
  deriving DecidableEq

/-- The place of a table in `bigData[pz]`. -/
def Key.idx (k : Key) : Nat := k.chn * nVacc + k.vacc

/-! ## The layout of the shared memory -/

def nEvtData : Nat := nEvt * nChn * nPz * nVacc
def nEvtFlag : Nat := nFlag * nChn * nPz * nVacc

/-- The DP RAM with the submitted tables. -/
structure Shared where
  evtFlag : Nat → Word
  evtData : Nat → Word

namespace Key

/-- `configTransactSubmit`: the offset of the flags of a table. -/
def flagOffset (k : Key) : Nat :=
  k.vacc * nFlag * nChn * nPz + k.pz * nFlag * nChn + k.chn * nFlag

/-- `configTransactSubmit`: the offset of the data of a table. -/
def dataOffset (k : Key) : Nat :=
  k.vacc * nEvt * nChn * nPz + k.pz * nEvt * nChn + k.chn * nEvt

/-- All tables, in the order of the loops of `configTransactSubmit`. -/
def all : List Key :=
  (List.finRange nVacc).flatMap fun i => (List.finRange nPz).flatMap fun j =>
    (List.finRange nChn).map fun k => ⟨j, i, k⟩

end Key

/-- What `configTransactSubmit` copies for one table. -/
def Shared.table (m : Shared) (k : Key) : DataTable where
  validFlags := m.evtFlag (k.flagOffset + 1)
  prepFlags := m.evtFlag (k.flagOffset + 2)
  evtFlags := m.evtFlag (k.flagOffset + 3)
  data l := m.evtData (k.dataOffset + l)

def BigData.set (b : BigData) (k : Key) (t : DataTable) : BigData := fun i n =>
  if i = k.pz ∧ n = k.idx then t else b i n

/-- `configTransactSubmit`, with the words as it reads them. -/
def configTransactSubmit (m : Shared) (b : BigData) : BigData :=
  Key.all.foldl (fun b k => if m.evtFlag k.flagOffset ≠ 0 then b.set k (m.table k) else b) b

/-- `clearAllPZ`, its part of `bigData` -/
def clearBigData (b : BigData) : BigData := fun i n =>
  if n < nVacc * nChn then DataTable.cleared else b i n

/-! ## Playing a table -/

structure Message where
  deadline : Long
  evtId : Long
  param : Long

def milCalibOffset : Long := 27000
def evtCommand : Word := 0xff

def gid : Fin nPz → Word := ![448, 449, 450, 451, 452, 453, 454]

def writeTM (uniEvt : Word) (tStart : Long) (pz : Fin nPz) (virtAcc flagNochop flagShortchop : Word) :
    Message :=
  let t := (uniEvt >>> 16) &&& 0xffff
  let evtCode := uniEvt &&& 0x00ff
  let evtData := (uniEvt >>> 12) &&& 0x000f
  let evtData := if evtCode ≠ evtCommand then (evtData &&& 0xb) ||| ((flagNochop &&& 0x1) <<< 2) else evtData
  let flags := (flagNochop &&& 0x1) ||| ((flagShortchop <<< 1) &&& 0x2)
  let offset : Word := t * 1000
  { deadline := tStart + offset.setWidth 64 + milCalibOffset
    evtId := (0x1#64 <<< 60) ||| ((gid pz).setWidth 64 <<< 48) ||| (evtCode.setWidth 64 <<< 36) |||
      (virtAcc.setWidth 64 <<< 20) ||| evtData.setWidth 64
    param := flags.setWidth 64 <<< 32 }

def bit (w : Word) (i : Nat) : Bool := (w >>> i) &&& 0x1 ≠ 0

def DataTable.events (evts : DataTable) : List (Fin nEvt) :=
  (List.finRange nEvt).filter fun i : Fin nEvt => bit evts.validFlags i && bit evts.evtFlags i

def pzRunVacc (evts : DataTable) (tStart : Long) (pz : Fin nPz) (virtAcc chopNo chopShort : Word) (isPrep : Bool) :
    List Message :=
  (evts.events.filter fun i : Fin nEvt => bit evts.prepFlags i == isPrep).map fun i =>
    writeTM (evts.data i) tStart pz virtAcc chopNo chopShort

def getVaccLen (evts : DataTable) : Word :=
  (List.finRange nEvt).foldl (fun usOffset (i : Fin nEvt) =>
    let tmp := (evts.data i >>> 16) &&& 0xffff
    if bit evts.validFlags i && decide (usOffset < tmp) then tmp else usOffset) 0

end WrUnipz
