import BelProjects.Library.Runs
import BelProjects.WrUnipz.Operation

/-!
# Host and firmware

The host writes event tables to the shared memory, word by word, and marks each with a flag when
it is complete. The firmware copies the marked tables when it gets a submit command or an
event for it, and clears all of them at the 50 Hz event after a clear command.
-/

namespace WrUnipz

/-! ## What the host uploads -/

/-- The data of a table, as handed to `wrunipz_table_upload`. -/
structure Version where
  data : List Word
  nData : data.length ≤ nEvt
  deriving DecidableEq

def maxPrepOffset : Word := 2000

namespace Version

def validFlag (v : Version) : Word := (List.range v.data.length).foldl (fun flag i => flag ||| (1 <<< i)) 0

def prepFlag (v : Version) : Word :=
  v.data.zipIdx.foldl (fun flag (d, i) => if d >>> 16 < maxPrepOffset then flag ||| (1 <<< i) else flag) 0

def evtFlag (v : Version) : Word := (List.range v.data.length).foldl (fun flag i => flag ||| (1 <<< i)) 0

structure Shows (v : Version) (t : DataTable) : Prop where
  validFlags : t.validFlags = v.validFlag
  prepFlags : t.prepFlags = v.prepFlag
  evtFlags : t.evtFlags = v.evtFlag
  data : ∀ (i : Fin nEvt) (h : i.val < v.data.length), t.data i = v.data[i.val]

end Version

/-- `wrunipz_table_upload`: the offset of the flags. -/
def uploadFlagOffset (pz vacc chn : Nat) : Nat :=
  vacc * nFlag * nChn * nPz + pz * nFlag * nChn + chn * nFlag

/-- `wrunipz_table_upload`: the offset of the data. -/
def uploadDataOffset (pz vacc chn : Nat) : Nat :=
  vacc * nEvt * nChn * nPz + pz * nEvt * nChn + chn * nEvt

namespace Shared

def setFlag (m : Shared) (n : Nat) (w : Word) : Shared :=
  { m with evtFlag := fun n' => if n' = n then w else m.evtFlag n' }

def setData (m : Shared) (n : Nat) (w : Word) : Shared :=
  { m with evtData := fun n' => if n' = n then w else m.evtData n' }

/-- The writes of `wrunipz_table_upload`, first the data, then the flags, and last the flag for
new data. -/
def upload (m : Shared) (k : Key) (v : Version) (pos : Nat) : Shared :=
  if h : pos < v.data.length then m.setData (uploadDataOffset k.pz k.vacc k.chn + pos) v.data[pos]
  else if pos = v.data.length then m.setFlag (uploadFlagOffset k.pz k.vacc k.chn + 1) v.validFlag
  else if pos = v.data.length + 1 then m.setFlag (uploadFlagOffset k.pz k.vacc k.chn + 2) v.prepFlag
  else if pos = v.data.length + 2 then m.setFlag (uploadFlagOffset k.pz k.vacc k.chn + 3) v.evtFlag
  else m.setFlag (uploadFlagOffset k.pz k.vacc k.chn + 0) 1

end Shared

/-! ## The two parties -/

inductive Command where
  | confSubmit
  | confClear
  deriving DecidableEq

/-- What the host is doing: nothing, or the writes of an upload from one of them on. -/
inductive Host where
  | idle
  | uploading (k : Key) (v : Version) (pos : Nat)

inductive Fw where
  /-- Between commands and events. -/
  | main
  /-- A command has been read and is still in its register. -/
  | read (cmd : Command)
  | handle (cmd : Command)
  /-- `configTransactSubmit`, at the check of the next table. -/
  | submit (todo : List Key)
  | copy (k : Key) (pos : Nat) (todo : List Key)
  /-- `clearAllPZ`, at a word of the shared memory. -/
  | clear (pos : Nat)
  deriving DecidableEq

structure Exchange where
  shared : Shared
  cmd : Option Command
  bigData : BigData
  flagClearAllPZ : Bool
  host : Host
  fw : Fw

inductive Action where
  | upload (k : Key) (v : Version)
  /-- The next word of an upload. -/
  | write
  | command (cmd : Command)
  /-- The firmware looks for a command. -/
  | poll
  | sync
  | synchData
  /-- The next word of what the firmware is doing. -/
  | work

def BigData.get (b : BigData) (k : Key) : DataTable := b k.pz k.idx

def DataTable.copyWord (t src : DataTable) : Nat → DataTable
  | 0 => { t with validFlags := src.validFlags }
  | 1 => { t with prepFlags := src.prepFlags }
  | 2 => { t with evtFlags := src.evtFlags }
  | l + 3 => { t with data := fun i => if i.val = l then src.data i else t.data i }

namespace Exchange

def start : Exchange where
  shared := ⟨fun _ => 0, fun _ => 0⟩
  cmd := none
  bigData := fun _ _ => .cleared
  flagClearAllPZ := false
  host := .idle
  fw := .main

def hostWrite (s : Exchange) : Option Exchange :=
  match s.host with
  | .idle => none
  | .uploading k v pos =>
      some { s with
        shared := s.shared.upload k v pos
        host := if pos < v.data.length + 3 then .uploading k v (pos + 1) else .idle }

def fwWork (s : Exchange) : Option Exchange :=
  match s.fw with
  | .main => none
  | .read cmd => some { s with cmd := none, fw := .handle cmd }
  | .handle .confSubmit => some { s with fw := .submit Key.all }
  | .handle .confClear => some { s with flagClearAllPZ := true, fw := .main }
  | .submit [] => some { s with fw := .main }
  | .submit (k :: todo) =>
      some { s with fw := if s.shared.evtFlag (k.flagOffset + 0) ≠ 0 then .copy k 0 todo else .submit todo }
  | .copy k pos todo =>
      if pos < nEvt + 3 then
        some { s with
          bigData := s.bigData.set k ((s.bigData.get k).copyWord (s.shared.table k) pos)
          fw := .copy k (pos + 1) todo }
      else some { s with shared := s.shared.setFlag (k.flagOffset + 0) 0, fw := .submit todo }
  | .clear pos =>
      if pos < nEvtData then some { s with shared := s.shared.setData pos 0, fw := .clear (pos + 1) }
      else if pos < nEvtData + nEvtFlag then
        some { s with shared := s.shared.setFlag (pos - nEvtData) 0, fw := .clear (pos + 1) }
      else some { s with flagClearAllPZ := false, fw := .main }

/-- A step of one of the parties, unless it is doing something else. -/
def step (s : Exchange) : Action → Option Exchange
  | .upload k v => match s.host with
      | .idle => some { s with host := .uploading k v 0 }
      | .uploading _ _ _ => none
  | .write => s.hostWrite
  | .command cmd => match s.host with
      | .idle => some { s with cmd := some cmd }
      | .uploading _ _ _ => none
  | .poll => match s.fw, s.cmd with
      | .main, some cmd => some { s with fw := .read cmd }
      | .main, none => some s
      | _, _ => none
  | .sync => match s.fw with
      | .main =>
          if s.flagClearAllPZ then some { s with bigData := clearBigData s.bigData, fw := .clear 0 } else some s
      | _ => none
  | .synchData => match s.fw with
      | .main => some { s with fw := .submit Key.all }
      | _ => none
  | .work => s.fwWork

end Exchange

/-! ## What the exchange is for -/

/-- The tables as the host sees them: an upload is pending until it is committed, and a clear
leaves none. -/
structure Ledger where
  uploaded : List (Key × Version)
  pending : Key → Option Version
  active : Key → Option Version
  issued : List Command
  executed : List Command

namespace Ledger

def empty : Ledger := ⟨[], fun _ => none, fun _ => none, [], []⟩

def setAt (f : Key → Option Version) (k : Key) (v : Option Version) : Key → Option Version :=
  fun k' => if k' = k then v else f k'

def upload (a : Ledger) (k : Key) (v : Version) : Ledger :=
  { a with uploaded := (k, v) :: a.uploaded, pending := setAt a.pending k (some v) }

def issue (a : Ledger) : Command → Ledger
  | .confSubmit => { a with issued := a.issued ++ [.confSubmit] }
  | .confClear => { a with issued := a.issued ++ [.confClear], pending := fun _ => none, active := fun _ => none }

def commit (a : Ledger) (k : Key) : Ledger :=
  { a with active := setAt a.active k ((a.pending k).or (a.active k)), pending := setAt a.pending k none }

def execute (a : Ledger) (cmd : Command) : Ledger := { a with executed := a.executed ++ [cmd] }

/-- An upload counts when its last word is written, a clear when its command is issued, and a
commit, one table after the other, when the table has been copied. -/
def next (a : Ledger) (s : Exchange) : Action → Ledger
  | .write => match s.host with
      | .uploading k v pos => if pos < v.data.length + 3 then a else a.upload k v
      | .idle => a
  | .command cmd => a.issue cmd
  | .work => match s.fw with
      | .handle cmd => a.execute cmd
      | .copy k pos _ => if pos < nEvt + 3 then a else a.commit k
      | _ => a
  | _ => a

end Ledger

/-- The runs whose steps meet a condition. -/
def exchange (ok : Exchange → Action → Prop) : TransitionSystem (Exchange × Ledger) where
  init p := p = (Exchange.start, Ledger.empty)
  step p p' := ∃ x, ok p.1 x ∧ p.1.step x = some p'.1 ∧ p'.2 = p.2.next p.1 x

/-- The actions of a list, as long as they meet the condition and can be taken. -/
def exchangeRun (ok : Exchange → Action → Prop) [∀ s x, Decidable (ok s x)] (p : Exchange × Ledger) :
    List Action → Option (Exchange × Ledger)
  | [] => some p
  | x :: l =>
      if ok p.1 x then
        match p.1.step x with
        | some s => exchangeRun ok (s, p.2.next p.1 x) l
        | none => none
      else none

theorem exchangeRun_reachable {ok : Exchange → Action → Prop} [∀ s x, Decidable (ok s x)] {p p' : Exchange × Ledger}
    {l : List Action} (hp : (exchange ok).Reachable p) (hrun : exchangeRun ok p l = some p') :
    (exchange ok).Reachable p' := by
  induction l generalizing p with
  | nil =>
      cases hrun
      exact hp
  | cons x l ih =>
      rw [exchangeRun] at hrun
      split at hrun
      · next hok =>
          split at hrun
          · next s hstep => exact ih (hp.step ⟨x, hok, hstep, rfl⟩) hrun
          · cases hrun
      · cases hrun

end WrUnipz
