import Mathlib.Tactic.IntervalCases
import BelProjects.DataMaster.Commands.Send

/-!
# The lock manager

Before commands are written the host locks the queues of the blocks they go to, and after it
the lock bits are put back.  Every command adds an entry with its requests, so one block may
have several; all entries read the flags, all write their lock word, all look whether the
locks are effective, and in the end all write their unlock word.
-/

namespace DataMaster

open BigEndian

structure BlockLock where
  baseAdr : Word
  rd : LockFlags
  wr : LockFlags
  deriving DecidableEq, Repr

namespace BlockLock

def qflagsAdr (l : BlockLock) : Word := l.baseAdr + blockCmdqFlags
def wridxAdr (l : BlockLock) : Word := l.baseAdr + blockCmdqWrIdxs
def rdidxAdr (l : BlockLock) : Word := l.baseAdr + blockCmdqRdIdxs

end BlockLock

structure LockReading where
  flags : Word
  wrIdx0 : Word
  rdIdx0 : Word
  wrIdx1 : Word
  rdIdx1 : Word

namespace LockManager

variable (net : Word → Nat)

def processLockRequests (m : Mem) (vBl : List BlockLock) : Mem :=
  writeCycle net m (vBl.map BlockLock.qflagsAdr) (vBl.flatMap fun l => be32 (lockWord l.wr l.rd))

def processUnlockRequests (m : Mem) (vBl : List BlockLock) : Mem :=
  writeCycle net m (vBl.map BlockLock.qflagsAdr) (vBl.flatMap fun l => be32 (unlockWord l.wr l.rd))

def readIn (m : Mem) (l : BlockLock) : BlockLock :=
  { l with
    wr := l.wr.readIn 0 (m (net l.qflagsAdr))
    rd := l.rd.readIn 1 (m (net l.qflagsAdr)) }

def readInStat (m : Mem) (vBl : List BlockLock) : List BlockLock := vBl.map (readIn net m)

/-- The readings of one entry: the flags and the indices from `m`, the indices again from
`m'`. -/
def reading (m m' : Mem) (l : BlockLock) : LockReading where
  flags := m (net l.qflagsAdr)
  wrIdx0 := m (net l.wridxAdr)
  rdIdx0 := m (net l.rdidxAdr)
  wrIdx1 := m' (net l.wridxAdr)
  rdIdx1 := m' (net l.rdidxAdr)

def entryReady (m m' : Mem) (l : BlockLock) : Bool :=
  let r := reading net m m' l
  isReady l.wr l.rd r.flags r.wrIdx0 r.rdIdx0 r.wrIdx1 r.rdIdx1

def allReady (m m' : Mem) (vBl : List BlockLock) : Bool := vBl.all (entryReady net m m')

/-- The loop of `send`. `dev k` is what the Data Master does before the `k`-th access of the
host. The readings on which the commands were written are returned with the memory. -/
def attempts (dev : Nat → Mem → Mem) (vBl : List BlockLock) (ew : List Word × List Octet) :
    Nat → Nat → Mem → Mem × Option (List LockReading)
  | 0, _, m => (m, none)
  | n + 1, k, m =>
    let m0 := dev k m
    let m1 := dev (k + 1) m0
    if allReady net m0 m1 vBl then
      (writeCycle net (dev (k + 2) m1) ew.1 ew.2, some (vBl.map (reading net m0 m1)))
    else attempts dev vBl ew n (k + 3) m1

def send (dev : Nat → Mem → Mem) (m : Mem) (vBl : List BlockLock) (ew : List Word × List Octet) :
    Mem × Option (List LockReading) :=
  let m0 := dev 0 m
  let vBl := readInStat net m0 vBl
  let m1 := processLockRequests net (dev 1 m0) vBl
  let r := attempts net dev vBl ew 3 2 m1
  (processUnlockRequests net (dev 11 r.1) vBl, r.2)

/-- The Data Master at work: its firmware reads the queue flags of a block, but does not
write them. -/
structure Device (vBl : List BlockLock) where
  act : Nat → Mem → Mem
  keeps : ∀ k m, ∀ l ∈ vBl, act k m (net l.qflagsAdr) = m (net l.qflagsAdr)

/-- A Data Master that does nothing. -/
def Device.idle (vBl : List BlockLock) : Device net vBl where
  act _ m := m
  keeps _ _ _ _ := rfl

/-! ### What is asked for, and what the writes leave -/

/-- Whether one of the entries for the flags word at `a` has the request `f`. -/
def asked (vBl : List BlockLock) (a : Nat) (f : BlockLock → Bool) : Bool :=
  vBl.any fun l => net l.qflagsAdr == a && f l

/-- The last entry for the flags word at `a`. -/
def lastFor (vBl : List BlockLock) (a : Nat) : Option BlockLock :=
  (vBl.filter fun l => net l.qflagsAdr == a).getLast?

/-- What requests make of a bit: both or none leave it as it is. -/
def wanted (set clr old : Bool) : Bool := if set = clr then old else set

/-- The lock bits are as the requests want them, and every other bit is as before. -/
def Restored (m m' : Mem) (vBl : List BlockLock) : Prop :=
  ∀ l ∈ vBl, ∀ i, i < 32 →
    (m' (net l.qflagsAdr)).getLsbD i =
      if i = 0 then
        wanted (asked net vBl (net l.qflagsAdr) fun l => l.wr.set)
          (asked net vBl (net l.qflagsAdr) fun l => l.wr.clr) ((m (net l.qflagsAdr)).getLsbD 0)
      else if i = 1 then
        wanted (asked net vBl (net l.qflagsAdr) fun l => l.rd.set)
          (asked net vBl (net l.qflagsAdr) fun l => l.rd.clr) ((m (net l.qflagsAdr)).getLsbD 1)
      else (m (net l.qflagsAdr)).getLsbD i

/-- The locks that an entry requests were seen: the bit is there, and the index that it
protects does not move. -/
def Effective (l : BlockLock) (r : LockReading) : Prop :=
  (l.wr.set = true → r.flags.getLsbD 0 = true ∧ r.wrIdx0 = r.wrIdx1) ∧
    (l.rd.set = true → r.flags.getLsbD 1 = true ∧ r.rdIdx0 = r.rdIdx1)

/-- The lock manager keeps its promise for these requests: whatever the Data Master does
meanwhile and whatever is sent. -/
def Keeps (m : Mem) (vBl : List BlockLock) : Prop :=
  ∀ (d : Device net vBl) (ew : List Word × List Octet),
    Restored net m (send net d.act m vBl ew).1 vBl ∧
      ∀ rs, (send net d.act m vBl ew).2 = some rs → List.Forall₂ Effective vBl rs

/-- The entry's readiness test succeeds on the lock word that `z` leaves on `flags`. -/
def Passes (z l : BlockLock) (flags : Word) : Prop :=
  (l.wr.set = true → z.wr.set = true ∨ z.rd.set = true ∨ flags ≠ 0) ∧
    (l.rd.set = true → z.rd.set = true ∨ flags >>> 1 ≠ 0)

/-- The requests fit the flags: only lock bits are set, the last entry for each flags word
asks for what all entries for it ask together, where its value for the do-not-write bit is
whether any lock bit is set, and no entry takes the do-not-read bit of the last one for the
do-not-write bit that it requested. -/
structure Fits (m : Mem) (vBl : List BlockLock) : Prop where
  lockBits : ∀ l ∈ vBl, m (net l.qflagsAdr) >>> 2 = 0
  rd : ∀ l ∈ vBl, ∀ z, lastFor net vBl (net l.qflagsAdr) = some z →
    wanted z.rd.set z.rd.clr ((m (net l.qflagsAdr)).getLsbD 1) =
      wanted (asked net vBl (net l.qflagsAdr) fun l => l.rd.set)
        (asked net vBl (net l.qflagsAdr) fun l => l.rd.clr) ((m (net l.qflagsAdr)).getLsbD 1)
  wr : ∀ l ∈ vBl, ∀ z, lastFor net vBl (net l.qflagsAdr) = some z →
    wanted z.wr.set z.wr.clr (m (net l.qflagsAdr) != 0) =
      wanted (asked net vBl (net l.qflagsAdr) fun l => l.wr.set)
        (asked net vBl (net l.qflagsAdr) fun l => l.wr.clr) ((m (net l.qflagsAdr)).getLsbD 0)
  seen : (∀ l ∈ vBl, ∀ z, lastFor net vBl (net l.qflagsAdr) = some z →
      Passes z l (m (net l.qflagsAdr))) →
    ∀ l ∈ vBl, ∀ z, lastFor net vBl (net l.qflagsAdr) = some z →
      l.wr.set = true → z.wr.set = true ∨ m (net l.qflagsAdr) ≠ 0

/-! ### The last entry for a word -/

variable {net : Word → Nat} {m : Mem} {vBl : List BlockLock}

theorem lastFor_eq_lastAt (net : Word → Nat) (vBl : List BlockLock) :
    lastFor net vBl = lastAt net BlockLock.qflagsAdr vBl := rfl

theorem lastFor_isSome (net : Word → Nat) {l : BlockLock} (hl : l ∈ vBl) :
    ∃ z, lastFor net vBl (net l.qflagsAdr) = some z := lastAt_isSome net BlockLock.qflagsAdr hl

theorem lastFor_spec {a : Nat} {z : BlockLock} (h : lastFor net vBl a = some z) :
    z ∈ vBl ∧ net z.qflagsAdr = a := lastAt_spec h

theorem lastFor_readInStat (m : Mem) (a : Nat) :
    lastFor net (readInStat net m vBl) a = (lastFor net vBl a).map (readIn net m) := by
  unfold lastFor readInStat
  rw [List.filter_map, List.getLast?_map]
  rfl

/-! ### The lock bits of a word -/

theorem restored_eq (l : LockFlags) : l.restored = wanted l.set l.clr l.stat := by
  rcases l with ⟨_ | _, _ | _, _ | _⟩ <;> rfl

theorem getLsbD_lockBits (w r : Bool) {i : Nat} (hi : i < 32) :
    ((if w then 1 else 0) ||| (if r then 2 else 0) : Word).getLsbD i =
      if i = 0 then w else if i = 1 then r else false := by
  cases w <;> cases r <;> interval_cases i <;> rfl

theorem lockBits_eq_zero (w r : Bool) :
    ((if w then 1 else 0) ||| (if r then 2 else 0) : Word) ≠ 0 ↔ w = true ∨ r = true := by
  cases w <;> cases r <;> decide

theorem lockBits_shift (w r : Bool) :
    ((if w then 1 else 0) ||| (if r then 2 else 0) : Word) >>> 1 ≠ 0 ↔ r = true := by
  cases w <;> cases r <;> decide

theorem shifted_eq_bit {f : Word} (h : f >>> 2 = 0) : (f >>> 1 != 0) = f.getLsbD 1 := by
  have hlow : f = 0 ∨ f = 1 ∨ f = 2 ∨ f = 3 := by
    have hlt : f.toNat < 4 := by
      have hdiv := congrArg BitVec.toNat h
      rw [BitVec.toNat_ushiftRight, Nat.shiftRight_eq_div_pow] at hdiv
      change f.toNat / 4 = 0 at hdiv
      omega
    rcases (by omega : f.toNat = 0 ∨ f.toNat = 1 ∨ f.toNat = 2 ∨ f.toNat = 3) with h | h | h | h
    · exact .inl (BitVec.eq_of_toNat_eq h)
    · exact .inr (.inl (BitVec.eq_of_toNat_eq h))
    · exact .inr (.inr (.inl (BitVec.eq_of_toNat_eq h)))
    · exact .inr (.inr (.inr (BitVec.eq_of_toNat_eq h)))
  rcases hlow with rfl | rfl | rfl | rfl <;> rfl

theorem shiftRight_two_eq_zero {f : Word} (h : ∀ i, i < 32 → 2 ≤ i → f.getLsbD i = false) :
    f >>> 2 = 0 := by
  apply BitVec.eq_of_getLsbD_eq
  intro i hi
  rw [BitVec.getLsbD_ushiftRight, show (0 : Word).getLsbD i = false from BitVec.getLsbD_zero]
  by_cases hlt : 2 + i < 32
  · exact h _ hlt (by omega)
  · exact BitVec.getLsbD_of_ge _ _ (by omega)

theorem getLsbD_of_shiftRight_two {f : Word} (h : f >>> 2 = 0) {i : Nat} (hi : 2 ≤ i) :
    f.getLsbD i = false := by
  have hbit := congrArg (fun w : Word => w.getLsbD (i - 2)) h
  simpa [BitVec.getLsbD_ushiftRight, show 2 + (i - 2) = i by omega] using hbit

/-! ### A run of `send` -/

section Flags

variable (d : Device net vBl) {a : Nat} {z : BlockLock} (hz : lastFor net vBl a = some z)
include hz

theorem lastFor_read : lastFor net (readInStat net (d.act 0 m) vBl) a =
    some { z with wr := z.wr.readIn 0 (m a), rd := z.rd.readIn 1 (m a) } := by
  obtain ⟨hmem, ha⟩ := lastFor_spec hz
  have hstat : (d.act 0 m) (net z.qflagsAdr) = m a := by
    rw [d.keeps 0 m z hmem, ha]
  rw [lastFor_readInStat, hz, Option.map_some, readIn, hstat]

theorem send_flags (ew : List Word × List Octet) {i : Nat} (hi : i < 32) :
    ((send net d.act m vBl ew).1 a).getLsbD i =
      if i = 0 then wanted z.wr.set z.wr.clr (m a != 0)
      else if i = 1 then wanted z.rd.set z.rd.clr (m a >>> 1 != 0)
      else false := by
  have hword : (send net d.act m vBl ew).1 a =
      unlockWord (z.wr.readIn 0 (m a)) (z.rd.readIn 1 (m a)) := by
    unfold send processUnlockRequests
    dsimp only
    rw [writeCycle_apply net BlockLock.qflagsAdr fun l => unlockWord l.wr l.rd, ← lastFor_eq_lastAt,
      lastFor_read d hz]
  rw [hword, unlockWord, getLsbD_lockBits _ _ hi, restored_eq, restored_eq]
  simp only [LockFlags.readIn, BitVec.ushiftRight_zero]

/-- The flags word that the readiness tests find. -/
theorem locked_flags :
    processLockRequests net (d.act 1 (d.act 0 m)) (readInStat net (d.act 0 m) vBl) a =
      (if z.wr.set || m a != 0 then 1 else 0) ||| (if z.rd.set || m a >>> 1 != 0 then 2 else 0) := by
  unfold processLockRequests
  rw [writeCycle_apply net BlockLock.qflagsAdr fun l => lockWord l.wr l.rd, ← lastFor_eq_lastAt,
    lastFor_read d hz]
  simp only [lockWord, LockFlags.readIn, BitVec.ushiftRight_zero]
  rfl

end Flags

/-- When the readiness test of an entry succeeds. -/
theorem entryReady_iff {m0 m1 m' : Mem} {l : BlockLock} :
    entryReady net m0 m1 (readIn net m' l) = true ↔
      (l.wr.set = true → m0 (net l.qflagsAdr) ≠ 0 ∧ m0 (net l.wridxAdr) = m1 (net l.wridxAdr)) ∧
        (l.rd.set = true →
          m0 (net l.qflagsAdr) >>> 1 ≠ 0 ∧ m0 (net l.rdidxAdr) = m1 (net l.rdidxAdr)) := by
  change isReady (l.wr.readIn 0 _) (l.rd.readIn 1 _) (m0 (net l.qflagsAdr)) (m0 (net l.wridxAdr))
    (m0 (net l.rdidxAdr)) (m1 (net l.wridxAdr)) (m1 (net l.rdidxAdr)) = true ↔ _
  unfold isReady
  simp only [LockFlags.readIn, BitVec.ushiftRight_zero]
  cases l.wr.set <;> cases l.rd.set <;> simp [and_assoc, and_left_comm]

theorem passes_iff {z l : BlockLock} {f : Word} :
    Passes z l f ↔
      (l.wr.set = true → ((if z.wr.set || f != 0 then 1 else 0) |||
        (if z.rd.set || f >>> 1 != 0 then 2 else 0) : Word) ≠ 0) ∧
      (l.rd.set = true → ((if z.wr.set || f != 0 then 1 else 0) |||
        (if z.rd.set || f >>> 1 != 0 then 2 else 0) : Word) >>> 1 ≠ 0) := by
  have hshift : f >>> 1 ≠ 0 → f ≠ 0 := by
    rintro h rfl
    exact h rfl
  rw [lockBits_eq_zero, lockBits_shift, Passes]
  simp only [Bool.or_eq_true, bne_iff_ne]
  constructor
  · rintro ⟨hwr, hrd⟩
    exact ⟨fun h => by have := hwr h; tauto, hrd⟩
  · rintro ⟨hwr, hrd⟩
    exact ⟨fun h => by have := hwr h; tauto, hrd⟩

/-- Commands are written only on readings of one memory and a later one that passed. -/
theorem attempts_seen {us : List BlockLock} {dev : Nat → Mem → Mem} {ew : List Word × List Octet}
    {good : Mem → Prop} (hdev : ∀ k m, good m → good (dev k m)) {rs : List LockReading} :
    ∀ {n k : Nat} {m : Mem}, good m → (attempts net dev us ew n k m).2 = some rs →
      ∃ m0 m1, good m0 ∧ allReady net m0 m1 us = true ∧ rs = us.map (reading net m0 m1) := by
  intro n
  induction n with
  | zero =>
    intro k m _ hseen
    cases hseen
  | succ n ih =>
    intro k m hgood hseen
    unfold attempts at hseen
    dsimp only at hseen
    by_cases hready : allReady net (dev k m) (dev (k + 1) (dev k m)) us = true
    · rw [if_pos hready] at hseen
      cases hseen
      exact ⟨_, _, hdev _ _ hgood, hready, rfl⟩
    · rw [if_neg hready] at hseen
      exact ih (hdev _ _ (hdev _ _ hgood)) hseen

theorem Fits.keeps (h : Fits net m vBl) : Keeps net m vBl := by
  intro d ew
  constructor
  · intro l hl i hi
    obtain ⟨z, hz⟩ := lastFor_isSome net hl
    have hbits := h.lockBits l hl
    rw [send_flags d hz ew hi]
    by_cases h0 : i = 0
    · rw [if_pos h0, if_pos h0, h.wr l hl z hz]
    · by_cases h1 : i = 1
      · rw [if_neg h0, if_neg h0, if_pos h1, if_pos h1, shifted_eq_bit hbits, h.rd l hl z hz]
      · rw [if_neg h0, if_neg h0, if_neg h1, if_neg h1,
          getLsbD_of_shiftRight_two hbits (by omega)]
  · intro rs hseen
    -- every memory that a test reads has the lock words
    have hkept : ∀ k m', (∀ l ∈ vBl, m' (net l.qflagsAdr) =
          processLockRequests net (d.act 1 (d.act 0 m)) (readInStat net (d.act 0 m) vBl)
            (net l.qflagsAdr)) →
        ∀ l ∈ vBl, d.act k m' (net l.qflagsAdr) =
          processLockRequests net (d.act 1 (d.act 0 m)) (readInStat net (d.act 0 m) vBl)
            (net l.qflagsAdr) := fun k m' hm' l hl => (d.keeps k m' l hl).trans (hm' l hl)
    obtain ⟨m0, m1, hm0, hready, rfl⟩ := attempts_seen hkept (fun _ _ => rfl) hseen
    have hall : ∀ l ∈ vBl, entryReady net m0 m1 (readIn net (d.act 0 m) l) = true := by
      intro l hl
      exact List.all_eq_true.1 hready _ (List.mem_map_of_mem hl)
    have hpasses : ∀ l ∈ vBl, ∀ z, lastFor net vBl (net l.qflagsAdr) = some z →
        Passes z l (m (net l.qflagsAdr)) := by
      intro l hl z hz
      have hentry := entryReady_iff.1 (hall l hl)
      rw [hm0 l hl, locked_flags d hz] at hentry
      exact passes_iff.2 ⟨fun hw => (hentry.1 hw).1, fun hr => (hentry.2 hr).1⟩
    rw [readInStat, List.map_map, List.forall₂_map_right_iff, List.forall₂_same]
    intro l hl
    obtain ⟨z, hz⟩ := lastFor_isSome net hl
    have hentry := entryReady_iff.1 (hall l hl)
    have hflags := hm0 l hl
    rw [locked_flags d hz] at hflags
    refine ⟨fun hw => ⟨?_, (hentry.1 hw).2⟩, fun hr => ⟨?_, (hentry.2 hr).2⟩⟩
    · change (m0 (net l.qflagsAdr)).getLsbD 0 = true
      rw [hflags, getLsbD_lockBits _ _ (by decide), if_pos rfl]
      simpa using h.seen hpasses l hl z hz hw
    · change (m0 (net l.qflagsAdr)).getLsbD 1 = true
      rw [hflags, getLsbD_lockBits _ _ (by decide), if_neg (by decide), if_pos rfl]
      simpa using (hpasses l hl z hz).2 hr

theorem Keeps.fits (h : Keeps net m vBl) : Fits net m vBl := by
  have hrestored := (h (.idle net vBl) ([], [])).1
  have hbits : ∀ l ∈ vBl, m (net l.qflagsAdr) >>> 2 = 0 := by
    intro l hl
    obtain ⟨z, hz⟩ := lastFor_isSome net hl
    refine shiftRight_two_eq_zero fun i hi h2 => ?_
    have hbit := hrestored l hl i hi
    rw [send_flags (.idle net vBl) hz _ hi, if_neg (by omega), if_neg (by omega), if_neg (by omega),
      if_neg (by omega)] at hbit
    exact hbit.symm
  refine ⟨hbits, fun l hl z hz => ?_, fun l hl z hz => ?_, fun hpasses l hl z hz hw => ?_⟩
  · have hbit := hrestored l hl 1 (by decide)
    rw [send_flags (.idle net vBl) hz _ (by decide), if_neg (by decide), if_pos rfl,
      if_neg (by decide), if_pos rfl, shifted_eq_bit (hbits l hl)] at hbit
    exact hbit
  · have hbit := hrestored l hl 0 (by decide)
    rw [send_flags (.idle net vBl) hz _ (by decide), if_pos rfl, if_pos rfl] at hbit
    exact hbit
  · -- with an idle Data Master the first test decides
    have hready : allReady net
        (processLockRequests net m (readInStat net m vBl))
        (processLockRequests net m (readInStat net m vBl)) (readInStat net m vBl) = true := by
      refine List.all_eq_true.2 fun l' hl' => ?_
      obtain ⟨l, hl, rfl⟩ := List.mem_map.1 hl'
      obtain ⟨z, hz⟩ := lastFor_isSome net hl
      have hpass := passes_iff.1 (hpasses l hl z hz)
      rw [← locked_flags (.idle net vBl) hz] at hpass
      exact entryReady_iff.2 ⟨fun hw => ⟨hpass.1 hw, rfl⟩, fun hr => ⟨hpass.2 hr, rfl⟩⟩
    have hseen : (send net (Device.idle net vBl).act m vBl ([], [])).2 =
        some ((readInStat net m vBl).map (reading net
          (processLockRequests net m (readInStat net m vBl))
          (processLockRequests net m (readInStat net m vBl)))) := by
      unfold send attempts
      dsimp only [Device.idle]
      rw [if_pos hready]
    have heffective := (h (.idle net vBl) ([], [])).2 _ hseen
    rw [readInStat, List.map_map, List.forall₂_map_right_iff, List.forall₂_same] at heffective
    have hbit : (processLockRequests net m (readInStat net m vBl) (net l.qflagsAdr)).getLsbD 0 =
        true := ((heffective l hl).1 hw).1
    have hflags := locked_flags (m := m) (.idle net vBl) hz
    dsimp only [Device.idle] at hflags
    rw [hflags, getLsbD_lockBits _ _ (by decide), if_pos rfl] at hbit
    simpa using hbit

/-- **The lock bits come back, and commands follow only on effective locks**, exactly where
the requests fit the flags. -/
theorem keeps_iff (net : Word → Nat) (m : Mem) (vBl : List BlockLock) :
    Keeps net m vBl ↔ Fits net m vBl := ⟨Keeps.fits, Fits.keeps⟩

/-- A command to a block whose queues are locked against reading leaves them locked against
writing, too. -/
theorem not_keeps_readLocked : ¬ ∀ (net : Word → Nat) (m : Mem) (vBl : List BlockLock),
    Keeps net m vBl := by
  intro h
  have hfits := (h BitVec.toNat (fun _ => 2) [⟨0, rdRequest, wrRequest⟩]).fits
  have hwr := hfits.wr _ List.mem_cons_self _ rfl
  exact absurd hwr (by decide)

end LockManager

end DataMaster
