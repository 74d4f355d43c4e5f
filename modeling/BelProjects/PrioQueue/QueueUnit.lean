import BelProjects.PrioQueue.Arbiter
import Mathlib.Data.List.Range

/-!
# A queue unit of the priority queue

The words of timing messages enter with a type in their address, which marks the two words of the
timestamp and may request that they are dropped.  All words go through one FIFO, the timestamps
through two more, whose outputs show the timestamp of the message that is to leave next.

The FIFOs are lists with a size.  Their outputs show the first entry, and anything when they are
empty.  One of several words of a message may be at the output while others are yet to come.
-/

namespace PrioQueue.QueueUnit

/-! ### The unit -/

/-- A word with its type, as the FIFO keeps them. -/
structure Tagged where
  type : BitVec 3
  data : Word
  deriving DecidableEq, Repr

def cTsHi : Nat := 0
def cTsLo : Nat := 1
def cTsDrop : Nat := 2

/-- A clock edge of a FIFO: an entry is read, and one is written unless it is full. -/
def syncFifo {α : Type} (size : Nat) (we rd : Bool) (d : α) (q : List α) : List α :=
  (if rd then q.tail else q) ++ if we && decide (q.length < size) then [d] else []

/-- The inputs in one cycle, with what the FIFOs show when they are empty. -/
structure Inputs where
  rst_n : Bool
  slave_i : MasterOut
  master_i : MasterIn
  stale : Tagged
  staleTsHi : Word
  staleTsLo : Word
  deriving DecidableEq, Repr

structure State where
  fifo : List Tagged
  ts_hi_fifo : List Word
  ts_lo_fifo : List Word
  r_done : Bool
  r_sel : Bool
  ack : Bool
  r_stb_cnt : BitVec 8
  r_ack_cnt : BitVec 8
  r_reload_cnt : BitVec 2
  deriving DecidableEq, Repr

def State.reset : State where
  fifo := []
  ts_hi_fifo := []
  ts_lo_fifo := []
  r_done := false
  r_sel := false
  ack := false
  r_stb_cnt := 0
  r_ack_cnt := 0
  r_reload_cnt := 3

section Lines

variable (g_depth : Nat) (s : State) (i : Inputs)

def empty : Bool := s.fifo.isEmpty
def emptyTsHi : Bool := s.ts_hi_fifo.isEmpty
def emptyTsLo : Bool := s.ts_lo_fifo.isEmpty
def full : Bool := decide (g_depth ≤ s.fifo.length)
def fullTsHi : Bool := decide (g_depth / 4 ≤ s.ts_hi_fifo.length)
def fullTsLo : Bool := decide (g_depth / 4 ≤ s.ts_lo_fifo.length)

/-- `s_slave_o.stall` -/
def stall : Bool := full g_depth s || fullTsHi g_depth s || fullTsLo g_depth s

/-- `s_d` -/
def dIn : Tagged := ⟨i.slave_i.adr.extractLsb' 2 3, i.slave_i.dat⟩

def push : Bool := i.slave_i.cyc && i.slave_i.stb && !stall g_depth s
def pushMain : Bool := push g_depth s i && !full g_depth s
def pushTsHi : Bool := push g_depth s i && (dIn i).type.getLsbD cTsHi && !fullTsHi g_depth s
def pushTsLo : Bool := push g_depth s i && (dIn i).type.getLsbD cTsLo && !fullTsLo g_depth s

/-- `s_q` -/
def qOut : Tagged := s.fifo.headD i.stale

def dropBit : Bool := (qOut s i).type.getLsbD cTsDrop
def sel : Bool := !empty s || s.r_sel
def ackwait : Bool := !(decide (s.r_stb_cnt = s.r_ack_cnt) && s.r_done)
def reloadwait : Bool := !s.r_reload_cnt.getLsbD 1
def cyc : Bool := sel s && (ackwait s || reloadwait s)
def stb : Bool := !(empty s || s.r_done || dropBit s i)
def pushOut : Bool := cyc s && stb s i && !i.master_i.stall
def pop : Bool := !empty s && (pushOut s i || dropBit s i)
def done : Bool := (qOut s i).type.getLsbD cTsLo && pop s i
def popTs : Bool := done s i && !(emptyTsHi s || emptyTsLo s)

def masterO : MasterOut :=
  { cyc := cyc s, stb := stb s i, adr := 0, sel := 0xf, we := true, dat := (qOut s i).data }

def tsO : Long := s.ts_hi_fifo.headD i.staleTsHi ++ s.ts_lo_fifo.headD i.staleTsLo

def tsValidO : Bool := !(emptyTsHi s || emptyTsLo s)

def step : State :=
  if i.rst_n = false then .reset
  else
    { fifo := syncFifo g_depth (pushMain g_depth s i) (pop s i) (dIn i) s.fifo
      ts_hi_fifo :=
        syncFifo (g_depth / 4) (pushTsHi g_depth s i) (popTs s i) i.slave_i.dat s.ts_hi_fifo
      ts_lo_fifo :=
        syncFifo (g_depth / 4) (pushTsLo g_depth s i) (popTs s i) i.slave_i.dat s.ts_lo_fifo
      r_done := (s.r_done || done s i) && cyc s
      r_sel := (s.r_sel || !empty s) && cyc s
      ack := push g_depth s i
      r_stb_cnt := if cyc s then s.r_stb_cnt + if pushOut s i then 1 else 0 else 0
      r_ack_cnt :=
        if cyc s then s.r_ack_cnt + if i.master_i.ack || i.master_i.err then 1 else 0 else 0
      r_reload_cnt :=
        if ackwait s then 0
        else if s.r_reload_cnt.getLsbD 1 = false then s.r_reload_cnt - 1
        else s.r_reload_cnt }

end Lines

/-! ### Messages -/

/-- A timing message of eight words, with a drop request for each word of its timestamp. -/
structure Message where
  data : Fin 6 → Word
  tsHi : Word
  tsLo : Word
  dropHi : Bool
  dropLo : Bool

namespace Message

def word (m : Message) (j : Nat) : Tagged :=
  if h : j < 6 then ⟨0, m.data ⟨j, h⟩⟩
  else if j = 6 then ⟨if m.dropHi then 5 else 1, m.tsHi⟩
  else ⟨if m.dropLo then 6 else 2, m.tsLo⟩

def timestamp (m : Message) : Long := m.tsHi ++ m.tsLo

end Message

def Tagged.dropped (w : Tagged) : Bool := w.type.getLsbD cTsDrop

def wordAt (msgs : Nat → Message) (k : Nat) : Tagged := (msgs (k / 8)).word (k % 8)

/-- The data of the words without a drop request. -/
def sent (ws : List Tagged) : List Word := (ws.filter fun w => !w.dropped).map Tagged.data

/-! ### Runs -/

section Runs

variable (g_depth : Nat) (inp : Nat → Inputs)

def stateAt (t : Nat) : State :=
  Clocked.trace (fun i s => step g_depth s i) .reset inp t

/-- The number of words that have entered before cycle `t`. -/
def entered : Nat → Nat
  | 0 => 0
  | t + 1 => entered t + (push g_depth (stateAt g_depth inp t) (inp t)).toNat

/-- The number of words that have been taken out of the FIFO before cycle `t`. -/
def taken : Nat → Nat
  | 0 => 0
  | t + 1 => taken t + (pop (stateAt g_depth inp t) (inp t)).toNat

/-- The words that have left the unit before cycle `t`. -/
def leaving : Nat → List Word
  | 0 => []
  | t + 1 =>
      leaving t ++
        if pushOut (stateAt g_depth inp t) (inp t) then [(qOut (stateAt g_depth inp t) (inp t)).data]
        else []

/-- The words of the messages are pushed one after the other, with any pauses. -/
structure Feeds (msgs : Nat → Message) : Prop where
  running : ∀ t, (inp t).rst_n = true
  words : ∀ t, push g_depth (stateAt g_depth inp t) (inp t) = true →
    dIn (inp t) = wordAt msgs (entered g_depth inp t)

end Runs

/-! ### The types of the words -/

section Types

variable (m : Message) {j : Nat}

theorem tsHi_iff (hj : j < 8) : (m.word j).type.getLsbD cTsHi = true ↔ j = 6 := by
  rw [Message.word]
  split_ifs with h h6 hdrop hdrop <;> simp [cTsHi] <;> omega

theorem tsLo_iff (hj : j < 8) : (m.word j).type.getLsbD cTsLo = true ↔ j = 7 := by
  rw [Message.word]
  split_ifs with h h6 hdrop hdrop <;> simp [cTsLo] <;> omega

theorem six_le_of_dropped (h : (m.word j).dropped = true) : 6 ≤ j := by
  by_contra hlt
  rw [Message.word, dif_pos (by omega)] at h
  exact absurd (show (0#3).getLsbD cTsDrop = true from h) (by decide)

theorem word_six : (m.word 6).data = m.tsHi := rfl

theorem word_seven : (m.word 7).data = m.tsLo := rfl

end Types

/-! ### The FIFOs in one cycle -/

/-- A FIFO that holds a part of a sequence. -/
theorem syncFifo_range {α : Type} (f : Nat → α) {size a n : Nat} {we rd : Bool} {d : α}
    (hrd : rd = true → 0 < n) (hwe : we = true → n < size ∧ d = f (a + n)) :
    syncFifo size we rd d ((List.range' a n).map f) =
      (List.range' (a + rd.toNat) (n + we.toNat - rd.toNat)).map f := by
  have htail : (if rd then ((List.range' a n).map f).tail else (List.range' a n).map f) =
      (List.range' (a + rd.toNat) (n - rd.toNat)).map f := by
    cases rd with
    | false => rfl
    | true =>
      rw [if_pos rfl, ← List.map_tail, List.tail_range']
      rfl
  rw [syncFifo, htail]
  cases we with
  | false => simp
  | true =>
    obtain ⟨hlt, rfl⟩ := hwe rfl
    have hlast : List.range' (a + rd.toNat) (n + true.toNat - rd.toNat) =
        List.range' (a + rd.toNat) (n - rd.toNat) ++ [a + n] := by
      cases rd with
      | false =>
        exact List.range'_1_concat
      | true =>
        have hn := hrd rfl
        obtain ⟨k, rfl⟩ : ∃ k, n = k + 1 := ⟨n - 1, by omega⟩
        change List.range' (a + 1) (k + 1) = List.range' (a + 1) k ++ [a + (k + 1)]
        rw [List.range'_1_concat, Nat.add_right_comm, Nat.add_assoc]
    rw [hlast, List.map_append]
    simp [hlt]

/-! ### What the unit keeps -/

section Invariant

variable {g_depth : Nat} {msgs : Nat → Message} {s : State} {i : Inputs} {p q : Nat}

/-- After `q` words have entered and `p` have been taken out, the FIFOs hold the words and the
timestamps between; while a message is only in part taken out, the bus cycle is kept. -/
structure Inv (msgs : Nat → Message) (s : State) (p q : Nat) : Prop where
  le : p ≤ q
  fifo : s.fifo = (List.range' p (q - p)).map (wordAt msgs)
  tsHi : s.ts_hi_fifo = (List.range' (p / 8) ((q + 1) / 8 - p / 8)).map fun k => (msgs k).tsHi
  tsLo : s.ts_lo_fifo = (List.range' (p / 8) (q / 8 - p / 8)).map fun k => (msgs k).tsLo
  ended : s.r_done = true → p % 8 = 0
  busy : p % 8 ≠ 0 → s.r_sel = true

theorem reset_inv : Inv msgs .reset 0 0 :=
  ⟨Nat.le_refl 0, rfl, rfl, rfl, fun _ => rfl, fun h => absurd rfl h⟩

namespace Inv

theorem empty_iff (h : Inv msgs s p q) : empty s = true ↔ p = q := by
  have hle := h.le
  rw [empty, h.fifo, List.isEmpty_iff, List.map_eq_nil_iff, List.range'_eq_nil_iff]
  omega

theorem qOut_eq (h : Inv msgs s p q) (hlt : p < q) (i : Inputs) : qOut s i = wordAt msgs p := by
  obtain ⟨n, hn⟩ : ∃ n, q - p = n + 1 := ⟨q - p - 1, by omega⟩
  rw [qOut, h.fifo, hn, List.range'_succ]
  rfl

/-- The bus cycle is kept while a message is taken out. -/
theorem cyc_of_busy (h : Inv msgs s p q) (hp : p % 8 ≠ 0) : cyc s = true := by
  have hdone : s.r_done = false := by
    rw [← Bool.not_eq_true]
    exact fun hd => hp (h.ended hd)
  simp [cyc, sel, ackwait, h.busy hp, hdone]

theorem lt_of_pop (h : Inv msgs s p q) (hpop : pop s i = true) : p < q := by
  have hle := h.le
  have hne : p ≠ q := by
    intro heq
    rw [pop, h.empty_iff.mpr heq] at hpop
    exact absurd hpop (by simp)
  omega

theorem not_dropBit (h : Inv msgs s p q) (hlt : p < q) (hp : p % 8 = 0) : dropBit s i = false := by
  rw [← Bool.not_eq_true, dropBit, h.qOut_eq hlt]
  intro hdrop
  have hsix := six_le_of_dropped (msgs (p / 8)) hdrop
  omega

/-- A word is taken out in a bus cycle, and not after the last one of a message. -/
theorem of_pop (h : Inv msgs s p q) (hpop : pop s i = true) : cyc s = true ∧ s.r_done = false := by
  have hlt := h.lt_of_pop hpop
  by_cases hp : p % 8 = 0
  · rw [pop, h.not_dropBit hlt hp, Bool.or_false, Bool.and_eq_true] at hpop
    have hout := hpop.2
    simp only [pushOut, stb, Bool.and_eq_true, Bool.not_eq_true', Bool.or_eq_false_iff] at hout
    exact ⟨hout.1.1, hout.1.2.1.2⟩
  · refine ⟨h.cyc_of_busy hp, ?_⟩
    rw [← Bool.not_eq_true]
    exact fun hd => hp (h.ended hd)

/-- The last word of a message is marked when it is taken out. -/
theorem done_iff (h : Inv msgs s p q) : done s i = true ↔ pop s i = true ∧ p % 8 = 7 := by
  rw [done, Bool.and_eq_true, and_comm]
  refine and_congr_right fun hpop => ?_
  rw [h.qOut_eq (h.lt_of_pop hpop)]
  exact tsLo_iff _ (Nat.mod_lt _ (by decide))

/-- The timestamp is taken out with the last word. -/
theorem popTs_eq (h : Inv msgs s p q) : popTs s i = done s i := by
  rw [popTs, Bool.and_eq_left_iff_imp]
  intro hdone
  obtain ⟨hpop, hp⟩ := h.done_iff.mp hdone
  have hlt := h.lt_of_pop hpop
  have hhi : emptyTsHi s = false := by
    rw [← Bool.not_eq_true, emptyTsHi, h.tsHi, List.isEmpty_iff, List.map_eq_nil_iff,
      List.range'_eq_nil_iff]
    omega
  have hlo : emptyTsLo s = false := by
    rw [← Bool.not_eq_true, emptyTsLo, h.tsLo, List.isEmpty_iff, List.map_eq_nil_iff,
      List.range'_eq_nil_iff]
    omega
  rw [hhi, hlo]
  rfl

end Inv

theorem rooms_of_push (h : push g_depth s i = true) :
    s.fifo.length < g_depth ∧ s.ts_hi_fifo.length < g_depth / 4 ∧
      s.ts_lo_fifo.length < g_depth / 4 := by
  simp only [push, stall, full, fullTsHi, fullTsLo, Bool.and_eq_true, Bool.not_eq_true',
    Bool.or_eq_false_iff, decide_eq_false_iff_not, Nat.not_le] at h
  exact ⟨h.2.1.1, h.2.1.2, h.2.2⟩

theorem pushMain_eq : pushMain g_depth s i = push g_depth s i := by
  rw [pushMain, Bool.and_eq_left_iff_imp]
  intro h
  simpa [full] using (rooms_of_push h).1

theorem pushTsHi_iff (hword : push g_depth s i = true → dIn i = wordAt msgs q) :
    pushTsHi g_depth s i = true ↔ push g_depth s i = true ∧ q % 8 = 6 := by
  have hbit : push g_depth s i = true → ((dIn i).type.getLsbD cTsHi = true ↔ q % 8 = 6) := by
    intro h
    rw [hword h]
    exact tsHi_iff _ (Nat.mod_lt _ (by decide))
  rw [pushTsHi, Bool.and_assoc, Bool.and_eq_true]
  refine and_congr_right fun h => ?_
  have hroom : fullTsHi g_depth s = false := by simpa [fullTsHi] using (rooms_of_push h).2.1
  rw [hroom, Bool.not_false, Bool.and_true, hbit h]

theorem pushTsLo_iff (hword : push g_depth s i = true → dIn i = wordAt msgs q) :
    pushTsLo g_depth s i = true ↔ push g_depth s i = true ∧ q % 8 = 7 := by
  have hbit : push g_depth s i = true → ((dIn i).type.getLsbD cTsLo = true ↔ q % 8 = 7) := by
    intro h
    rw [hword h]
    exact tsLo_iff _ (Nat.mod_lt _ (by decide))
  rw [pushTsLo, Bool.and_assoc, Bool.and_eq_true]
  refine and_congr_right fun h => ?_
  have hroom : fullTsLo g_depth s = false := by simpa [fullTsLo] using (rooms_of_push h).2.2
  rw [hroom, Bool.not_false, Bool.and_true, hbit h]

/-- The number of messages that are complete grows with their last words. -/
theorem succ_div_eight (n : Nat) (b last : Bool) (k : Nat) (hk : k < 8)
    (h : last = true ↔ b = true ∧ n % 8 = k) :
    (n + b.toNat + (7 - k)) / 8 = (n + (7 - k)) / 8 + last.toNat := by
  cases b with
  | false =>
    have hlast : last = false := by
      rw [← Bool.not_eq_true, h]
      simp
    simp [hlast]
  | true =>
    by_cases hn : n % 8 = k
    · have hlast : last = true := h.mpr ⟨rfl, hn⟩
      simp only [hlast, Bool.toNat_true]
      omega
    · have hlast : last = false := by
        rw [← Bool.not_eq_true, h]
        exact fun hh => hn hh.2
      simp only [hlast, Bool.toNat_true, Bool.toNat_false]
      omega

theorem Inv.step (h : Inv msgs s p q) (hrun : i.rst_n = true)
    (hword : push g_depth s i = true → dIn i = wordAt msgs q) :
    Inv msgs (QueueUnit.step g_depth s i) (p + (pop s i).toNat)
      (q + (push g_depth s i).toNat) := by
  have hle := h.le
  have hlt : pop s i = true → p < q := h.lt_of_pop
  have hp := succ_div_eight p (pop s i) (done s i) 7 (by decide) h.done_iff
  have hqhi := succ_div_eight q (push g_depth s i) (pushTsHi g_depth s i) 6 (by decide)
    (pushTsHi_iff hword)
  have hqlo := succ_div_eight q (push g_depth s i) (pushTsLo g_depth s i) 7 (by decide)
    (pushTsLo_iff hword)
  simp only [Nat.sub_self, Nat.add_zero, Nat.reduceSub] at hp hqhi hqlo
  rw [QueueUnit.step, if_neg (by simp [hrun])]
  refine ⟨?_, ?_, ?_, ?_, ?_, ?_⟩
  · cases hpop : pop s i with
    | false => exact Nat.le_add_right_of_le hle
    | true =>
      have hless := hlt hpop
      simp only [Bool.toNat_true]
      omega
  · dsimp only
    rw [pushMain_eq, h.fifo, syncFifo_range]
    · congr 2
      omega
    · intro hpop
      have hless := hlt hpop
      omega
    · intro hpush
      have hroom := (rooms_of_push hpush).1
      rw [h.fifo, List.length_map, List.length_range'] at hroom
      exact ⟨hroom, by rw [hword hpush, Nat.add_sub_cancel' hle]⟩
  · dsimp only
    rw [h.popTs_eq, h.tsHi, syncFifo_range, hp, hqhi]
    · congr 2
      omega
    · intro hdone
      obtain ⟨hpop, hlast⟩ := h.done_iff.mp hdone
      have hless := hlt hpop
      omega
    · intro hhi
      obtain ⟨hpush, hsix⟩ := (pushTsHi_iff hword).mp hhi
      have hroom := (rooms_of_push hpush).2.1
      rw [h.tsHi, List.length_map, List.length_range'] at hroom
      refine ⟨hroom, ?_⟩
      have hdata := congrArg Tagged.data (hword hpush)
      rw [wordAt, hsix, word_six] at hdata
      rw [show p / 8 + ((q + 1) / 8 - p / 8) = q / 8 by omega]
      exact hdata
  · dsimp only
    rw [h.popTs_eq, h.tsLo, syncFifo_range, hp, hqlo]
    · congr 2
      omega
    · intro hdone
      obtain ⟨hpop, hlast⟩ := h.done_iff.mp hdone
      have hless := hlt hpop
      omega
    · intro hlo
      obtain ⟨hpush, hseven⟩ := (pushTsLo_iff hword).mp hlo
      have hroom := (rooms_of_push hpush).2.2
      rw [h.tsLo, List.length_map, List.length_range'] at hroom
      refine ⟨hroom, ?_⟩
      have hdata := congrArg Tagged.data (hword hpush)
      rw [wordAt, hseven, word_seven] at hdata
      rw [show p / 8 + (q / 8 - p / 8) = q / 8 by omega]
      exact hdata
  · dsimp only
    rw [Bool.and_eq_true, Bool.or_eq_true]
    rintro ⟨hold | hnew, -⟩
    · have hno : pop s i = false := by
        rw [← Bool.not_eq_true]
        intro hpop
        rw [(h.of_pop hpop).2] at hold
        exact absurd hold (by decide)
      rw [hno]
      exact h.ended hold
    · obtain ⟨hpop, hlast⟩ := h.done_iff.mp hnew
      rw [hpop]
      simp only [Bool.toNat_true]
      omega
  · intro hmid
    dsimp only
    cases hpop : pop s i with
    | true =>
      have hne : empty s = false := by
        rw [← Bool.not_eq_true, h.empty_iff]
        exact (hlt hpop).ne
      simp [hne, (h.of_pop hpop).1]
    | false =>
      rw [hpop] at hmid
      simp [h.busy hmid, h.cyc_of_busy hmid]

end Invariant

/-! ### Runs of the unit -/

section Delivery

variable {g_depth : Nat} {inp : Nat → Inputs} {msgs : Nat → Message}

theorem stateAt_succ (t : Nat) :
    stateAt g_depth inp (t + 1) = step g_depth (stateAt g_depth inp t) (inp t) := rfl

theorem inv_at (h : Feeds g_depth inp msgs) (t : Nat) :
    Inv msgs (stateAt g_depth inp t) (taken g_depth inp t) (entered g_depth inp t) := by
  induction t with
  | zero => exact reset_inv
  | succ t ih => exact ih.step (h.running t) (h.words t)

theorem sent_append (ws ws' : List Tagged) : sent (ws ++ ws') = sent ws ++ sent ws' := by
  rw [sent, List.filter_append, List.map_append, ← sent, ← sent]

theorem leaving_eq (h : Feeds g_depth inp msgs) (t : Nat) :
    leaving g_depth inp t = sent ((List.range (taken g_depth inp t)).map (wordAt msgs)) := by
  induction t with
  | zero => rfl
  | succ t ih =>
    have hinv := inv_at h t
    generalize hs : stateAt g_depth inp t = s at hinv
    rw [leaving, taken, hs, ih]
    cases hpop : pop s (inp t) with
    | false =>
      have hout : pushOut s (inp t) = false := by
        rw [← Bool.not_eq_true]
        intro hout
        have hne : empty s = false := by
          simp only [pushOut, stb, Bool.and_eq_true, Bool.not_eq_true', Bool.or_eq_false_iff] at hout
          exact hout.1.2.1.1
        rw [pop, hne, hout] at hpop
        simp at hpop
      rw [hout]
      simp
    | true =>
      have hq := hinv.qOut_eq (hinv.lt_of_pop hpop) (inp t)
      have hdrop : dropBit s (inp t) = (wordAt msgs (taken g_depth inp t)).dropped := by
        rw [dropBit, hq, Tagged.dropped]
      rw [Bool.toNat_true, List.range_succ, List.map_append, sent_append, hq]
      congr 1
      by_cases hd : (wordAt msgs (taken g_depth inp t)).dropped = true
      · have hout : pushOut s (inp t) = false := by
          rw [pushOut, stb, hdrop, hd]
          simp
        rw [hout]
        simp [sent, hd]
      · have hout : pushOut s (inp t) = true := by
          rw [pop, hdrop, Bool.not_eq_true _ |>.mp hd, Bool.or_false, Bool.and_eq_true] at hpop
          exact hpop.2
        rw [hout]
        simp [sent, hd]

theorem ts_of_head (h : Feeds g_depth inp msgs) {t : Nat}
    (hvalid : tsValidO (stateAt g_depth inp t) = true) :
    tsO (stateAt g_depth inp t) (inp t) = (msgs (taken g_depth inp t / 8)).timestamp := by
  have hinv := inv_at h t
  generalize stateAt g_depth inp t = s at hinv hvalid
  generalize taken g_depth inp t = p at hinv
  generalize entered g_depth inp t = q at hinv
  rw [tsValidO, emptyTsHi, emptyTsLo, hinv.tsHi, hinv.tsLo] at hvalid
  rw [tsO, hinv.tsHi, hinv.tsLo]
  rcases hhi : (q + 1) / 8 - p / 8 with _ | n
  · rw [hhi] at hvalid
    exact absurd hvalid (by simp)
  · rcases hlo : q / 8 - p / 8 with _ | n'
    · rw [hlo] at hvalid
      exact absurd hvalid (by simp)
    · rfl

/-- The bus cycle of the output between two cycles without one. -/
structure BusCycle (g_depth : Nat) (inp : Nat → Inputs) (first last : Nat) : Prop where
  lt : first + 1 < last
  before : cyc (stateAt g_depth inp first) = false
  during : ∀ t, first < t → t < last → cyc (stateAt g_depth inp t) = true
  after : cyc (stateAt g_depth inp last) = false

theorem taken_of_busCycle (h : Feeds g_depth inp msgs) {first last : Nat}
    (hc : BusCycle g_depth inp first last) :
    taken g_depth inp first % 8 = 0 ∧ taken g_depth inp last = taken g_depth inp first + 8 := by
  have hlt := hc.lt
  have hwhole : taken g_depth inp first % 8 = 0 := by
    by_contra hmid
    have hcyc := (inv_at h first).cyc_of_busy hmid
    rw [hc.before] at hcyc
    exact absurd hcyc (by decide)
  refine ⟨hwhole, ?_⟩
  generalize hp : taken g_depth inp first = p at hwhole ⊢
  have hstage : ∀ t, first + 1 ≤ t → t ≤ last →
      ((stateAt g_depth inp t).r_done = false ∧ p ≤ taken g_depth inp t ∧
          taken g_depth inp t < p + 8) ∨
        ((stateAt g_depth inp t).r_done = true ∧ taken g_depth inp t = p + 8) := by
    intro t hle
    induction t, hle using Nat.le_induction with
    | base =>
      intro _
      have hpop : pop (stateAt g_depth inp first) (inp first) = false := by
        rw [← Bool.not_eq_true]
        intro hpop
        have hcyc := ((inv_at h first).of_pop hpop).1
        rw [hc.before] at hcyc
        exact absurd hcyc (by decide)
      left
      rw [stateAt_succ, step, if_neg (by simp [h.running first]), taken, hpop, hp]
      refine ⟨by simp [hc.before], Nat.le_refl _, ?_⟩
      simp
    | succ t hle ih =>
      intro hlast
      have hinv := inv_at h t
      have hcyc := hc.during t hle hlast
      have hnext : (stateAt g_depth inp (t + 1)).r_done =
          ((stateAt g_depth inp t).r_done || done (stateAt g_depth inp t) (inp t)) := by
        rw [stateAt_succ, step, if_neg (by simp [h.running t])]
        dsimp only
        rw [hcyc, Bool.and_true]
      have hdone := hinv.done_iff (i := inp t)
      rw [hnext, taken]
      rcases ih (by omega) with ⟨hbusy, hlow, hhigh⟩ | ⟨hended, hall⟩
      · rw [hbusy, Bool.false_or]
        cases hpop : pop (stateAt g_depth inp t) (inp t) with
        | false =>
          left
          refine ⟨?_, hlow, hhigh⟩
          rw [← Bool.not_eq_true, hdone, hpop]
          simp
        | true =>
          rw [hpop] at hdone
          by_cases hlastWord : taken g_depth inp t % 8 = 7
          · right
            refine ⟨hdone.mpr ⟨rfl, hlastWord⟩, ?_⟩
            simp only [Bool.toNat_true]
            omega
          · left
            refine ⟨?_, ?_, ?_⟩
            · rw [← Bool.not_eq_true, hdone]
              exact fun hh => hlastWord hh.2
            · exact Nat.le_succ_of_le hlow
            · simp only [Bool.toNat_true]
              omega
      · have hpop : pop (stateAt g_depth inp t) (inp t) = false := by
          rw [← Bool.not_eq_true]
          intro hpop
          rw [(hinv.of_pop hpop).2] at hended
          exact absurd hended (by decide)
        right
        rw [hended, hpop, hall]
        exact ⟨rfl, rfl⟩
  rcases hstage last hlt.le (Nat.le_refl _) with ⟨hbusy, -, -⟩ | ⟨-, hall⟩
  · -- the bus cycle does not end before the last word is taken out
    obtain ⟨t, rfl⟩ : ∃ t, last = t + 1 := ⟨last - 1, by omega⟩
    have hcyc := hc.during t (by omega) (by omega)
    have hsel : (stateAt g_depth inp (t + 1)).r_sel = true := by
      have hold := hcyc
      rw [cyc, Bool.and_eq_true, sel, Bool.or_comm] at hold
      rw [stateAt_succ, step, if_neg (by simp [h.running t])]
      dsimp only
      rw [hold.1, hcyc]
      rfl
    have hend := hc.after
    rw [cyc, sel, hsel, ackwait, hbusy] at hend
    simp at hend
  · exact hall

/-- **A queue unit delivers its messages**: the words that have left are the first ones that
entered, in their order, except those that were to be dropped; each bus cycle of the output
carries one message; and a valid timestamp is that of the message at the head. -/
theorem queue_unit_delivers (h : Feeds g_depth inp msgs) :
    (∀ t, taken g_depth inp t ≤ entered g_depth inp t ∧
      leaving g_depth inp t = sent ((List.range (taken g_depth inp t)).map (wordAt msgs))) ∧
    (∀ first last, BusCycle g_depth inp first last → ∃ k,
      taken g_depth inp first = 8 * k ∧ taken g_depth inp last = 8 * (k + 1) ∧
        leaving g_depth inp last =
          leaving g_depth inp first ++ sent ((List.range 8).map (msgs k).word)) ∧
    ∀ t, tsValidO (stateAt g_depth inp t) = true →
      tsO (stateAt g_depth inp t) (inp t) = (msgs (taken g_depth inp t / 8)).timestamp := by
  refine ⟨fun t => ⟨(inv_at h t).le, leaving_eq h t⟩, ?_, fun t => ts_of_head h⟩
  intro first last hc
  obtain ⟨hwhole, hlast⟩ := taken_of_busCycle h hc
  have hfirst : taken g_depth inp first = 8 * (taken g_depth inp first / 8) := by omega
  refine ⟨taken g_depth inp first / 8, hfirst, by omega, ?_⟩
  have hwords : (List.range 8).map (fun j => wordAt msgs (taken g_depth inp first + j)) =
      (List.range 8).map (msgs (taken g_depth inp first / 8)).word := by
    refine List.map_congr_left fun j hj => ?_
    rw [List.mem_range] at hj
    rw [wordAt, show (taken g_depth inp first + j) / 8 = taken g_depth inp first / 8 by omega,
      show (taken g_depth inp first + j) % 8 = j by omega]
  rw [leaving_eq h, leaving_eq h, hlast, List.range_add, List.map_append, sent_append,
    List.map_map, ← hwords]
  rfl

end Delivery

/-! ### A message whose timestamp is dropped -/

/-- Messages with the numbers of their words; the timestamp of the first one is to be dropped. -/
def sampleMsgs (k : Nat) : Message where
  data := fun j => BitVec.ofNat 32 (8 * k + j.1)
  tsHi := 1000
  tsLo := 2000
  dropHi := k == 0
  dropLo := k == 0

/-- Two messages are pushed without pause; the six words of the first one are acknowledged. -/
def sampleInputs (t : Nat) : Inputs where
  rst_n := true
  slave_i :=
    { cyc := decide (t < 16)
      stb := decide (t < 16)
      adr := (wordAt sampleMsgs t).type.setWidth 32 <<< 2
      sel := 0xf
      we := true
      dat := (wordAt sampleMsgs t).data }
  master_i := { ack := decide (2 ≤ t ∧ t < 8), err := false, rty := false, stall := false, dat := 0 }
  stale := ⟨0, 0⟩
  staleTsHi := 0
  staleTsLo := 0

theorem sample_feeds : Feeds 16 sampleInputs sampleMsgs where
  running := fun _ => rfl
  words := by
    have hsixteen : ∀ t : Fin 16,
        push 16 (stateAt 16 sampleInputs t) (sampleInputs t) = true →
          dIn (sampleInputs t) = wordAt sampleMsgs (entered 16 sampleInputs t) := by
      decide +kernel
    intro t hpush
    rcases Nat.lt_or_ge t 16 with ht | ht
    · exact hsixteen ⟨t, ht⟩ hpush
    · have hidle : (sampleInputs t).slave_i.cyc = false := decide_eq_false (by omega)
      rw [push, hidle, Bool.false_and, Bool.false_and] at hpush
      exact absurd hpush (by decide)

theorem sample_delivers :
    leaving 16 sampleInputs 12 =
      sent ((List.range (taken 16 sampleInputs 12)).map (wordAt sampleMsgs)) :=
  ((queue_unit_delivers sample_feeds).1 12).2

/-- The words of the dropped timestamp do not leave: the first word of the second message is the
seventh one at the output. -/
theorem dropped_words_missing :
    ¬∀ (g_depth : Nat) (inp : Nat → Inputs) (msgs : Nat → Message), Feeds g_depth inp msgs →
      ∀ t, ∃ n, leaving g_depth inp t = ((List.range n).map (wordAt msgs)).map Tagged.data := by
  intro hall
  obtain ⟨n, hn⟩ := hall 16 sampleInputs sampleMsgs sample_feeds 12
  have hleaving : leaving 16 sampleInputs 12 = [0, 1, 2, 3, 4, 5, 8] := by decide +kernel
  rw [hleaving] at hn
  have hseven : n = 7 := by
    have hlength := congrArg List.length hn
    simpa using hlength.symm
  subst hseven
  revert hn
  decide +kernel

end PrioQueue.QueueUnit
