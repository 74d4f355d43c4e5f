import BelProjects.DataMaster.Blocks.Scan

/-!
# The command popped is the command executed

`block` finds its command in a loop over the queues and pops a queue after it.  The
loop variables `cmd` and `rdIdx` survive the loop from different iterations: `cmd` from
the last queue that was pending, `rdIdx` from the last queue the block has.  Where the
loop ends without a hit and the reading after it finds `cmd` valid, the two may belong
to different queues.
-/

namespace DataMaster

variable (P : Platform)

/-- The loop of `block` over its queues, highest priority first. -/
def scanPrios : List Nat := [prioIl, prioHi, prioLo]

theorem mem_scanPrios {q : Nat} : q ∈ scanPrios ↔ q < 3 := by
  rw [scanPrios, prioIl, prioHi, prioLo]
  simp only [List.mem_cons, List.not_mem_nil, or_false]
  omega

theorem scanPrios_desc : scanPrios.Pairwise (· > ·) := by decide

/-! ### The queue that should be served -/

/-- Number of clock readings before the loop looks at queue `q`. -/
def readings (m : Mem) (node : Word) (q : Nat) : Nat := readingsBefore P m node scanPrios q

/-- The head of queue `q` is valid at the reading the loop takes for it. -/
def SeenValid (s : Cpu) (node : Word) (q : Nat) : Prop :=
  isPending P s.mem node q = true ∧ headTime P s.mem node q ≤ s.clk (readings P s.mem node q)

/-- Queue `q` is the last one pending, and its head is valid at the reading taken
after the loop. -/
def ValidAtEnd (s : Cpu) (node : Word) (q : Nat) : Prop :=
  isPending P s.mem node q = true ∧ (∀ p, p < q → isPending P s.mem node p = false) ∧
    headTime P s.mem node q ≤ s.clk (readings P s.mem node q + 1)

/-- Some reading of the call finds the head of queue `q` pending and valid. -/
def FoundValid (s : Cpu) (node : Word) (q : Nat) : Prop :=
  SeenValid P s node q ∨ ValidAtEnd P s node q

/-- The highest priority whose head is pending and valid. -/
structure Chosen (s : Cpu) (node : Word) (q : Nat) : Prop where
  lt : q < 3
  found : FoundValid P s node q
  highest : ∀ p, q < p → p < 3 → ¬ FoundValid P s node p

/-! ### What serving a queue means -/

/-- Read index of queue `q`. -/
def rdIdx (m : Mem) (node : Word) (q : Nat) : Nat :=
  (idxByte (P.ld m (node + blockCmdqRdIdxs)) q).toNat % 8

/-- Write index of queue `q`. -/
def wrIdx (m : Mem) (node : Word) (q : Nat) : Nat :=
  (idxByte (P.ld m (node + blockCmdqWrIdxs)) q).toNat % 8

/-- From `m` to `m'` the action word of the command at `c` becomes `act`, the read
index of queue `q` advances by `n`, and nothing else changes. An index byte that holds
three bits still does. -/
structure Booked (m m' : Mem) (node c act : Word) (q n : Nat) : Prop where
  act_eq : P.ld m' (c + tCmdAct) = act
  rd_eq : ∀ p, p < 3 →
    rdIdx P m' node p = if p = q then (rdIdx P m node p + n) % 8 else rdIdx P m node p
  rd_small : ∀ p, p < 3 → (idxByte (P.ld m (node + blockCmdqRdIdxs)) p).toNat < 8 →
    (idxByte (P.ld m' (node + blockCmdqRdIdxs)) p).toNat < 8
  frame : ∀ a, a ≠ P.adr (c + tCmdAct) → a ≠ P.adr (node + blockCmdqRdIdxs) → m' a = m a

def withQty (act qty : Word) : Word := (act &&& ~~~actQtyMsk) ||| (qty &&& actQtyMsk)

/-- From `s` the command at `c` is executed and counted down, and queue `q` is popped
with its last quantity; a command without quantity is popped and not executed. -/
def Serves (s : Cpu) (node thrData c : Word) (q : Nat) (r : Word) (s' : Cpu) : Prop :=
  let act := P.ld s.mem (c + tCmdAct)
  if actQty act = 0 then
    r = (if idxsDiffer P s'.mem node then node else P.defDest s.mem node) ∧
      Booked P s.mem s'.mem node c act q 1
  else ∃ atype, ActType.ofNum? (actType act) = some atype ∧
    r = (actionFuncs P atype s node c thrData).1 ∧
    Booked P (actionFuncs P atype s node c thrData).2.mem s'.mem node c
      (withQty act (actQty act - 1)) q (if actQty act = 1 then 1 else 0)

/-- Indices and elements of the block's queues are the same in `m'`. -/
structure QueuesSame (m m' : Mem) (node : Word) : Prop where
  rd_eq : ∀ q, q < 3 → rdIdx P m' node q = rdIdx P m node q
  wr_eq : ∀ q, q < 3 → wrIdx P m' node q = wrIdx P m node q
  elem_eq : ∀ q, q < 3 → P.hasQueue m node q = true → ∀ i, i < 4 → ∀ k, k < 5 →
    P.ld m' (slotElem P m node q i + BitVec.ofNat 32 (4 * k)) =
      P.ld m (slotElem P m node q i + BitVec.ofNat 32 (4 * k))

/-- The state from which a head of queue `q` is served: the block painted, the clock
read for the pending queues up to `q` and once more after the loop. -/
def atService (s : Cpu) (node : Word) (q : Nat) : Cpu :=
  { s.paint P node with clk := fun n => s.clk (n + (readings P s.mem node q + 2)) }

/-- The outcome of a call of `block` from `s`: no queue has changed, or the head of the
highest priority that is pending and valid was served. -/
def PopsOne (s : Cpu) (node thrData : Word) : Option (Word × Cpu) → Prop
  | none => False
  | some (r, s') => QueuesSame P s.mem s'.mem node ∨
      ∃ q, Chosen P s node q ∧
        Serves P (atService P s node q) node thrData (readElem P s.mem node q) q r s'

def PopsExecuted (s : Cpu) (node thrData : Word) : Prop :=
  PopsOne P s node thrData (block P s node thrData)

/-- The states from which one call of `block` does something else. Either `cmd` was
never set; or it was found valid only after the loop, which had gone on to a lower
queue, and its quantity would now be used up; or its type has no handler. -/
def ScanSlip (s : Cpu) (node : Word) : Prop :=
  P.ld s.mem (node + blockCmdqFlags) &&& blockCmdqDnrSmsk = 0 ∧ idxsDiffer P s.mem node = true ∧
    ((∀ q, q < 3 → isPending P s.mem node q = false) ∨
      ∃ q, Chosen P s node q ∧
        ((¬ SeenValid P s node q ∧ (∃ p, p < q ∧ P.hasQueue s.mem node p = true) ∧
            (actQty (headAct P s.mem node q)).toNat ≤ 1) ∨
          (actQty (headAct P s.mem node q) ≠ 0 ∧
            ActType.ofNum? (actType (headAct P s.mem node q)) = none)))

/-! ### What the scan hands on -/

/-- What `block` does after its scan: dereference a pointer that was never set, leave,
or serve the command at `c` and pop queue `rdPrio`. -/
inductive Found where
  | unset
  | idle (s : Cpu)
  | command (c : Word) (rdPrio : Nat) (s : Cpu)

/-- `block` up to the service of its command. -/
def findCmd (s : Cpu) (node : Word) : Found :=
  let s₁ := s.paint P node
  if P.ld s.mem (node + blockCmdqFlags) &&& blockCmdqDnrSmsk = 0 ∧ idxsDiffer P s₁.mem node then
    let found := scanQueues P s₁.mem node scanPrios { rdPrio := 0, cmd := none } s₁.clk
    match found.1.cmd with
    | none => .unset
    | some c =>
        let s₂ := { s₁ with clk := fun n => found.2 (n + 1) }
        if found.2 0 < P.ld64 s₁.mem (c + tCmdTime) then .idle s₂
        else .command c found.1.rdPrio s₂
  else .idle s₁

/-- `block` in terms of `findCmd`. -/
theorem block_eq (s : Cpu) (node thrData : Word) :
    block P s node thrData = match findCmd P s node with
      | .unset => none
      | .idle s' => some (P.defDest s.mem node, s')
      | .command c rdPrio s' => serveCmd P s' node thrData c rdPrio (P.defDest s.mem node) := by
  have hlist : [prioIl, prioHi, prioLo] = scanPrios := rfl
  simp only [block, findCmd, hlist, Cpu.getSysTime]
  split
  · cases (scanQueues P (s.paint P node).mem node scanPrios { rdPrio := 0, cmd := none }
      (s.paint P node).clk).1.cmd with
    | none => rfl
    | some c =>
        simp only
        split <;> rfl
  · rfl

/-! ### Serving a command -/

section Serving

variable {P} {s s' : Cpu} {node thrData c r : Word}

theorem rdIdx_lt (m : Mem) (q : Nat) : rdIdx P m node q < 8 := Nat.mod_lt _ (by decide)

/-- A stored index is the sum modulo eight. -/
theorem toNat_and_ovf (b : BitVec 8) : (b &&& qIdxMaxOvfMsk).toNat = b.toNat % 8 := by
  rw [BitVec.toNat_and]
  exact Nat.and_two_pow_sub_one_eq_mod b.toNat 3

theorem actQty_withQty (act qty : Word) : actQty (withQty act qty) = qty &&& actQtyMsk := by
  apply BitVec.eq_of_getLsbD_eq
  intro i hi
  simp only [actQty, withQty, BitVec.getLsbD_and, BitVec.getLsbD_or, BitVec.getLsbD_not, hi,
    decide_true, Bool.true_and]
  cases act.getLsbD i <;> cases qty.getLsbD i <;> cases actQtyMsk.getLsbD i <;> rfl

theorem withQty_pred_ne {act : Word} (h : actQty act ≠ 0) : withQty act (actQty act - 1) ≠ act := by
  intro heq
  have hqty : (actQty act - 1) &&& actQtyMsk = actQty act := by
    rw [← actQty_withQty act, heq]
  have hpos : (actQty act).toNat ≠ 0 := fun h0 => h (BitVec.eq_of_toNat_eq (by simpa using h0))
  have hle : ((actQty act - 1) &&& actQtyMsk).toNat ≤ (actQty act - 1).toNat := by
    rw [BitVec.toNat_and]
    exact Nat.and_le_left
  have hsub : (actQty act - 1).toNat = (actQty act).toNat - 1 := by
    have hone : (1 : Word).toNat = 1 := rfl
    rw [BitVec.toNat_sub_of_le (by rw [BitVec.le_def, hone]; omega), hone]
  rw [hqty] at hle
  omega

theorem popQueue_booked {m : Mem} {act : Word} {e : Nat} (n : BitVec 8)
    (hne : P.adr (c + tCmdAct) ≠ P.adr (node + blockCmdqRdIdxs))
    (hact : P.ld s.mem (c + tCmdAct) = act)
    (hrd : P.ld s.mem (node + blockCmdqRdIdxs) = P.ld m (node + blockCmdqRdIdxs))
    (hframe : ∀ a, a ≠ P.adr (c + tCmdAct) → s.mem a = m a) :
    Booked P m (popQueue P s node e n).mem node c act e n.toNat where
  act_eq := by rw [popQueue, Cpu.st_mem, P.ld_st_other hne, hact]
  rd_eq p hp := by
    rw [rdIdx, popQueue, Cpu.st_mem, P.ld_st_same, idxByte_setIdxByte _ (by omega), hrd]
    split
    · rename_i heq
      rw [toNat_and_ovf, BitVec.toNat_add, rdIdx, heq]
      omega
    · rfl
  rd_small p hp hlt := by
    rw [popQueue, Cpu.st_mem, P.ld_st_same, idxByte_setIdxByte _ (by omega), hrd]
    split
    · rw [toNat_and_ovf]
      omega
    · exact hlt
  frame a ha ha' := by rw [popQueue, Cpu.st_mem, P.st_other ha', hframe a ha]

theorem serveCmd_serves {e : Nat} (hne : P.adr (c + tCmdAct) ≠ P.adr (node + blockCmdqRdIdxs))
    (h : serveCmd P s node thrData c e (P.defDest s.mem node) = some (r, s')) :
    Serves P s node thrData c e r s' := by
  simp only [serveCmd] at h
  by_cases hqty : actQty (P.ld s.mem (c + tCmdAct)) = 0
  · rw [if_neg (not_not.mpr hqty)] at h
    simp only [Serves, if_pos hqty]
    have hbook : Booked P s.mem (popQueue P s node e 1).mem node c
        (P.ld s.mem (c + tCmdAct)) e 1 := popQueue_booked 1 hne rfl rfl fun a _ => rfl
    split at h <;> obtain ⟨rfl, rfl⟩ := Prod.mk.inj (Option.some.inj h)
    · rename_i hdiff
      exact ⟨by rw [if_pos hdiff], hbook⟩
    · rename_i hdiff
      exact ⟨by rw [if_neg hdiff], hbook⟩
  · rw [if_pos hqty] at h
    simp only [Serves, if_neg hqty]
    split at h
    · exact absurd h (by simp)
    · rename_i atype htype
      obtain ⟨rfl, rfl⟩ := Prod.mk.inj (Option.some.inj h)
      refine ⟨atype, htype, rfl, ?_⟩
      have hlast : actQty (P.ld s.mem (c + tCmdAct)) - 1 = 0 ↔
          actQty (P.ld s.mem (c + tCmdAct)) = 1 := by
        rw [BitVec.sub_eq_iff_eq_add]
        rfl
      have hn : (if actQty (P.ld s.mem (c + tCmdAct)) = 1 then 1 else 0) =
          (if actQty (P.ld s.mem (c + tCmdAct)) - 1 = 0 then 1#8 else 0#8).toNat := by
        by_cases h1 : actQty (P.ld s.mem (c + tCmdAct)) = 1
        · rw [if_pos h1, if_pos (hlast.mpr h1)]; rfl
        · rw [if_neg h1, if_neg (hlast.not.mpr h1)]; rfl
      rw [hn]
      refine popQueue_booked _ hne (P.ld_st_same _ _ _) (P.ld_st_other hne.symm) ?_
      intro a ha
      exact P.st_other ha

theorem serveCmd_eq_none {e : Nat} {ret : Word} :
    serveCmd P s node thrData c e ret = none ↔
      actQty (P.ld s.mem (c + tCmdAct)) ≠ 0 ∧
        ActType.ofNum? (actType (P.ld s.mem (c + tCmdAct))) = none := by
  simp only [serveCmd]
  by_cases hqty : actQty (P.ld s.mem (c + tCmdAct)) = 0
  · rw [if_neg (not_not.mpr hqty)]
    constructor
    · intro h
      split at h <;> exact absurd h (by simp)
    · intro h
      exact absurd hqty h.1
  · rw [if_pos hqty]
    cases htype : ActType.ofNum? (actType (P.ld s.mem (c + tCmdAct))) with
    | none => exact iff_of_true rfl ⟨hqty, rfl⟩
    | some atype => simp

/-- With two or more left, nothing is popped, whatever the queue. -/
theorem Serves.of_two_le {e q : Nat} (h : Serves P s node thrData c e r s')
    (hqty : 2 ≤ (actQty (P.ld s.mem (c + tCmdAct))).toNat) : Serves P s node thrData c q r s' := by
  have h0 : actQty (P.ld s.mem (c + tCmdAct)) ≠ 0 := by
    intro h0
    rw [h0] at hqty
    exact absurd hqty (by decide)
  have h1 : actQty (P.ld s.mem (c + tCmdAct)) ≠ 1 := by
    intro h1
    rw [h1] at hqty
    exact absurd hqty (by decide)
  simp only [Serves, if_neg h0, if_neg h1] at h ⊢
  obtain ⟨atype, htype, hr, hbook⟩ := h
  refine ⟨atype, htype, hr, hbook.act_eq, ?_, hbook.rd_small, hbook.frame⟩
  intro p hp
  have hlt : rdIdx P (actionFuncs P atype s node c thrData).2.mem node p < 8 := rdIdx_lt _ p
  have hrd := hbook.rd_eq p hp
  rw [Nat.add_zero, Nat.mod_eq_of_lt hlt, ite_self] at hrd ⊢
  exact hrd

theorem Serves.queue_unique {e q : Nat} {r' : Word} (hq : q < 3)
    (he : Serves P s node thrData c e r s') (hs : Serves P s node thrData c q r' s')
    (hqty : (actQty (P.ld s.mem (c + tCmdAct))).toNat ≤ 1) : e = q := by
  by_contra hne
  by_cases h0 : actQty (P.ld s.mem (c + tCmdAct)) = 0
  · simp only [Serves, if_pos h0] at he hs
    have h₁ := he.2.rd_eq q hq
    have h₂ := hs.2.rd_eq q hq
    have hlt : rdIdx P s.mem node q < 8 := rdIdx_lt _ q
    rw [if_neg fun h => hne h.symm] at h₁
    rw [if_pos rfl, h₁] at h₂
    omega
  · have h1 : actQty (P.ld s.mem (c + tCmdAct)) = 1 := by
      apply BitVec.eq_of_toNat_eq
      have hpos : (actQty (P.ld s.mem (c + tCmdAct))).toNat ≠ 0 :=
        fun h => h0 (BitVec.eq_of_toNat_eq (by simpa using h))
      have hone : (1 : Word).toNat = 1 := rfl
      omega
    simp only [Serves, if_neg h0, if_pos h1] at he hs
    obtain ⟨atype, htype, -, he⟩ := he
    obtain ⟨atype', htype', -, hs⟩ := hs
    obtain rfl : atype = atype' := Option.some.inj (htype.symm.trans htype')
    have h₁ := he.rd_eq q hq
    have h₂ := hs.rd_eq q hq
    have hlt : rdIdx P (actionFuncs P atype s node c thrData).2.mem node q < 8 := rdIdx_lt _ q
    rw [if_neg fun h => hne h.symm] at h₁
    rw [if_pos rfl, h₁] at h₂
    omega

end Serving

/-! ### One call of `block` -/

section Block

variable {P} {s : Cpu} {node : Word} {base : Nat} {lst : Nat → Nat} {buf : Nat → Nat → Nat}
  (hl : BlockLayout P s.mem node base lst buf)
include hl

theorem BlockLayout.ld_paint {ptr : Word} (h : P.adr ptr ≠ base + 11) :
    P.ld (s.paint P node).mem ptr = P.ld s.mem ptr := hl.paint_other h

theorem BlockLayout.ld_rdIdxs_paint :
    P.ld (s.paint P node).mem (node + blockCmdqRdIdxs) = P.ld s.mem (node + blockCmdqRdIdxs) :=
  hl.ld_paint (by rw [hl.adr_rdIdxs]; omega)

theorem BlockLayout.ld_wrIdxs_paint :
    P.ld (s.paint P node).mem (node + blockCmdqWrIdxs) = P.ld s.mem (node + blockCmdqWrIdxs) :=
  hl.ld_paint (by rw [hl.adr_wrIdxs]; omega)

theorem BlockLayout.pending_paint {q : Nat} :
    isPending P (s.paint P node).mem node q = isPending P s.mem node q := by
  rw [isPending, isPending, hasQueue_paint, queuePending, queuePending, hl.ld_rdIdxs_paint, hl.ld_wrIdxs_paint]

theorem BlockLayout.differ_paint :
    idxsDiffer P (s.paint P node).mem node = idxsDiffer P s.mem node := by
  rw [idxsDiffer, idxsDiffer, hl.ld_rdIdxs_paint, hl.ld_wrIdxs_paint]

theorem BlockLayout.rdIdx_paint (q : Nat) :
    rdIdx P (s.paint P node).mem node q = rdIdx P s.mem node q := by
  rw [rdIdx, rdIdx, hl.ld_rdIdxs_paint]

theorem BlockLayout.defDest_paint :
    P.defDest (s.paint P node).mem node = P.defDest s.mem node :=
  hl.ld_paint (by rw [hl.adr_defDest]; omega)

theorem BlockLayout.readElem_paint {q : Nat} (hq : q < 3) (hex : P.hasQueue s.mem node q = true) :
    readElem P (s.paint P node).mem node q = readElem P s.mem node q := by
  rw [readElem_eq, readElem_eq, hl.ld_rdIdxs_paint,
    hl.slotElem_same hl.paint_sameShape hq hex (ringSlot_lt _)]

theorem BlockLayout.adr_headAct {q : Nat} (hq : q < 3) (hex : P.hasQueue s.mem node q = true) :
    ∃ j k, j < 2 ∧ k < 10 ∧ P.adr (readElem P s.mem node q + tCmdAct) = buf q j + k := by
  rw [readElem_eq]
  generalize hi : ringSlot (idxByte (P.ld s.mem (node + blockCmdqRdIdxs)) q) = i
  have hlt : i < 4 := hi ▸ ringSlot_lt _
  exact ⟨i / 2, i % 2 * 5 + 2, by omega, by omega, hl.adr_slotAct hq hex hlt⟩

theorem BlockLayout.adr_headAct_ne {q i : Nat} (hq : q < 3) (hex : P.hasQueue s.mem node q = true)
    (hi : i < 13) : P.adr (readElem P s.mem node q + tCmdAct) ≠ base + i := by
  obtain ⟨j, k, hj, hk, hadr⟩ := hl.adr_headAct hq hex
  rw [hadr]
  exact hl.buf_ne_node hq hex hj hk hi

theorem BlockLayout.headAct_paint {q : Nat} (hq : q < 3) (hex : P.hasQueue s.mem node q = true) :
    P.ld (s.paint P node).mem (readElem P s.mem node q + tCmdAct) = headAct P s.mem node q :=
  hl.ld_paint (hl.adr_headAct_ne hq hex (by decide))

theorem BlockLayout.headTime_paint {q : Nat} (hq : q < 3) (hex : P.hasQueue s.mem node q = true) :
    headTime P (s.paint P node).mem node q = headTime P s.mem node q := by
  have hlt := ringSlot_lt (idxByte (P.ld s.mem (node + blockCmdqRdIdxs)) q)
  rw [headTime, headTime, hl.readElem_paint hq hex, readElem_eq]
  refine P.ld64_congr (hl.paint_other ?_) (hl.paint_other ?_)
  · rw [hl.adr_slotTime hq hex hlt]
    exact hl.buf_ne_node hq hex (by omega) (by omega) (by decide)
  · rw [hl.adr_slotTimeLo hq hex hlt]
    exact hl.buf_ne_node hq hex (by omega) (by omega) (by decide)

theorem BlockLayout.readings_paint (q : Nat) :
    readingsBefore P (s.paint P node).mem node scanPrios q = readings P s.mem node q := by
  rw [readings, readingsBefore, readingsBefore]
  exact congrArg (fun f => List.countP f scanPrios) (funext fun p => by rw [hl.pending_paint])

omit hl in
theorem hasQueue_of_pending {q : Nat} (h : isPending P s.mem node q = true) :
    P.hasQueue s.mem node q = true := (Bool.and_eq_true_iff.mp h).1

/-- A queue passed over by the loop was not valid at its reading. -/
theorem BlockLayout.late_paint {q : Nat} (hq : q < 3) (hnot : ¬ SeenValid P s node q)
    (hpend : isPending P (s.paint P node).mem node q = true) :
    s.clk (readingsBefore P (s.paint P node).mem node scanPrios q) <
      headTime P (s.paint P node).mem node q := by
  rw [hl.pending_paint] at hpend
  rw [hl.readings_paint, hl.headTime_paint hq (hasQueue_of_pending hpend)]
  exact BitVec.not_le.mp fun hle => hnot ⟨hpend, hle⟩

theorem BlockLayout.findCmd_idle
    (h : ¬ (P.ld s.mem (node + blockCmdqFlags) &&& blockCmdqDnrSmsk = 0 ∧
      idxsDiffer P s.mem node = true)) : findCmd P s node = .idle (s.paint P node) := by
  rw [← hl.differ_paint] at h
  simp only [findCmd, if_neg h]

theorem BlockLayout.findCmd_scan
    (hgate : P.ld s.mem (node + blockCmdqFlags) &&& blockCmdqDnrSmsk = 0 ∧
      idxsDiffer P s.mem node = true) {v : ScanVars} {clk : Nat → Time}
    (hscan : scanQueues P (s.paint P node).mem node scanPrios { rdPrio := 0, cmd := none } s.clk =
      (v, clk)) :
    findCmd P s node = match v.cmd with
      | none => .unset
      | some c =>
          if clk 0 < P.ld64 (s.paint P node).mem (c + tCmdTime) then
            .idle { s.paint P node with clk := fun n => clk (n + 1) }
          else .command c v.rdPrio { s.paint P node with clk := fun n => clk (n + 1) } := by
  have hclk : (s.paint P node).clk = s.clk := rfl
  rw [← hl.differ_paint] at hgate
  simp only [findCmd, if_pos hgate, hclk, hscan]

/-- The loop ends at queue `q`. -/
theorem BlockLayout.findCmd_hit
    (hgate : P.ld s.mem (node + blockCmdqFlags) &&& blockCmdqDnrSmsk = 0 ∧
      idxsDiffer P s.mem node = true) {q : Nat} (hq : q < 3) (hseen : SeenValid P s node q)
    (hhigh : ∀ p, q < p → p < 3 → ¬ SeenValid P s node p) :
    findCmd P s node =
      if s.clk (readings P s.mem node q + 1) < headTime P s.mem node q then
        .idle (atService P s node q)
      else .command (readElem P s.mem node q) q (atService P s node q) := by
  have hex := hasQueue_of_pending hseen.1
  have hscan : scanQueues P (s.paint P node).mem node scanPrios { rdPrio := 0, cmd := none } s.clk = _ :=
    scanQueues_hit scanPrios_desc (mem_scanPrios.mpr hq)
    (by rw [hl.pending_paint]; exact hseen.1)
    (by rw [hl.headTime_paint hq hex, hl.readings_paint]; exact hseen.2)
    (fun p hp hqp => hl.late_paint (mem_scanPrios.mp hp) (hhigh p hqp (mem_scanPrios.mp hp)))
  rw [hl.readElem_paint hq hex, hl.readings_paint] at hscan
  have htime := hl.headTime_paint hq hex
  rw [headTime, hl.readElem_paint hq hex] at htime
  rw [hl.findCmd_scan hgate hscan]
  simp only [htime, atService, show 0 + 1 + readings P s.mem node q =
    readings P s.mem node q + 1 by omega, show ∀ n, n + 1 + 1 + readings P s.mem node q =
    n + (readings P s.mem node q + 2) by intro n; omega]

/-- The loop ends without a hit, and no queue was pending. -/
theorem BlockLayout.findCmd_unset
    (hgate : P.ld s.mem (node + blockCmdqFlags) &&& blockCmdqDnrSmsk = 0 ∧
      idxsDiffer P s.mem node = true)
    (hnone : ∀ q, q < 3 → isPending P s.mem node q = false) : findCmd P s node = .unset := by
  have hpaint : ∀ p ∈ scanPrios, isPending P (s.paint P node).mem node p = false := by
    intro p hp
    rw [hl.pending_paint]
    exact hnone p (mem_scanPrios.mp hp)
  have hscan : scanQueues P (s.paint P node).mem node scanPrios { rdPrio := 0, cmd := none } s.clk = _ :=
    scanQueues_miss scanPrios_desc
    (fun p hp hpend => absurd hpend (by rw [hpaint p hp]; decide))
  rw [hl.findCmd_scan hgate hscan, missVars_cmd_none hpaint]

omit hl in
theorem readings_last {q : Nat} (hq : q < 3) (hpend : isPending P s.mem node q = true)
    (hlast : ∀ p, p < q → isPending P s.mem node p = false) :
    scanPrios.countP (isPending P s.mem node) = readings P s.mem node q + 1 := by
  rw [readings, readingsBefore, scanPrios, prioIl, prioHi, prioLo]
  simp only [List.countP_cons, List.countP_nil]
  obtain rfl | rfl | rfl : q = 0 ∨ q = 1 ∨ q = 2 := by omega
  · simp [hpend]
    omega
  · simp [hpend, hlast 0 (by decide)]
    omega
  · simp [hpend, hlast 0 (by decide), hlast 1 (by decide)]

theorem BlockLayout.findCmd_miss
    (hgate : P.ld s.mem (node + blockCmdqFlags) &&& blockCmdqDnrSmsk = 0 ∧
      idxsDiffer P s.mem node = true) (hnone : ∀ p, p < 3 → ¬ SeenValid P s node p)
    {q e : Nat} (hq : q < 3) (hpend : isPending P s.mem node q = true)
    (hlast : ∀ p, p < q → isPending P s.mem node p = false) (he : e < 3)
    (hex : P.hasQueue s.mem node e = true)
    (hlow : ∀ p, p < e → P.hasQueue s.mem node p = false) :
    findCmd P s node =
      if s.clk (readings P s.mem node q + 1) < headTime P s.mem node q then
        .idle (atService P s node q)
      else .command (readElem P s.mem node q) e (atService P s node q) := by
  have hexq := hasQueue_of_pending hpend
  have hscan : scanQueues P (s.paint P node).mem node scanPrios { rdPrio := 0, cmd := none } s.clk = _ :=
    scanQueues_miss scanPrios_desc
    (fun p hp => hl.late_paint (mem_scanPrios.mp hp) (hnone p (mem_scanPrios.mp hp)))
  have hcmd : (missVars P (s.paint P node).mem node scanPrios { rdPrio := 0, cmd := none }).cmd = _ :=
    missVars_cmd (by rw [hl.pending_paint]; exact hpend) scanPrios_desc
    (mem_scanPrios.mpr hq) (fun p _ hlt => by rw [hl.pending_paint]; exact hlast p hlt)
  have hrd : (missVars P (s.paint P node).mem node scanPrios { rdPrio := 0, cmd := none }).rdPrio = _ :=
    missVars_rdPrio (by rw [hasQueue_paint]; exact hex) scanPrios_desc
    (mem_scanPrios.mpr he) (fun p _ hlt => by rw [hasQueue_paint]; exact hlow p hlt)
  rw [hl.readElem_paint hq hexq] at hcmd
  have hcount : scanPrios.countP (isPending P (s.paint P node).mem node) =
      readings P s.mem node q + 1 := by
    rw [← readings_last hq hpend hlast]
    exact congrArg (fun f => List.countP f scanPrios) (funext fun p => hl.pending_paint)
  have htime := hl.headTime_paint hq hexq
  rw [headTime, hl.readElem_paint hq hexq] at htime
  rw [hcount] at hscan
  rw [hl.findCmd_scan hgate hscan, hcmd, hrd]
  simp only [htime, Nat.zero_add, atService, show ∀ n, n + 1 + (readings P s.mem node q + 1) =
    n + (readings P s.mem node q + 2) by intro n; omega]

omit hl in
theorem exists_highest {p : Nat → Prop} (h : ∃ q, q < 3 ∧ p q) :
    ∃ q, q < 3 ∧ p q ∧ ∀ r, q < r → r < 3 → ¬ p r := by
  obtain ⟨k, hk, hpk⟩ := h
  by_cases h2 : p 2
  · exact ⟨2, by decide, h2, fun r hr hr3 => by omega⟩
  · by_cases h1 : p 1
    · refine ⟨1, by decide, h1, fun r hr hr3 => ?_⟩
      obtain rfl : r = 2 := by omega
      exact h2
    · obtain rfl | rfl | rfl : k = 0 ∨ k = 1 ∨ k = 2 := by omega
      · refine ⟨0, hk, hpk, fun r hr hr3 => ?_⟩
        obtain rfl | rfl : r = 1 ∨ r = 2 := by omega
        · exact h1
        · exact h2
      · exact absurd hpk h1
      · exact absurd hpk h2

omit hl in
theorem exists_lowest {p : Nat → Prop} (h : ∃ q, q < 3 ∧ p q) :
    ∃ q, q < 3 ∧ p q ∧ ∀ r, r < q → ¬ p r := by
  classical
  exact ⟨Nat.find h, (Nat.find_spec h).1, (Nat.find_spec h).2, fun r hr hpr =>
    Nat.find_min h hr ⟨Nat.lt_trans hr (Nat.find_spec h).1, hpr⟩⟩

omit hl in
theorem Chosen.unique {q q' : Nat} (h : Chosen P s node q) (h' : Chosen P s node q') : q = q' := by
  rcases Nat.lt_trichotomy q q' with hlt | heq | hgt
  · exact absurd h'.found (h.highest q' hlt h'.lt)
  · exact heq
  · exact absurd h.found (h'.highest q hgt h.lt)

omit hl in
theorem chosen_of_seen {q : Nat} (hq : q < 3) (hseen : SeenValid P s node q)
    (hhigh : ∀ p, q < p → p < 3 → ¬ SeenValid P s node p) : Chosen P s node q where
  lt := hq
  found := Or.inl hseen
  highest p hqp hp hfound := by
    rcases hfound with hs | ⟨-, hlast, -⟩
    · exact hhigh p hqp hp hs
    · exact absurd hseen.1 (by rw [hlast q hqp]; decide)

omit hl in
/-- Where the loop finds nothing, the last queue pending is the only one left to be
valid. -/
theorem chosen_iff_of_miss {q p : Nat} (hq : q < 3) (hnone : ∀ p, p < 3 → ¬ SeenValid P s node p)
    (hpend : isPending P s.mem node q = true)
    (hlast : ∀ p, p < q → isPending P s.mem node p = false) :
    Chosen P s node p ↔
      p = q ∧ headTime P s.mem node q ≤ s.clk (readings P s.mem node q + 1) := by
  constructor
  · intro h
    rcases h.found with hs | ⟨hpp, hpl, hle⟩
    · exact absurd hs (hnone p h.lt)
    · rcases Nat.lt_trichotomy p q with hlt | rfl | hgt
      · rw [hlast p hlt] at hpp
        exact absurd hpp (by decide)
      · exact ⟨rfl, hle⟩
      · rw [hpl q hgt] at hpend
        exact absurd hpend (by decide)
  · rintro ⟨rfl, hle⟩
    refine ⟨hq, Or.inr ⟨hpend, hlast, hle⟩, ?_⟩
    rintro r hpr hr (hs | ⟨-, hrl, -⟩)
    · exact hnone r hr hs
    · rw [hrl p hpr] at hpend
      exact absurd hpend (by decide)

theorem BlockLayout.queuesSame_paint {m' : Mem} (h : m' = (s.paint P node).mem) :
    QueuesSame P s.mem m' node := by
  subst h
  refine ⟨fun q _ => hl.rdIdx_paint q, fun q _ => by rw [wrIdx, wrIdx, hl.ld_wrIdxs_paint], ?_⟩
  intro q hq hex i hi k hk
  refine hl.ld_paint ?_
  rw [hl.adr_slot hq hex hi hk]
  exact hl.buf_ne_node hq hex (by omega) (by omega) (by decide)

theorem BlockLayout.not_queuesSame {q e : Nat} {thrData r : Word} {s' : Cpu} (hq : q < 3)
    (he : e < 3) (hex : P.hasQueue s.mem node q = true)
    (h : Serves P (atService P s node q) node thrData (readElem P s.mem node q) e r s') :
    ¬ QueuesSame P s.mem s'.mem node := by
  intro hsame
  have hact : P.ld (atService P s node q).mem (readElem P s.mem node q + tCmdAct) =
      headAct P s.mem node q := hl.headAct_paint hq hex
  simp only [Serves, hact] at h
  by_cases h0 : actQty (headAct P s.mem node q) = 0
  · rw [if_pos h0] at h
    have hrd := h.2.rd_eq e he
    have hlt : rdIdx P s.mem node e < 8 := rdIdx_lt _ e
    rw [if_pos rfl, hsame.rd_eq e he, show rdIdx P (atService P s node q).mem node e =
      rdIdx P s.mem node e from hl.rdIdx_paint e] at hrd
    omega
  · rw [if_neg h0] at h
    obtain ⟨atype, -, -, hbook⟩ := h
    have helem := hsame.elem_eq q hq hex _
      (ringSlot_lt (idxByte (P.ld s.mem (node + blockCmdqRdIdxs)) q)) 2 (by decide)
    rw [← readElem_eq, show BitVec.ofNat 32 (4 * 2) = tCmdAct from rfl, hbook.act_eq] at helem
    exact withQty_pred_ne h0 helem

theorem BlockLayout.findCmd_of_not_slip (hslip : ¬ ScanSlip P s node) :
    (∃ s', findCmd P s node = .idle s' ∧ s'.mem = (s.paint P node).mem) ∨
      ∃ q e, findCmd P s node = .command (readElem P s.mem node q) e (atService P s node q) ∧
        Chosen P s node q ∧ isPending P s.mem node q = true ∧ e < 3 ∧
        (e = q ∨ 2 ≤ (actQty (headAct P s.mem node q)).toNat) ∧
        (actQty (headAct P s.mem node q) ≠ 0 →
          ActType.ofNum? (actType (headAct P s.mem node q)) ≠ none) := by
  by_cases hgate : P.ld s.mem (node + blockCmdqFlags) &&& blockCmdqDnrSmsk = 0 ∧
      idxsDiffer P s.mem node = true
  swap
  · exact Or.inl ⟨_, hl.findCmd_idle hgate, rfl⟩
  by_cases hany : ∃ q, q < 3 ∧ isPending P s.mem node q = true
  swap
  · refine absurd ⟨hgate.1, hgate.2, Or.inl fun q hq => ?_⟩ hslip
    exact Bool.eq_false_iff.mpr fun h => hany ⟨q, hq, h⟩
  by_cases hseen : ∃ q, q < 3 ∧ SeenValid P s node q
  · obtain ⟨q, hq, hsq, hhigh⟩ := exists_highest hseen
    have hch := chosen_of_seen hq hsq hhigh
    have hfind := hl.findCmd_hit hgate hq hsq hhigh
    split at hfind
    · exact Or.inl ⟨_, hfind, rfl⟩
    · refine Or.inr ⟨q, q, hfind, hch, hsq.1, hq, Or.inl rfl, fun hqty htype => ?_⟩
      exact hslip ⟨hgate.1, hgate.2, Or.inr ⟨q, hch, Or.inr ⟨hqty, htype⟩⟩⟩
  · have hnone : ∀ p, p < 3 → ¬ SeenValid P s node p := fun p hp hs => hseen ⟨p, hp, hs⟩
    obtain ⟨q, hq, hpend, hlow⟩ := exists_lowest hany
    have hlast : ∀ p, p < q → isPending P s.mem node p = false :=
      fun p hp => Bool.eq_false_iff.mpr (hlow p hp)
    obtain ⟨e, he, hex, hlowe⟩ := exists_lowest (p := fun e => P.hasQueue s.mem node e = true)
      ⟨q, hq, hasQueue_of_pending hpend⟩
    have hfind := hl.findCmd_miss hgate hnone hq hpend hlast he hex
      fun p hp => Bool.eq_false_iff.mpr (hlowe p hp)
    split at hfind
    · exact Or.inl ⟨_, hfind, rfl⟩
    · rename_i hlate
      have hch := (chosen_iff_of_miss hq hnone hpend hlast).mpr ⟨rfl, BitVec.not_lt.mp hlate⟩
      refine Or.inr ⟨q, e, hfind, hch, hpend, he, ?_, fun hqty htype => ?_⟩
      · by_contra hne
        have hle : e ≤ q := by
          by_contra hgt
          exact hlowe q (by omega) (hasQueue_of_pending hpend)
        refine hslip ⟨hgate.1, hgate.2, Or.inr ⟨q, hch, Or.inl ⟨hnone q hq, ⟨e, ?_, hex⟩, ?_⟩⟩⟩ <;>
          omega
      · exact hslip ⟨hgate.1, hgate.2, Or.inr ⟨q, hch, Or.inr ⟨hqty, htype⟩⟩⟩

/-- The chosen command is served as it should be. -/
theorem BlockLayout.serves_of_serveCmd {q e : Nat} {thrData r : Word} {s' : Cpu}
    (hq : q < 3) (hpend : isPending P s.mem node q = true)
    (h : serveCmd P (atService P s node q) node thrData (readElem P s.mem node q) e
      (P.defDest s.mem node) = some (r, s')) :
    Serves P (atService P s node q) node thrData (readElem P s.mem node q) e r s' := by
  have hex := hasQueue_of_pending hpend
  have hdest : P.defDest (atService P s node q).mem node = P.defDest s.mem node := hl.defDest_paint
  refine serveCmd_serves ?_ (hdest.symm ▸ h)
  rw [hl.adr_rdIdxs]
  exact hl.adr_headAct_ne hq hex (by decide)

theorem BlockLayout.block_of_not_slip (thrData : Word) (hslip : ¬ ScanSlip P s node) :
    ∃ r s', block P s node thrData = some (r, s') ∧
      ((∃ s₁, findCmd P s node = .idle s₁ ∧ s'.mem = (s.paint P node).mem) ∨
        ∃ q e, findCmd P s node = .command (readElem P s.mem node q) e (atService P s node q) ∧
          Chosen P s node q ∧ isPending P s.mem node q = true ∧
          Serves P (atService P s node q) node thrData (readElem P s.mem node q) q r s') := by
  rw [block_eq]
  rcases hl.findCmd_of_not_slip hslip with ⟨s', hfind, hmem⟩ |
    ⟨q, e, hfind, hch, hpend, -, hpop, htype⟩
  · exact ⟨_, s', by rw [hfind], Or.inl ⟨s', hfind, hmem⟩⟩
  · have hact : P.ld (atService P s node q).mem (readElem P s.mem node q + tCmdAct) =
        headAct P s.mem node q := hl.headAct_paint hch.lt (hasQueue_of_pending hpend)
    cases hserve : serveCmd P (atService P s node q) node thrData (readElem P s.mem node q) e
        (P.defDest s.mem node) with
    | none =>
        obtain ⟨hqty, hnone⟩ := serveCmd_eq_none.mp hserve
        rw [hact] at hqty hnone
        exact absurd hnone (htype hqty)
    | some out =>
        have hserves := hl.serves_of_serveCmd hch.lt hpend hserve
        refine ⟨out.1, out.2, by rw [hfind]; exact hserve, Or.inr ⟨q, e, hfind, hch, hpend, ?_⟩⟩
        rcases hpop with rfl | htwo
        · exact hserves
        · exact hserves.of_two_le (by rwa [hact])

/-- A chosen command that is served with another queue's index, or has no handler. -/
theorem BlockLayout.not_popsOne_serveCmd {q e : Nat} (thrData : Word) (he : e < 3)
    (hch : Chosen P s node q) (hpend : isPending P s.mem node q = true)
    (hbad : (e ≠ q ∧ (actQty (headAct P s.mem node q)).toNat ≤ 1) ∨
      (actQty (headAct P s.mem node q) ≠ 0 ∧
        ActType.ofNum? (actType (headAct P s.mem node q)) = none)) :
    ¬ PopsOne P s node thrData (serveCmd P (atService P s node q) node thrData
      (readElem P s.mem node q) e (P.defDest s.mem node)) := by
  have hex := hasQueue_of_pending hpend
  have hact : P.ld (atService P s node q).mem (readElem P s.mem node q + tCmdAct) =
      headAct P s.mem node q := hl.headAct_paint hch.lt hex
  cases hserve : serveCmd P (atService P s node q) node thrData (readElem P s.mem node q) e
      (P.defDest s.mem node) with
  | none => exact fun h => h
  | some out =>
      have hserves := hl.serves_of_serveCmd hch.lt hpend hserve
      rcases hbad with ⟨hne, hqty⟩ | hnone
      · rintro (hsame | ⟨p, hp, hps⟩)
        · exact hl.not_queuesSame hch.lt he hex hserves hsame
        · obtain rfl := hp.unique hch
          exact hne (hserves.queue_unique hch.lt hps (by rwa [hact]))
      · rw [← hact] at hnone
        rw [serveCmd_eq_none.mpr hnone] at hserve
        exact absurd hserve (by simp)

theorem BlockLayout.not_pops_of_slip (thrData : Word) (hmono : ∀ i j, i ≤ j → s.clk i ≤ s.clk j)
    (hslip : ScanSlip P s node) : ¬ PopsExecuted P s node thrData := by
  obtain ⟨hdnr, hdiff, hnone | ⟨q, hch, hbad⟩⟩ := hslip
  · rw [PopsExecuted, block_eq, hl.findCmd_unset ⟨hdnr, hdiff⟩ hnone]
    exact fun h => h
  · by_cases hsq : SeenValid P s node q
    · have hfind := hl.findCmd_hit ⟨hdnr, hdiff⟩ hch.lt hsq
        fun p hqp hp hs => hch.highest p hqp hp (Or.inl hs)
      rw [if_neg (BitVec.not_lt.mpr (BitVec.le_trans hsq.2 (hmono _ _ (by omega))))] at hfind
      rw [PopsExecuted, block_eq, hfind]
      refine hl.not_popsOne_serveCmd thrData hch.lt hch hsq.1 (Or.inr ?_)
      rcases hbad with ⟨hns, -⟩ | htype
      · exact absurd hsq hns
      · exact htype
    · obtain ⟨hpend, hlast, hvalid⟩ := hch.found.resolve_left hsq
      have hnone : ∀ p, p < 3 → ¬ SeenValid P s node p := by
        intro p hp hs
        rcases Nat.lt_trichotomy p q with hlt | rfl | hgt
        · exact absurd hs.1 (by rw [hlast p hlt]; decide)
        · exact hsq hs
        · exact hch.highest p hgt hp (Or.inl hs)
      obtain ⟨e, he, hex, hlowe⟩ := exists_lowest (p := fun e => P.hasQueue s.mem node e = true)
        ⟨q, hch.lt, hasQueue_of_pending hpend⟩
      have hfind := hl.findCmd_miss ⟨hdnr, hdiff⟩ hnone hch.lt hpend hlast he hex
        fun p hp => Bool.eq_false_iff.mpr (hlowe p hp)
      rw [if_neg (BitVec.not_lt.mpr hvalid)] at hfind
      rw [PopsExecuted, block_eq, hfind]
      refine hl.not_popsOne_serveCmd thrData he hch hpend ?_
      rcases hbad with ⟨-, ⟨p, hpq, hexp⟩, hqty⟩ | htype
      · refine Or.inl ⟨?_, hqty⟩
        rintro rfl
        exact hlowe p hpq hexp
      · exact Or.inr htype

/-- **The command popped is the command executed**, for every block and every
sequence of clock readings that does not decrease, unless the scan slips. -/
theorem block_pops_executed_iff (thrData : Word) (hmono : ∀ i j, i ≤ j → s.clk i ≤ s.clk j) :
    PopsExecuted P s node thrData ↔ ¬ ScanSlip P s node := by
  constructor
  · intro hpops hslip
    exact hl.not_pops_of_slip thrData hmono hslip hpops
  · intro hslip
    obtain ⟨r, s', hblock, ⟨-, -, hmem⟩ | ⟨q, -, -, hch, -, hserves⟩⟩ :=
      hl.block_of_not_slip thrData hslip
    · rw [PopsExecuted, hblock]
      exact Or.inl (hl.queuesSame_paint hmem)
    · rw [PopsExecuted, hblock]
      exact Or.inr ⟨q, hch, hserves⟩

end Block

/-! ### A block that pops the wrong queue -/

def sampleBlock : Word := 0x10001000

/-- Element 0 of the queue for interlocks of `sampleBlock`. -/
def sampleElem : Word := 0x10001300

/-- A block with queues for interlocks and for low priority. A noop that becomes valid
at time 10 is pending in the first, the second is empty. -/
def sampleBlockMem : Mem :=
  storeAll samplePlatform (fun _ => 0)
    [(sampleBlock + nodeFlags, 0x500007),
      (sampleBlock + blockCmdqPtrs, 0x10001100), (0x10001100, 0x10001200), (0x10001104, 0x10001234),
      (sampleBlock + (blockCmdqPtrs + 8), 0x10001180), (0x10001180, sampleElem),
      (0x10001184, 0x10001334), (sampleBlock + blockCmdqWrIdxs, 0x010000),
      (sampleElem + tCmdTime + 4, 10), (sampleElem + tCmdAct, 0x02100001)]

/-- The clock strikes ten between the first reading and the second. -/
def sampleBlockCpu : Cpu :=
  { sampleCpu 10 with mem := sampleBlockMem, clk := fun n => if n = 0 then 9 else 10 }

theorem sampleBlock_clk (i j : Nat) (h : i ≤ j) : sampleBlockCpu.clk i ≤ sampleBlockCpu.clk j := by
  rcases Nat.eq_zero_or_pos i with rfl | hi
  · rcases Nat.eq_zero_or_pos j with rfl | hj
    · exact BitVec.le_refl _
    · simp only [sampleBlockCpu, if_pos, if_neg (Nat.ne_of_gt hj)]
      decide
  · simp only [sampleBlockCpu, if_neg (Nat.ne_of_gt hi), if_neg (Nat.ne_of_gt (Nat.lt_of_lt_of_le hi h))]
    exact BitVec.le_refl _

/-- Queues at the addresses of those of `sampleBlock` lie apart. -/
theorem sampleLayout {m : Mem}
    (hlist : ∀ q, q < 3 → samplePlatform.hasQueue m sampleBlock q = true → ∀ k, k < 2 →
      samplePlatform.adr (queueList samplePlatform m sampleBlock q + BitVec.ofNat 32 (k * 4)) =
        0x20000440 + 16 * q + k)
    (hbuf : ∀ q, q < 3 → samplePlatform.hasQueue m sampleBlock q = true → ∀ j, j < 2 → ∀ k, k < 10 →
      samplePlatform.adr (m (0x20000440 + 16 * q + j) + BitVec.ofNat 32 (4 * k)) =
        0x20000480 + 32 * q + 13 * j + k) :
    BlockLayout samplePlatform m sampleBlock 0x20000400
      (fun q => 0x20000440 + 16 * q) (fun q j => 0x20000480 + 32 * q + 13 * j) where
  node_adr := by decide +kernel
  list_adr := hlist
  buf_adr := hbuf
  node_ctl := Or.inr (by decide)
  node_list q hq _ := by simp only [Apart]; omega
  list_ctl q hq _ := by
    rw [Apart, show samplePlatform.ctl 0 = 0x20000140 from rfl]
    omega
  node_buf q hq _ j hj := by simp only [Apart]; omega
  buf_ctl q hq _ j hj := by
    rw [Apart, show samplePlatform.ctl 0 = 0x20000140 from rfl]
    omega
  list_buf q hq _ r hr _ j hj := by simp only [Apart]; omega
  buf_buf q hq _ r hr _ i hi j hj hne := by
    simp only [Apart]
    rcases Nat.lt_trichotomy q r with hlt | rfl | hgt <;> omega

theorem sampleBlock_layout :
    BlockLayout samplePlatform sampleBlockCpu.mem sampleBlock 0x20000400
      (fun q => 0x20000440 + 16 * q) (fun q j => 0x20000480 + 32 * q + 13 * j) :=
  sampleLayout (by decide +kernel) (by decide +kernel)

/-- The equivalence at `sampleBlock`. -/
theorem block_pops_executed_sample :
    PopsExecuted samplePlatform sampleBlockCpu sampleBlock (thrPtr 0) ↔
      ¬ ScanSlip samplePlatform sampleBlockCpu sampleBlock :=
  block_pops_executed_iff sampleBlock_layout (thrPtr 0) sampleBlock_clk

/-- The interlock command is executed and the empty low priority queue is popped: its
read index overtakes its write index. -/
theorem block_pops_other_queue :
    (∀ i j, i ≤ j → sampleBlockCpu.clk i ≤ sampleBlockCpu.clk j) ∧
      ¬ PopsExecuted samplePlatform sampleBlockCpu sampleBlock (thrPtr 0) := by
  refine ⟨sampleBlock_clk, ?_⟩
  have hseen : ∀ p, p < 3 → ¬ SeenValid samplePlatform sampleBlockCpu sampleBlock p := by
    unfold SeenValid
    decide +kernel
  have hpend : isPending samplePlatform sampleBlockCpu.mem sampleBlock 2 = true := by decide +kernel
  have hlast : ∀ p, p < 2 → isPending samplePlatform sampleBlockCpu.mem sampleBlock p = false := by
    decide +kernel
  have hvalid : headTime samplePlatform sampleBlockCpu.mem sampleBlock 2 ≤
      sampleBlockCpu.clk (readings samplePlatform sampleBlockCpu.mem sampleBlock 2 + 1) := by
    decide +kernel
  have hch := (chosen_iff_of_miss (by decide) hseen hpend hlast).mpr ⟨rfl, hvalid⟩
  refine sampleBlock_layout.not_pops_of_slip (thrPtr 0) sampleBlock_clk ⟨by decide +kernel,
    by decide +kernel, Or.inr ⟨2, hch, Or.inl ⟨hseen 2 (by decide), ⟨0, by decide, ?_⟩, ?_⟩⟩⟩ <;>
    decide +kernel

end DataMaster
