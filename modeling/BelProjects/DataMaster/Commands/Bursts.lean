import BelProjects.DataMaster.Alloc.Table
import BelProjects.DataMaster.Alloc.Sequences
import BelProjects.DataMaster.Commands.Send

/-!
# Several commands in one write

For every command of a burst the host computes the element's address and the new write
indices from its copy of the block, and stores the new indices in the copy at once, so that
the next command goes on from there.  All writes are collected and sent together.
-/

namespace DataMaster

open BigEndian

/-! ### The host's copy -/

namespace AllocMeta

def wrIdxs (x : AllocMeta) : Word := read32 x.b.toList blockCmdqWrIdxs.toNat

def rdIdxs (x : AllocMeta) : Word := read32 x.b.toList blockCmdqRdIdxs.toNat

/-- The number of commands in queue `q`. -/
def pending (x : AllocMeta) (q : Nat) : Nat :=
  ((eIdx x.wrIdxs q).toNat + 8 - (eIdx x.rdIdxs q).toNat) % 8

/-- `writeLeNumberToBeBytes(b[BLOCK_CMDQ_WR_IDXS], newIdxs)`. -/
def setWrIdxs (x : AllocMeta) (newIdxs : Word) : AllocMeta :=
  { x with
    b := x.b.copyTo blockCmdqWrIdxs.toNat (be32 newIdxs) (by rw [length_be32]; decide) }

end AllocMeta

namespace AllocTable

/-- What `getCmdInc` stores in the copy of the block. -/
def storeWrIdxs (t : AllocTable) (hash newIdxs : Word) : AllocTable :=
  { t with
    a := t.a.modify (fun e => if e.hash = hash then e.setWrIdxs newIdxs else e) (by
      intro x y h
      split at h <;> split at h <;> exact h) }

/-- Where the element in slot `i` of queue `q` starts, as the host finds it through the
block's buffer list. -/
def slotStart (t : AllocTable) (x : AllocMeta) (q i : Nat) : Option Word :=
  match (t.adrConv .INT .MGMT x.cpu (read32 x.b.toList (blockCmdqPtrs.toNat + q * 4))).bind
      (t.lookupAdr x.cpu) with
  | none => none
  | some pmBl =>
    let bufIdx := i / (memBlockSize / tCmdSize)
    let elemIdx := i % (memBlockSize / tCmdSize)
    match t.adrConv .INT .EXT pmBl.cpu (read32 pmBl.b.toList (bufIdx * 4)) with
    | some bufAdr => some (bufAdr + BitVec.ofNat 32 (elemIdx * tCmdSize))
    | none => none

end AllocTable

/-! ### A burst -/

/-- What is collected for one write: the host's copy, addresses and data. -/
structure Burst where
  atDown : AllocTable
  va : List Word
  vb : List Octet

/-- A call of `createMiniCommand`; `buf` is the buffer it serialises to, which is not
initialised. -/
structure MiniCall where
  prio : Nat
  mc : MiniCommand
  buf : List Octet
  length_buf : buf.length = tCmdSize + 4

/-- What a call has added: the addresses and the bytes of its element and index word. -/
structure Added where
  prio : Nat
  mc : MiniCommand
  va : List Word
  vb : List Octet

/-- What `createMiniCommand` depends on besides its copy of the block. -/
structure MiniTarget where
  /-- Of the block. -/
  hash : Word
  /-- Whether a command of this priority would preempt a covenant for the block. -/
  covenant : AllocTable → Nat → Bool
  /-- The addresses and data of `createCmdModInfo`. -/
  modInfo : MiniCommand → List Word × List Octet

/-- `createMiniCommand`, into the burst `st`. Where it throws, nothing is returned, and the
burst is left as it is at that point. -/
def MiniTarget.createMiniCommand (e : MiniTarget) (st : Burst) (c : MiniCall) :
    Burst × Option Added :=
  if e.covenant st.atDown c.prio then (st, none)
  else
    match st.atDown.getCmdWrAdrs e.hash c.prio with
    | none => (st, none)
    | some tmp =>
      match st.atDown.getCmdInc e.hash c.prio with
      | none => ({ st with va := st.va ++ tmp }, none)
      | some cmdWrInc =>
        let b := c.mc.bytes c.buf cmdWrInc
        ({ atDown := st.atDown.storeWrIdxs e.hash cmdWrInc
           va := st.va ++ tmp ++ (e.modInfo c.mc).1
           vb := st.vb ++ b ++ (e.modInfo c.mc).2 },
          some ⟨c.prio, c.mc, tmp, b⟩)

/-- One call after the other; a call that throws leaves the rest to the next ones. -/
def MiniTarget.createAll (e : MiniTarget) (st : Burst) : List MiniCall → Burst × List Added
  | [] => (st, [])
  | c :: cs =>
    let r := e.createMiniCommand st c
    let rest := e.createAll r.1 cs
    (rest.1, r.2.toList ++ rest.2)

/-! ### The copy after a call -/

section Copy

variable {x : AllocMeta} {newIdxs : Word}

theorem AllocMeta.read32_setWrIdxs {off : Nat} (h : off + 4 ≤ 24 ∨ 28 ≤ off) :
    read32 (x.setWrIdxs newIdxs).b.toList off = read32 x.b.toList off :=
  read32_copyTo_other (by rw [Vector.length_toList, length_be32]; decide) h

@[simp] theorem AllocMeta.wrIdxs_setWrIdxs : (x.setWrIdxs newIdxs).wrIdxs = newIdxs :=
  read32_copyTo_same (by rw [Vector.length_toList]; decide)

@[simp] theorem AllocMeta.rdIdxs_setWrIdxs : (x.setWrIdxs newIdxs).rdIdxs = x.rdIdxs :=
  AllocMeta.read32_setWrIdxs (Or.inr (Nat.le_refl 28))

@[simp] theorem AllocMeta.cpu_setWrIdxs : (x.setWrIdxs newIdxs).cpu = x.cpu := rfl

variable {t : AllocTable} {hash : Word}

theorem AllocTable.lookupHash_storeWrIdxs (hx : t.lookupHash hash = some x) :
    (t.storeWrIdxs hash newIdxs).lookupHash hash = some (x.setWrIdxs newIdxs) := by
  have hhash : x.hash = hash := (AllocTable.lookupHash_eq.1 hx).2
  unfold AllocTable.lookupHash storeWrIdxs
  rw [UniqueSet.find?_modify, ← AllocTable.lookupHash, hx, Option.map_some, if_pos hhash]
  intro y
  split <;> rfl

theorem AllocTable.lookupAdr_storeWrIdxs (cpu : CpuIdx) (adr : Word) :
    (t.storeWrIdxs hash newIdxs).lookupAdr cpu adr =
      (t.lookupAdr cpu adr).map fun e => if e.hash = hash then e.setWrIdxs newIdxs else e := by
  unfold AllocTable.lookupAdr storeWrIdxs
  rw [UniqueSet.find?_modify]
  intro y
  split <;> rfl

theorem AllocTable.adrConv_storeWrIdxs (src dst : AdrType) (cpu : CpuIdx) (adr : Word) :
    (t.storeWrIdxs hash newIdxs).adrConv src dst cpu adr = t.adrConv src dst cpu adr := rfl

theorem AllocTable.slotStart_storeWrIdxs {q i : Nat} (hq : q < 3) (hi : i < 4) :
    (t.storeWrIdxs hash newIdxs).slotStart (x.setWrIdxs newIdxs) q i = t.slotStart x q i := by
  have hlist : read32 (x.setWrIdxs newIdxs).b.toList (blockCmdqPtrs.toNat + q * 4) =
      read32 x.b.toList (blockCmdqPtrs.toNat + q * 4) := by
    apply AllocMeta.read32_setWrIdxs
    rw [show blockCmdqPtrs.toNat = 12 from rfl]
    omega
  unfold AllocTable.slotStart
  rw [hlist, AllocTable.adrConv_storeWrIdxs, AllocMeta.cpu_setWrIdxs]
  cases t.adrConv .INT .MGMT x.cpu (read32 x.b.toList (blockCmdqPtrs.toNat + q * 4)) with
  | none => rfl
  | some adr =>
    rw [Option.bind_some, Option.bind_some, AllocTable.lookupAdr_storeWrIdxs]
    cases t.lookupAdr x.cpu adr with
    | none => rfl
    | some pmBl =>
      have hbuf : ∀ off, off + 4 ≤ 24 →
          read32 (if pmBl.hash = hash then pmBl.setWrIdxs newIdxs else pmBl).b.toList off =
            read32 pmBl.b.toList off := by
        intro off hoff
        split
        · exact AllocMeta.read32_setWrIdxs (Or.inl hoff)
        · rfl
      have hcpu : (if pmBl.hash = hash then pmBl.setWrIdxs newIdxs else pmBl).cpu = pmBl.cpu := by
        split <;> rfl
      rw [Option.map_some]
      dsimp only
      rw [hbuf _ (by rw [show memBlockSize / tCmdSize = 2 from rfl]; omega), hcpu,
        AllocTable.adrConv_storeWrIdxs]

end Copy

/-! ### Index bytes -/

theorem eIdx_lt (w : Word) (q : Nat) : (eIdx w q).toNat < 8 := by
  rw [(eIdx_eq w q).1]
  exact Nat.mod_lt _ (by decide)

theorem idxByte_advanced (w : Word) {p q : Nat} (hq : q < 4) :
    (idxByte (setIdxByte w p ((eIdx w p + 1) &&& qIdxMaxOvfMsk)) q).toNat =
      if q = p then ((idxByte w q).toNat + 1) % 8 else (idxByte w q).toNat := by
  rw [idxByte_setIdxByte w hq]
  by_cases hqp : q = p
  · subst hqp
    rw [if_pos rfl, if_pos rfl, toNat_and_ovf, BitVec.toNat_add, (eIdx_eq w q).1]
    change (_ % 8 + 1) % 256 % 8 = _
    omega
  · rw [if_neg hqp, if_neg hqp]

theorem full_iff {x : AllocMeta} {q : Nat} :
    (eIdx x.wrIdxs q &&& qIdxMaxMsk = eIdx x.rdIdxs q &&& qIdxMaxMsk ∧
      eIdx x.wrIdxs q ≠ eIdx x.rdIdxs q) ↔ x.pending q = 4 := by
  have hwr := eIdx_lt x.wrIdxs q
  have hrd := eIdx_lt x.rdIdxs q
  have hmask : ∀ b : BitVec 8, (b &&& qIdxMaxMsk).toNat = b.toNat % 4 := by
    intro b
    rw [BitVec.toNat_and, show qIdxMaxMsk.toNat = 2 ^ 2 - 1 from rfl, Nat.and_two_pow_sub_one_eq_mod]
  rw [Ne, ← BitVec.toNat_inj, ← BitVec.toNat_inj, hmask, hmask]
  unfold AllocMeta.pending
  omega

/-! ### One call -/

/-- `getCmdWrAdrs` in terms of the slots. -/
theorem AllocTable.getCmdWrAdrs_slot {t : AllocTable} {hash : Word} {x : AllocMeta}
    (hx : t.lookupHash hash = some x) (q : Nat) :
    t.getCmdWrAdrs hash q =
      if read32 x.b.toList (blockCmdqPtrs.toNat + q * 4) = lm32NullPtr then none
      else if eIdx x.wrIdxs q &&& qIdxMaxMsk = eIdx x.rdIdxs q &&& qIdxMaxMsk ∧
          eIdx x.wrIdxs q ≠ eIdx x.rdIdxs q then none
      else
        (t.slotStart x q (eIdx x.wrIdxs q &&& qIdxMaxMsk).toNat).bind fun startAdr =>
          (t.adrConv .MGMT .EXT x.cpu x.adr).map fun adr =>
            elemAdrs startAdr ++ [adr + blockCmdqWrIdxs] := by
  unfold AllocTable.getCmdWrAdrs slotStart AllocMeta.wrIdxs AllocMeta.rdIdxs
  rw [hx]
  dsimp only
  refine if_congr Iff.rfl rfl (if_congr Iff.rfl rfl ?_)
  generalize (t.adrConv .INT .MGMT x.cpu
    (read32 x.b.toList (blockCmdqPtrs.toNat + q * 4))).bind (t.lookupAdr x.cpu) = list
  rcases list with _ | pmBl
  · rfl
  · dsimp only
    generalize t.adrConv .INT .EXT pmBl.cpu _ = bufAdr
    generalize t.adrConv .MGMT .EXT x.cpu x.adr = adr
    rcases bufAdr with _ | bufAdr
    · rfl
    · rcases adr with _ | adr
      · rfl
      · rfl

/-- The burst and the log after a call that adds its command. -/
def MiniTarget.extend (e : MiniTarget) (st : Burst) (c : MiniCall) (x : AllocMeta) (va : List Word) :
    Burst × Option Added :=
  let cmdWrInc := setIdxByte x.wrIdxs c.prio ((eIdx x.wrIdxs c.prio + 1) &&& qIdxMaxOvfMsk)
  let b := c.mc.bytes c.buf cmdWrInc
  ({ atDown := st.atDown.storeWrIdxs e.hash cmdWrInc
     va := st.va ++ va ++ (e.modInfo c.mc).1
     vb := st.vb ++ b ++ (e.modInfo c.mc).2 },
    some ⟨c.prio, c.mc, va, b⟩)

section Call

variable {e : MiniTarget} {st : Burst} {x : AllocMeta}
  (hx : st.atDown.lookupHash e.hash = some x)
include hx

theorem getCmdInc_eq (q : Nat) : st.atDown.getCmdInc e.hash q =
    some (setIdxByte x.wrIdxs q ((eIdx x.wrIdxs q + 1) &&& qIdxMaxOvfMsk)) := by
  unfold AllocTable.getCmdInc
  rw [hx]
  rfl

/-- **What one call does**: it changes nothing, or its queue has room and it adds an element
in the slot of the write index and the next write index. -/
theorem createMiniCommand_cases (c : MiniCall) :
    e.createMiniCommand st c = (st, none) ∨
      ∃ startAdr adr, x.pending c.prio ≠ 4 ∧
        st.atDown.slotStart x c.prio (eIdx x.wrIdxs c.prio &&& qIdxMaxMsk).toNat = some startAdr ∧
        st.atDown.adrConv .MGMT .EXT x.cpu x.adr = some adr ∧
        e.createMiniCommand st c =
          e.extend st c x (AllocTable.elemAdrs startAdr ++ [adr + blockCmdqWrIdxs]) := by
  unfold MiniTarget.createMiniCommand
  rw [getCmdInc_eq hx, AllocTable.getCmdWrAdrs_slot hx]
  split
  · exact Or.inl rfl
  · split
    · exact Or.inl rfl
    next hadrs =>
      right
      split at hadrs
      · cases hadrs
      · split at hadrs
        · cases hadrs
        next hroom =>
          obtain ⟨startAdr, hstart, hmap⟩ := Option.bind_eq_some_iff.1 hadrs
          obtain ⟨adr, hadr, rfl⟩ := Option.map_eq_some_iff.1 hmap
          exact ⟨startAdr, adr, fun hfour => hroom (full_iff.2 hfour), hstart, hadr, rfl⟩

theorem createMiniCommand_full {c : MiniCall} (hfull : x.pending c.prio = 4) :
    e.createMiniCommand st c = (st, none) := by
  rcases createMiniCommand_cases hx c with h | ⟨_, _, hroom, -⟩
  · exact h
  · exact absurd hfull hroom

/-- A call that adds nothing changes nothing. -/
theorem createMiniCommand_refused {c : MiniCall} (h : (e.createMiniCommand st c).2 = none) :
    (e.createMiniCommand st c).1 = st := by
  rcases createMiniCommand_cases hx c with hsame | ⟨_, _, -, -, -, hext⟩
  · rw [hsame]
  · rw [hext] at h
    cases h

end Call

/-! ### A burst of calls -/

/-- How many commands for queue `q` a log has. -/
def addedTo (log : List Added) (q : Nat) : Nat := log.countP fun p => p.prio = q

/-- A burst that started at `st`, where the copy of the block was `x`, has come to `r`, where
it is `y`. -/
structure Respects (e : MiniTarget) (st : Burst) (x : AllocMeta) (r : Burst × List Added)
    (y : AllocMeta) : Prop where
  found : r.1.atDown.lookupHash e.hash = some y
  /-- No queue gets more than four pending commands. -/
  pending : ∀ q, q < 3 → x.pending q ≤ 4 → y.pending q ≤ 4
  /-- The `n`-th command that was added to a queue is in the `n`-th slot from its write index
  on. -/
  slots : ∀ q, q < 3 → ∀ n p, (r.2.filter fun p => p.prio = q)[n]? = some p →
    ∃ startAdr adr,
      st.atDown.slotStart x q (((idxByte x.wrIdxs q).toNat + n) % 4) = some startAdr ∧
      st.atDown.adrConv .MGMT .EXT x.cpu x.adr = some adr ∧
      p.va = AllocTable.elemAdrs startAdr ++ [adr + blockCmdqWrIdxs]
  /-- Every write index has advanced by the number of commands added to its queue. -/
  idxs : ∀ q, q < 4 → (idxByte y.wrIdxs q).toNat =
    if addedTo r.2 q = 0 then (idxByte x.wrIdxs q).toNat
    else ((idxByte x.wrIdxs q).toNat + addedTo r.2 q) % 8
  /-- The copy has the write indices that were sent last. -/
  last : y.wrIdxs = (r.2.getLast?.map fun p => read32 p.vb tCmdSize).getD x.wrIdxs
  rdIdxs : y.rdIdxs = x.rdIdxs
  /-- All that was added is in the write, in order. -/
  collected : r.1.va = st.va ++ (r.2.flatMap fun p => p.va ++ (e.modInfo p.mc).1) ∧
    r.1.vb = st.vb ++ (r.2.flatMap fun p => p.vb ++ (e.modInfo p.mc).2)

section Run

variable {e : MiniTarget} {st : Burst} {x : AllocMeta}

theorem Respects.nil (hx : st.atDown.lookupHash e.hash = some x) : Respects e st x (st, []) x where
  found := hx
  pending _ _ h := h
  slots q _ n p h := by
    rw [List.filter_nil] at h
    cases h
  idxs q _ := (if_pos rfl).symm
  last := rfl
  rdIdxs := rfl
  collected := ⟨(List.append_nil _).symm, (List.append_nil _).symm⟩

/-- The write indices that the host sends behind an element. -/
theorem read32_bytes (c : MiniCall) (cmdWrInc : Word) :
    read32 (c.mc.bytes c.buf cmdWrInc) tCmdSize = cmdWrInc := by
  apply read32_copyTo_same
  rw [length_serialise c.mc c.length_buf]
  decide

theorem Respects.cons {c : MiniCall} {startAdr adr : Word} {r : Burst × List Added}
    {y : AllocMeta} (hroom : x.pending c.prio ≠ 4)
    (hstart : st.atDown.slotStart x c.prio (eIdx x.wrIdxs c.prio &&& qIdxMaxMsk).toNat = some startAdr)
    (hadr : st.atDown.adrConv .MGMT .EXT x.cpu x.adr = some adr) {p : Added}
    (hp : (e.extend st c x (AllocTable.elemAdrs startAdr ++ [adr + blockCmdqWrIdxs])).2 = some p)
    (h : Respects e (e.extend st c x (AllocTable.elemAdrs startAdr ++ [adr + blockCmdqWrIdxs])).1
      (x.setWrIdxs (setIdxByte x.wrIdxs c.prio ((eIdx x.wrIdxs c.prio + 1) &&& qIdxMaxOvfMsk))) r y) :
    Respects e st x (r.1, p :: r.2) y := by
  cases hp
  have hbyte : ∀ q, q < 4 →
      (idxByte (setIdxByte x.wrIdxs c.prio ((eIdx x.wrIdxs c.prio + 1) &&& qIdxMaxOvfMsk)) q).toNat =
        if q = c.prio then ((idxByte x.wrIdxs q).toNat + 1) % 8 else (idxByte x.wrIdxs q).toNat :=
    fun q hq => idxByte_advanced x.wrIdxs hq
  have hslot : (eIdx x.wrIdxs c.prio &&& qIdxMaxMsk).toNat = (idxByte x.wrIdxs c.prio).toNat % 4 := by
    rw [(eIdx_eq x.wrIdxs c.prio).2.1, ringSlot_eq]
    omega
  refine ⟨h.found, ?_, ?_, ?_, ?_, ?_, ?_⟩
  · intro q hq hle
    apply h.pending q hq
    unfold AllocMeta.pending at hle hroom ⊢
    rw [AllocMeta.wrIdxs_setWrIdxs, AllocMeta.rdIdxs_setWrIdxs, (eIdx_eq _ q).1, hbyte q (by omega)]
    rw [(eIdx_eq x.wrIdxs q).1] at hle
    have hrd := eIdx_lt x.rdIdxs q
    by_cases hqp : q = c.prio
    · subst hqp
      rw [(eIdx_eq x.wrIdxs c.prio).1] at hroom
      rw [if_pos rfl]
      omega
    · rw [if_neg hqp]
      exact hle
  · intro q hq n p hn
    have hrest := h.slots q hq
    rw [List.filter_cons] at hn
    simp only [AllocMeta.wrIdxs_setWrIdxs, hbyte q (show q < 4 by omega)] at hrest
    have hstore : ∀ i, i < 4 → (e.extend st c x
        (AllocTable.elemAdrs startAdr ++ [adr + blockCmdqWrIdxs])).1.atDown.slotStart
          (x.setWrIdxs (setIdxByte x.wrIdxs c.prio
            ((eIdx x.wrIdxs c.prio + 1) &&& qIdxMaxOvfMsk))) q i = st.atDown.slotStart x q i :=
      fun i hi => AllocTable.slotStart_storeWrIdxs hq hi
    by_cases hqp : q = c.prio
    · subst hqp
      rw [if_pos (by exact decide_eq_true rfl)] at hn
      cases n with
      | zero =>
        cases hn
        refine ⟨startAdr, adr, ?_, hadr, rfl⟩
        rw [Nat.add_zero, ← hslot]
        exact hstart
      | succ n =>
        rw [List.getElem?_cons_succ] at hn
        obtain ⟨a, b, ha, hb, hva⟩ := hrest n p hn
        rw [hstore _ (Nat.mod_lt _ (by decide)), if_pos rfl,
          show (((idxByte x.wrIdxs c.prio).toNat + 1) % 8 + n) % 4 =
            ((idxByte x.wrIdxs c.prio).toNat + (n + 1)) % 4 by omega] at ha
        exact ⟨a, b, ha, hb, hva⟩
    · rw [if_neg (by simpa using Ne.symm hqp)] at hn
      obtain ⟨a, b, ha, hb, hva⟩ := hrest n p hn
      rw [hstore _ (Nat.mod_lt _ (by decide)), if_neg hqp] at ha
      exact ⟨a, b, ha, hb, hva⟩
  · intro q hq
    have hrest := h.idxs q hq
    rw [AllocMeta.wrIdxs_setWrIdxs, hbyte q hq] at hrest
    unfold addedTo at hrest ⊢
    rw [hrest, List.countP_cons]
    by_cases hqp : q = c.prio
    · subst hqp
      rw [if_pos rfl, if_pos (decide_eq_true rfl), if_neg (Nat.succ_ne_zero _)]
      split <;> omega
    · have hother : ¬ decide (c.prio = q) = true := by
        rw [decide_eq_true_eq]
        exact Ne.symm hqp
      rw [if_neg hqp, if_neg hother, Nat.add_zero]
  · rw [h.last, AllocMeta.wrIdxs_setWrIdxs]
    rcases hlog : r.2 with _ | ⟨p', log⟩
    · exact (read32_bytes c _).symm
    · rw [List.getLast?_cons_cons, List.getLast?_eq_getLast_of_ne_nil (List.cons_ne_nil p' log)]
      rfl
  · exact h.rdIdxs.trans AllocMeta.rdIdxs_setWrIdxs
  · constructor
    · rw [List.flatMap_cons, h.collected.1]
      simp only [MiniTarget.extend, List.append_assoc]
    · rw [List.flatMap_cons, h.collected.2]
      simp only [MiniTarget.extend, List.append_assoc]

theorem createAll_respects :
    ∀ {cs : List MiniCall} {st : Burst} {x : AllocMeta},
      st.atDown.lookupHash e.hash = some x → ∃ y, Respects e st x (e.createAll st cs) y := by
  intro cs
  induction cs with
  | nil =>
    intro st x hx
    exact ⟨x, .nil hx⟩
  | cons c cs ih =>
    intro st x hx
    rcases createMiniCommand_cases hx c with hsame | ⟨startAdr, adr, hroom, hstart, hadr, hext⟩
    · obtain ⟨y, hy⟩ := ih hx
      refine ⟨y, ?_⟩
      rw [MiniTarget.createAll, hsame]
      exact hy
    · obtain ⟨y, hy⟩ := @ih (e.extend st c x
        (AllocTable.elemAdrs startAdr ++ [adr + blockCmdqWrIdxs])).1 _
        (AllocTable.lookupHash_storeWrIdxs hx)
      refine ⟨y, ?_⟩
      rw [MiniTarget.createAll, hext]
      exact hy.cons hroom hstart hadr rfl

end Run

/-- **A burst respects the queues**: for every list of calls for a block, no queue gets more
than four pending commands, the commands added to a queue are in its next slots one after the
other, the write indices sent last have every index advanced by the commands added to its
queue, and a call that would add a fifth one throws and adds nothing. -/
theorem burst_respects (e : MiniTarget) (st : Burst) (x : AllocMeta) (cs : List MiniCall)
    (hx : st.atDown.lookupHash e.hash = some x) :
    ∃ y, Respects e st x (e.createAll st cs) y ∧
      (∀ c, y.pending c.prio = 4 →
        e.createMiniCommand (e.createAll st cs).1 c = ((e.createAll st cs).1, none)) ∧
      ∀ c, (e.createMiniCommand (e.createAll st cs).1 c).2 = none →
        (e.createMiniCommand (e.createAll st cs).1 c).1 = (e.createAll st cs).1 := by
  obtain ⟨y, hy⟩ := createAll_respects hx
  exact ⟨y, hy, fun c => createMiniCommand_full hy.found, fun c => createMiniCommand_refused hy.found⟩

/-- A block with a low-priority queue, downloaded with its buffer list. -/
def copiedBlock : AllocMeta where
  cpu := 0
  adr := 0x868
  hash := 1
  v := 0
  b := Vector.ofFn fun i =>
    (([0, 0, 0, 0x1000089c, 0, 0, 0x06, 0x05, 0, 0, 1, 0x100007, 0] : List Word).flatMap be32).getD i.1 0
  staged := false

def copiedList : AllocMeta where
  cpu := 0
  adr := 0x89c
  hash := 2
  v := 1
  b := Vector.ofFn fun i => (([0x100008d0, 0x10000904] : List Word).flatMap be32).getD i.1 0
  staged := false

def copiedTable : AllocTable where
  a := ⟨[copiedBlock, copiedList], by decide⟩
  m := .empty
  vPool := [MemPool.new AllocTable.fourBlocks]

def noopCall : MiniCall := ⟨0, miniNoop 0 0 1, List.replicate 24 0, rfl⟩

/-- One command is pending; of four more, three find room. -/
theorem burst_respects_sample :
    let e : MiniTarget := ⟨1, fun _ _ => false, fun _ => ([], [])⟩
    let r := e.createAll ⟨copiedTable, [], []⟩ [noopCall, noopCall, noopCall, noopCall]
    r.2.length = 3 ∧ ∃ y, Respects e ⟨copiedTable, [], []⟩ copiedBlock r y ∧
      (∀ c, y.pending c.prio = 4 → e.createMiniCommand r.1 c = (r.1, none)) ∧
      ∀ c, (e.createMiniCommand r.1 c).2 = none → (e.createMiniCommand r.1 c).1 = r.1 :=
  ⟨by decide +kernel, burst_respects _ _ copiedBlock _ rfl⟩

end DataMaster
