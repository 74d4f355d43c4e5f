import BelProjects.DataMaster.Dot.Node

/-!
# Buffers of node objects

An object that is written into a buffer is read back from it, whatever the link words
are, as long as those of a timing message do not replace parts of its fields.
-/

namespace DataMaster.Dot

open BigEndian

theorem ofNum_typeNum (t : NodeType) : NodeType.ofNum (typeNum t).toNat = t := by
  cases t <;> rfl

theorem withType_type (flags : Word) (t : NodeType) :
    withType flags t &&& nflgTypeSmsk = typeNum t := by
  have hnum : typeNum t &&& nflgTypeSmsk = typeNum t := by
    cases t <;> decide
  unfold withType
  rw [BitVec.and_or_distrib_right, BitVec.and_assoc, hnum]
  have hnone : ~~~nflgTypeSmsk &&& nflgTypeSmsk = 0#32 := by decide
  rw [hnone, BitVec.and_zero, BitVec.zero_or]

variable {va : List Word} {n : Node}

theorem serialise_congr {m : Node} (hhash : n.hash = m.hash) (hflags : n.flags = m.flags)
    (hdata : n.data = m.data) : n.serialise va = m.serialise va := by
  have hnode : serialiseNode va n = serialiseNode va m := by
    unfold serialiseNode
    rw [hhash, hflags]
  unfold Node.serialise serialiseCommand serialiseBlock serialiseEvent
  rw [hdata, hnode]

/-! ### Lengths -/

theorem length_serialiseNode : (serialiseNode va n).length = 52 := by
  unfold serialiseNode memBlockSize
  simp only [length_copyTo_eq, length_be32, List.length_replicate]
  rfl

theorem length_copyTo_52 {b xs : List Octet} {off : Nat} (hb : b.length = 52)
    (h : off + xs.length ≤ 52) : (copyTo b off xs).length = 52 :=
  (length_copyTo (by rw [hb]; exact h)).trans hb

theorem length_serialiseEvent {tOffs : Time} : (serialiseEvent va n tOffs).length = 52 :=
  length_copyTo_52 length_serialiseNode (by rw [length_be64]; omega)

theorem length_serialiseCommand (va : List Word) (n : Node) (tOffs tValid : Time) (act : Word) :
    (serialiseCommand va n tOffs tValid act).length = 52 := by
  unfold serialiseCommand
  refine length_copyTo_52 (length_copyTo_52 (length_copyTo_52 length_serialiseEvent ?_) ?_) ?_
  · rw [length_be32]
    omega
  · rw [length_be64]
    omega
  · rw [length_be32]
    omega

theorem length_copyWords {b : List Octet} {off : Nat} (h : off + 4 * va.length ≤ b.length) :
    (copyWords b off va).length = b.length := by
  induction va generalizing b off with
  | nil => rfl
  | cons v va ih =>
    rw [List.length_cons] at h
    have hhead : (copyTo b off (be32 v)).length = b.length :=
      length_copyTo (by rw [length_be32]; omega)
    rw [copyWords, ih (by omega), hhead]

theorem read32_copyWords_other {b : List Octet} {off off' : Nat}
    (h : off + 4 * va.length ≤ b.length) (hoff : off + 4 * va.length ≤ off') :
    read32 (copyWords b off va) off' = read32 b off' := by
  induction va generalizing b off with
  | nil => rfl
  | cons v va ih =>
    rw [List.length_cons] at h hoff
    have hhead : (copyTo b off (be32 v)).length = b.length :=
      length_copyTo (by rw [length_be32]; omega)
    rw [copyWords, ih (by omega) (by omega),
      read32_copyTo_other (by rw [length_be32]; omega) (by rw [length_be32]; omega)]

theorem length_serialise (h : va.length ≤ 10) : (n.serialise va).length = 52 := by
  unfold Node.serialise
  cases n.data with
  | cmdQMeta =>
    have hlen : (va.drop 1).length ≤ 10 := by
      rw [List.length_drop]
      omega
    exact (length_copyWords (by rw [length_serialiseNode]; omega)).trans length_serialiseNode
  | destList =>
    exact (length_copyWords (by rw [length_serialiseNode]; omega)).trans length_serialiseNode
  | cmdQBuffer => exact length_serialiseNode
  | _ =>
    simp only [serialiseEvent, serialiseCommand, serialiseBlock, length_copyTo_eq, length_be32,
      length_be64, length_serialiseNode, List.length_singleton]
    rfl

/-! ### Reading back -/

/-- The words behind the parameters do not depend on them. -/
theorem read32_serialise_header (h : va.length ≤ 10) {off : Nat} (hoff : 40 ≤ off) :
    read32 (n.serialise va) off = read32 (serialiseNode va n) off := by
  unfold Node.serialise
  cases n.data with
  | cmdQMeta =>
    have hlen : (va.drop 1).length ≤ 10 := by
      rw [List.length_drop]
      omega
    exact read32_copyWords_other (by rw [length_serialiseNode]; omega) (by omega)
  | destList => exact read32_copyWords_other (by rw [length_serialiseNode]; omega) (by omega)
  | cmdQBuffer => rfl
  | _ =>
    simp (disch := (simp only [length_copyTo_eq, length_be32, length_be64, length_serialiseNode,
      List.length_singleton]; omega)) only [serialiseEvent, serialiseCommand, serialiseBlock,
      read32_copyTo_other]

theorem read32_hash (h : va.length ≤ 10) : read32 (n.serialise va) 40 = n.hash := by
  rw [read32_serialise_header h (by omega)]
  unfold serialiseNode memBlockSize
  simp (disch := (simp only [length_copyTo_eq, length_be32, List.length_replicate]; omega)) only
    [read32_copyTo_other, read32_copyTo_same]

theorem read32_flags (h : va.length ≤ 10) : read32 (n.serialise va) 44 = n.flags := by
  rw [read32_serialise_header h (by omega)]
  unfold serialiseNode memBlockSize
  simp (disch := (simp only [length_copyTo_eq, length_be32, List.length_replicate]; omega)) only
    [read32_copyTo_same]

theorem read64_serialiseEvent {tOffs : Time} : read64 (serialiseEvent va n tOffs) 0 = tOffs :=
  read64_copyTo_same (by rw [length_serialiseNode]; omega)

theorem read_serialiseCommand (va : List Word) (n : Node) (tOffs tValid : Time) (act : Word) :
    read64 (serialiseCommand va n tOffs tValid act) 0 = tOffs ∧
    read64 (serialiseCommand va n tOffs tValid act) 12 = tValid ∧
    read32 (serialiseCommand va n tOffs tValid act) 20 = act := by
  unfold serialiseCommand
  refine ⟨?_, ?_, ?_⟩ <;>
  simp (disch := (simp only [length_copyTo_eq, length_be32, length_be64,
      length_serialiseEvent]; omega)) only [read64_copyTo_same, read64_copyTo_other,
      read32_copyTo_same, read64_serialiseEvent]

/-- The link words of a timing message say nothing but what its fields hold. -/
def PlainSources (va : List Word) : NodeData → Prop
  | .timingMsg _ id par tef res =>
    overlayLo id (va.getD 1 0) = id ∧ overlayLo (overlayHi par (va.getD 2 0)) (va.getD 3 0) = par ∧
      (if va.getD 4 0 = lm32NullPtr then tef else va.getD 4 0) = tef ∧
      (if va.getD 5 0 = lm32NullPtr then res else va.getD 5 0) = res
  | _ => True

/-- The bytes of a flush, behind those that all commands have. -/
theorem deserialise_ranges {b : List Octet} (hb : b.length = 52) (ovr : Word)
    (frmIl toIl frmHi toHi frmLo toLo : Octet) :
    let r := copyTo (copyTo (copyTo (copyTo (copyTo (copyTo (copyTo b 24 (be32 ovr)) 28 [frmIl])
      29 [toIl]) 33 [frmHi]) 34 [toHi]) 35 [frmLo]) 36 [toLo]
    deserialise r .cflush = some (.flush (read64 b 0) (read64 b 12) (read32 b 20)
      frmIl toIl frmHi toHi frmLo toLo) := by
  have h1 : (copyTo b 24 (be32 ovr)).length = 52 :=
    length_copyTo_52 hb (by rw [length_be32]; omega)
  have hbyte : ∀ {c : List Octet} (off : Nat) (x : Octet), c.length = 52 → off < 52 →
      (copyTo c off [x]).length = 52 := fun off x hc hoff => length_copyTo_52 hc hoff
  have h2 := hbyte 28 frmIl h1 (by omega)
  have h3 := hbyte 29 toIl h2 (by omega)
  have h4 := hbyte 33 frmHi h3 (by omega)
  have h5 := hbyte 34 toHi h4 (by omega)
  have h6 := hbyte 35 frmLo h5 (by omega)
  simp (disch := (simp only [length_be32, List.length_singleton,
      hb, h1, h2, h3, h4, h5, h6]; omega)) only [deserialise, read64_copyTo_other, read32_copyTo_other, getD_copyTo_same,
    getD_copyTo_other]

theorem deserialise_serialise (h : PlainSources va n.data) :
    deserialise (n.serialise va) n.data.type = some n.data := by
  unfold Node.serialise
  cases hd : n.data with
  | timingMsg tOffs id par tef res =>
    rw [hd] at h
    obtain ⟨hid, hpar, htef, hres⟩ := h
    dsimp only
    rw [hid, hpar, htef, hres]
    simp (disch := (simp only [length_copyTo_eq, length_be32, length_be64,
      length_serialiseEvent]; omega)) only [NodeData.type, deserialise, read64_copyTo_same,
      read64_copyTo_other, read32_copyTo_same, read32_copyTo_other, read64_serialiseEvent]
  | blockFixed tPeriod wrIdxs rdIdxs | blockAlign tPeriod wrIdxs rdIdxs =>
    simp (disch := (simp only [length_copyTo_eq, length_be32, length_be64,
      length_serialiseNode]; omega)) only [serialiseBlock, NodeData.type, deserialise,
      read64_copyTo_same, read64_copyTo_other, read32_copyTo_same, read32_copyTo_other]
    simp
  | flush tOffs tValid act frmIl toIl frmHi toHi frmLo toLo =>
    obtain ⟨hoffs, hvalid, hact⟩ := read_serialiseCommand va n tOffs tValid act
    have hranges := deserialise_ranges (length_serialiseCommand va n tOffs tValid act) (va.getD 2 0)
      frmIl toIl frmHi toHi frmLo toLo
    rw [hoffs, hvalid, hact] at hranges
    exact hranges
  | wait tOffs tValid act tWait =>
    obtain ⟨hoffs, hvalid, hact⟩ := read_serialiseCommand va n tOffs tValid act
    simp (disch := (simp only [length_be64, length_serialiseCommand]; omega)) only [NodeData.type,
      deserialise, read64_copyTo_same, read64_copyTo_other, read32_copyTo_other, hoffs, hvalid, hact]
  | flow tOffs tValid act =>
    obtain ⟨hoffs, hvalid, hact⟩ := read_serialiseCommand va n tOffs tValid act
    simp (disch := (simp only [length_be32, length_serialiseCommand]; omega)) only [NodeData.type,
      deserialise, read64_copyTo_other, read32_copyTo_other, hoffs, hvalid, hact]
  | noop tOffs tValid act =>
    obtain ⟨hoffs, hvalid, hact⟩ := read_serialiseCommand va n tOffs tValid act
    simp only [NodeData.type, deserialise, hoffs, hvalid, hact]
  | switch tOffs | origin tOffs thread | startThread tOffs startOffs thread =>
    simp (disch := (simp only [length_copyTo_eq, length_be32, length_be64,
      length_serialiseEvent]; omega)) only [NodeData.type, deserialise, read64_copyTo_same,
      read64_copyTo_other, read32_copyTo_same, read64_serialiseEvent]
  | cmdQMeta | cmdQBuffer | destList => rfl

/-! ### Sources of timing messages -/

theorem overlayLo_self (x : Time) (p : Bool) :
    overlayLo x (if p then x.extractLsb' 0 32 else lm32NullPtr) = x := by
  unfold overlayLo
  by_cases hnull : (if p then x.extractLsb' 0 32 else lm32NullPtr) = lm32NullPtr
  · rw [if_pos hnull]
  · rw [if_neg hnull]
    cases p with
    | false => exact absurd rfl hnull
    | true =>
      apply BitVec.eq_of_getLsbD_eq
      intro i hi
      have hmask : ∀ i : Fin 64, (0xffffffff#64).getLsbD i.1 = decide (i.1 < 32) := by decide
      simp only [if_true, BitVec.getLsbD_or, BitVec.getLsbD_and, BitVec.getLsbD_not,
        BitVec.getLsbD_setWidth, BitVec.getLsbD_extractLsb', hmask ⟨i, hi⟩]
      by_cases hlow : i < 32 <;> simp [hlow, hi]

theorem overlayHi_self (x : Time) (p : Bool) :
    overlayHi x (if p then x.extractLsb' 32 32 else lm32NullPtr) = x := by
  unfold overlayHi
  by_cases hnull : (if p then x.extractLsb' 32 32 else lm32NullPtr) = lm32NullPtr
  · rw [if_pos hnull]
  · rw [if_neg hnull]
    cases p with
    | false => exact absurd rfl hnull
    | true =>
      apply BitVec.eq_of_getLsbD_eq
      intro i hi
      have hmask : ∀ i : Fin 64, (0xffffffff#64 <<< 32).getLsbD i.1 = decide (32 ≤ i.1) := by
        decide
      simp only [if_true, BitVec.getLsbD_or, BitVec.getLsbD_and, BitVec.getLsbD_not,
        BitVec.getLsbD_shiftLeft, BitVec.getLsbD_setWidth, BitVec.getLsbD_extractLsb',
        hmask ⟨i, hi⟩]
      by_cases hlow : i < 32
      · simp [hlow, hi]
      · simp [hlow, hi, show 32 ≤ i by omega, show i - 32 < 32 by omega,
          show i - 32 < 64 by omega, show 32 + (i - 32) = i by omega]

theorem extract_read64 (b : List Octet) (off : Nat) :
    (read64 b off).extractLsb' 32 32 = read32 b off ∧
    (read64 b off).extractLsb' 0 32 = read32 b (off + 4) := by
  unfold read64
  constructor
  · apply BitVec.eq_of_getLsbD_eq
    intro i hi
    rw [BitVec.getLsbD_extractLsb', BitVec.getLsbD_append]
    simp [hi]
  · apply BitVec.eq_of_getLsbD_eq
    intro i hi
    rw [BitVec.getLsbD_extractLsb', BitVec.getLsbD_append]
    simp [hi]

theorem length_links (b : List Octet) (n : Node) : (links b n).length ≤ 10 := by
  unfold links
  cases n.data <;> simp

theorem plainSources_links (b : List Octet) (n : Node) (tOffs : Time) {tef : Word}
    (htef : tef = read32 b 28) (res : Word) (hd : n.data.type = .tmsg) :
    PlainSources (links b n) (.timingMsg tOffs (read64 b 8) (read64 b 16) tef res) := by
  have hlo8 : (read64 b 8).extractLsb' 0 32 = read32 b 12 := (extract_read64 b 8).2
  have hlo16 : (read64 b 16).extractLsb' 0 32 = read32 b 20 := (extract_read64 b 16).2
  have hhi16 : (read64 b 16).extractLsb' 32 32 = read32 b 16 := (extract_read64 b 16).1
  unfold links
  cases hdata : n.data with
  | timingMsg =>
    simp only [PlainSources, List.getD_cons_succ, List.getD_cons_zero, dynWord]
    refine ⟨?_, ?_, ?_, if_pos trivial⟩
    · rw [← hlo8]
      exact overlayLo_self _ _
    · rw [← hhi16, ← hlo16, overlayHi_self]
      exact overlayLo_self _ _
    · rw [htef]
      split
      next => exact ite_self _
      next => exact if_pos rfl
  | _ =>
    rw [hdata] at hd
    cases hd

end DataMaster.Dot
