import BelProjects.DataMaster.Dot.Text
import BelProjects.Library.BitFields

/-!
# What the text keeps of a node

A node object that is written as text and created again from what the parser has read is
the object with those parameters that its visitor writes; the others have their defaults.
-/

namespace DataMaster.Dot

/-! ### Values -/

theorem ne_of_digits {s : String} {cs : List Char} (hs : s = String.ofList cs) {t : String}
    (ht : t.toList.head? = some 't' ∨ t.toList.head? = some 'f') {c : Char} {rest : List Char}
    (hcs : cs = c :: rest) (hc : Numerals.isDigit 10 c = true) : s ≠ t := by
  intro heq
  have hlist : t.toList = cs := by rw [← heq, hs, String.toList_ofList]
  rw [hlist, hcs] at ht
  rcases ht with ht | ht <;>
  · cases ht
    revert hc
    decide

theorem s2u_of_read {s : String} {cs : List Char} (hs : s = String.ofList cs) {c : Char}
    {rest : List Char} (hcs : cs = c :: rest) (hc : Numerals.isDigit 10 c = true) {n : Nat}
    (hread : Numerals.read cs = some n) (hn : n < 2 ^ 64) : s2u s = .ok n := by
  have htrue : s ≠ sTrue := ne_of_digits hs (Or.inl (by decide)) hcs hc
  have hfalse : s ≠ sFalse := ne_of_digits hs (Or.inr (by decide)) hcs hc
  unfold s2u
  rw [if_neg htrue, if_neg hfalse, hs, String.toList_ofList, hread]
  exact if_pos hn

theorem s2u_decText {n : Nat} (hn : n < 2 ^ 64) : s2u (decText n) = .ok n := by
  cases hcs : Numerals.dec n with
  | nil => exact absurd hcs Nat.toDigits_ne_nil
  | cons c rest =>
    have hc := Numerals.isDigit_of_mem_toDigits (b := 10) (by omega) (by omega) n c
      (by unfold Numerals.dec at hcs; rw [hcs]; exact List.mem_cons_self)
    exact s2u_of_read rfl hcs hc (Numerals.read_dec n) hn

theorem s2u_hexText {n : Nat} (width : Nat) (hn : n < 2 ^ 64) : s2u (hexText width n) = .ok n :=
  s2u_of_read rfl rfl (by decide) (Numerals.read_hexPadded width n) hn

theorem s2u_boolText (b : Bool) : s2u (boolText b) = .ok b.toNat := by
  cases b
  · rfl
  · rfl

section Fields

variable {v : MyVertex} {p : Property} {w : Nat} {x : Time}

theorem u_of_dec (h : v.prop p = decText x.toNat) : v.u w p = .ok (x.setWidth w) := by
  unfold MyVertex.u
  rw [h, s2u_decText x.isLt]
  simp

theorem u_of_hex {width : Nat} (h : v.prop p = hexText width x.toNat) :
    v.u w p = .ok (x.setWidth w) := by
  unfold MyVertex.u
  rw [h, s2u_hexText width x.isLt]
  simp

theorem u_of_zero (h : v.prop p = sZero) : v.u w p = .ok 0 := by
  unfold MyVertex.u
  rw [h, show s2u sZero = .ok 0 from by decide]
  rfl

theorem b_of_bool {c : Bool} (h : v.prop p = boolText c) : v.b p = .ok c := by
  unfold MyVertex.b
  rw [h, s2u_boolText]
  cases c <;> rfl

theorem b_of_zero (h : v.prop p = sZero) : v.b p = .ok false := by
  unfold MyVertex.b
  rw [h, show s2u sZero = .ok 0 from by decide]
  rfl

end Fields

/-! ### Restored objects -/

/-- One bit of a word, as the visitors take it from a field and `s2u` reads it. -/
def bitOf (q : Word) : Bool := q.setWidth 64 &&& 1#64 != 0

/-- Parameters after the text: permanent flags, flush ranges, quantities of flushes and
waits, queue indices and the reserved field of a message are not written. -/
def NodeData.restored : NodeData → NodeData
  | .timingMsg tOffs id par tef _ => .timingMsg tOffs id par tef 0
  | .noop tOffs tValid act =>
    .noop tOffs tValid
      (actNoop ((getPrio act).setWidth 8) (getQty act) (bitOf (getVabs act)))
  | .flow tOffs tValid act =>
    .flow tOffs tValid
      (actFlow ((getPrio act).setWidth 8) (getQty act) (bitOf (getVabs act)) false)
  | .switch tOffs => .switch tOffs
  | .origin tOffs thread => .origin tOffs ((thread.setWidth 8).setWidth 32)
  | .startThread tOffs startOffs thread =>
    .startThread tOffs startOffs ((thread.setWidth 8).setWidth 32)
  | .flush tOffs tValid act _ _ _ _ _ _ =>
    .flush tOffs tValid
      (actFlush ((getPrio act).setWidth 8) (bitOf ((getFlushPrio act >>> prioIl) &&& 1))
        (bitOf ((getFlushPrio act >>> prioHi) &&& 1)) (bitOf ((getFlushPrio act >>> prioLo) &&& 1))
        (bitOf (getVabs act)) false) 0 0 0 0 0 0
  | .wait tOffs tValid act tWait =>
    .wait tOffs tValid (actWait ((getPrio act).setWidth 8) (bitOf (getVabs act))) tWait
  | .blockFixed tPeriod _ _ => .blockFixed tPeriod 0 0
  | .blockAlign tPeriod _ _ => .blockAlign tPeriod 0 0
  | .cmdQMeta => .cmdQMeta
  | .cmdQBuffer => .cmdQBuffer
  | .destList => .destList

/-- The entry and exit points in the flags. Meta nodes are written without them. -/
def entryFlags (n : Node) : Word :=
  if n.data.isMeta then 0
  else
    (bit (n.flags.getLsbD nflgBpEntryLm32Pos) <<< nflgBpEntryLm32Pos) |||
      (bit (n.flags.getLsbD nflgBpExitLm32Pos) <<< nflgBpExitLm32Pos) |||
      (bit (n.flags.getLsbD nflgPatEntryLm32Pos) <<< nflgPatEntryLm32Pos) |||
      (bit (n.flags.getLsbD nflgPatExitLm32Pos) <<< nflgPatExitLm32Pos)

def Node.restored (n : Node) : Node :=
  { n with
    pattern := if n.data.isMeta then sUndefined else n.pattern
    beamproc := if n.data.isMeta then sUndefined else n.beamproc
    flags := withType (entryFlags n) n.data.type
    data := n.data.restored }

theorem restored_type (d : NodeData) : d.restored.type = d.type := by
  cases d <;> rfl

/-- Messages with an identifier of an unknown format are not written. -/
def NodeData.Writable : NodeData → Prop
  | .timingMsg _ id _ _ _ => fidOf id < 2
  | _ => True

instance (d : NodeData) : Decidable d.Writable := by
  unfold NodeData.Writable
  cases d <;> infer_instance

/-! ### Creating objects -/

section Create

variable {v : MyVertex} {x : Word} {p : Property} {w : Nat}

theorem u_of_word (h : v.prop p = decText (x.setWidth 64).toNat) (hw : w ≤ 64) :
    v.u w p = .ok (x.setWidth w) := by
  rw [u_of_dec h]
  simp [hw]

theorem u32_of_word (h : v.prop p = decText (x.setWidth 64).toNat) : v.u 32 p = .ok x := by
  rw [u_of_word h (by omega), BitVec.setWidth_eq]

theorem u64_of_dec {x : Time} (h : v.prop p = decText x.toNat) : v.u 64 p = .ok x := by
  rw [u_of_dec h, BitVec.setWidth_eq]

theorem flagBit_bool (flags : Word) (pos : Nat) :
    (flagBit flags pos &&& 1 != 0) = flags.getLsbD pos := by
  unfold flagBit
  cases flags.getLsbD pos <;> rfl

/-- A vertex with the entry and exit points of a node, as they are written. -/
def HasEntryPoints (v : MyVertex) (flags : Word) : Prop :=
  ∀ a ∈ [Attr.num .bpEntry (flagBit flags nflgBpEntryLm32Pos) .BOOL,
    Attr.num .bpExit (flagBit flags nflgBpExitLm32Pos) .BOOL,
    Attr.num .patEntry (flagBit flags nflgPatEntryLm32Pos) .BOOL,
    Attr.num .patExit (flagBit flags nflgPatExitLm32Pos) .BOOL], v.prop a.text.1 = a.text.2

theorem createFlags_of_entryPoints {flags : Word} (h : HasEntryPoints v flags) :
    createFlags v = .ok ((bit (flags.getLsbD nflgBpEntryLm32Pos) <<< nflgBpEntryLm32Pos) |||
      (bit (flags.getLsbD nflgBpExitLm32Pos) <<< nflgBpExitLm32Pos) |||
      (bit (flags.getLsbD nflgPatEntryLm32Pos) <<< nflgPatEntryLm32Pos) |||
      (bit (flags.getLsbD nflgPatExitLm32Pos) <<< nflgPatExitLm32Pos)) := by
  unfold HasEntryPoints at h
  simp only [List.forall_mem_cons, Attr.text, flagBit_bool] at h
  obtain ⟨hbpEntry, hbpExit, hpatEntry, hpatExit, -⟩ := h
  unfold createFlags
  rw [b_of_bool hbpEntry, b_of_bool hbpExit, b_of_bool hpatEntry, b_of_bool hpatExit]
  rfl

theorem createData_noop {tOffs tValid : Time} {prio : BitVec 8} {qty : Word} {vabs : Bool}
    (ht : v.type = some .cnoop) (h1 : v.u 64 .tOffs = .ok tOffs) (h2 : v.u 64 .tValid = .ok tValid)
    (h3 : v.u 8 .prio = .ok prio) (h4 : v.u 32 .qty = .ok qty) (h5 : v.b .vabs = .ok vabs) :
    createData v = .ok (.noop tOffs tValid (actNoop prio qty vabs)) := by
  simp only [createData, ht, h1, h2, h3, h4, h5]
  rfl

theorem createData_flow {tOffs tValid : Time} {prio : BitVec 8} {qty : Word} {vabs perma : Bool}
    (ht : v.type = some .cflow) (h1 : v.u 64 .tOffs = .ok tOffs) (h2 : v.u 64 .tValid = .ok tValid)
    (h3 : v.u 8 .prio = .ok prio) (h4 : v.u 32 .qty = .ok qty) (h5 : v.b .vabs = .ok vabs)
    (h6 : v.b .perma = .ok perma) :
    createData v = .ok (.flow tOffs tValid (actFlow prio qty vabs perma)) := by
  simp only [createData, ht, h1, h2, h3, h4, h5, h6]
  rfl

theorem createData_wait {tOffs tValid tWait : Time} {prio : BitVec 8} {vabs : Bool}
    (ht : v.type = some .cwait) (h1 : v.u 64 .tOffs = .ok tOffs) (h2 : v.u 64 .tValid = .ok tValid)
    (h3 : v.u 8 .prio = .ok prio) (h4 : v.b .vabs = .ok vabs) (h5 : v.u 64 .tWait = .ok tWait) :
    createData v = .ok (.wait tOffs tValid (actWait prio vabs) tWait) := by
  simp only [createData, ht, h1, h2, h3, h4, h5]
  rfl

theorem createData_switch {tOffs : Time} (ht : v.type = some .cswitch)
    (h1 : v.u 64 .tOffs = .ok tOffs) : createData v = .ok (.switch tOffs) := by
  simp only [createData, ht, h1]
  rfl

theorem createData_origin {tOffs : Time} {thread : BitVec 8} (ht : v.type = some .origin)
    (h1 : v.u 64 .tOffs = .ok tOffs) (h2 : v.u 8 .thread = .ok thread) :
    createData v = .ok (.origin tOffs (thread.setWidth 32)) := by
  simp only [createData, ht, h1, h2]
  rfl

theorem createData_startThread {tOffs startOffs : Time} {thread : BitVec 8}
    (ht : v.type = some .startthread) (h1 : v.u 64 .tOffs = .ok tOffs)
    (h2 : v.u 64 .startOffs = .ok startOffs) (h3 : v.u 8 .thread = .ok thread) :
    createData v = .ok (.startThread tOffs startOffs (thread.setWidth 32)) := by
  simp only [createData, ht, h1, h2, h3]
  rfl

theorem createData_blockFixed {tPeriod : Time} (ht : v.type = some .blockFixed)
    (h1 : v.u 64 .tPeriod = .ok tPeriod) : createData v = .ok (.blockFixed tPeriod 0 0) := by
  simp only [createData, ht, h1]
  rfl

theorem createData_blockAlign {tPeriod : Time} (ht : v.type = some .blockAlign)
    (h1 : v.u 64 .tPeriod = .ok tPeriod) : createData v = .ok (.blockAlign tPeriod 0 0) := by
  simp only [createData, ht, h1]
  rfl

theorem createData_flush {tOffs tValid : Time} {prio : BitVec 8} {qIl qHi qLo vabs perma : Bool}
    (ht : v.type = some .cflush) (h1 : v.u 64 .tOffs = .ok tOffs)
    (h2 : v.u 64 .tValid = .ok tValid) (h3 : v.u 8 .prio = .ok prio) (h4 : v.b .qIl = .ok qIl)
    (h5 : v.b .qHi = .ok qHi) (h6 : v.b .qLo = .ok qLo) (h7 : v.b .vabs = .ok vabs)
    (h8 : v.b .perma = .ok perma)
    (hrange : ∀ p ∈ [Property.frmIl, .toIl, .frmHi, .toHi, .frmLo, .toLo], v.prop p = sZero) :
    createData v = .ok (.flush tOffs tValid (actFlush prio qIl qHi qLo vabs perma) 0 0 0 0 0 0) := by
  simp only [List.forall_mem_cons] at hrange
  obtain ⟨r1, r2, r3, r4, r5, r6, -⟩ := hrange
  simp only [createData, ht, h1, h2, h3, h4, h5, h6, h7, h8, u_of_zero r1, u_of_zero r2,
    u_of_zero r3, u_of_zero r4, u_of_zero r5, u_of_zero r6]
  rfl

theorem fidOf_byte (x : BitVec 8) : fidOf (x.setWidth 64) = 0 := by
  revert x
  decide

theorem ne_undefined64 (width n : Nat) : hexText width n ≠ sUndefined64 := by
  intro heq
  have hlist : Numerals.hexPadded width n = sUndefined64.toList := by
    rw [← heq]
    exact String.toList_ofList.symm
  have hmem : 'D' ∈ Numerals.hexPadded width n := by
    rw [hlist]
    decide
  unfold Numerals.hexPadded at hmem
  simp only [List.mem_cons, List.mem_append] at hmem
  rcases hmem with h | h | h | h
  · cases h
  · cases h
  · cases (List.eq_of_mem_replicate h)
  · exact Numerals.upper_not_mem_hex n h

theorem completeId_written {id : Time} (hid : v.prop .id = hexText 16 id.toNat) :
    ∃ v', completeId v = .ok v' ∧ ∀ p ∈ [Property.tOffs, .id, .par, .tef, .res],
      v'.prop p = v.prop p := by
  refine ⟨putSubfields v ((id.setWidth 8).setWidth 64)
    [⟨.fid, 60, 4⟩, ⟨.gid, 48, 12⟩, ⟨.evtno, 36, 12⟩, ⟨.sid, 24, 12⟩, ⟨.bpid, 10, 14⟩], ?_, ?_⟩
  · unfold completeId
    rw [if_neg (by rw [hid]; exact ne_undefined64 _ _), u_of_hex hid]
    simp only [bind, Except.bind, fidOf_byte]
    rfl
  · intro p hp
    simp only [List.mem_cons, List.not_mem_nil, or_false] at hp
    rcases hp with rfl | rfl | rfl | rfl | rfl <;> rfl

theorem createData_timingMsg {tOffs id par : Time} {tef : Word} (ht : v.type = some .tmsg)
    (h1 : v.prop .tOffs = decText tOffs.toNat) (h2 : v.prop .id = hexText 16 id.toNat)
    (h3 : v.prop .par = hexText 16 par.toNat) (h4 : v.prop .tef = decText (tef.setWidth 64).toNat)
    (h5 : v.prop .res = sZero) : createData v = .ok (.timingMsg tOffs id par tef 0) := by
  obtain ⟨v', hv', hkept⟩ := completeId_written h2
  simp only [List.forall_mem_cons] at hkept
  obtain ⟨k1, k2, k3, k4, k5, -⟩ := hkept
  simp only [createData, ht, hv', bind, Except.bind, u_of_dec (k1.trans h1), u_of_hex (k2.trans h2),
    u_of_hex (k3.trans h3), u32_of_word (k4.trans h4),
    u_of_zero (k5.trans h5), BitVec.setWidth_eq]
  rfl

end Create

/-! ### Reading a vertex back -/

/-- What creating the node object for a vertex finds in its strings. -/
structure Reads (v : MyVertex) (hex : Bool) (n : Node) : Prop where
  name : v.name = n.name
  cpu : v.prop .cpu = cpuText hex n.cpu
  pattern : v.prop .patName = n.restored.pattern
  beamproc : v.prop .bpName = n.restored.beamproc
  flags : createFlags v = .ok (entryFlags n)
  data : createData v = .ok n.data.restored

section Vertex

variable {n : Node} {attrs : List Attr} {hex : Bool}

/-- A vertex with membership information. -/
theorem Reads.of_real {v : MyVertex} (hmeta : n.data.isMeta = false) (hname : v.name = n.name)
    (hcpu : v.prop .cpu = cpuText hex n.cpu) (hpat : v.prop .patName = n.pattern)
    (hbp : v.prop .bpName = n.beamproc) (hentry : HasEntryPoints v n.flags)
    (hdata : createData v = .ok n.data.restored) : Reads v hex n where
  name := hname
  cpu := hcpu
  pattern := by
    unfold Node.restored
    rw [hmeta]
    exact hpat
  beamproc := by
    unfold Node.restored
    rw [hmeta]
    exact hbp
  flags := by
    unfold entryFlags
    rw [createFlags_of_entryPoints hentry, hmeta]
    rfl
  data := hdata

theorem Reads.of_meta {v : MyVertex} (hmeta : n.data.isMeta = true) (hname : v.name = n.name)
    (hcpu : v.prop .cpu = cpuText hex n.cpu) (hpat : v.prop .patName = sUndefined)
    (hbp : v.prop .bpName = sUndefined)
    (hentry : ∀ p ∈ [Property.bpEntry, .bpExit, .patEntry, .patExit], v.prop p = sZero)
    (hdata : createData v = .ok n.data.restored) : Reads v hex n where
  name := hname
  cpu := hcpu
  pattern := by
    unfold Node.restored
    rw [hmeta]
    exact hpat
  beamproc := by
    unfold Node.restored
    rw [hmeta]
    exact hbp
  flags := by
    simp only [List.forall_mem_cons] at hentry
    obtain ⟨h1, h2, h3, h4, -⟩ := hentry
    unfold entryFlags createFlags
    rw [b_of_zero h1, b_of_zero h2, b_of_zero h3, b_of_zero h4, hmeta]
    rfl
  data := hdata

theorem hasEntryPoints_of {v : MyVertex} {flags : Word}
    (h1 : v.prop .bpEntry = (Attr.num .bpEntry (flagBit flags nflgBpEntryLm32Pos) .BOOL).text.2)
    (h2 : v.prop .bpExit = (Attr.num .bpExit (flagBit flags nflgBpExitLm32Pos) .BOOL).text.2)
    (h3 : v.prop .patEntry = (Attr.num .patEntry (flagBit flags nflgPatEntryLm32Pos) .BOOL).text.2)
    (h4 : v.prop .patExit = (Attr.num .patExit (flagBit flags nflgPatExitLm32Pos) .BOOL).text.2) :
    HasEntryPoints v flags := by
  unfold HasEntryPoints
  simp only [List.forall_mem_cons]
  exact ⟨h1, h2, h3, h4, fun a ha => by cases ha⟩

theorem reads_of_visit (hvisit : visit n = .ok attrs) :
    Reads (readVertex (vertexText hex n attrs)) hex n := by
  obtain ⟨name, pattern, beamproc, hash, cpu, flags, data⟩ := n
  have h8 : (8 : Nat) ≤ 64 := by omega
  cases data with
  | timingMsg tOffs id par tef res =>
    unfold visit at hvisit
    dsimp only at hvisit
    split at hvisit
    next => cases hvisit
    next vF hformat =>
      cases hvisit
      have hknown : vF ∈ idFormats := List.mem_of_getElem? hformat
      simp only [idFormats, List.mem_cons, List.not_mem_nil, or_false] at hknown
      rcases hknown with rfl | rfl
      · exact .of_real rfl rfl rfl rfl rfl (hasEntryPoints_of rfl rfl rfl rfl)
          (createData_timingMsg rfl rfl rfl rfl rfl rfl)
      · exact .of_real rfl rfl rfl rfl rfl (hasEntryPoints_of rfl rfl rfl rfl)
          (createData_timingMsg rfl rfl rfl rfl rfl rfl)
  | noop tOffs tValid act =>
    cases hvisit
    exact .of_real rfl rfl rfl rfl rfl (hasEntryPoints_of rfl rfl rfl rfl)
      (createData_noop rfl (u64_of_dec rfl) (u64_of_dec rfl) (u_of_word rfl h8) (u32_of_word rfl)
        (b_of_bool rfl))
  | flow tOffs tValid act =>
    cases hvisit
    -- no visitor writes the attribute of permanent changes
    exact .of_real rfl rfl rfl rfl rfl (hasEntryPoints_of rfl rfl rfl rfl)
      (createData_flow rfl (u64_of_dec rfl) (u64_of_dec rfl) (u_of_word rfl h8) (u32_of_word rfl)
        (b_of_bool rfl) (b_of_zero rfl))
  | «switch» tOffs =>
    cases hvisit
    exact .of_real rfl rfl rfl rfl rfl (hasEntryPoints_of rfl rfl rfl rfl)
      (createData_switch rfl (u64_of_dec rfl))
  | origin tOffs thread =>
    cases hvisit
    exact .of_real rfl rfl rfl rfl rfl (hasEntryPoints_of rfl rfl rfl rfl)
      (createData_origin rfl (u64_of_dec rfl) (u_of_word rfl h8))
  | startThread tOffs startOffs thread =>
    cases hvisit
    exact .of_real rfl rfl rfl rfl rfl (hasEntryPoints_of rfl rfl rfl rfl)
      (createData_startThread rfl (u64_of_dec rfl) (u64_of_dec rfl) (u_of_word rfl h8))
  | flush tOffs tValid act frmIl toIl frmHi toHi frmLo toLo =>
    cases hvisit
    exact .of_real rfl rfl rfl rfl rfl (hasEntryPoints_of rfl rfl rfl rfl)
      (createData_flush rfl (u64_of_dec rfl) (u64_of_dec rfl) (u_of_word rfl h8) (b_of_bool rfl)
        (b_of_bool rfl) (b_of_bool rfl) (b_of_bool rfl) (b_of_zero rfl)
        (by simp only [List.forall_mem_cons]
            exact ⟨rfl, rfl, rfl, rfl, rfl, rfl, fun p hp => by cases hp⟩))
  | wait tOffs tValid act tWait =>
    cases hvisit
    exact .of_real rfl rfl rfl rfl rfl (hasEntryPoints_of rfl rfl rfl rfl)
      (createData_wait rfl (u64_of_dec rfl) (u64_of_dec rfl) (u_of_word rfl h8) (b_of_bool rfl)
        (u64_of_dec rfl))
  | blockFixed tPeriod wrIdxs rdIdxs =>
    cases hvisit
    exact .of_real rfl rfl rfl rfl rfl (hasEntryPoints_of rfl rfl rfl rfl)
      (createData_blockFixed rfl (u64_of_dec rfl))
  | blockAlign tPeriod wrIdxs rdIdxs =>
    cases hvisit
    exact .of_real rfl rfl rfl rfl rfl (hasEntryPoints_of rfl rfl rfl rfl)
      (createData_blockAlign rfl (u64_of_dec rfl))
  | cmdQMeta | cmdQBuffer | destList =>
    cases hvisit
    refine .of_meta rfl rfl rfl rfl rfl ?_ rfl
    simp only [List.forall_mem_cons]
    exact ⟨rfl, rfl, rfl, rfl, fun p hp => by cases hp⟩

end Vertex

end DataMaster.Dot
