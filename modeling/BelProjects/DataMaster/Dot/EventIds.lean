import BelProjects.DataMaster.Dot.Restore

/-!
# Event identifiers and their subfields

`completeId` makes the identifier from the subfields of a vertex, or the subfields from its
identifier.  The first direction follows the table of formats.  The second reads the
identifier as an 8-bit number, so it always finds format 0 and zeros in all of its fields.
-/

namespace DataMaster.Dot

theorem MyVertex.put_other {v : MyVertex} {p r : Property} {s : String} (h : r ≠ p) :
    (v.put p s).prop r = v.prop r :=
  Function.update_of_ne h _ _

/-! ### From subfields to the identifier -/

/-- The number that a subfield stands for, if it can be read. -/
def MyVertex.fieldValue (v : MyVertex) (p : Property) : Time :=
  match s2u (v.prop p) with
  | .ok n => BitVec.ofNat 64 n
  | .error _ => 0

def PropFormat.msk (it : PropFormat) : Time := (1#64 <<< it.bits) - 1

/-- The masked and shifted values, joined. -/
def assemble (val : Property → Time) (vTmp : List PropFormat) : Time :=
  vTmp.foldl (fun id it => id ||| ((val it.s &&& it.msk) <<< it.pos)) 0

theorem foldlM_fields {v : MyVertex} {vTmp : List PropFormat}
    (hread : ∀ it ∈ vTmp, ∃ n, s2u (v.prop it.s) = .ok n) (id : Time) :
    (vTmp.foldlM (fun (id : Time) it => do
        let val ← v.u 64 it.s
        return id ||| ((val &&& ((1#64 <<< it.bits) - 1)) <<< it.pos)) id : Except String Time) =
      .ok (vTmp.foldl (fun id it => id ||| ((v.fieldValue it.s &&& it.msk) <<< it.pos)) id) := by
  induction vTmp generalizing id with
  | nil => rfl
  | cons it vTmp ih =>
    obtain ⟨n, hn⟩ := hread it List.mem_cons_self
    have hval : v.u 64 it.s = .ok (v.fieldValue it.s) := by
      unfold MyVertex.u MyVertex.fieldValue
      rw [hn]
    rw [List.foldlM_cons, List.foldl_cons, hval]
    exact ih (fun x hx => hread x (List.mem_cons_of_mem it hx)) _

theorem completeId_fields {v : MyVertex} {fid : BitVec 8} {vTmp : List PropFormat}
    (hid : v.prop .id = sUndefined64) (hfid : v.u 8 .fid = .ok fid)
    (hfmt : idFormats[(fid &&& 0xf).toNat]? = some vTmp)
    (hread : ∀ it ∈ vTmp, ∃ n, s2u (v.prop it.s) = .ok n) :
    completeId v = .ok (v.put .id (hexText 0 (assemble v.fieldValue vTmp).toNat)) := by
  unfold completeId
  simp only [if_pos hid, hfid, bind, Except.bind, hfmt]
  have hfold := foldlM_fields hread 0
  simp only [bind, Except.bind] at hfold
  rw [hfold]
  rfl

def fieldMsk (vTmp : List PropFormat) : Time := vTmp.foldl (fun m it => m ||| (it.msk <<< it.pos)) 0

/-- **The subfields as the visitors write them give back the identifier**, without its
reserved bits. -/
theorem assemble_subfields {val : Property → Time} {id : Time} {vTmp : List PropFormat}
    (hval : ∀ it ∈ vTmp, val it.s = subfield id it) : assemble val vTmp = id &&& fieldMsk vTmp := by
  have hstep : ∀ (l : List PropFormat) (m : Time), (∀ it ∈ l, val it.s = subfield id it) →
      l.foldl (fun id it => id ||| ((val it.s &&& it.msk) <<< it.pos)) (id &&& m) =
        id &&& l.foldl (fun m it => m ||| (it.msk <<< it.pos)) m := by
    intro l
    induction l with
    | nil => intro m _; rfl
    | cons it l ih =>
      intro m hl
      have hfield : (val it.s &&& it.msk) <<< it.pos = id &&& (it.msk <<< it.pos) := by
        rw [hl it List.mem_cons_self, subfield, ← PropFormat.msk, BitVec.and_assoc, BitVec.and_self,
          BitFields.shift_field]
      rw [List.foldl_cons, List.foldl_cons, hfield, ← BitVec.and_or_distrib_left]
      exact ih _ fun x hx => hl x (List.mem_cons_of_mem it hx)
  have h := hstep vTmp 0 hval
  rwa [show id &&& (0 : Time) = 0 from BitVec.and_zero] at h

/-! ### From the identifier to subfields -/

/-- What `completeId` leaves of every identifier. -/
def splitZero (v : MyVertex) : MyVertex :=
  ((((v.put .fid "0").put .gid "00").put .evtno "000").put .sid "0000").put .bpid "00000"

def format0 : List PropFormat :=
  [⟨.fid, 60, 4⟩, ⟨.gid, 48, 12⟩, ⟨.evtno, 36, 12⟩, ⟨.sid, 24, 12⟩, ⟨.bpid, 10, 14⟩]

theorem subfield_byte (x : BitVec 8) : ∀ it ∈ format0, subfield (x.setWidth 64) it = 0 := by
  revert x
  decide

/-- Whatever the identifier is, every field is found to be zero. -/
theorem completeId_split {v : MyVertex} {n : Nat} (hid : v.prop .id ≠ sUndefined64)
    (hread : s2u (v.prop .id) = .ok n) : completeId v = .ok (splitZero v) := by
  have hbyte : v.u 8 .id = .ok (BitVec.ofNat 8 n) := by
    unfold MyVertex.u
    rw [hread]
  have hzero := subfield_byte (BitVec.ofNat 8 n)
  simp only [format0, List.forall_mem_cons] at hzero
  obtain ⟨h1, h2, h3, h4, h5, -⟩ := hzero
  unfold completeId
  simp only [if_neg hid, hbyte, bind, Except.bind, fidOf_byte]
  change Except.ok (putSubfields v ((BitVec.ofNat 8 n).setWidth 64) format0) = _
  simp only [putSubfields, format0, List.foldl, h1, h2, h3, h4, h5]
  rfl

/-! ### Round trips -/

/-- The identifier of the vertex comes back when its subfields are split off and joined
again. -/
def IdSurvives (v : MyVertex) : Prop :=
  ∃ v₁ v₂, completeId v = .ok v₁ ∧ completeId (v₁.put .id sUndefined64) = .ok v₂ ∧
    s2u (v₂.prop .id) = s2u (v.prop .id)

/-- The subfields of the vertex come back when they are joined and split off again. -/
def FieldsSurvive (v : MyVertex) (vTmp : List PropFormat) : Prop :=
  ∃ v₁ v₂, completeId v = .ok v₁ ∧ completeId v₁ = .ok v₂ ∧
    ∀ it ∈ vTmp, s2u (v₂.prop it.s) = s2u (v.prop it.s)

def commonFields : List Property := [.fid, .gid, .evtno, .sid, .bpid]

theorem splitZero_common {v : MyVertex} {p : Property} (hp : p ∈ commonFields) :
    s2u ((splitZero v).prop p) = .ok 0 := by
  simp only [commonFields, List.mem_cons, List.not_mem_nil, or_false] at hp
  rcases hp with rfl | rfl | rfl | rfl | rfl
  · exact show s2u "0" = .ok 0 by decide
  · exact show s2u "00" = .ok 0 by decide
  · exact show s2u "000" = .ok 0 by decide
  · exact show s2u "0000" = .ok 0 by decide
  · exact show s2u "00000" = .ok 0 by decide

theorem splitZero_other {v : MyVertex} {p : Property} (hp : p ∉ commonFields) :
    (splitZero v).prop p = v.prop p := by
  simp only [commonFields, List.mem_cons, List.not_mem_nil, or_false, not_or] at hp
  obtain ⟨h1, h2, h3, h4, h5⟩ := hp
  simp only [splitZero, MyVertex.put_other h1, MyVertex.put_other h2, MyVertex.put_other h3,
    MyVertex.put_other h4, MyVertex.put_other h5]

theorem completeId_splitZero (v : MyVertex) :
    ∃ v₂, completeId ((splitZero v).put .id sUndefined64) = .ok v₂ ∧ s2u (v₂.prop .id) = .ok 0 := by
  have hvals : ∀ it ∈ format0, s2u (((splitZero v).put .id sUndefined64).prop it.s) = .ok 0 := by
    intro it hit
    have hp : it.s ∈ commonFields := by
      revert hit it
      decide
    have hne : it.s ≠ .id := by
      rintro heq
      rw [heq] at hp
      revert hp
      decide
    rw [MyVertex.put_other hne]
    exact splitZero_common hp
  have hval : assemble ((splitZero v).put .id sUndefined64).fieldValue format0 = 0 := by
    have hsub : ∀ it ∈ format0,
        ((splitZero v).put .id sUndefined64).fieldValue it.s = subfield 0 it := by
      intro it hit
      rw [MyVertex.fieldValue, hvals it hit, subfield]
      simp
    exact (assemble_subfields hsub).trans (BitVec.zero_and ..)
  refine ⟨_, completeId_fields (show _ = sUndefined64 from rfl) (u_of_zero rfl)
    (show idFormats[_]? = some format0 from rfl) fun it hit => ⟨0, hvals it hit⟩, ?_⟩
  rw [hval]
  exact s2u_hexText 0 (by decide)

/-- **Exactly the identifier 0 comes back**, and exactly the vertices whose common subfields
are all 0 get theirs back. -/
theorem eventId_roundTrips {v : MyVertex} :
    (∀ {n : Nat}, v.prop .id ≠ sUndefined64 → s2u (v.prop .id) = .ok n → (IdSurvives v ↔ n = 0)) ∧
      ∀ {fid : BitVec 8} {vTmp : List PropFormat}, v.prop .id = sUndefined64 → v.u 8 .fid = .ok fid →
        idFormats[(fid &&& 0xf).toNat]? = some vTmp →
        (∀ it ∈ vTmp, ∃ n, s2u (v.prop it.s) = .ok n) →
        (FieldsSurvive v vTmp ↔ ∀ p ∈ commonFields, s2u (v.prop p) = .ok 0) := by
  constructor
  · intro n hid hread
    obtain ⟨v₂, hjoin, hzero⟩ := completeId_splitZero v
    constructor
    · rintro ⟨w₁, w₂, h₁, h₂, hsame⟩
      rw [completeId_split hid hread] at h₁
      obtain rfl := Except.ok.inj h₁
      rw [hjoin] at h₂
      obtain rfl := Except.ok.inj h₂
      rw [hzero, hread] at hsame
      exact (Except.ok.inj hsame).symm
    · rintro rfl
      exact ⟨_, v₂, completeId_split hid hread, hjoin, hzero.trans hread.symm⟩
  · intro fid vTmp hid hfid hfmt hread
    have hjoin := completeId_fields hid hfid hfmt hread
    have hsplit := completeId_split (v := v.put .id (hexText 0 (assemble v.fieldValue vTmp).toNat))
      (ne_undefined64 0 _) (s2u_hexText 0 (assemble v.fieldValue vTmp).isLt)
    have hmem : vTmp ∈ idFormats := List.mem_of_getElem? hfmt
    have hcommon : ∀ p ∈ commonFields, ∃ it ∈ vTmp, it.s = p := by
      revert hmem
      clear * -
      revert vTmp
      decide
    have hkept : ∀ it ∈ vTmp, it.s ≠ .id := by
      revert hmem
      clear * -
      revert vTmp
      decide
    constructor
    · rintro ⟨w₁, w₂, h₁, h₂, hsame⟩ p hp
      rw [hjoin] at h₁
      obtain rfl := Except.ok.inj h₁
      rw [hsplit] at h₂
      obtain rfl := Except.ok.inj h₂
      obtain ⟨it, hit, rfl⟩ := hcommon p hp
      rw [← hsame it hit]
      exact splitZero_common hp
    · intro hzero
      refine ⟨_, _, hjoin, hsplit, fun it hit => ?_⟩
      by_cases hp : it.s ∈ commonFields
      · rw [splitZero_common hp, hzero _ hp]
      · rw [splitZero_other hp, MyVertex.put_other (hkept it hit)]

def idVertex (id : String) : MyVertex :=
  (⟨"msg", some .tmsg, Property.initial⟩ : MyVertex).put .id id

def groupVertex (gid : String) : MyVertex :=
  (⟨"msg", some .tmsg, Property.initial⟩ : MyVertex).put .gid gid

theorem idVertex_read : s2u ((idVertex "0x1000000000000").prop .id) = .ok 281474976710656 := by
  decide +kernel

/-- Group 1 in format 0, as an identifier and as a subfield. -/
theorem eventId_roundTrips_group :
    (IdSurvives (idVertex "0x1000000000000") ↔ 281474976710656 = 0) ∧
      (FieldsSurvive (groupVertex "1") format0 ↔
        ∀ p ∈ commonFields, s2u ((groupVertex "1").prop p) = .ok 0) :=
  ⟨eventId_roundTrips.1 (by decide) idVertex_read,
    eventId_roundTrips.2 rfl (show (groupVertex "1").u 8 .fid = .ok 0 by decide) rfl (by
      simp only [format0, List.forall_mem_cons]
      exact ⟨⟨0, by decide⟩, ⟨1, by decide⟩, ⟨0, by decide⟩, ⟨0, by decide⟩, ⟨0, by decide⟩, by simp⟩)⟩

/-- **The identifier is lost**: the one of group 1 comes back as 0, and so does the group. -/
theorem eventId_lost :
    (¬ ∀ (v : MyVertex) (n : Nat), v.prop .id ≠ sUndefined64 → s2u (v.prop .id) = .ok n →
        fidOf (BitVec.ofNat 64 n) < idFormats.length → IdSurvives v) ∧
      ¬ ∀ (v : MyVertex) (fid : BitVec 8) (vTmp : List PropFormat), v.prop .id = sUndefined64 →
        v.u 8 .fid = .ok fid → idFormats[(fid &&& 0xf).toNat]? = some vTmp →
        (∀ it ∈ vTmp, ∃ n, n < 2 ^ it.bits ∧ s2u (v.prop it.s) = .ok n) → FieldsSurvive v vTmp := by
  constructor
  · intro h
    obtain ⟨v₁, v₂, h₁, h₂, hsame⟩ := h (idVertex "0x1000000000000") _ (by decide) idVertex_read
      (by decide)
    rw [completeId_split (by decide) idVertex_read] at h₁
    obtain rfl := Except.ok.inj h₁
    obtain ⟨w, hjoin, hzero⟩ := completeId_splitZero (idVertex "0x1000000000000")
    rw [hjoin] at h₂
    obtain rfl := Except.ok.inj h₂
    rw [hzero, idVertex_read] at hsame
    exact absurd (Except.ok.inj hsame) (by decide)
  · intro h
    have hread : ∀ it ∈ format0, ∃ n, n < 2 ^ it.bits ∧ s2u ((groupVertex "1").prop it.s) = .ok n := by
      simp only [format0, List.forall_mem_cons]
      exact ⟨⟨0, by decide⟩, ⟨1, by decide⟩, ⟨0, by decide⟩, ⟨0, by decide⟩, ⟨0, by decide⟩, by simp⟩
    obtain ⟨v₁, v₂, h₁, h₂, hsame⟩ := h (groupVertex "1") 0 _ rfl (by decide) rfl hread
    rw [completeId_fields rfl (u_of_zero rfl) (show idFormats[_]? = some format0 from rfl)
      fun it hit => (hread it hit).imp fun n hn => hn.2] at h₁
    obtain rfl := Except.ok.inj h₁
    rw [completeId_split (ne_undefined64 0 _) (s2u_hexText 0 (BitVec.isLt _))] at h₂
    obtain rfl := Except.ok.inj h₂
    have hgid := hsame ⟨.gid, 48, 12⟩ (by simp)
    rw [splitZero_common (by decide)] at hgid
    exact absurd hgid (by decide)

end DataMaster.Dot
