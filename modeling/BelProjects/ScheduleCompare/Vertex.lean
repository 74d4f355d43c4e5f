import BelProjects.Library.Numerals

/-!
# Comparison of two vertices

All members of a vertex are strings, empty when the dot file does not set them.  Vertices of
one type are compared member by member, each as text, as a truth value or as a hexadecimal
number; the result of the first comparison that is not zero is the result of all.
-/

namespace ScheduleCompare

/-- The members of `ScheduleVertex` that a dot file can set. -/
inductive Member
  | name | label | pos | draw | ldraw | hdraw | height | width | type | tperiod | qlo | qhi | qil
  | toffs | tef | par | id | fid | gid | evtno | sid | bpid | beamin | bpcstart | reqnobeam | vacc
  | res | tvalid | tabs | target | dst | reps | prio | twait | wabs | clear | ovr | beamproc
  | pattern | patentry | patexit | bpentry | bpexit | permanent | thread | startoffs | cpu | qty
  | vabs | flags | shape | penwidth | fillcolor | color | style
  deriving DecidableEq, Repr

structure ScheduleVertex where
  member : Member → String := fun _ => ""
  compareNames : Bool := true

inductive ValueType
  | STRING | BOOLEAN | HEX
  deriving DecidableEq, Repr

/-! ### Values -/

/-- `std::string::compare`. -/
def compareText (s1 s2 : String) : Int := if s1 < s2 then -1 else if s1 = s2 then 0 else 1

def isTrue (s : String) : Bool := s = "1" ∨ s = "True" ∨ s = "true"

def isFalse (s : String) : Bool := s = "" ∨ s = "0" ∨ s = "False" ∨ s = "false"

def compareBoolean (bool1 bool2 : String) : Int :=
  if isTrue bool1 then (if isTrue bool2 then 0 else 1)
  else if isFalse bool1 then (if isFalse bool2 then 0 else 1)
  else -1

/-- Whether a text starts with another one. Without `caseSensitive` both are taken to lower
case. -/
def startsWith (value start : String) (caseSensitive : Bool) : Bool :=
  if caseSensitive then start.toList.isPrefixOf value.toList
  else (start.toList.map Char.toLower).isPrefixOf (value.toList.map Char.toLower)

def isSpace (c : Char) : Bool := c = ' ' ∨ (9 ≤ c.toNat ∧ c.toNat ≤ 13)

/-- A numeral too large for an `unsigned long` gives the largest one. -/
def unsignedLong (negative : Bool) (n : Nat) : Nat :=
  if 2 ^ 64 ≤ n then 2 ^ 64 - 1 else if negative then (2 ^ 64 - n) % 2 ^ 64 else n

def skipHexPrefix : List Char → List Char
  | '0' :: 'x' :: cs => cs
  | '0' :: 'X' :: cs => cs
  | cs => cs

def leadingDigits (hex : Bool) (cs : List Char) : Nat :=
  if hex then Numerals.leading 16 0 (skipHexPrefix cs) else Numerals.leading 10 0 cs

/-- `stream >> x` for an `unsigned long`, with `std::hex` or without. When nothing but space
is in the stream, `x` keeps what it held before. -/
def streamValue (unset : Nat) (hex : Bool) (s : String) : Nat :=
  match s.toList.dropWhile isSpace with
  | [] => unset
  | '-' :: cs => unsignedLong true (leadingDigits hex cs)
  | '+' :: cs => unsignedLong false (leadingDigits hex cs)
  | cs => unsignedLong false (leadingDigits hex cs)

def compareNumbers (x1 x2 : Nat) : Int := if x1 < x2 then -1 else if x1 > x2 then 1 else 0

section Compare

-- what the variables `x1` and `x2` of `compareHex` hold when they are not set
variable (unset : Nat)

def compareHex (hex1 hex2 : String) : Int :=
  if startsWith hex1 "0x" false ∧ startsWith hex2 "0X" false then
    compareNumbers (streamValue unset true hex1) (streamValue unset true hex2)
  else if startsWith hex1 "0x" false ∧ ¬ startsWith hex2 "0X" false then
    compareNumbers (streamValue unset true hex1) (streamValue unset false hex2)
  else if ¬ startsWith hex1 "0x" false ∧ startsWith hex2 "0X" false then
    compareNumbers (streamValue unset false hex1) (streamValue unset true hex2)
  else compareText hex1 hex2

def compareValues (value1 value2 : String) : ValueType → Int
  | .BOOLEAN => compareBoolean value1 value2
  | .HEX => compareHex unset value1 value2
  | .STRING => compareText value1 value2

/-! ### Types -/

def compareMembers (fields : List (Member × ValueType)) (v1 v2 : ScheduleVertex) : Int :=
  match fields with
  | [] => 0
  | (m, t) :: rest =>
    let result := compareValues unset (v1.member m) (v2.member m) t
    if result ≠ 0 then result else compareMembers rest v1 v2

def blockMembers : List (Member × ValueType) :=
  [(.tperiod, .STRING), (.cpu, .STRING), (.patentry, .BOOLEAN), (.patexit, .BOOLEAN),
    (.pattern, .STRING), (.bpentry, .BOOLEAN), (.bpexit, .BOOLEAN), (.beamproc, .STRING),
    (.qlo, .BOOLEAN), (.qhi, .BOOLEAN), (.qil, .BOOLEAN)]

def flowMembers : List (Member × ValueType) :=
  [(.pattern, .STRING), (.cpu, .STRING), (.beamproc, .STRING), (.patentry, .BOOLEAN),
    (.bpentry, .BOOLEAN), (.qlo, .BOOLEAN), (.qhi, .BOOLEAN), (.qil, .BOOLEAN), (.target, .STRING),
    (.tvalid, .STRING), (.toffs, .STRING), (.tabs, .BOOLEAN), (.prio, .STRING), (.reps, .STRING),
    (.qty, .STRING), (.permanent, .BOOLEAN), (.dst, .STRING)]

def flushMembers : List (Member × ValueType) :=
  [(.target, .STRING), (.tvalid, .STRING), (.tabs, .BOOLEAN), (.clear, .STRING), (.ovr, .STRING)]

def listdstMembers : List (Member × ValueType) :=
  [(.pattern, .STRING), (.cpu, .STRING), (.beamproc, .STRING)]

def noopMembers : List (Member × ValueType) :=
  [(.pattern, .STRING), (.cpu, .STRING), (.tvalid, .STRING), (.vabs, .BOOLEAN), (.toffs, .STRING),
    (.prio, .STRING), (.qty, .STRING), (.beamproc, .STRING)]

def qbufMembers : List (Member × ValueType) :=
  [(.pattern, .STRING), (.cpu, .STRING), (.beamproc, .STRING)]

def qinfoMembers : List (Member × ValueType) :=
  [(.pattern, .STRING), (.cpu, .STRING), (.beamproc, .STRING)]

def switchMembers : List (Member × ValueType) :=
  [(.target, .STRING), (.tvalid, .STRING), (.tabs, .BOOLEAN), (.dst, .STRING)]

def originMembers : List (Member × ValueType) := [(.pattern, .STRING), (.thread, .STRING)]

def startthreadMembers : List (Member × ValueType) :=
  [(.pattern, .STRING), (.startoffs, .STRING), (.thread, .STRING)]

def tmsgMembers : List (Member × ValueType) :=
  [(.pattern, .STRING), (.cpu, .STRING), (.beamproc, .STRING), (.patentry, .BOOLEAN),
    (.bpentry, .BOOLEAN), (.toffs, .STRING), (.tef, .STRING), (.par, .HEX), (.id, .STRING),
    (.fid, .STRING), (.gid, .STRING), (.evtno, .STRING), (.sid, .STRING), (.bpid, .STRING),
    (.beamin, .STRING), (.bpcstart, .STRING), (.reqnobeam, .STRING), (.vacc, .STRING),
    (.res, .STRING)]

def waitMembers : List (Member × ValueType) :=
  [(.target, .STRING), (.tvalid, .STRING), (.tabs, .BOOLEAN), (.twait, .STRING), (.wabs, .BOOLEAN)]

def compareBlock := compareMembers unset blockMembers
def compareFlow := compareMembers unset flowMembers
def compareFlush := compareMembers unset flushMembers
def compareListdst := compareMembers unset listdstMembers
def compareNoop := compareMembers unset noopMembers
def compareQbuf := compareMembers unset qbufMembers
def compareQinfo := compareMembers unset qinfoMembers
def compareSwitch := compareMembers unset switchMembers
def compareOrigin := compareMembers unset originMembers
def compareStartthread := compareMembers unset startthreadMembers
def compareTmsg := compareMembers unset tmsgMembers
def compareWait := compareMembers unset waitMembers

def compare (v1 v2 : ScheduleVertex) : Int :=
  if ¬ v1.compareNames ∨ v1.member .name = v2.member .name then
    if v1.member .type = "" then 0
    else if v1.member .type = v2.member .type then
      if "block" = v1.member .type ∨ "blockalign" = v1.member .type then compareBlock unset v1 v2
      else if "flow" = v1.member .type then compareFlow unset v1 v2
      else if "flush" = v1.member .type then compareFlush unset v1 v2
      else if "listdst" = v1.member .type then compareListdst unset v1 v2
      else if "noop" = v1.member .type then compareNoop unset v1 v2
      else if "qbuf" = v1.member .type then compareQbuf unset v1 v2
      else if "qinfo" = v1.member .type then compareQinfo unset v1 v2
      else if "switch" = v1.member .type then compareSwitch unset v1 v2
      else if "origin" = v1.member .type then compareOrigin unset v1 v2
      else if "startthread" = v1.member .type then compareStartthread unset v1 v2
      else if "tmsg" = v1.member .type then compareTmsg unset v1 v2
      else if "wait" = v1.member .type then compareWait unset v1 v2
      else -1
    else compareText (v1.member .type) (v2.member .type)
  else
    -- the result is a `bool`
    if ¬ v1.compareNames ∨ compareText (v1.member .name) (v2.member .name) ≠ 0 then 1 else 0

end Compare

/-! ### When vertices compare equal -/

def membersOf (type : String) : Option (List (Member × ValueType)) :=
  if "block" = type ∨ "blockalign" = type then some blockMembers
  else if "flow" = type then some flowMembers
  else if "flush" = type then some flushMembers
  else if "listdst" = type then some listdstMembers
  else if "noop" = type then some noopMembers
  else if "qbuf" = type then some qbufMembers
  else if "qinfo" = type then some qinfoMembers
  else if "switch" = type then some switchMembers
  else if "origin" = type then some originMembers
  else if "startthread" = type then some startthreadMembers
  else if "tmsg" = type then some tmsgMembers
  else if "wait" = type then some waitMembers
  else none

def allMembers : List (List (Member × ValueType)) :=
  [blockMembers, flowMembers, flushMembers, listdstMembers, noopMembers, qbufMembers, qinfoMembers,
    switchMembers, originMembers, startthreadMembers, tmsgMembers, waitMembers]

theorem some_of_ite {α : Type} {c : Prop} [Decidable c] {x y : α} {rest : Option α}
    (h : (if c then some y else rest) = some x) : y = x ∨ rest = some x := by
  split at h
  · exact Or.inl (Option.some.inj h)
  · exact Or.inr h

theorem membersOf_mem {type : String} {fields : List (Member × ValueType)}
    (h : membersOf type = some fields) : fields ∈ allMembers := by
  have hsome {x : List (Member × ValueType)} (hx : x ∈ allMembers) {c : Prop} [Decidable c]
      {rest : Option (List (Member × ValueType))} (h : (if c then some x else rest) = some fields)
      (hrest : rest = some fields → fields ∈ allMembers) : fields ∈ allMembers :=
    (some_of_ite h).elim (fun heq => heq ▸ hx) hrest
  unfold membersOf at h
  refine hsome (by simp [allMembers]) h fun h => ?_
  refine hsome (by simp [allMembers]) h fun h => ?_
  refine hsome (by simp [allMembers]) h fun h => ?_
  refine hsome (by simp [allMembers]) h fun h => ?_
  refine hsome (by simp [allMembers]) h fun h => ?_
  refine hsome (by simp [allMembers]) h fun h => ?_
  refine hsome (by simp [allMembers]) h fun h => ?_
  refine hsome (by simp [allMembers]) h fun h => ?_
  refine hsome (by simp [allMembers]) h fun h => ?_
  refine hsome (by simp [allMembers]) h fun h => ?_
  refine hsome (by simp [allMembers]) h fun h => ?_
  refine hsome (by simp [allMembers]) h fun h => ?_
  cases h

/-- Texts of one truth value. -/
def SameTruth (s1 s2 : String) : Prop :=
  (isTrue s1 = true ∧ isTrue s2 = true) ∨ (isFalse s1 = true ∧ isFalse s2 = true)

def isHex (s : String) : Bool := startsWith s "0x" false

/-- Texts of one number: hexadecimal for those that start with `0x`, decimal for others. Two
of the others are the same number only as the same text. -/
def SameHex (unset : Nat) (s1 s2 : String) : Prop :=
  if isHex s1 ∨ isHex s2 then streamValue unset (isHex s1) s1 = streamValue unset (isHex s2) s2
  else s1 = s2

def SameValue (unset : Nat) (s1 s2 : String) : ValueType → Prop
  | .STRING => s1 = s2
  | .BOOLEAN => SameTruth s1 s2
  | .HEX => SameHex unset s1 s2

theorem compareText_eq_zero {s1 s2 : String} : compareText s1 s2 = 0 ↔ s1 = s2 := by
  unfold compareText
  constructor
  · intro h
    split at h
    · cases h
    · split at h
      · assumption
      · cases h
  · rintro rfl
    rw [if_neg (String.lt_irrefl s1), if_pos rfl]

theorem compareNumbers_eq_zero {x1 x2 : Nat} : compareNumbers x1 x2 = 0 ↔ x1 = x2 := by
  unfold compareNumbers
  split <;> [skip; split] <;> omega

theorem not_isFalse {s : String} (h : isTrue s = true) : isFalse s = false := by
  simp only [isTrue, decide_eq_true_eq] at h
  rcases h with rfl | rfl | rfl <;> decide

theorem compareBoolean_eq_zero {s1 s2 : String} : compareBoolean s1 s2 = 0 ↔ SameTruth s1 s2 := by
  unfold compareBoolean SameTruth
  cases h1 : isTrue s1 with
  | true =>
    have hfalse := not_isFalse h1
    cases h2 : isTrue s2 <;> simp [hfalse]
  | false =>
    cases h3 : isFalse s1 <;> cases h4 : isFalse s2 <;> simp

theorem startsWith_upper (s : String) : startsWith s "0X" false = isHex s := by
  have hlower : "0X".toList.map Char.toLower = "0x".toList.map Char.toLower := by decide +kernel
  simp only [isHex, startsWith, Bool.false_eq_true, if_false, hlower]

variable {unset : Nat}

theorem compareHex_eq_zero {s1 s2 : String} : compareHex unset s1 s2 = 0 ↔ SameHex unset s1 s2 := by
  have hlower : startsWith s1 "0x" false = isHex s1 := rfl
  unfold compareHex SameHex
  rw [startsWith_upper, hlower]
  by_cases h1 : isHex s1 = true <;> by_cases h2 : isHex s2 = true <;>
    simp [h1, h2, compareNumbers_eq_zero, compareText_eq_zero]

theorem compareValues_eq_zero {s1 s2 : String} {t : ValueType} :
    compareValues unset s1 s2 t = 0 ↔ SameValue unset s1 s2 t := by
  cases t with
  | STRING => exact compareText_eq_zero
  | BOOLEAN => exact compareBoolean_eq_zero
  | HEX => exact compareHex_eq_zero

variable {v1 v2 : ScheduleVertex}

theorem compareMembers_eq_zero {fields : List (Member × ValueType)} :
    compareMembers unset fields v1 v2 = 0 ↔
      ∀ f ∈ fields, SameValue unset (v1.member f.1) (v2.member f.1) f.2 := by
  induction fields with
  | nil => simp [compareMembers]
  | cons f rest ih =>
    rw [compareMembers, List.forall_mem_cons, ← ih, ← compareValues_eq_zero]
    split
    · rename_i h
      exact ⟨fun h0 => absurd h0 h, fun h0 => absurd h0.1 h⟩
    · rename_i h
      exact ⟨fun h0 => ⟨not_not.mp h, h0⟩, fun h0 => h0.2⟩

/-- The vertex of the first graph is of no type, or both are of the same known type and agree
in the members compared for it. -/
def SameMembers (unset : Nat) (v1 v2 : ScheduleVertex) : Prop :=
  v1.member .type = "" ∨ v1.member .type = v2.member .type ∧
    ∃ fields, membersOf (v1.member .type) = some fields ∧
      ∀ f ∈ fields, SameValue unset (v1.member f.1) (v2.member f.1) f.2

/-- The comparison for a type with these members; unknown types never compare equal. -/
def compareType (unset : Nat) (v1 v2 : ScheduleVertex) : Option (List (Member × ValueType)) → Int
  | some fields => compareMembers unset fields v1 v2
  | none => -1

theorem compareType_ite {c : Prop} [Decidable c] {fields : List (Member × ValueType)}
    {rest : Option (List (Member × ValueType))} :
    compareType unset v1 v2 (if c then some fields else rest) =
      if c then compareMembers unset fields v1 v2 else compareType unset v1 v2 rest := by
  split <;> rfl

theorem compare_of_name (hname : ¬ v1.compareNames = true ∨ v1.member .name = v2.member .name) :
    compare unset v1 v2 =
      if v1.member .type = "" then 0
      else if v1.member .type = v2.member .type then
        compareType unset v1 v2 (membersOf (v1.member .type))
      else compareText (v1.member .type) (v2.member .type) := by
  unfold compare membersOf
  rw [if_pos hname]
  simp only [compareType_ite]
  rfl

theorem compareType_eq_zero {fields : Option (List (Member × ValueType))} :
    compareType unset v1 v2 fields = 0 ↔
      ∃ fs, fields = some fs ∧ ∀ f ∈ fs, SameValue unset (v1.member f.1) (v2.member f.1) f.2 := by
  cases fields with
  | none => simp [compareType]
  | some fs => simp [compareType, compareMembers_eq_zero]

theorem compare_eq_zero (hnames : v1.compareNames = true) :
    compare unset v1 v2 = 0 ↔
      v1.member .name = v2.member .name ∧ SameMembers unset v1 v2 := by
  by_cases hname : v1.member .name = v2.member .name
  · rw [compare_of_name (Or.inr hname), SameMembers]
    by_cases htype : v1.member .type = ""
    · simp [htype, hname]
    · rw [if_neg htype]
      by_cases heq : v1.member .type = v2.member .type
      · rw [if_pos heq, compareType_eq_zero]
        exact ⟨fun h => ⟨hname, Or.inr ⟨heq, h⟩⟩, fun h => (h.2.resolve_left htype).2⟩
      · rw [if_neg heq, compareText_eq_zero]
        exact ⟨fun h => absurd h heq, fun h => absurd (h.2.resolve_left htype).1 heq⟩
  · unfold compare
    simp [hnames, hname, compareText_eq_zero]

/-! ### Hexadecimal numerals -/

theorem of_toLower {c l : Char} (h : c.toLower = l) :
    c = l ∨ 65 ≤ c.toNat ∧ c.toNat ≤ 90 ∧ l.toNat = c.toNat + 32 := by
  unfold Char.toLower at h
  split at h
  · rename_i hupper
    right
    have hlow : 65 ≤ c.toNat := hupper.1
    have hhigh : c.toNat ≤ 90 := hupper.2
    refine ⟨hlow, hhigh, ?_⟩
    rw [← h]
    change (c.val + 32).toNat = c.val.toNat + 32
    rw [UInt32.toNat_add]
    have : c.val.toNat ≤ 90 := hhigh
    simp
    omega
  · exact Or.inl h

theorem hex_shape {s : String} (h : isHex s = true) :
    ∃ cs, s.toList = '0' :: 'x' :: cs ∨ s.toList = '0' :: 'X' :: cs := by
  unfold isHex startsWith at h
  rw [if_neg Bool.false_ne_true, List.isPrefixOf_iff_prefix] at h
  have hlist : "0x".toList.map Char.toLower = ['0', 'x'] := by decide +kernel
  rw [hlist] at h
  obtain ⟨rest, hrest⟩ := h
  cases hs : s.toList with
  | nil => rw [hs] at hrest; cases hrest
  | cons c cs =>
    rw [hs] at hrest
    cases cs with
    | nil => simp at hrest
    | cons c' cs =>
      simp only [List.map_cons, List.cons_append, List.nil_append, List.cons.injEq] at hrest
      obtain ⟨h0, hx, -⟩ := hrest
      refine ⟨cs, ?_⟩
      have hc : c = '0' := by
        rcases of_toLower h0.symm with h | ⟨h1, -, h2⟩
        · exact h
        · have h48 : '0'.toNat = 48 := rfl
          omega
      rcases of_toLower hx.symm with h | ⟨-, -, h2⟩
      · exact Or.inl (by rw [hc, h])
      · have h120 : 'x'.toNat = 120 := rfl
        have hX : c' = 'X' := Char.ext (UInt32.toNat_inj.mp (by
          change c'.toNat = 88
          omega))
        exact Or.inr (by rw [hc, hX])

theorem streamValue_hex {s : String} (h : isHex s = true) :
    streamValue unset true s = unsignedLong false (Numerals.leading 16 0 (s.toList.drop 2)) := by
  obtain ⟨cs, hcs | hcs⟩ := hex_shape h
  · rw [streamValue, hcs]
    rfl
  · rw [streamValue, hcs]
    rfl

end ScheduleCompare
