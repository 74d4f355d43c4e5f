import BelProjects.PrioQueue.Sorter
import BelProjects.Library.Clocked

/-!
# The arbiter of the priority queue

Up to nine queues offer the words of their timing messages.  The sorting tree names the queue
with the smallest timestamp; it is granted the output when no granted queue is in a bus
cycle, and keeps it until it ends its cycle.
-/

namespace PrioQueue

structure MasterOut where
  cyc : Bool
  stb : Bool
  adr : Word
  sel : BitVec 4
  we : Bool
  dat : Word
  deriving DecidableEq, Repr

structure MasterIn where
  ack : Bool
  err : Bool
  rty : Bool
  stall : Bool
  dat : Word
  deriving DecidableEq, Repr

/-- The generics, with the number of queues that the sorting tree has room for. -/
structure Generics where
  pkg : MatrixPkg
  g_num_masters : Nat
  masters_le : g_num_masters ≤ 9

variable {n : Nat}

/-! ### The multiplexers -/

def vectorOr (x : Fin n → Bool) : Bool := (List.finRange n).any x

/-- `slave_matrix_OR`, on the rows of one line. -/
def matrixOr {w : Nat} (x : Fin n → BitVec w) : BitVec w :=
  (List.finRange n).foldr (fun m acc => x m ||| acc) 0

def gate {w : Nat} (x : BitVec w) (grant : Bool) : BitVec w := if grant = true then x else 0

def slaveLogic (adr : Word) (granted : Fin n → Bool) (slave_i : Fin n → MasterOut) : MasterOut :=
  { cyc := vectorOr fun m => (slave_i m).cyc && granted m
    stb := vectorOr fun m => (slave_i m).stb && granted m
    adr
    sel := matrixOr fun m => gate (slave_i m).sel (granted m)
    we := vectorOr fun m => (slave_i m).we && granted m
    dat := matrixOr fun m => gate (slave_i m).dat (granted m) }

/-- What queue `m` receives; without a grant it is stalled. -/
def masterLogic (m : Fin n) (granted : Fin n → Bool) (master_ie : MasterIn) : MasterIn :=
  { ack := master_ie.ack && granted m
    err := master_ie.err && granted m
    rty := master_ie.rty && granted m
    stall := !(!master_ie.stall && granted m)
    dat := gate master_ie.dat (granted m) }

/-! ### The grant -/

def matrixLogic (ts_priority : Fin n → Bool) (en : Bool) (matrix_old : Fin n → Bool)
    (slave_i : Fin n → MasterOut) (m : Fin n) : Bool :=
  let sbusy := vectorOr fun m => matrix_old m && (slave_i m).cyc
  let mbusy := matrix_old m && (slave_i m).cyc
  let selected := (slave_i m).cyc && (slave_i m).stb && ts_priority m && en
  if sbusy = true ∨ mbusy = true then matrix_old m else selected

/-! ### Cycles -/

/-- The inputs in one cycle, with the outputs of the queue units. -/
structure Inputs (g : Generics) where
  rst_n : Bool
  en : Bool
  dst_adr : Word
  masters_o : Fin g.g_num_masters → MasterOut
  ts : Fin g.g_num_masters → Long
  valids : Fin g.g_num_masters → Bool
  master_i : MasterIn

structure State (g : Generics) where
  sorter : Sorter
  matrix_old : Fin g.g_num_masters → Bool

variable {g : Generics}

/-- `s_ts_array`; the channels without a queue are tied to zero. -/
def Inputs.tsArray (i : Inputs g) (q : Fin 9) : Long :=
  if h : q < g.g_num_masters then i.ts ⟨q, h⟩ else 0

def Inputs.emptys (i : Inputs g) (q : Fin 9) : Bool :=
  !(if h : q < g.g_num_masters then i.valids ⟨q, h⟩ else false)

def chan (m : Fin g.g_num_masters) : Fin 9 := m.castLE g.masters_le

def State.reset (g : Generics) : State g :=
  { sorter := Sorter.reset, matrix_old := fun _ => false }

def State.matrixNew (s : State g) (i : Inputs g) : Fin g.g_num_masters → Bool :=
  matrixLogic (fun m => s.sorter.y (chan m)) i.en s.matrix_old i.masters_o

def State.step (i : Inputs g) (s : State g) : State g :=
  { sorter := s.sorter.step g.pkg i.rst_n i.tsArray i.emptys
    matrix_old := if i.rst_n = false then fun _ => false else s.matrixNew i }

def stateAt (inp : Nat → Inputs g) (t : Nat) : State g := Clocked.trace State.step (.reset g) inp t

def granted (inp : Nat → Inputs g) (t : Nat) : Fin g.g_num_masters → Bool := (stateAt inp t).matrix_old

def masterO (inp : Nat → Inputs g) (t : Nat) : MasterOut :=
  slaveLogic (inp t).dst_adr (granted inp t) (inp t).masters_o

/-- What queue `m` sees of the slave. -/
def mastersI (inp : Nat → Inputs g) (t : Nat) (m : Fin g.g_num_masters) : MasterIn :=
  masterLogic m (granted inp t) (inp t).master_i

/-! ### One grant at a time -/

theorem vectorOr_iff (x : Fin n → Bool) : vectorOr x = true ↔ ∃ m, x m = true := by
  rw [vectorOr, List.any_eq_true]
  exact ⟨fun ⟨m, _, hm⟩ => ⟨m, hm⟩, fun ⟨m, hm⟩ => ⟨m, List.mem_finRange m, hm⟩⟩

theorem vectorOr_granted {x grant : Fin n → Bool} {m : Fin n} (h : ∀ m', grant m' = true ↔ m' = m) :
    (vectorOr fun m' => x m' && grant m') = x m := by
  apply Bool.eq_iff_iff.mpr
  rw [vectorOr_iff]
  constructor
  · rintro ⟨m', hm'⟩
    obtain ⟨hx, hgrant⟩ := (Bool.and_eq_true _ _).mp hm'
    rwa [← (h m').mp hgrant]
  · intro hx
    exact ⟨m, (Bool.and_eq_true _ _).mpr ⟨hx, (h m).mpr rfl⟩⟩

theorem matrixOr_granted {w : Nat} {x : Fin n → BitVec w} {grant : Fin n → Bool} {m : Fin n}
    (h : ∀ m', grant m' = true ↔ m' = m) : (matrixOr fun m' => gate (x m') (grant m')) = x m := by
  have hfold : ∀ l : List (Fin n), l.foldr (fun m' acc => gate (x m') (grant m') ||| acc) 0 =
      if m ∈ l then x m else 0 := by
    intro l
    induction l with
    | nil => rfl
    | cons m' l ih =>
        rw [List.foldr_cons, ih, gate]
        by_cases hm : m' = m
        · rw [if_pos ((h m').mpr hm), if_pos (List.mem_cons.mpr (Or.inl hm.symm)), hm]
          split
          · exact BitVec.or_self
          · exact BitVec.or_zero
        · have hzero : ∀ v : BitVec w, 0 ||| v = v := fun v => BitVec.zero_or
          rw [if_neg (mt (h m').mp hm), hzero]
          refine if_congr ?_ rfl rfl
          rw [List.mem_cons]
          exact (or_iff_right (Ne.symm hm)).symm
  rw [matrixOr, hfold, if_pos (List.mem_finRange m)]

theorem slaveLogic_granted {adr : Word} {grant : Fin n → Bool} {slave_i : Fin n → MasterOut} {m : Fin n}
    (h : ∀ m', grant m' = true ↔ m' = m) :
    slaveLogic adr grant slave_i = { slave_i m with adr } := by
  rw [slaveLogic, vectorOr_granted h, vectorOr_granted h, vectorOr_granted h, matrixOr_granted h,
    matrixOr_granted h]

/-- Some granted queue is in a bus cycle. -/
def Busy (inp : Nat → Inputs g) (t : Nat) : Prop :=
  ∃ m, granted inp t m = true ∧ ((inp t).masters_o m).cyc = true

/-- Queue `m` asks for the output and has the smallest timestamp, as the tree sees it. -/
structure Wins (inp : Nat → Inputs g) (t : Nat) (m : Fin g.g_num_masters) : Prop where
  cyc : ((inp t).masters_o m).cyc = true
  stb : ((inp t).masters_o m).stb = true
  prio : (stateAt inp t).sorter.y (chan m) = true
  en : (inp t).en = true

theorem stateAt_succ (inp : Nat → Inputs g) (t : Nat) :
    stateAt inp (t + 1) = State.step (inp t) (stateAt inp t) := Clocked.trace_succ ..

/-- **One clock edge of the grant.** -/
theorem granted_succ (inp : Nat → Inputs g) (t : Nat) (m : Fin g.g_num_masters) :
    granted inp (t + 1) m = true ↔
      (inp t).rst_n = true ∧
        (Busy inp t ∧ granted inp t m = true ∨ ¬ Busy inp t ∧ Wins inp t m) := by
  have hnew : granted inp (t + 1) m =
      (if (inp t).rst_n = false then fun _ => false else (stateAt inp t).matrixNew (inp t)) m := by
    rw [granted, stateAt_succ]
    rfl
  have hbusy : (vectorOr fun m => granted inp t m && ((inp t).masters_o m).cyc) = true ↔ Busy inp t := by
    rw [vectorOr_iff]
    exact exists_congr fun m => by rw [Bool.and_eq_true]
  rw [hnew]
  by_cases hrst : (inp t).rst_n = false
  · rw [if_pos hrst]
    exact ⟨fun h => absurd h Bool.false_ne_true, fun h => absurd (hrst.symm.trans h.1) Bool.false_ne_true⟩
  · rw [if_neg hrst]
    have hrst' : (inp t).rst_n = true := by rwa [Bool.not_eq_false] at hrst
    have hold : (stateAt inp t).matrix_old = granted inp t := rfl
    rw [and_iff_right hrst', State.matrixNew, matrixLogic, hold]
    by_cases hb : Busy inp t
    · rw [if_pos (Or.inl (hbusy.mpr hb))]
      exact ⟨fun h => Or.inl ⟨hb, h⟩, fun h => h.elim And.right fun h => absurd hb h.1⟩
    · have hown : ¬ (granted inp t m && ((inp t).masters_o m).cyc) = true := by
        rw [Bool.and_eq_true]
        exact fun h => hb ⟨m, h⟩
      rw [if_neg (not_or.mpr ⟨mt hbusy.mp hb, hown⟩)]
      simp only [Bool.and_eq_true]
      constructor
      · rintro ⟨⟨⟨hcyc, hstb⟩, hprio⟩, hen⟩
        exact Or.inr ⟨hb, ⟨hcyc, hstb, hprio, hen⟩⟩
      · rintro (⟨hb', -⟩ | ⟨-, hw⟩)
        · exact absurd hb' hb
        · exact ⟨⟨⟨hw.cyc, hw.stb⟩, hw.prio⟩, hw.en⟩

/-- What the tree put out in cycle `t + 2`. -/
theorem sorter_y_iff (inp : Nat → Inputs g) (t : Nat) (q : Fin 9) :
    (stateAt inp (t + 2)).sorter.y q = true ↔
      (inp t).rst_n = true ∧ (inp (t + 1)).rst_n = true ∧
        (∃ q₀, Selected (keys (inp t).tsArray (inp t).emptys) q₀ ∧ (inp t).emptys q₀ = false ∧
          groupOf q₀ = groupOf q) ∧
        Selected
          (fun J => keys (inp (t + 1)).tsArray (inp (t + 1)).emptys (channel (groupOf q) J))
          (memberOf q) := by
  rw [stateAt_succ, stateAt_succ]
  exact Sorter.y_iff ..

theorem sorter_y_early (inp : Nat → Inputs g) {t : Nat} (ht : t < 2) (q : Fin 9) :
    (stateAt inp t).sorter.y q = false := by
  match t, ht with
  | 0, _ => exact Sorter.reset_y q
  | 1, _ => exact Sorter.reset_step_y _ _ _ q

theorem sorter_y_unique {inp : Nat → Inputs g} {t : Nat} {q q' : Fin 9}
    (h : (stateAt inp t).sorter.y q = true) (h' : (stateAt inp t).sorter.y q' = true) : q = q' := by
  match t with
  | 0 => exact absurd h (Bool.not_eq_true _ ▸ sorter_y_early inp (by decide) q)
  | 1 => exact absurd h (Bool.not_eq_true _ ▸ sorter_y_early inp (by decide) q)
  | t + 2 =>
      obtain ⟨-, -, ⟨q₀, hq₀, -, hgroup⟩, hm⟩ := (sorter_y_iff inp t q).mp h
      obtain ⟨-, -, ⟨q₁, hq₁, -, hgroup'⟩, hm'⟩ := (sorter_y_iff inp t q').mp h'
      have hsame : groupOf q = groupOf q' := by rw [← hgroup, ← hgroup', hq₀.unique hq₁]
      rw [← hsame] at hm'
      rw [← channel_groupOf q, ← channel_groupOf q', ← hsame, hm.unique hm']

theorem granted_unique (inp : Nat → Inputs g) (t : Nat) :
    ∀ m m', granted inp t m = true → granted inp t m' = true → m = m' := by
  induction t with
  | zero => exact fun m _ h _ => absurd h Bool.false_ne_true
  | succ t ih =>
      intro m m' h h'
      obtain ⟨-, ⟨hbusy, hold⟩ | ⟨hidle, hw⟩⟩ := (granted_succ inp t m).mp h
      · obtain ⟨-, ⟨-, hold'⟩ | ⟨hidle, -⟩⟩ := (granted_succ inp t m').mp h'
        · exact ih m m' hold hold'
        · exact absurd hbusy hidle
      · obtain ⟨-, ⟨hbusy, -⟩ | ⟨-, hw'⟩⟩ := (granted_succ inp t m').mp h'
        · exact absurd hbusy hidle
        · exact Fin.castLE_injective g.masters_le (sorter_y_unique hw.prio hw'.prio)

theorem granted_held {inp : Nat → Inputs g} {t : Nat} {m : Fin g.g_num_masters}
    (hm : granted inp t m = true) (hcyc : ((inp t).masters_o m).cyc = true)
    (hrst : (inp t).rst_n = true) : granted inp (t + 1) = granted inp t := by
  have hbusy : Busy inp t := ⟨m, hm, hcyc⟩
  funext m'
  apply Bool.eq_iff_iff.mpr
  rw [granted_succ]
  constructor
  · rintro ⟨-, ⟨-, hold⟩ | ⟨hidle, -⟩⟩
    · exact hold
    · exact absurd hbusy hidle
  · exact fun hold => ⟨hrst, Or.inl ⟨hbusy, hold⟩⟩

/-- Queue `m` hands a word to the slave. -/
structure Sends (inp : Nat → Inputs g) (t : Nat) (m : Fin g.g_num_masters) : Prop where
  cyc : ((inp t).masters_o m).cyc = true
  stb : ((inp t).masters_o m).stb = true
  stall : (mastersI inp t m).stall = false

theorem Sends.granted {inp : Nat → Inputs g} {t : Nat} {m : Fin g.g_num_masters}
    (h : Sends inp t m) : granted inp t m = true := by
  have hstall : (!(!(inp t).master_i.stall && PrioQueue.granted inp t m)) = false := h.stall
  rw [Bool.not_eq_false', Bool.and_eq_true] at hstall
  exact hstall.2

/-- From a word of queue `m` on, as long as it does not end its bus cycle, the output has its
lines, and no other queue hands over a word. -/
theorem uninterrupted {inp : Nat → Inputs g} {first last : Nat} {m : Fin g.g_num_masters}
    (hfirst : Sends inp first m)
    (hcycle : ∀ t, first ≤ t → t < last → ((inp t).masters_o m).cyc = true ∧ (inp t).rst_n = true)
    {t : Nat} (hle : first ≤ t) (hlast : t ≤ last) :
    masterO inp t = { (inp t).masters_o m with adr := (inp t).dst_adr } ∧
      ∀ m', Sends inp t m' → m' = m := by
  have hgranted : (stateAt inp t).matrix_old m = true := by
    refine Clocked.trace_between (I := fun s : State g => s.matrix_old m = true) hfirst.granted ?_ t hle hlast
    intro t hle hlt hm
    obtain ⟨hcyc, hrst⟩ := hcycle t hle hlt
    exact (congrFun (granted_held hm hcyc hrst) m).trans hm
  have hone : ∀ m', granted inp t m' = true ↔ m' = m :=
    fun m' => ⟨fun h => granted_unique inp t m' m h hgranted, fun h => h ▸ hgranted⟩
  exact ⟨slaveLogic_granted hone, fun m' h => (hone m').mp h.granted⟩

/-! ### The smallest timestamp -/

def NewGrant (inp : Nat → Inputs g) (t : Nat) (m : Fin g.g_num_masters) : Prop :=
  granted inp t m = false ∧ granted inp (t + 1) m = true

/-- Queue `m` has a timestamp that is minimal among those of all queues. -/
def Minimal (i : Inputs g) (m : Fin g.g_num_masters) : Prop :=
  i.valids m = true ∧ ∀ m', i.valids m' = true → i.ts m ≤ i.ts m'

def group (m : Fin g.g_num_masters) : Fin 3 := groupOf (chan m)

/-- Queue `m` has a timestamp that is minimal among those of its group. -/
def MinimalInGroup (i : Inputs g) (m : Fin g.g_num_masters) : Prop :=
  i.valids m = true ∧ ∀ m', group m' = group m → i.valids m' = true → i.ts m ≤ i.ts m'

/-- The group has the smallest timestamp; it is the last one that has it. -/
def Leading (i : Inputs g) (I : Fin 3) : Prop :=
  ∃ q, Selected (keys i.tsArray i.emptys) q ∧ i.emptys q = false ∧ groupOf q = I

/-- The comparator of its group selects queue `m`. -/
def FirstOfGroup (i : Inputs g) (m : Fin g.g_num_masters) : Prop :=
  Selected (fun J => keys i.tsArray i.emptys (channel (group m) J)) (memberOf (chan m))

/-- What makes the arbiter grant queue `m` at the end of cycle `t + 2`. -/
structure Decides (inp : Nat → Inputs g) (t : Nat) (m : Fin g.g_num_masters) : Prop where
  rst_n : ∀ t', t ≤ t' → t' ≤ t + 2 → (inp t').rst_n = true
  leading : Leading (inp t) (group m)
  first : FirstOfGroup (inp (t + 1)) m
  idle : ¬ Busy inp (t + 2)
  cyc : ((inp (t + 2)).masters_o m).cyc = true
  stb : ((inp (t + 2)).masters_o m).stb = true
  en : (inp (t + 2)).en = true

/-- **When a grant is given.** -/
theorem newGrant_iff (inp : Nat → Inputs g) (t : Nat) (m : Fin g.g_num_masters) :
    NewGrant inp t m ↔ ∃ s, t = s + 2 ∧ Decides inp s m := by
  constructor
  · rintro ⟨hold, hnew⟩
    obtain ⟨hrst, ⟨-, h⟩ | ⟨hidle, hw⟩⟩ := (granted_succ inp t m).mp hnew
    · exact absurd (h.symm.trans hold) Bool.true_eq_false.mp
    · match t with
      | 0 => exact absurd hw.prio (Bool.not_eq_true _ ▸ sorter_y_early inp (by decide) _)
      | 1 => exact absurd hw.prio (Bool.not_eq_true _ ▸ sorter_y_early inp (by decide) _)
      | s + 2 =>
          obtain ⟨h₀, h₁, hlead, hfirst⟩ := (sorter_y_iff inp s (chan m)).mp hw.prio
          refine ⟨s, rfl, ⟨?_, hlead, hfirst, hidle, hw.cyc, hw.stb, hw.en⟩⟩
          intro t' hle hlt
          obtain rfl | rfl | rfl : t' = s ∨ t' = s + 1 ∨ t' = s + 2 := by omega
          · exact h₀
          · exact h₁
          · exact hrst
  · rintro ⟨s, rfl, h⟩
    have hprio : (stateAt inp (s + 2)).sorter.y (chan m) = true :=
      (sorter_y_iff inp s (chan m)).mpr
        ⟨h.rst_n s (by omega) (by omega), h.rst_n (s + 1) (by omega) (by omega), h.leading, h.first⟩
    have hold : granted inp (s + 2) m = false := by
      rw [← Bool.not_eq_true]
      exact fun hm => h.idle ⟨m, hm, h.cyc⟩
    refine ⟨hold, (granted_succ inp (s + 2) m).mpr ⟨h.rst_n (s + 2) (by omega) (by omega), Or.inr ?_⟩⟩
    exact ⟨h.idle, h.cyc, h.stb, hprio, h.en⟩

theorem tsArray_chan (i : Inputs g) (m : Fin g.g_num_masters) : i.tsArray (chan m) = i.ts m :=
  dif_pos m.isLt

theorem emptys_chan (i : Inputs g) (m : Fin g.g_num_masters) : i.emptys (chan m) = !i.valids m :=
  congrArg (!·) (dif_pos m.isLt)

/-- Only the channels of queues have timestamps. -/
theorem exists_queue {i : Inputs g} {q : Fin 9} (h : i.emptys q = false) :
    ∃ m, q = chan m ∧ i.valids m = true := by
  by_cases hq : q < g.g_num_masters
  · refine ⟨⟨q, hq⟩, rfl, ?_⟩
    rw [Inputs.emptys, dif_pos hq, Bool.not_eq_false'] at h
    exact h
  · rw [Inputs.emptys, dif_neg hq] at h
    exact absurd h.symm Bool.false_ne_true

/-- A channel that is not behind a queue with a timestamp has one that is not greater. -/
theorem keys_le {i : Inputs g} {m m' : Fin g.g_num_masters} (hm' : i.valids m' = true)
    (h : keys i.tsArray i.emptys (chan m) ≤ keys i.tsArray i.emptys (chan m')) :
    i.valids m = true ∧ i.ts m ≤ i.ts m' := by
  have hkey := (key_le_iff _ _ _ _).mp (BitVec.le_def.mpr h)
  rw [emptys_chan, emptys_chan, hm', tsArray_chan, tsArray_chan] at hkey
  rcases hkey with ⟨-, htrue⟩ | ⟨hvalid, hle⟩
  · exact absurd htrue Bool.false_ne_true
  · exact ⟨Bool.not_inj hvalid, hle⟩

theorem minimal_of_leading {i : Inputs g} {m : Fin g.g_num_masters} (h : Leading i (group m)) :
    Minimal i m ↔ MinimalInGroup i m := by
  constructor
  · rintro ⟨hvalid, hmin⟩
    exact ⟨hvalid, fun m' _ => hmin m'⟩
  · rintro ⟨hvalid, hmin⟩
    obtain ⟨q₀, hq₀, hempty, hgroup⟩ := h
    obtain ⟨m₀, rfl, hvalid₀⟩ := exists_queue hempty
    refine ⟨hvalid, fun m' hm' => ?_⟩
    exact BitVec.le_trans (hmin m₀ hgroup hvalid₀) (keys_le hm' (hq₀.le (chan m'))).2

theorem minimal_of_first {i : Inputs g} {m : Fin g.g_num_masters} (h : FirstOfGroup i m) :
    Minimal i m ↔ ∃ m', group m' = group m ∧ Minimal i m' := by
  constructor
  · exact fun hm => ⟨m, rfl, hm⟩
  · rintro ⟨m', hgroup, hvalid, hmin⟩
    have hown : channel (group m) (memberOf (chan m)) = chan m := channel_groupOf _
    have hother : channel (group m) (memberOf (chan m')) = chan m' := by
      rw [← hgroup]
      exact channel_groupOf _
    have hle := h.le (memberOf (chan m'))
    rw [hown, hother] at hle
    obtain ⟨hvalid', hts⟩ := keys_le hvalid hle
    exact ⟨hvalid', fun m'' hm'' => BitVec.le_trans hts (hmin m'' hm'')⟩

/-- **Arbitration**, over any inputs.  At most one queue is granted, it stays granted while
it is in its bus cycle, and its words are not mixed with others.  A new grant is for the queue
that the comparator of the group selects one cycle after the group was selected: it has a
smallest timestamp of the earlier cycle if and only if it had one of its group already, and
one of the later cycle if and only if its group still has one. -/
theorem arbitration_law (inp : Nat → Inputs g) :
    (∀ t m m', granted inp t m = true → granted inp t m' = true → m = m') ∧
      (∀ t m, granted inp t m = true → ((inp t).masters_o m).cyc = true → (inp t).rst_n = true →
        granted inp (t + 1) = granted inp t) ∧
      (∀ m first last, Sends inp first m →
        (∀ t, first ≤ t → t < last → ((inp t).masters_o m).cyc = true ∧ (inp t).rst_n = true) →
        ∀ t, first ≤ t → t ≤ last →
          masterO inp t = { (inp t).masters_o m with adr := (inp t).dst_adr } ∧
            ∀ m', Sends inp t m' → m' = m) ∧
      ((∀ t m, NewGrant inp t m → ∃ s, t = s + 2 ∧ Minimal (inp s) m) ↔
        ∀ s m, Decides inp s m → MinimalInGroup (inp s) m) ∧
      ((∀ t m, NewGrant inp t m → ∃ s, t = s + 2 ∧ Minimal (inp (s + 1)) m) ↔
        ∀ s m, Decides inp s m → ∃ m', group m' = group m ∧ Minimal (inp (s + 1)) m') := by
  have hnew : ∀ P : Nat → Fin g.g_num_masters → Prop,
      (∀ t m, NewGrant inp t m → ∃ s, t = s + 2 ∧ P s m) ↔ ∀ s m, Decides inp s m → P s m := by
    intro P
    constructor
    · intro h s m hd
      obtain ⟨s', heq, hP⟩ := h (s + 2) m ((newGrant_iff inp (s + 2) m).mpr ⟨s, rfl, hd⟩)
      rwa [Nat.add_right_cancel heq]
    · intro h t m hg
      obtain ⟨s, rfl, hd⟩ := (newGrant_iff inp t m).mp hg
      exact ⟨s, rfl, h s m hd⟩
  refine ⟨granted_unique inp, fun t m hm hcyc hrst => granted_held hm hcyc hrst,
    fun m first last hfirst hcycle t hle hlast => uninterrupted hfirst hcycle hle hlast, ?_, ?_⟩
  · rw [hnew]
    exact forall_congr' fun s => forall_congr' fun m => imp_congr_right fun hd =>
      minimal_of_leading hd.leading
  · rw [hnew fun s m => Minimal (inp (s + 1)) m]
    exact forall_congr' fun s => forall_congr' fun m => imp_congr_right fun hd =>
      minimal_of_first hd.first

/-! ### Two stages, two cycles -/

def sampleGenerics : Generics :=
  { pkg := ⟨fun _ _ => false, fun _ _ => rfl⟩, g_num_masters := 8, masters_le := by decide }

def queue (m : Nat) (h : m < 8 := by decide) : Fin sampleGenerics.g_num_masters := ⟨m, h⟩

/-- The queues of `queues`, with the timestamps there, offer a message. -/
def sampleInputs (queues : List (Nat × Long)) : Inputs sampleGenerics :=
  { rst_n := true
    en := true
    dst_adr := 0
    masters_o := fun m => ⟨(queues.lookup m.val).isSome, (queues.lookup m.val).isSome, 0, 0xf, true, 0⟩
    ts := fun m => (queues.lookup m.val).getD 0
    valids := fun m => (queues.lookup m.val).isSome
    master_i := ⟨false, false, false, false, 0⟩ }

/-- First there is only the message of queue 6, then also those of queue 0 and queue 7. -/
def sampleTrace (t : Nat) : Inputs sampleGenerics :=
  sampleInputs (if t = 0 then [(6, 5)] else [(6, 5), (0, 1), (7, 3)])

/-- **A grant for none of the smallest timestamps**: queue 7, with timestamp 3, is granted,
after queue 6 had the only timestamp, 5, and since then queue 0 has had timestamp 1. -/
theorem grant_not_minimal : ∃ (g : Generics) (inp : Nat → Inputs g) (t : Nat) (m : Fin g.g_num_masters),
    NewGrant inp (t + 2) m ∧
      ¬ Minimal (inp t) m ∧ ¬ Minimal (inp (t + 1)) m ∧ ¬ Minimal (inp (t + 2)) m := by
  have hnot : ∀ t, 0 < t → ¬ Minimal (sampleTrace t) (queue 7) := by
    intro t ht h
    rw [sampleTrace, if_neg (Nat.ne_of_gt ht)] at h
    exact absurd (h.2 (queue 0) (by decide)) (by decide)
  refine ⟨sampleGenerics, sampleTrace, 0, queue 7, ⟨by decide +kernel, by decide +kernel⟩, ?_,
    hnot 1 (by decide), hnot 2 (by decide)⟩
  intro h
  exact absurd h.1 (by decide)

end PrioQueue
