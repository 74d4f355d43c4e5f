import BelProjects.BurstGen.HostCommands
import Mathlib.Data.List.Induction

/-!
# The event tables

What the host has declared is a map from bursts to their trigger and toggle event.  The
firmware keeps four views of it: the record of each burst, the set of bursts that exist, and
a table for each kind of event.  The views agree as long as no burst is declared again with
other events; then no table can be full either, as each of its entries has a burst of its own.
-/

namespace BurstGen

/-! ### Positions in a table -/

section Positions

variable {configs : Nat → Config} {eId : Long}

theorem position_cases (configs : Nat → Config) (eId : Long) (n : Nat) :
    (position configs eId n < n ∧ (configs (position configs eId n)).id = eId) ∨
      (position configs eId n = nConfigs ∧ ∀ i, i < n → (configs i).id ≠ eId) := by
  induction n with
  | zero => exact Or.inr ⟨rfl, fun i hi => absurd hi (Nat.not_lt_zero i)⟩
  | succ n ih =>
      rw [position]
      split
      · rename_i hid
        exact Or.inl ⟨Nat.lt_succ_self n, hid⟩
      · rename_i hid
        rcases ih with ⟨hlt, hpos⟩ | ⟨heq, hnone⟩
        · exact Or.inl ⟨Nat.lt_succ_of_lt hlt, hpos⟩
        · refine Or.inr ⟨heq, fun i hi => ?_⟩
          rcases Nat.lt_succ_iff_lt_or_eq.mp hi with hlt | rfl
          · exact hnone i hlt
          · exact hid

theorem freePosition_cases (configs : Nat → Config) (n : Nat) : ∀ i, i + n = nConfigs →
    (freePosition configs i n < nConfigs ∧ (configs (freePosition configs i n)).id = 0) ∨
      (freePosition configs i n = nConfigs ∧ ∀ j, i ≤ j → j < nConfigs → (configs j).id ≠ 0) := by
  induction n with
  | zero =>
      intro i hi
      exact Or.inr ⟨rfl, fun j hij hj => absurd hj (by omega)⟩
  | succ n ih =>
      intro i hi
      rw [freePosition]
      split
      · rename_i hfree
        exact Or.inl ⟨by omega, hfree⟩
      · rename_i hused
        rcases ih (i + 1) (by omega) with hfound | ⟨heq, hnone⟩
        · exact Or.inl hfound
        · refine Or.inr ⟨heq, fun j hij hj => ?_⟩
          rcases Nat.eq_or_lt_of_le hij with rfl | hlt
          · exact hused
          · exact hnone j hlt hj

/-- The table has an entry for the event, or a free one. -/
def HasRoom (configs : Nat → Config) (eId : Long) : Prop :=
  (∃ i, i < nConfigs ∧ (configs i).id = eId) ∨ ∃ i, i < nConfigs ∧ (configs i).id = 0

/-- Each event has at most one entry. -/
def UniqueIds (configs : Nat → Config) : Prop :=
  ∀ i j, i < nConfigs → j < nConfigs → (configs i).id = (configs j).id → (configs i).id ≠ 0 → i = j

/-- The burst set of an event, wherever its entry is. -/
inductive Entry (configs : Nat → Config) (eId : Long) : Word → Prop
  | found (i : Nat) : i < nConfigs → (configs i).id = eId → Entry configs eId (configs i).bursts
  | absent : (∀ i, i < nConfigs → (configs i).id ≠ eId) → Entry configs eId 0

theorem lookup_entry (configs : Nat → Config) (eId : Long) : Entry configs eId (lookup configs eId) := by
  rw [lookup]
  rcases position_cases configs eId nConfigs with ⟨hlt, hid⟩ | ⟨heq, hnone⟩
  · rw [if_neg (Nat.ne_of_lt hlt)]
    exact .found _ hlt hid
  · rw [if_pos heq]
    exact .absent hnone

theorem Entry.unique {w w' : Word} (hu : UniqueIds configs) (he : eId ≠ 0) (h : Entry configs eId w)
    (h' : Entry configs eId w') : w = w' := by
  cases h with
  | found i hi hid =>
      cases h' with
      | found j hj hjd =>
          have hij : i = j := hu i j hi hj (hid.trans hjd.symm) (hid ▸ he)
          rw [hij]
      | absent hnone => exact absurd hid (hnone i hi)
  | absent hnone =>
      cases h' with
      | found j hj hjd => exact absurd hjd (hnone j hj)
      | absent _ => rfl

theorem lookup_eq {w : Word} (hu : UniqueIds configs) (he : eId ≠ 0) (h : Entry configs eId w) :
    lookup configs eId = w := (lookup_entry configs eId).unique hu he h

/-- The entry that `updateConfigs` works on: that of the event, or a free one. -/
inductive Target (configs : Nat → Config) (eId : Long) (pos : Nat) : Prop
  | own : pos < nConfigs → (configs pos).id = eId → Target configs eId pos
  | free : pos < nConfigs → (configs pos).id = 0 → (∀ i, i < nConfigs → (configs i).id ≠ eId) →
      Target configs eId pos

theorem Target.lt {pos : Nat} (h : Target configs eId pos) : pos < nConfigs := by
  cases h <;> assumption

/-- Either there is no room for the event, or the table changes at one entry. -/
theorem updateConfigs_cases (configs : Nat → Config) (he : eId ≠ 0) {id : Nat} (hid : id ≠ 0)
    (set : Bool) :
    (¬ HasRoom configs eId ∧ (updateConfigs configs eId id set).2 = configs) ∨
      ∃ pos, Target configs eId pos ∧ (updateConfigs configs eId id set).2 =
        Function.update configs pos
          (if set then ⟨eId, (configs pos).bursts ||| burstBit id⟩
          else
            ⟨if (configs pos).bursts &&& ~~~burstBit id = 0 then 0 else (configs pos).id,
              (configs pos).bursts &&& ~~~burstBit id⟩) := by
  rw [updateConfigs, if_neg (not_or.mpr ⟨he, hid⟩)]
  dsimp only
  rcases position_cases configs eId nConfigs with ⟨hlt, hown⟩ | ⟨heq, hnone⟩
  · rw [if_neg (Nat.ne_of_lt hlt), if_neg (Nat.ne_of_lt hlt)]
    refine Or.inr ⟨_, .own hlt hown, ?_⟩
    cases set <;> rfl
  · rw [if_pos heq]
    rcases freePosition_cases configs nConfigs 0 (Nat.zero_add _) with ⟨hlt, hfree⟩ | ⟨hfull, hused⟩
    · rw [if_neg (Nat.ne_of_lt hlt)]
      refine Or.inr ⟨_, .free hlt hfree hnone, ?_⟩
      cases set <;> rfl
    · rw [if_pos hfull]
      refine Or.inl ⟨?_, rfl⟩
      rintro (⟨i, hi, hid'⟩ | ⟨i, hi, hid'⟩)
      · exact hnone i hi hid'
      · exact hused i (Nat.zero_le i) hi hid'

end Positions

theorem burstBit_getLsbD {id : Nat} (hid : 0 < id) (hlt : id < nBursts) (b : Nat) :
    (burstBit id).getLsbD b = true ↔ b + 1 = id := by
  have hw : id < 17 := hlt
  rw [burstBit, BitVec.getLsbD_shiftLeft, BitVec.getLsbD_one]
  simp only [Bool.and_eq_true, Bool.not_eq_true', decide_eq_true_eq, decide_eq_false_iff_not]
  omega

/-! ### What a table stands for -/

/-- The table registers exactly the bursts of relation `R`. -/
structure TableOk (configs : Nat → Config) (R : Long → Nat → Prop) : Prop where
  free : ∀ i, i < nConfigs → (configs i).id = 0 → (configs i).bursts = 0
  used : ∀ i, i < nConfigs → (configs i).bursts = 0 → (configs i).id = 0
  unique : UniqueIds configs
  lookup : ∀ e, e ≠ 0 → ∀ b, (lookup configs e).getLsbD b = true ↔ R e (b + 1)

namespace TableOk

variable {configs : Nat → Config} {R : Long → Nat → Prop} {eId : Long} {id : Nat}

theorem congr {R' : Long → Nat → Prop} (h : TableOk configs R)
    (hR : ∀ e, e ≠ 0 → ∀ b, R e (b + 1) ↔ R' e (b + 1)) : TableOk configs R' :=
  ⟨h.free, h.used, h.unique, fun e he b => (h.lookup e he b).trans (hR e he b)⟩

theorem target_bursts (h : TableOk configs R) (he : eId ≠ 0) {pos : Nat}
    (ht : Target configs eId pos) : (configs pos).bursts = BurstGen.lookup configs eId := by
  cases ht with
  | own hlt hid => exact (lookup_eq h.unique he (hid ▸ .found pos hlt rfl)).symm
  | free hlt hid hnone => rw [h.free pos hlt hid, lookup_eq h.unique he (.absent hnone)]

/-- Changing the entry of an event, or freeing it, leaves the other events alone. -/
theorem update (h : TableOk configs R) (he : eId ≠ 0) {pos : Nat} (ht : Target configs eId pos)
    {c : Config} (hc : (c.id = eId ∧ c.bursts ≠ 0) ∨ (c.id = 0 ∧ c.bursts = 0)) :
    TableOk (Function.update configs pos c)
      (fun e b => if e = eId then c.bursts.getLsbD (b - 1) = true else R e b) := by
  have hlt := ht.lt
  have hother : ∀ i, i < nConfigs → i ≠ pos → (configs i).id ≠ eId := by
    intro i hi hne
    cases ht with
    | own hlt hid =>
        intro hi'
        exact hne (h.unique i pos hi hlt (hi'.trans hid.symm) (hi' ▸ he))
    | free _ _ hnone => exact hnone i hi
  have hpos : (configs pos).id = eId ∨ (configs pos).id = 0 := by
    cases ht with
    | own _ hid => exact Or.inl hid
    | free _ hid _ => exact Or.inr hid
  have hunique : UniqueIds (Function.update configs pos c) := by
    intro i j hi hj hij hi0
    by_cases hip : i = pos
    · by_cases hjp : j = pos
      · rw [hip, hjp]
      · exfalso
        rw [hip, Function.update_self] at hij hi0
        rw [Function.update_of_ne hjp] at hij
        exact hother j hj hjp (hij ▸ (hc.resolve_right fun h0 => hi0 h0.1).1)
    · by_cases hjp : j = pos
      · exfalso
        rw [Function.update_of_ne hip] at hij hi0
        rw [hjp, Function.update_self] at hij
        exact hother i hi hip (hij ▸ (hc.resolve_right fun h0 => hi0 (hij ▸ h0.1)).1)
      · rw [Function.update_of_ne hip] at hij hi0
        rw [Function.update_of_ne hjp] at hij
        exact h.unique i j hi hj hij hi0
  refine ⟨?_, ?_, hunique, ?_⟩
  · intro i hi hid
    by_cases hip : i = pos
    · rw [hip, Function.update_self] at hid ⊢
      rcases hc with ⟨hce, -⟩ | ⟨-, hcb⟩
      · exact absurd (hce.symm.trans hid) he
      · exact hcb
    · rw [Function.update_of_ne hip] at hid ⊢
      exact h.free i hi hid
  · intro i hi hempty
    by_cases hip : i = pos
    · rw [hip, Function.update_self] at hempty ⊢
      rcases hc with ⟨-, hcb⟩ | ⟨hc0, -⟩
      · exact absurd hempty hcb
      · exact hc0
    · rw [Function.update_of_ne hip] at hempty ⊢
      exact h.used i hi hempty
  · intro e hne b
    by_cases hee : e = eId
    · rw [if_pos hee, Nat.add_sub_cancel]
      have hentry : Entry (Function.update configs pos c) e c.bursts := by
        rcases hc with ⟨hce, -⟩ | ⟨hc0, hcb⟩
        · have hself : (Function.update configs pos c pos).bursts = c.bursts := by
            rw [Function.update_self]
          rw [← hself]
          exact .found pos hlt (by rw [Function.update_self, hce, hee])
        · rw [hcb]
          refine .absent fun i hi hid => ?_
          by_cases hip : i = pos
          · rw [hip, Function.update_self, hc0] at hid
            exact hne hid.symm
          · rw [Function.update_of_ne hip] at hid
            exact hother i hi hip (hid.trans hee)
      rw [lookup_eq hunique hne hentry]
    · rw [if_neg hee, ← h.lookup e hne b]
      have hentry : Entry (Function.update configs pos c) e (BurstGen.lookup configs e) := by
        have hold := lookup_entry configs e
        generalize BurstGen.lookup configs e = w at hold
        cases hold with
        | found i hi hid =>
            have hip : i ≠ pos := by
              rintro rfl
              rcases hpos with hp | hp
              · exact hee (hid.symm.trans hp)
              · exact hne (hid.symm.trans hp)
            have hself : (Function.update configs pos c i).bursts = (configs i).bursts := by
              rw [Function.update_of_ne hip]
            rw [← hself]
            exact .found i hi (by rw [Function.update_of_ne hip, hid])
        | absent hnone =>
            refine .absent fun i hi hid => ?_
            by_cases hip : i = pos
            · rw [hip, Function.update_self] at hid
              rcases hc with ⟨hce, -⟩ | ⟨hc0, -⟩
              · exact hee (hid.symm.trans hce)
              · exact hne (hid.symm.trans hc0)
            · rw [Function.update_of_ne hip] at hid
              exact hnone i hi hid
      rw [lookup_eq hunique hne hentry]

theorem set (h : TableOk configs R) (he : eId ≠ 0) (hid : 0 < id) (hlt : id < nBursts)
    (hroom : HasRoom configs eId) :
    TableOk (updateConfigs configs eId id true).2 (fun e b => R e b ∨ e = eId ∧ b = id) := by
  rcases updateConfigs_cases configs he (Nat.ne_of_gt hid) true with ⟨hno, -⟩ | ⟨pos, ht, heq⟩
  · exact absurd hroom hno
  · have hset : (configs pos).bursts ||| burstBit id ≠ 0 := by
      intro hz
      have hbit := (burstBit_getLsbD hid hlt (id - 1)).mpr (Nat.sub_add_cancel hid)
      have hor : ((configs pos).bursts ||| burstBit id).getLsbD (id - 1) = true := by
        rw [BitVec.getLsbD_or, hbit, Bool.or_true]
      rw [hz] at hor
      simp at hor
    rw [heq, if_pos rfl]
    refine (h.update he ht (Or.inl ⟨rfl, hset⟩)).congr fun e hne b => ?_
    dsimp only
    rw [h.target_bursts he ht, Nat.add_sub_cancel, BitVec.getLsbD_or, Bool.or_eq_true,
      burstBit_getLsbD hid hlt]
    split
    · rename_i hee
      rw [← hee, h.lookup e hne b]
      exact or_congr_right ⟨fun hb => ⟨rfl, hb⟩, And.right⟩
    · rename_i hee
      exact ⟨Or.inl, fun hR => hR.resolve_right fun hb => hee hb.1⟩

theorem reset (h : TableOk configs R) (he : eId ≠ 0) (hid : 0 < id) (hlt : id < nBursts) :
    TableOk (updateConfigs configs eId id false).2 (fun e b => R e b ∧ ¬ (e = eId ∧ b = id)) := by
  rcases updateConfigs_cases configs he (Nat.ne_of_gt hid) false with ⟨hno, heq⟩ | ⟨pos, ht, heq⟩
  · rw [heq]
    refine h.congr fun e hne b => ⟨fun hR => ⟨hR, ?_⟩, And.left⟩
    rintro ⟨rfl, -⟩
    have hzero : BurstGen.lookup configs e = 0 :=
      lookup_eq h.unique hne (.absent fun i hi hi' => hno (Or.inl ⟨i, hi, hi'⟩))
    have hbit := (h.lookup e hne b).mpr hR
    rw [hzero] at hbit
    simp at hbit
  · have hc : ∀ w, (configs pos).bursts &&& ~~~burstBit id = w →
        ((if w = 0 then 0 else (configs pos).id) = eId ∧ w ≠ 0) ∨
          ((if w = 0 then 0 else (configs pos).id) = 0 ∧ w = 0) := by
      intro w hw
      by_cases hz : w = 0
      · exact Or.inr ⟨if_pos hz, hz⟩
      · cases ht with
        | own _ hid' => exact Or.inl ⟨(if_neg hz).trans hid', hz⟩
        | free hp hid' _ =>
            refine absurd ?_ hz
            rw [← hw, h.free pos hp hid']
            exact BitVec.zero_and
    rw [heq, if_neg Bool.false_ne_true]
    refine (h.update he ht (hc _ rfl)).congr fun e hne b => ?_
    dsimp only
    rw [h.target_bursts he ht, Nat.add_sub_cancel, BitVec.getLsbD_and, Bool.and_eq_true]
    split
    · rename_i hee
      rw [← hee, h.lookup e hne b]
      refine and_congr_right fun hR => ?_
      have hb : b < 32 := by
        by_contra hge
        have hbit := (h.lookup e hne b).mpr hR
        rw [BitVec.getLsbD_of_ge _ _ (Nat.not_lt.mp hge)] at hbit
        exact absurd hbit Bool.false_ne_true
      rw [BitVec.getLsbD_not, decide_eq_true hb, Bool.true_and, Bool.not_eq_true',
        ← Bool.not_eq_true, burstBit_getLsbD hid hlt]
      exact ⟨fun hb' => fun hh => hb' hh.2, fun hb' => fun hh => hb' ⟨rfl, hh⟩⟩
    · rename_i hee
      exact ⟨fun hR => ⟨hR, fun hb => hee hb.1⟩, And.left⟩

end TableOk

/-! ### What the host has declared -/

structure Declared where
  trigger : Long
  toggle : Long
  deriving DecidableEq, Repr

structure HostCmd where
  cmd : Word
  args : Nat → Word

namespace HostCmd

def id (c : HostCmd) : Nat := (c.args 0).toNat

def declared (c : HostCmd) : Declared :=
  { trigger := toU64 (c.args 2) (c.args 3), toggle := toU64 (c.args 4) (c.args 5) }

def Valid (c : HostCmd) : Prop := 0 < c.id ∧ c.id < nBursts

instance (c : HostCmd) : Decidable c.Valid := inferInstanceAs (Decidable (_ ∧ _))

end HostCmd

/-- What a command declares: a burst with its events, or that a burst is gone. -/
def declare (decl : Nat → Option Declared) (c : HostCmd) : Nat → Option Declared :=
  if c.Valid then
    if c.cmd = cmdMkBurst then Function.update decl c.id (some c.declared)
    else if c.cmd = cmdRmBurst then Function.update decl c.id none
    else decl
  else decl

def Fw.exec (fw : Fw) (c : HostCmd) : Fw := (execHostCmd fw c.cmd c.args).2

/-- Burst `b` is declared, and `f` of its events, the trigger or the toggle, is `e`. -/
def Has (f : Declared → Long) (decl : Nat → Option Declared) (e : Long) (b : Nat) : Prop :=
  ∃ d, decl b = some d ∧ f d = e

/-- The views that the firmware keeps agree with what is declared. -/
structure Agree (fw : Fw) (decl : Nat → Option Declared) : Prop where
  trigger : ∀ e, e ≠ 0 → ∀ b,
    (lookup fw.gTrigConfigs e).getLsbD b = true ↔ Has Declared.trigger decl e (b + 1)
  toggle : ∀ e, e ≠ 0 → ∀ b,
    (lookup fw.gToggConfigs e).getLsbD b = true ↔ Has Declared.toggle decl e (b + 1)
  uniqueTrigger : UniqueIds fw.gTrigConfigs
  uniqueToggle : UniqueIds fw.gToggConfigs
  created : ∀ b, fw.gBurstsCreated.getLsbD b = true ↔ (decl (b + 1)).isSome = true

structure Registered (fw : Fw) (c : HostCmd) : Prop where
  valid : c.Valid
  created : fw.gBurstsCreated.getLsbD (c.id - 1) = true
  trigger : c.declared.trigger ≠ 0 →
    (lookup fw.gTrigConfigs c.declared.trigger).getLsbD (c.id - 1) = true
  toggle : c.declared.toggle ≠ 0 →
    (lookup fw.gToggConfigs c.declared.toggle).getLsbD (c.id - 1) = true

/-- **When a declaration works**: the burst has no events yet that it does not keep. -/
def Admissible (fw : Fw) (c : HostCmd) : Prop :=
  c.cmd = cmdMkBurst → c.Valid →
    ((fw.tasks c.id).trigger = 0 ∨ (fw.tasks c.id).trigger = c.declared.trigger) ∧
      ((fw.tasks c.id).toggle = 0 ∨ (fw.tasks c.id).toggle = c.declared.toggle)

/-! ### Declaring and removing a burst, in one table -/

section OneTable

variable {f : Declared → Long} {decl : Nat → Option Declared} {configs : Nat → Config} {id : Nat}

def eventOf (f : Declared → Long) (decl : Nat → Option Declared) (b : Nat) : Long :=
  ((decl b).map f).getD 0

theorem has_iff {e : Long} (he : e ≠ 0) (b : Nat) : Has f decl e b ↔ eventOf f decl b = e := by
  rw [Has, eventOf]
  cases decl b with
  | none => exact ⟨fun ⟨d, hd, _⟩ => absurd hd (Option.some_ne_none d).symm, fun h => absurd h.symm he⟩
  | some d =>
      constructor
      · rintro ⟨d', hd', hf⟩
        rw [Option.some.inj hd']
        exact hf
      · exact fun h => ⟨d, rfl, h⟩

theorem eventOf_update (o : Option Declared) (b : Nat) :
    eventOf f (Function.update decl id o) b = if b = id then (o.map f).getD 0 else eventOf f decl b := by
  rw [eventOf]
  split
  · rename_i hb
    rw [hb, Function.update_self]
  · rename_i hb
    rw [Function.update_of_ne hb, eventOf]

/-- The table after a burst is set for an event, if there is one. -/
def registered (configs : Nat → Config) (e : Long) (id : Nat) (set : Bool) : Nat → Config :=
  if e ≠ 0 then (updateConfigs configs e id set).2 else configs

/-- **No table is full**: each entry in use has a burst, and no burst has two events. -/
theorem hasRoom (h : TableOk configs (Has f decl)) (e : Long) : HasRoom configs e := by
  by_contra hno
  have hfull : ∀ i, i < nConfigs → (configs i).id ≠ 0 :=
    fun i hi hid => hno (Or.inr ⟨i, hi, hid⟩)
  have hburst : ∀ i : Fin nConfigs, ∃ b : Fin 32, eventOf f decl (b + 1) = (configs i).id := by
    intro i
    have hne : (configs i).bursts ≠ 0 := fun hz => hfull i i.isLt (h.used i i.isLt hz)
    obtain ⟨b, hb⟩ : ∃ b, (configs i).bursts.getLsbD b = true := by
      by_contra hnone
      refine hne (BitVec.eq_of_getLsbD_eq fun b _ => ?_)
      simpa using fun hb => hnone ⟨b, hb⟩
    have hlt : b < 32 := by
      by_contra hge
      rw [BitVec.getLsbD_of_ge _ _ (Nat.not_lt.mp hge)] at hb
      exact absurd hb Bool.false_ne_true
    refine ⟨⟨b, hlt⟩, (has_iff (hfull i i.isLt) _).mp ?_⟩
    rw [← h.lookup _ (hfull i i.isLt), lookup_eq h.unique (hfull i i.isLt) (.found i i.isLt rfl)]
    exact hb
  choose burst hspec using hburst
  have hinj : Function.Injective burst := by
    intro i j hij
    have hid : (configs i).id = (configs j).id := by rw [← hspec i, hij, hspec j]
    exact Fin.ext (h.unique i j i.isLt j.isLt hid (hfull i i.isLt))
  have hcard := Fintype.card_le_of_injective burst hinj
  rw [Fintype.card_fin, Fintype.card_fin] at hcard
  exact absurd hcard (by decide)

theorem mk_table (h : TableOk configs (Has f decl)) (hid : 0 < id) (hlt : id < nBursts)
    {d : Declared} (hsame : eventOf f decl id = 0 ∨ eventOf f decl id = f d) :
    TableOk (registered configs (f d) id true) (Has f (Function.update decl id (some d))) := by
  rw [registered]
  split
  · rename_i hnew
    refine (h.set hnew hid hlt (hasRoom h (f d))).congr fun e he b => ?_
    rw [has_iff he, has_iff he, eventOf_update]
    split
    · rename_i hb
      rw [hb]
      constructor
      · rintro (hold | ⟨rfl, -⟩)
        · exact (hsame.resolve_left (hold ▸ he)).symm.trans hold
        · rfl
      · exact fun hd => Or.inr ⟨hd.symm, rfl⟩
    · rename_i hb
      exact ⟨fun hR => hR.resolve_right fun hh => hb hh.2, Or.inl⟩
  · rename_i hnew
    have hzero : f d = 0 := not_not.mp hnew
    refine h.congr fun e he b => ?_
    rw [has_iff he, has_iff he, eventOf_update]
    split
    · rename_i hb
      have hold : eventOf f decl id = 0 := hsame.elim (fun hh => hh) fun hh => hh.trans hzero
      rw [hb, hold]
      exact Iff.intro (fun hh => absurd hh.symm he) fun hh => absurd (hh.symm.trans hzero) he
    · exact Iff.rfl

theorem mk_table_fails (h : TableOk configs (Has f decl)) (hid : 0 < id) (hlt : id < nBursts)
    {d : Declared} (hother : ¬ (eventOf f decl id = 0 ∨ eventOf f decl id = f d)) :
    ∃ e, e ≠ 0 ∧ ¬ ((lookup (registered configs (f d) id true) e).getLsbD (id - 1) = true ↔
      Has f (Function.update decl id (some d)) e id) := by
  obtain ⟨hold, hne⟩ := not_or.mp hother
  have hstill : Has f decl (eventOf f decl id) (id - 1 + 1) := by
    rw [Nat.sub_add_cancel hid]
    exact (has_iff hold id).mpr rfl
  have hset : (lookup (registered configs (f d) id true) (eventOf f decl id)).getLsbD (id - 1) = true := by
    rw [registered]
    split
    · rename_i hnew
      exact ((h.set hnew hid hlt (hasRoom h (f d))).lookup _ hold _).mpr (Or.inl hstill)
    · exact (h.lookup _ hold _).mpr hstill
  refine ⟨eventOf f decl id, hold, fun hiff => hne ?_⟩
  obtain ⟨d', hd', hf⟩ := hiff.mp hset
  rw [Function.update_self] at hd'
  rw [← hf, Option.some.inj hd']

theorem rm_table (h : TableOk configs (Has f decl)) (hid : 0 < id) (hlt : id < nBursts) :
    TableOk (registered configs (eventOf f decl id) id false) (Has f (Function.update decl id none)) := by
  rw [registered]
  split
  · rename_i hold
    refine (h.reset hold hid hlt).congr fun e he b => ?_
    rw [has_iff he, has_iff he, eventOf_update]
    split
    · rename_i hb
      rw [hb]
      exact ⟨fun ⟨hR, hh⟩ => absurd ⟨hR.symm, rfl⟩ hh, fun hh => absurd hh.symm he⟩
    · rename_i hb
      exact ⟨And.left, fun hR => ⟨hR, fun hh => hb hh.2⟩⟩
  · rename_i hold
    refine h.congr fun e he b => ?_
    rw [has_iff he, has_iff he, eventOf_update]
    split
    · rename_i hb
      rw [hb, not_not.mp hold]
      rfl
    · exact Iff.rfl

end OneTable

/-! ### One command -/

theorem updateTrig_eq (fw : Fw) (e : Long) (id : Nat) (set : Bool) :
    fw.updateTrig e id set = { fw with gTrigConfigs := registered fw.gTrigConfigs e id set } := by
  rw [Fw.updateTrig, registered]
  split <;> rfl

theorem updateTogg_eq (fw : Fw) (e : Long) (id : Nat) (set : Bool) :
    fw.updateTogg e id set = { fw with gToggConfigs := registered fw.gToggConfigs e id set } := by
  rw [Fw.updateTogg, registered]
  split <;> rfl

/-- What all commands but the declaration and the removal of a burst leave alone. -/
structure SameTables (fw fw' : Fw) : Prop where
  trigger : fw'.gTrigConfigs = fw.gTrigConfigs
  toggle : fw'.gToggConfigs = fw.gToggConfigs
  created : fw'.gBurstsCreated = fw.gBurstsCreated
  records : ∀ b, (fw'.tasks b).trigger = (fw.tasks b).trigger ∧ (fw'.tasks b).toggle = (fw.tasks b).toggle

theorem SameTables.refl (fw : Fw) : SameTables fw fw := ⟨rfl, rfl, rfl, fun _ => ⟨rfl, rfl⟩⟩

theorem sameTables_updateTask (fw : Fw) (id : Nat) {f : Task → Task}
    (hf : ∀ t, (f t).trigger = t.trigger ∧ (f t).toggle = t.toggle) :
    SameTables fw (fw.updateTask id f) := by
  refine ⟨rfl, rfl, rfl, fun b => ?_⟩
  by_cases hb : b = id
  · subst hb
    simp only [Fw.updateTask, Function.update_self]
    exact hf _
  · simp only [Fw.updateTask, Function.update_of_ne hb, and_self]

theorem updateTask_twice (fw : Fw) (id : Nat) {f : Task → Task} (hf : ∀ t, f (f t) = f t) :
    (fw.updateTask id f).updateTask id f = fw.updateTask id f := by
  simp only [Fw.updateTask, Function.update_self, Function.update_idem, hf]

theorem enableTask_twice (disen : Word) (t : Task) :
    enableTask disen (enableTask disen t) = enableTask disen t := by
  simp only [enableTask]
  split
  · rw [BitVec.or_assoc, BitVec.or_self]
  · rw [BitVec.and_assoc, BitVec.and_self]

/-- All turns of the loop do the same. -/
theorem enable_eq (fw : Fw) (id : Nat) {first last : Nat} (h : first ≤ last) (disen : Word) :
    fw.enable id first last disen = fw.updateTask id (enableTask disen) := by
  obtain ⟨n, hn⟩ : ∃ n, last + 1 - first = n + 1 := ⟨last - first, by omega⟩
  have hrest : ∀ (is : List Nat),
      is.foldl (fun fw _ => fw.updateTask id (enableTask disen))
        (fw.updateTask id (enableTask disen)) = fw.updateTask id (enableTask disen) := by
    intro is
    induction is with
    | nil => rfl
    | cons i is ih => rw [List.foldl_cons, updateTask_twice fw id (enableTask_twice disen), ih]
  rw [Fw.enable, hn, List.range'_succ, List.foldl_cons, hrest]

theorem sameTables_enable (fw : Fw) (id : Nat) {first last : Nat} (h : first ≤ last)
    (disen : Word) : SameTables fw (fw.enable id first last disen) := by
  rw [enable_eq fw id h]
  exact sameTables_updateTask fw id fun t => ⟨rfl, rfl⟩

theorem sameTables_ite {fw : Fw} {p : Prop} [Decidable p] {r r' : Word × Fw}
    (h : p → SameTables fw r.2) (h' : ¬ p → SameTables fw r'.2) :
    SameTables fw (if p then r else r').2 := by
  by_cases hp : p
  · rw [if_pos hp]
    exact h hp
  · rw [if_neg hp]
    exact h' hp

theorem exec_same {fw : Fw} {c : HostCmd}
    (h : ¬ (c.Valid ∧ (c.cmd = cmdMkBurst ∨ c.cmd = cmdRmBurst))) : SameTables fw (fw.exec c) := by
  have hrefl := SameTables.refl fw
  have htask : ∀ (q : Prop) [Decidable q] (f : Task → Task),
      (∀ t, (f t).trigger = t.trigger ∧ (f t).toggle = t.toggle) →
      SameTables fw (if q then fw.updateTask c.id f else fw) := by
    intro q _ f hf
    by_cases hq : q
    · rw [if_pos hq]
      exact sameTables_updateTask fw _ hf
    · rw [if_neg hq]
      exact hrefl
  rw [Fw.exec, execHostCmd]
  refine sameTables_ite (fun _ => hrefl) fun _ => ?_
  refine sameTables_ite (fun _ => ?getParam) fun _ => ?_
  case getParam =>
    exact sameTables_ite (fun _ => htask _ _ fun t => ⟨rfl, rfl⟩) fun _ => hrefl
  refine sameTables_ite (fun _ => ?getCycle) fun _ => ?_
  case getCycle =>
    exact sameTables_ite (fun _ => htask _ _ fun t => ⟨rfl, rfl⟩) fun _ => hrefl
  refine sameTables_ite (fun _ => ?lsBurst) fun _ => ?_
  case lsBurst =>
    refine sameTables_ite (fun _ => ⟨rfl, rfl, rfl, fun _ => ⟨rfl, rfl⟩⟩) fun _ => ?_
    exact sameTables_ite (fun _ => hrefl) fun _ => hrefl
  refine sameTables_ite (fun hmk => ?mkBurst) fun _ => ?_
  case mkBurst =>
    exact sameTables_ite (fun hvalid => absurd ⟨hvalid, Or.inl hmk⟩ h) fun _ => hrefl
  refine sameTables_ite (fun hrm => ?rmBurst) fun _ => ?_
  case rmBurst =>
    exact sameTables_ite (fun hvalid => absurd ⟨hvalid, Or.inr hrm⟩ h) fun _ => hrefl
  refine sameTables_ite (fun _ => ?deBurst) fun _ => ?_
  case deBurst =>
    refine sameTables_ite (fun _ => hrefl) fun _ => ?_
    refine sameTables_ite (fun _ => hrefl) fun _ => ?_
    exact sameTables_ite (fun _ => sameTables_enable fw _ (by decide) _) fun _ =>
      sameTables_enable fw _ (Nat.le_refl _) _
  exact sameTables_ite (fun _ => hrefl) fun _ => hrefl

theorem exec_mk {fw : Fw} {c : HostCmd} (hcmd : c.cmd = cmdMkBurst) :
    execHostCmd fw c.cmd c.args = if c.Valid then (statusOk, fw.mkBurst c.id c.args) else (statusErr, fw) := by
  rw [execHostCmd, hcmd]
  rfl

theorem exec_rm {fw : Fw} {c : HostCmd} (hcmd : c.cmd = cmdRmBurst) (hvalid : c.Valid) :
    fw.exec c = fw.rmBurst c.id := by
  rw [Fw.exec, execHostCmd, hcmd]
  exact congrArg Prod.snd (if_pos hvalid)

theorem updateTask_records {fw : Fw} {id : Nat} {f : Task → Task} {trigger toggle : Long}
    (hf : ∀ t, (f t).trigger = trigger ∧ (f t).toggle = toggle) (b : Nat) :
    ((fw.updateTask id f).tasks b).trigger = (if b = id then trigger else (fw.tasks b).trigger) ∧
      ((fw.updateTask id f).tasks b).toggle = (if b = id then toggle else (fw.tasks b).toggle) := by
  rw [Fw.updateTask]
  dsimp only
  split
  · rename_i hb
    rw [hb, Function.update_self]
    exact hf _
  · rename_i hb
    rw [Function.update_of_ne hb]
    exact ⟨rfl, rfl⟩

theorem updateTask_self (fw : Fw) (id : Nat) (f : Task → Task) :
    (fw.updateTask id f).tasks id = f (fw.tasks id) := Function.update_self ..

theorem mkBurst_spec (fw : Fw) (c : HostCmd) :
    (fw.mkBurst c.id c.args).gTrigConfigs = registered fw.gTrigConfigs c.declared.trigger c.id true ∧
      (fw.mkBurst c.id c.args).gToggConfigs = registered fw.gToggConfigs c.declared.toggle c.id true ∧
      (fw.mkBurst c.id c.args).gBurstsCreated = fw.gBurstsCreated ||| burstBit c.id ∧
      ∀ b, ((fw.mkBurst c.id c.args).tasks b).trigger =
          (if b = c.id then c.declared.trigger else (fw.tasks b).trigger) ∧
        ((fw.mkBurst c.id c.args).tasks b).toggle =
          (if b = c.id then c.declared.toggle else (fw.tasks b).toggle) := by
  rw [Fw.mkBurst, updateTogg_eq, updateTrig_eq, updateTask_self]
  exact ⟨rfl, rfl, rfl, updateTask_records fun t => ⟨rfl, rfl⟩⟩

theorem rmBurst_spec (fw : Fw) (id : Nat) :
    (fw.rmBurst id).gTrigConfigs = registered fw.gTrigConfigs (fw.tasks id).trigger id false ∧
      (fw.rmBurst id).gToggConfigs = registered fw.gToggConfigs (fw.tasks id).toggle id false ∧
      (fw.rmBurst id).gBurstsCreated = fw.gBurstsCreated &&& ~~~burstBit id ∧
      ∀ b, ((fw.rmBurst id).tasks b).trigger = (if b = id then 0 else (fw.tasks b).trigger) ∧
        ((fw.rmBurst id).tasks b).toggle = (if b = id then 0 else (fw.tasks b).toggle) := by
  rw [Fw.rmBurst, updateTogg_eq, updateTrig_eq, updateTask_self]
  refine ⟨rfl, rfl, rfl, fun b => ?_⟩
  have hflag : SameTables fw (fw.updateTask id fun t => { t with flag := ctlDis }) :=
    sameTables_updateTask fw id fun t => ⟨rfl, rfl⟩
  rw [← (hflag.records b).1, ← (hflag.records b).2]
  have hclear : ∀ t, (clearedBurst t).trigger = 0 ∧ (clearedBurst t).toggle = 0 := fun t => ⟨rfl, rfl⟩
  exact updateTask_records hclear b

/-- The views agree, and the records of the bursts are those declared. -/
structure Inv (fw : Fw) (decl : Nat → Option Declared) : Prop where
  trigger : TableOk fw.gTrigConfigs (Has Declared.trigger decl)
  toggle : TableOk fw.gToggConfigs (Has Declared.toggle decl)
  created : ∀ b, fw.gBurstsCreated.getLsbD b = true ↔ (decl (b + 1)).isSome = true
  records : ∀ b, (fw.tasks b).trigger = eventOf Declared.trigger decl b ∧
    (fw.tasks b).toggle = eventOf Declared.toggle decl b

theorem Inv.agree {fw : Fw} {decl : Nat → Option Declared} (h : Inv fw decl) : Agree fw decl :=
  ⟨h.trigger.lookup, h.toggle.lookup, h.trigger.unique, h.toggle.unique, h.created⟩

theorem setupTasks_inv : Inv setupTasks fun _ => none := by
  have hentry : ∀ e : Long, e ≠ 0 → lookup (fun _ => ⟨0, 0⟩) e = 0 := fun e he =>
    lookup_eq (fun i j _ _ _ h => absurd rfl h) he (.absent fun _ _ h => he h.symm)
  have htable : ∀ f : Declared → Long, TableOk (fun _ => ⟨0, 0⟩) (Has f fun _ => none) := by
    intro f
    refine ⟨fun _ _ _ => rfl, fun _ _ _ => rfl, fun i j _ _ _ h => absurd rfl h, fun e he b => ?_⟩
    rw [hentry e he]
    exact ⟨fun h => by simp at h, fun ⟨d, hd, _⟩ => absurd hd (Option.some_ne_none d).symm⟩
  exact ⟨htable _, htable _, fun b => by simp [setupTasks], fun b => ⟨rfl, rfl⟩⟩

theorem created_update {w : Word} {decl : Nat → Option Declared} {id : Nat} (hid : 0 < id)
    (hlt : id < nBursts) (h : ∀ b, w.getLsbD b = true ↔ (decl (b + 1)).isSome = true)
    (o : Option Declared) (b : Nat) :
    (if o.isSome then w ||| burstBit id else w &&& ~~~burstBit id).getLsbD b = true ↔
      (Function.update decl id o (b + 1)).isSome = true := by
  have hbit := burstBit_getLsbD hid hlt b
  by_cases hb : b + 1 = id
  · have hb32 : b < 32 := by
      have h17 : id < 17 := hlt
      omega
    rw [hb, Function.update_self]
    cases o with
    | none =>
        rw [if_neg (by simp), BitVec.getLsbD_and, BitVec.getLsbD_not, hbit.mpr hb]
        simp
    | some d =>
        rw [if_pos (by simp), BitVec.getLsbD_or, hbit.mpr hb]
        simp
  · have hoff : (burstBit id).getLsbD b = false := by
      rw [← Bool.not_eq_true]
      exact fun hh => hb (hbit.mp hh)
    rw [Function.update_of_ne hb, ← h b]
    cases o with
    | none =>
        rw [if_neg (by simp), BitVec.getLsbD_and, BitVec.getLsbD_not, hoff]
        have hrange : w.getLsbD b = true → b < 32 := by
          intro hw
          by_contra hge
          rw [BitVec.getLsbD_of_ge _ _ (Nat.not_lt.mp hge)] at hw
          exact absurd hw Bool.false_ne_true
        simpa using hrange
    | some d => rw [if_pos (by simp), BitVec.getLsbD_or, hoff, Bool.or_false]

theorem declare_mk {decl : Nat → Option Declared} {c : HostCmd} (hcmd : c.cmd = cmdMkBurst)
    (hvalid : c.Valid) : declare decl c = Function.update decl c.id (some c.declared) := by
  rw [declare, if_pos hvalid, if_pos hcmd]

theorem declare_rm {decl : Nat → Option Declared} {c : HostCmd} (hcmd : c.cmd = cmdRmBurst)
    (hvalid : c.Valid) : declare decl c = Function.update decl c.id none := by
  rw [declare, if_pos hvalid, if_neg (by rw [hcmd]; decide), if_pos hcmd]

theorem declare_other {decl : Nat → Option Declared} {c : HostCmd}
    (h : ¬ (c.Valid ∧ (c.cmd = cmdMkBurst ∨ c.cmd = cmdRmBurst))) : declare decl c = decl := by
  rw [declare]
  split
  · rename_i hvalid
    obtain ⟨hmk, hrm⟩ := not_or.mp fun hh => h ⟨hvalid, hh⟩
    rw [if_neg hmk, if_neg hrm]
  · rfl

theorem records_update {f : Declared → Long} {g : Nat → Long} {decl : Nat → Option Declared}
    (h : ∀ b, g b = eventOf f decl b) (id : Nat) (o : Option Declared) (b : Nat) :
    (if b = id then (o.map f).getD 0 else g b) = eventOf f (Function.update decl id o) b := by
  rw [eventOf_update, h b]

namespace Inv

variable {fw : Fw} {decl : Nat → Option Declared} {c : HostCmd}

/-- **A command that can be carried out** keeps the views in agreement. -/
theorem step (h : Inv fw decl) (hadm : Admissible fw c) : Inv (fw.exec c) (declare decl c) := by
  by_cases hwork : c.Valid ∧ (c.cmd = cmdMkBurst ∨ c.cmd = cmdRmBurst)
  · obtain ⟨⟨hid, hlt⟩, hmk | hrm⟩ := hwork
    · obtain ⟨htrig, htogg⟩ := hadm hmk ⟨hid, hlt⟩
      obtain ⟨heqTrig, heqTogg, heqCreated, heqTasks⟩ := mkBurst_spec fw c
      have hexec : fw.exec c = fw.mkBurst c.id c.args := by
        rw [Fw.exec, exec_mk hmk, if_pos ⟨hid, hlt⟩]
      rw [hexec, declare_mk hmk ⟨hid, hlt⟩]
      refine ⟨?_, ?_, fun b => ?_, fun b => ⟨?_, ?_⟩⟩
      · rw [heqTrig]
        exact mk_table h.trigger hid hlt ((h.records c.id).1 ▸ htrig)
      · rw [heqTogg]
        exact mk_table h.toggle hid hlt ((h.records c.id).2 ▸ htogg)
      · rw [heqCreated]
        exact created_update hid hlt h.created (some c.declared) b
      · rw [(heqTasks b).1]
        exact records_update (fun b => (h.records b).1) c.id (some c.declared) b
      · rw [(heqTasks b).2]
        exact records_update (fun b => (h.records b).2) c.id (some c.declared) b
    · obtain ⟨heqTrig, heqTogg, heqCreated, heqTasks⟩ := rmBurst_spec fw c.id
      rw [exec_rm hrm ⟨hid, hlt⟩, declare_rm hrm ⟨hid, hlt⟩]
      refine ⟨?_, ?_, fun b => ?_, fun b => ⟨?_, ?_⟩⟩
      · rw [heqTrig, (h.records c.id).1]
        exact rm_table h.trigger hid hlt
      · rw [heqTogg, (h.records c.id).2]
        exact rm_table h.toggle hid hlt
      · rw [heqCreated]
        exact created_update hid hlt h.created none b
      · rw [(heqTasks b).1]
        exact records_update (fun b => (h.records b).1) c.id none b
      · rw [(heqTasks b).2]
        exact records_update (fun b => (h.records b).2) c.id none b
  · have hsame : SameTables fw (fw.exec c) := exec_same hwork
    rw [declare_other hwork]
    refine ⟨hsame.trigger ▸ h.trigger, hsame.toggle ▸ h.toggle, hsame.created ▸ h.created, fun b => ?_⟩
    rw [(hsame.records b).1, (hsame.records b).2]
    exact h.records b

theorem step_fails (h : Inv fw decl) (hadm : ¬ Admissible fw c) :
    ¬ Agree (fw.exec c) (declare decl c) := by
  intro hagree
  simp only [Admissible, Classical.not_imp] at hadm
  obtain ⟨hmk, ⟨hid, hlt⟩, hno⟩ := hadm
  obtain ⟨heqTrig, heqTogg, -, -⟩ := mkBurst_spec fw c
  have hexec : fw.exec c = fw.mkBurst c.id c.args := by
    rw [Fw.exec, exec_mk hmk, if_pos ⟨hid, hlt⟩]
  have hsucc : c.id - 1 + 1 = c.id := Nat.sub_add_cancel hid
  rw [hexec, declare_mk hmk ⟨hid, hlt⟩] at hagree
  rcases not_and_or.mp hno with hno | hno
  · rw [(h.records c.id).1] at hno
    obtain ⟨e, he, hbad⟩ := mk_table_fails h.trigger hid hlt hno
    have hview := hagree.trigger e he (c.id - 1)
    rw [heqTrig, hsucc] at hview
    exact hbad hview
  · rw [(h.records c.id).2] at hno
    obtain ⟨e, he, hbad⟩ := mk_table_fails h.toggle hid hlt hno
    have hview := hagree.toggle e he (c.id - 1)
    rw [heqTogg, hsucc] at hview
    exact hbad hview

end Inv

theorem Agree.registered {fw : Fw} {decl : Nat → Option Declared} (h : Agree fw decl) {c : HostCmd}
    (hvalid : c.Valid) (hdecl : decl c.id = some c.declared) : Registered fw c := by
  have hsucc : c.id - 1 + 1 = c.id := Nat.sub_add_cancel hvalid.1
  refine ⟨hvalid, (h.created _).mpr ?_, fun he => (h.trigger _ he _).mpr ?_,
    fun he => (h.toggle _ he _).mpr ?_⟩
  · rw [hsucc, hdecl]
    rfl
  · rw [hsucc]
    exact ⟨_, hdecl, rfl⟩
  · rw [hsucc]
    exact ⟨_, hdecl, rfl⟩

/-! ### Runs -/

def runCmds (cs : List HostCmd) : Fw := cs.foldl Fw.exec setupTasks

def declaredBy (cs : List HostCmd) : Nat → Option Declared := cs.foldl declare fun _ => none

theorem runCmds_snoc (cs : List HostCmd) (c : HostCmd) :
    runCmds (cs ++ [c]) = (runCmds cs).exec c := by
  rw [runCmds, List.foldl_append]
  rfl

theorem declaredBy_snoc (cs : List HostCmd) (c : HostCmd) :
    declaredBy (cs ++ [c]) = declare (declaredBy cs) c := by
  rw [declaredBy, List.foldl_append]
  rfl

/-- A declaration that is not registered is an error for the host. -/
def Reported (fw : Fw) (c : HostCmd) : Prop :=
  c.cmd = cmdMkBurst → ¬ Registered (fw.exec c) c → (execHostCmd fw c.cmd c.args).1 = statusErr

theorem Inv.reported {fw : Fw} {decl : Nat → Option Declared} {c : HostCmd} (h : Inv fw decl)
    (hadm : Admissible fw c) : Reported fw c := by
  intro hmk hno
  by_cases hvalid : c.Valid
  · refine absurd ((h.step hadm).agree.registered hvalid ?_) hno
    rw [declare_mk hmk hvalid, Function.update_self]
  · rw [exec_mk hmk, if_neg hvalid]

/-- **The event tables** agree with what is declared after every command, and a declaration
that is not registered is reported, in exactly those sequences of commands in which no
burst is declared while it has other events. -/
theorem tables_agree_iff (cs : List HostCmd) :
    (∀ pre c, pre ++ [c] <+: cs →
        Agree (runCmds (pre ++ [c])) (declaredBy (pre ++ [c])) ∧ Reported (runCmds pre) c) ↔
      ∀ pre c, pre ++ [c] <+: cs → Admissible (runCmds pre) c := by
  have hinv : (∀ pre c, pre ++ [c] <+: cs → Inv (runCmds pre) (declaredBy pre) →
      Admissible (runCmds pre) c) → ∀ pre, pre <+: cs → Inv (runCmds pre) (declaredBy pre) := by
    intro hadm pre
    induction pre using List.reverseRecOn with
    | nil => exact fun _ => setupTasks_inv
    | append_singleton pre c ih =>
        intro hpre
        have hi := ih ((List.prefix_append pre [c]).trans hpre)
        rw [runCmds_snoc, declaredBy_snoc]
        exact hi.step (hadm pre c hpre hi)
  constructor
  · intro hall
    have hadm : ∀ pre c, pre ++ [c] <+: cs → Inv (runCmds pre) (declaredBy pre) →
        Admissible (runCmds pre) c := by
      intro pre c hc hi
      by_contra hno
      refine hi.step_fails hno ?_
      rw [← runCmds_snoc, ← declaredBy_snoc]
      exact (hall pre c hc).1
    intro pre c hc
    exact hadm pre c hc (hinv hadm pre ((List.prefix_append pre [c]).trans hc))
  · intro hall pre c hc
    have hrun := hinv fun pre c hc _ => hall pre c hc
    have hpre := hrun pre ((List.prefix_append pre [c]).trans hc)
    exact ⟨(hrun _ hc).agree, hpre.reported (hall pre c hc)⟩

/-! ### A burst declared twice -/

/-- `CMD_MK_BURST` for burst 1 with trigger event `e`. -/
def sampleMk (e : Word) : HostCmd :=
  { cmd := cmdMkBurst, args := fun i => if i = 0 then 1 else if i = 3 then e else 0 }

/-- **A burst that is declared again** with another trigger event is still registered for the
first one, and the host is told that all is well. -/
theorem redeclared_twice_registered : ∃ cs c,
    (execHostCmd (runCmds cs) c.cmd c.args).1 = statusOk ∧
      (lookup (runCmds (cs ++ [c])).gTrigConfigs 0xA).getLsbD 0 = true ∧
      ¬ Has Declared.trigger (declaredBy (cs ++ [c])) 0xA 1 ∧
      ¬ Agree (runCmds (cs ++ [c])) (declaredBy (cs ++ [c])) := by
  have hset : (lookup (runCmds ([sampleMk 0xA] ++ [sampleMk 0xB])).gTrigConfigs 0xA).getLsbD 0 = true := by
    decide
  have hno : ¬ Has Declared.trigger (declaredBy ([sampleMk 0xA] ++ [sampleMk 0xB])) 0xA 1 := by
    rw [has_iff (by decide)]
    decide
  exact ⟨[sampleMk 0xA], sampleMk 0xB, rfl, hset, hno,
    fun h => hno ((h.trigger 0xA (by decide) 0).mp hset)⟩

end BurstGen
