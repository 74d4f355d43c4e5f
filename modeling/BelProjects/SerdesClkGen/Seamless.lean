import BelProjects.SerdesClkGen.SyncPass

/-!
# Loads of the synchronisation machine

A pass writes what the free-running counter holds in that clock anyway, and so modules with
the same settings and the same time put out the same bits.
-/

namespace SerdesClkGen

open Marks

/-- No edge lies more than seven bits behind the first one of its word. -/
def NearOffsets (fillFactor cutWidePeriod : Nat) : Prop :=
  ∀ i < fillFactor, offset fillFactor cutWidePeriod i ≤ 7

/-! ## The bits of a word and those already past -/

def sampleBank (fillFactor P : Nat) : Bank where
  per := 0
  perHi := 0
  frac := 0
  bitpattNormal := (clkPattern fillFactor P).setWidth 32
  bitpattSkip := (skipPattern (clkPattern fillFactor P)).setWidth 32
  phofsl := 0
  phofsh := 0

/-- The number of edges in a word, and how those past change with it. -/
def Balanced (fillFactor P cnt : Nat) (carry : Bool) : Prop :=
  outp false (Counter.bitPattern (sampleBank fillFactor P) ⟨BitVec.ofNat 32 cnt, 0, carry, false⟩) 7 =
    ((patternParity ((clkPattern fillFactor P).setWidth 32) && decide (cnt + carry.toNat < 8)) ^^
      delayedBit ((clkPattern fillFactor P).setWidth 32) (BitVec.ofNat 32 cnt) ^^
      delayedBit ((clkPattern fillFactor P).setWidth 32) (BitVec.ofNat 32
        (if cnt + carry.toNat < 8 then cnt + carry.toNat + P - 8 else cnt + carry.toNat - 8)))

instance (fillFactor P cnt : Nat) (carry : Bool) : Decidable (Balanced fillFactor P cnt carry) :=
  inferInstanceAs (Decidable (_ = _))

instance (fillFactor P : Nat) : Decidable (NearOffsets fillFactor P) :=
  inferInstanceAs (Decidable (∀ i < fillFactor, _))

theorem balanced_table : ∀ (f p : Fin 8) (cnt : Fin 16) (carry : Bool),
    NearOffsets (f + 1) (p + 8) → cnt.val < p + 8 → (carry = true → p ≤ cnt.val) →
      Balanced (f + 1) (p + 8) cnt carry := by
  decide +kernel

/-- More than one edge in a word needs a period below sixteen bits. -/
theorem NearOffsets.fill {fillFactor P : Nat} (h : NearOffsets fillFactor P) (hfill : 0 < fillFactor)
    (hper : 8 ≤ P) : fillFactor < 9 ∧ (15 < P → fillFactor = 1) := by
  have hlast := h (fillFactor - 1) (by omega)
  rw [offset, Nat.div_le_iff_le_mul_add_pred hfill] at hlast
  obtain ⟨f, rfl⟩ : ∃ f, fillFactor = f + 1 := ⟨fillFactor - 1, by omega⟩
  rw [Nat.add_sub_cancel] at hlast
  constructor
  · have := Nat.mul_le_mul_left f hper
    omega
  · intro hlong
    have := Nat.mul_le_mul_left f hlong
    omega

theorem clkPattern_long {P : Nat} (hper : 16 ≤ P) : clkPattern 1 P = 0x80 := by
  apply BitVec.eq_of_getLsbD_eq
  intro i hi
  rw [getLsbD_clkPattern_one (by omega)]
  interval_cases i <;> simp
  omega

section Word

variable {fillFactor : Nat} {b : Bank} {c : Counter}

/-- A word of a long period holds at most one edge, and none of them is past. -/
theorem balanced_long (hper : 16 ≤ b.per.toNat) (hb : b.Configured (clk 1 b.per b.frac))
    (hbelow : c.perCount.toNat < b.per.toNat) :
    outp false (c.bitPattern b) 7 = decide (c.ahead < 8) := by
  have hbit (j : Nat) (hj : j < 8) := getLsbD_bitPattern_one (by omega) hb hbelow hj
  have h0 := hbit 0 (by decide)
  have h1 := hbit 1 (by decide)
  have h2 := hbit 2 (by decide)
  have h3 := hbit 3 (by decide)
  have h4 := hbit 4 (by decide)
  have h5 := hbit 5 (by decide)
  have h6 := hbit 6 (by decide)
  have h7 := hbit 7 (by decide)
  simp only [outp]
  rw [h0, h1, h2, h3, h4, h5, h6, h7]
  rcases Nat.lt_or_ge c.ahead 8 with hlt | hge
  · generalize c.ahead = a at hlt
    interval_cases a <;> decide
  · have hne (j : Nat) (hj : j < 8) : decide (c.ahead = j) = false := by
      rw [decide_eq_false_iff_not]
      omega
    rw [hne 0, hne 1, hne 2, hne 3, hne 4, hne 5, hne 6, hne 7] <;> simp
    exact hge

theorem outp_last (d0 : Bool) (pattern : BitVec 8) : outp d0 pattern 7 = (d0 ^^ outp false pattern 7) := by
  simp only [outp, Bool.false_xor, Bool.xor_assoc]

theorem delayedBit_long (cnt : BitVec 32) : delayedBit (BitVec.setWidth 32 0x80#16) cnt = false := by
  have hzero : (0#24 ++ (BitVec.setWidth 32 0x80#16).extractLsb' 8 8 : BitVec 32) = 0#32 := by
    decide
  have hword : outp false (BitVec.setWidth 8 0#32) 7 = false := by
    decide
  rw [delayedBit]
  split
  · exact hword
  · rw [hzero, BitVec.zero_ushiftRight, BitVec.zero_and]
    exact hword

/-- The edges of a word: those that come up in it, counted with the parity of a period when
it holds a first edge. -/
theorem balanced (hfill : 0 < fillFactor) (hnear : NearOffsets fillFactor b.per.toNat)
    (hper : 8 ≤ b.per.toNat) (hb : b.Configured (clk fillFactor b.per b.frac))
    (hbelow : c.perCount.toNat < b.per.toNat)
    (hcarry : c.fracCarry = true → b.per.toNat ≤ c.perCount.toNat + 8) {cnt : BitVec 32}
    (hcnt : cnt.toNat = if c.ahead < 8 then c.ahead + b.per.toNat - 8 else c.ahead - 8) :
    outp false (c.bitPattern b) 7 =
      ((patternParity b.bitpattNormal && decide (c.ahead < 8)) ^^
        delayedBit b.bitpattNormal c.perCount ^^ delayedBit b.bitpattNormal cnt) := by
  obtain ⟨hnine, hone⟩ := hnear.fill hfill hper
  rcases Nat.lt_or_ge b.per.toNat 16 with hshort | hlong
  · have hcounts : cnt = BitVec.ofNat 32
        (if c.ahead < 8 then c.ahead + b.per.toNat - 8 else c.ahead - 8) := by
      rw [← hcnt, BitVec.ofNat_toNat, BitVec.setWidth_eq]
    have hcount : c.perCount = BitVec.ofNat 32 c.perCount.toNat := by
      rw [BitVec.ofNat_toNat, BitVec.setWidth_eq]
    have hword : c.bitPattern b = Counter.bitPattern (sampleBank fillFactor b.per.toNat)
        ⟨BitVec.ofNat 32 c.perCount.toNat, 0, c.fracCarry, false⟩ := by
      simp only [Counter.bitPattern, Counter.shpatt, Counter.patt, hb.normal, hb.skip, ← hcount]
      rfl
    have htable := balanced_table ⟨fillFactor - 1, by omega⟩ ⟨b.per.toNat - 8, by omega⟩
      ⟨c.perCount.toNat, by omega⟩ c.fracCarry
    simp only [Nat.sub_add_cancel hfill, Nat.sub_add_cancel hper] at htable
    have hrow := htable hnear hbelow (fun h => by have := hcarry h; omega)
    rw [Balanced] at hrow
    rw [hword, hrow, hcounts, hb.normal, ← hcount]
    rfl
  · obtain rfl := hone hlong
    have hnormal : b.bitpattNormal = BitVec.setWidth 32 0x80#16 := by
      rw [hb.normal, clk, clkPattern_long hlong]
      rfl
    have hparity : patternParity (BitVec.setWidth 32 0x80#16) = true := by
      decide
    rw [balanced_long hlong hb hbelow, hnormal, hparity, delayedBit_long, delayedBit_long, Bool.true_and,
      Bool.xor_false, Bool.xor_false]

end Word

/-! ## The closed form follows the counter -/

section CounterAt

variable {fillFactor : Nat} {b : Bank}

theorem countAt_spec (hper : 8 ≤ b.per.toNat) (time : Int) :
    ((b.countAt time).toNat : Int) = b.toGo time / 2 ^ 32 - (b.carryAt time).toNat ∧
      (b.countAt time).toNat < b.per.toNat ∧
      (b.carryAt time = true → b.per.toNat ≤ (b.countAt time).toNat + 8) := by
  have hpos := Counter.period_pos hper
  have hnonneg : 0 ≤ b.toGo time := untilMark_nonneg hpos _
  have hlt : b.toGo time < b.period := untilMark_lt hpos _
  have hbound := b.per.isLt
  have hfrac := b.frac.isLt
  have hperiod : (b.period : Int) = b.per.toNat * 2 ^ 32 + b.frac.toNat := by
    simp [Bank.period]
  have hlow : b.carryAt time = true → b.per.toNat + 1 ≤ b.toGo time / 2 ^ 32 + 8 := by
    rw [Bank.carryAt, decide_eq_true_iff]
    rintro ⟨hword, hover⟩
    omega
  have hhigh : b.carryAt time = false → b.toGo time / 2 ^ 32 < b.per.toNat := by
    rw [Bank.carryAt, decide_eq_false_iff_not]
    intro hnone
    by_contra hge
    exact hnone ⟨by omega, by omega⟩
  rw [Bank.countAt, BitVec.toNat_ofInt]
  cases hcarry : b.carryAt time
  · have := hhigh hcarry
    simp
    omega
  · have := hlow hcarry
    simp
    omega

theorem counterAt_tracks (hper : 8 ≤ b.per.toNat) (time : Int) :
    (b.counterAt time).Tracks b time where
  distance := by
    have hcount := (countAt_spec hper time).1
    have hfrac : ((b.counterAt time).fracCount.toNat : Int) = b.toGo time % 2 ^ 32 := by
      rw [Bank.counterAt, BitVec.toNat_ofInt]
      omega
    rw [hfrac, Counter.ahead]
    change (((b.countAt time).toNat + (b.carryAt time).toNat : Nat) * 2 ^ 32 + _ : Int) = b.toGo time
    push_cast
    omega
  below := (countAt_spec hper time).2.1

theorem eq_of_tracks (hper : 8 ≤ b.per.toNat) {c : Counter} {time : Int} (h : c.Tracks b time)
    (hcarry : c.fracCarry = b.carryAt time) :
    c.perCount = b.countAt time ∧ c.fracCount = (b.counterAt time).fracCount := by
  have hdistance := h.distance
  have hdistance' := (counterAt_tracks hper time).distance
  have hfrac := c.fracCount.isLt
  have hfrac' := (b.counterAt time).fracCount.isLt
  have hcarry' : (b.counterAt time).fracCarry = c.fracCarry := hcarry.symm
  have hcount : (b.counterAt time).perCount = b.countAt time := rfl
  simp only [Counter.ahead, hcarry', hcount] at hdistance hdistance'
  constructor
  · apply BitVec.eq_of_toNat_eq
    omega
  · apply BitVec.eq_of_toNat_eq
    omega

theorem counterAt_outpD0 (time : Int) : (b.counterAt time).outpD0 =
    ((patternParity b.bitpattNormal && decide (nextMark b.period (time * 2 ^ 32) % 2 = 1)) ^^
      delayedBit b.bitpattNormal (b.countAt time)) := by
  rw [Bank.counterAt]

theorem last_step : ∀ parity odd before after edge : Bool,
    (((parity && odd) ^^ before) ^^ ((parity && edge) ^^ before ^^ after)) =
      ((parity && (odd ^^ edge)) ^^ after) := by
  decide

theorem time_add (time : Int) : (time + 8) * 2 ^ 32 = time * 2 ^ 32 + 8 * 2 ^ 32 := by
  ring

theorem toGo_add (hper : 8 ≤ b.per.toNat) (time : Int) :
    (b.toGo time < 8 * 2 ^ 32 → b.toGo (time + 8) = b.toGo time + b.period - 8 * 2 ^ 32 ∧
      nextMark b.period ((time + 8) * 2 ^ 32) = nextMark b.period (time * 2 ^ 32) + 1) ∧
    (8 * 2 ^ 32 ≤ b.toGo time → b.toGo (time + 8) = b.toGo time - 8 * 2 ^ 32 ∧
      nextMark b.period ((time + 8) * 2 ^ 32) = nextMark b.period (time * 2 ^ 32)) := by
  have hpos := Counter.period_pos hper
  have hwide : (8 * 2 ^ 32 : Int) ≤ b.period := by
    simp only [Bank.period]
    omega
  rw [Bank.toGo, Bank.toGo, time_add]
  constructor
  · intro hlt
    obtain ⟨hnext, huntil⟩ := mark_add_of_lt hpos hwide hlt
    exact ⟨huntil, hnext⟩
  · intro hle
    obtain ⟨hnext, huntil⟩ := mark_add_of_le hpos (by decide) hle
    exact ⟨huntil, hnext⟩

/-- One clock of the free-running counter takes the closed form eight bits on. -/
theorem count_counterAt (hfill : 0 < fillFactor) (hnear : NearOffsets fillFactor b.per.toNat)
    (hper : 8 ≤ b.per.toNat) (hb : b.Configured (clk fillFactor b.per b.frac)) (time : Int) :
    (b.counterAt time).count b = b.counterAt (time + 8) := by
  have htracks := counterAt_tracks hper time
  have hahead : ((b.counterAt time).ahead : Int) = b.toGo time / 2 ^ 32 := htracks.ahead_eq
  have hfrac : ((b.counterAt time).fracCount.toNat : Int) = b.toGo time % 2 ^ 32 := by
    rw [Bank.counterAt, BitVec.toNat_ofInt]
    omega
  have hnonneg : 0 ≤ b.toGo time := untilMark_nonneg (Counter.period_pos hper) _
  have hperiod : (b.period : Int) = b.per.toNat * 2 ^ 32 + b.frac.toNat := by
    simp [Bank.period]
  have hbound := b.frac.isLt
  obtain ⟨hover, hunder⟩ := toGo_add hper time
  -- the new carry and period counter give the last bit
  have hfinish (hcarry : ((b.counterAt time).count b).fracCarry = b.carryAt (time + 8))
      (hcount : ((b.counterAt time).count b).perCount.toNat = if (b.counterAt time).ahead < 8 then
        (b.counterAt time).ahead + b.per.toNat - 8 else (b.counterAt time).ahead - 8)
      (hparity : decide (nextMark b.period ((time + 8) * 2 ^ 32) % 2 = 1) =
        (decide (nextMark b.period (time * 2 ^ 32) % 2 = 1) ^^ decide ((b.counterAt time).ahead < 8))) :
      (b.counterAt time).count b = b.counterAt (time + 8) := by
    obtain ⟨hper', hfrac'⟩ := eq_of_tracks hper (htracks.count hper) hcarry
    refine Counter.ext hper' hfrac' hcarry ?_
    have hword := balanced hfill hnear hper hb htracks.below (countAt_spec hper time).2.2 hcount
    rw [Counter.count_outpD0, outp_last, hword, hper', counterAt_outpD0, counterAt_outpD0, hparity]
    exact last_step _ _ _ _ _
  rcases Nat.lt_or_ge (b.counterAt time).ahead 8 with hlt | hge
  · obtain ⟨hcount, -, hcarry, -⟩ := Counter.count_of_lt (b := b) hlt hper
    obtain ⟨htoGo, hnext⟩ := hover (by omega)
    refine hfinish ?_ (by rw [hcount, if_pos hlt]) ?_
    · rw [hcarry, Bank.carryAt, htoGo, decide_eq_decide]
      constructor
      · intro hfull
        exact ⟨by omega, by omega⟩
      · rintro ⟨-, hfull⟩
        omega
    · rw [hnext, decide_eq_true hlt, Bool.xor_true, ← decide_not, decide_eq_decide]
      omega
  · obtain ⟨hcount, -, hcarry, -⟩ := Counter.count_of_le (b := b) hge
    obtain ⟨htoGo, hnext⟩ := hunder (by omega)
    refine hfinish ?_ (by rw [hcount, if_neg (Nat.not_lt.mpr hge)]) ?_
    · have hlt := untilMark_lt (Counter.period_pos hper) (time * 2 ^ 32)
      rw [hcarry, Bank.carryAt, htoGo, eq_comm, decide_eq_false_iff_not]
      rintro ⟨hword, -⟩
      rw [Bank.toGo] at hword
      omega
    · rw [hnext, decide_eq_false (Nat.not_lt.mpr hge), Bool.xor_false]

end CounterAt

/-! ## Runs of a module -/

section Runs

variable {n : Nat}

def Module.run (selectable : Bool) (m₀ : Module n) (inp : Nat → Inputs n) : Nat → Module n :=
  Clocked.trace (Module.step selectable) m₀ inp

def Module.half (m : Module n) (low : Bool) (ch : Fin n) : Counter := if low then m.lo ch else m.hi ch

def Module.ld (m : Module n) (low : Bool) (ch : Fin n) : Bool :=
  if low then m.sync.ldLo ch else m.sync.ldHi ch

/-- Up to clock `last` the settings of a channel stay, and the ECA time counts the clocks. -/
structure Steady (inp : Nat → Inputs n) (ch : Fin n) (b : Bank) (last : Nat) : Prop where
  bank : ∀ t ≤ last, (inp t).bank ch = b
  noLoad : ∀ t ≤ last, (inp t).ldRegs ch = false
  advances : ∀ t < last, (inp (t + 1)).ecaTime = (inp t).ecaTime + 1

/-- Eight times the ECA time does not run over in the next clock. -/
def InRange (ecaTime : BitVec 64) : Prop := ecaTime.toNat % 2 ^ 61 + 1 < 2 ^ 61

theorem time_succ {b : Bank} {low : Bool} {ecaTime : BitVec 64} (h : InRange ecaTime) :
    b.time low (ecaTime + 1) = b.time low ecaTime + 8 := by
  have hlt := ecaTime.isLt
  rw [InRange] at h
  rw [Bank.time, Bank.time, BitVec.toNat_shiftLeft, BitVec.toNat_shiftLeft, BitVec.toNat_add,
    Nat.shiftLeft_eq, Nat.shiftLeft_eq]
  simp only [BitVec.ofNat_eq_ofNat, BitVec.toNat_ofNat]
  omega

variable {selectable : Bool} {m₀ : Module n} {inp : Nat → Inputs n} {ch : Fin n} {b : Bank} {last : Nat}

theorem Steady.time_add (hsteady : Steady inp ch b last) (hrange : ∀ t < last, InRange (inp t).ecaTime)
    (low : Bool) (t : Nat) : ∀ k, t + k ≤ last →
      b.time low (inp (t + k)).ecaTime = b.time low (inp t).ecaTime + 8 * k
  | 0, _ => by simp
  | k + 1, hk => by
      have hlt : t + k < last := hk
      rw [← Nat.add_assoc, hsteady.advances _ hlt, time_succ (hrange _ hlt),
        hsteady.time_add hrange low t k hlt.le]
      push_cast
      ring

variable (selectable m₀ inp) in
theorem run_follows : Sync.Follows inp fun t => (Module.run selectable m₀ inp t).sync := fun _ => rfl

variable (selectable m₀ inp ch) in
theorem half_step (low : Bool) (t : Nat) : (Module.run selectable m₀ inp (t + 1)).half low ch =
    ((Module.run selectable m₀ inp t).half low ch).onClk ((inp t).bank ch)
      (if low then ((inp t).bank ch).perHi else 0) ((inp t).ldRegs ch)
      ((Module.run selectable m₀ inp t).ld low ch) (Module.run selectable m₀ inp t).sync.values := by
  cases low <;> rfl

/-- A load writes what the counter should hold at the time read 72 clocks before. -/
theorem load_values (hstart : m₀.sync.state = .start) (hper : 8 ≤ b.per.toNat)
    (hsteady : Steady inp ch b last) {low : Bool} {u : Nat} (hu : 0 < u) (hlast : u ≤ last)
    (hld : (Module.run selectable m₀ inp u).ld low ch = true) :
    ∃ t, u = t + 74 ∧ (Module.run selectable m₀ inp u).sync.values =
      b.counterAt (b.time low (inp (t + 2)).ecaTime) := by
  have hrun := run_follows selectable m₀ inp
  have hquiet : Sync.Quiet (Module.run selectable m₀ inp u).sync :=
    Clocked.trace_invariant (I := fun m : Module n => Sync.Quiet m.sync)
      (fun hne => absurd hstart hne) (fun i m h => Sync.quiet_next h i.bank i.ecaTime) u
  have hstate : (Module.run selectable m₀ inp u).sync.state = .start := by
    by_contra hne
    obtain ⟨hhi, hlo⟩ := hquiet hne ch
    cases low
    · exact absurd (hld.symm.trans hhi) (by decide)
    · exact absurd (hld.symm.trans hlo) (by decide)
  obtain ⟨t, rfl, hbegin⟩ := Sync.start_before hrun hstart hu hstate
  have hmarked := Sync.pass_marked hrun hbegin
  have hhalf : (Module.run selectable m₀ inp t).sync.setLoCount = low ∧
      (Module.run selectable m₀ inp t).sync.channelCount = ch := by
    cases low
    · have hld' := (hmarked.ldHi ch).symm.trans hld
      simp only [Bool.and_eq_true, Bool.not_eq_true', decide_eq_true_eq] at hld'
      exact ⟨hld'.1, hld'.2.symm⟩
    · have hld' := (hmarked.ldLo ch).symm.trans hld
      simp only [Bool.and_eq_true, decide_eq_true_eq] at hld'
      exact ⟨hld'.1, hld'.2.symm⟩
  have hbank : (inp (t + 1)).bank (Module.run selectable m₀ inp t).sync.channelCount = b := by
    rw [hhalf.2]
    exact hsteady.bank _ (by omega)
  have hvalues := Sync.pass_values hrun hbegin hbank hper
  simp only [hhalf.1] at hvalues
  exact ⟨t, rfl, hvalues⟩

theorem half_after_load (hstart : m₀.sync.state = .start) {fillFactor : Nat} (hfill : 0 < fillFactor)
    (hnear : NearOffsets fillFactor b.per.toNat) (hper : 8 ≤ b.per.toNat)
    (hb : b.Configured (clk fillFactor b.per b.frac)) (hsteady : Steady inp ch b last)
    (hrange : ∀ t < last, InRange (inp t).ecaTime) {low : Bool} {t : Nat} (hlast : t + 74 ≤ last)
    (hld : (Module.run selectable m₀ inp (t + 74)).ld low ch = true) :
    ∀ k, t + 74 + k ≤ last → (Module.run selectable m₀ inp (t + 74 + k + 1)).half low ch =
      b.counterAt (b.time low (inp (t + 2 + k)).ecaTime) := by
  have hload {u : Nat} (hu : u + 74 ≤ last)
      (hld : (Module.run selectable m₀ inp (u + 74)).ld low ch = true) :
      (Module.run selectable m₀ inp (u + 74)).sync.values = b.counterAt (b.time low (inp (u + 2)).ecaTime) := by
    obtain ⟨u', heq, hvalues⟩ := load_values hstart hper hsteady (by omega) hu hld
    obtain rfl : u = u' := by omega
    exact hvalues
  intro k
  induction k with
  | zero =>
      intro _
      rw [Nat.add_zero, half_step, hsteady.noLoad _ hlast, hld]
      exact hload hlast hld
  | succ k ih =>
      intro hk
      have hbefore := ih (Nat.le_of_succ_le hk)
      have hclock : t + 74 + (k + 1) = t + (k + 1) + 74 := by
        omega
      have hread : t + 2 + (k + 1) = t + (k + 1) + 2 := by
        omega
      rw [half_step, hsteady.noLoad _ hk, hsteady.bank _ hk]
      by_cases hagain : (Module.run selectable m₀ inp (t + 74 + (k + 1))).ld low ch = true
      · rw [hagain, hread]
        rw [hclock] at hk hagain ⊢
        exact hload hk hagain
      · rw [Bool.not_eq_true] at hagain
        rw [hagain, ← Nat.add_assoc, hbefore, ← Nat.add_assoc,
          hsteady.advances _ (by omega), time_succ (hrange _ (by omega))]
        exact count_counterAt hfill hnear hper hb _

/-- After the load in clock `first` every later load writes what the counter would hold had
it run freely since then, which is what the counter holds in every clock. -/
structure Seamless (m : Nat → Module n) (b : Bank) (low : Bool) (ch : Fin n) (first last : Nat) : Prop where
  loads : ∀ u, first < u → u ≤ last → (m u).ld low ch = true →
    (m u).sync.values = (m first).sync.values.run b (u - first)
  free : ∀ u, first < u → u ≤ last → (m u).half low ch = (m first).sync.values.run b (u - first - 1)

theorem run_counterAt {fillFactor : Nat} (hfill : 0 < fillFactor)
    (hnear : NearOffsets fillFactor b.per.toNat) (hper : 8 ≤ b.per.toNat)
    (hb : b.Configured (clk fillFactor b.per b.frac)) (time : Int) :
    ∀ k, (b.counterAt time).run b k = b.counterAt (time + 8 * k)
  | 0 => by simp [Counter.run]
  | k + 1 => by
      rw [Counter.run, run_counterAt hfill hnear hper hb time k, count_counterAt hfill hnear hper hb]
      push_cast
      ring_nf

theorem seamless_of_range (hstart : m₀.sync.state = .start) {fillFactor : Nat} (hfill : 0 < fillFactor)
    (hnear : NearOffsets fillFactor b.per.toNat) (hper : 8 ≤ b.per.toNat)
    (hb : b.Configured (clk fillFactor b.per b.frac)) (hsteady : Steady inp ch b last)
    (hrange : ∀ t < last, InRange (inp t).ecaTime) {low : Bool} {first : Nat} (hfirst : 0 < first)
    (hlast : first ≤ last) (hld : (Module.run selectable m₀ inp first).ld low ch = true) :
    Seamless (Module.run selectable m₀ inp) b low ch first last := by
  obtain ⟨t, rfl, hvalues⟩ := load_values hstart hper hsteady hfirst hlast hld
  constructor
  · intro u hu hul hagain
    obtain ⟨t', rfl, hvalues'⟩ := load_values hstart hper hsteady (Nat.lt_trans hfirst hu) hul hagain
    obtain ⟨k, rfl⟩ := Nat.exists_eq_add_of_le (Nat.le_of_lt (Nat.add_lt_add_iff_right.mp hu))
    have hread : t + k + 2 = t + 2 + k := by
      omega
    have hsince : t + k + 74 - (t + 74) = k := by
      omega
    rw [hvalues', hvalues, run_counterAt hfill hnear hper hb, hsince, hread,
      hsteady.time_add hrange low (t + 2) k (by omega)]
  · intro u hu hul
    obtain ⟨k, rfl⟩ := Nat.exists_eq_add_of_lt hu
    have hsince : t + 74 + k + 1 - (t + 74) - 1 = k := by
      omega
    rw [half_after_load hstart hfill hnear hper hb hsteady hrange hlast hld k (by omega), hvalues,
      run_counterAt hfill hnear hper hb, hsince, hsteady.time_add hrange low (t + 2) k (by omega)]

/-! ## The first pass -/

/-- The halves in the order in which the machine goes through them. -/
def Sync.halfNumber (s : Sync n) : Nat := 2 * s.channelCount.val + s.setLoCount.toNat

theorem halfNumber_lt (s : Sync n) : s.halfNumber < 2 * n := by
  have hch := s.channelCount.isLt
  have hset := Bool.toNat_le s.setLoCount
  rw [Sync.halfNumber]
  omega

theorem Sync.Marked.halfNumber {s s' : Sync n} (h : Marked s.setLoCount s.channelCount s') :
    s'.halfNumber = (s.halfNumber + 1) % (2 * n) := by
  have hch := s.channelCount.isLt
  rw [Sync.halfNumber, Sync.halfNumber, h.setLo, h.channel]
  cases s.setLoCount
  · simp
    rw [Nat.mod_eq_of_lt (by omega)]
  · simp only [if_true, nextChannel, Bool.not_true, Bool.toNat_false, Bool.toNat_true]
    by_cases hlast : s.channelCount.val + 1 < n
    · rw [dif_pos hlast, Nat.mod_eq_of_lt (by omega)]
      simp
      ring
    · rw [dif_neg hlast]
      have hend : 2 * s.channelCount.val + 1 + 1 = 2 * n := by
        omega
      rw [hend, Nat.mod_self]
      rfl

theorem halfNumber_inj {s : Sync n} {low : Bool} (h : s.halfNumber = 2 * ch.val + low.toNat) :
    s.setLoCount = low ∧ s.channelCount = ch := by
  rw [Sync.halfNumber] at h
  have hset := Bool.toNat_le s.setLoCount
  have hlow := Bool.toNat_le low
  have hbit : s.setLoCount.toNat = low.toNat := by
    omega
  refine ⟨?_, Fin.ext (by omega)⟩
  revert hbit
  cases s.setLoCount <;> cases low <;> decide

variable (selectable inp) in
theorem pass_begins (hstart : m₀.sync.state = .start) (p : Nat) :
    (Module.run selectable m₀ inp (74 * p)).sync.state = .start ∧
      (Module.run selectable m₀ inp (74 * p)).sync.halfNumber = (m₀.sync.halfNumber + p) % (2 * n) := by
  have hrun := run_follows selectable m₀ inp
  induction p with
  | zero => exact ⟨hstart, (Nat.mod_eq_of_lt (halfNumber_lt _)).symm⟩
  | succ p ih =>
      obtain ⟨hstate, hhalf⟩ := ih
      have hmarked := Sync.pass_marked hrun hstate
      refine ⟨hmarked.state, hmarked.halfNumber.trans ?_⟩
      rw [hhalf, Nat.mod_add_mod, Nat.add_assoc]

variable (selectable inp) in
/-- The first pass over all halves is over after `148` clocks for each channel. -/
theorem load_reached (hstart : m₀.sync.state = .start) (low : Bool) (ch : Fin n) :
    ∃ t, t + 74 ≤ 148 * n ∧ (Module.run selectable m₀ inp (t + 74)).ld low ch = true := by
  have hbegin := halfNumber_lt m₀.sync
  have hch := ch.isLt
  have hlow := Bool.toNat_le low
  have hgoal : 2 * ch.val + low.toNat < 2 * n := by
    omega
  obtain ⟨p, hp, hplace⟩ : ∃ p < 2 * n, (m₀.sync.halfNumber + p) % (2 * n) = 2 * ch.val + low.toNat := by
    rcases Nat.lt_or_ge (2 * ch.val + low.toNat) m₀.sync.halfNumber with hlt | hle
    · refine ⟨2 * n + (2 * ch.val + low.toNat) - m₀.sync.halfNumber, by omega, ?_⟩
      rw [Nat.add_sub_cancel' (by omega), Nat.add_mod_left, Nat.mod_eq_of_lt hgoal]
    · refine ⟨2 * ch.val + low.toNat - m₀.sync.halfNumber, by omega, ?_⟩
      rw [Nat.add_sub_cancel' hle, Nat.mod_eq_of_lt hgoal]
  obtain ⟨hstate, hhalf⟩ := pass_begins selectable inp hstart p
  refine ⟨74 * p, by omega, ?_⟩
  have hmarked := Sync.pass_marked (run_follows selectable m₀ inp) hstate
  obtain ⟨hset, hch'⟩ := halfNumber_inj (hhalf.trans hplace)
  cases low
  · refine (hmarked.ldHi ch).trans ?_
    simp only [hset, hch', Bool.not_false, Bool.true_and, decide_true]
  · refine (hmarked.ldLo ch).trans ?_
    simp only [hset, hch', Bool.true_and, decide_true]

theorem serdesDat_after_pass (hstart : m₀.sync.state = .start) {fillFactor : Nat} (hfill : 0 < fillFactor)
    (hnear : NearOffsets fillFactor b.per.toNat) (hper : 8 ≤ b.per.toNat)
    (hb : b.Configured (clk fillFactor b.per b.frac)) (hsteady : Steady inp ch b last)
    (hrange : ∀ t < last, InRange (inp t).ecaTime) {u : Nat} (hu : 148 * n < u) (hul : u ≤ last) :
    (Module.run selectable m₀ inp (u + 1)).serdesDat ch =
      serdesWord selectable b (b.counterAt (b.time false (inp (u - 73)).ecaTime))
        (b.counterAt (b.time true (inp (u - 73)).ecaTime)) := by
  have hhalf (low : Bool) : (Module.run selectable m₀ inp u).half low ch =
      b.counterAt (b.time low (inp (u - 73)).ecaTime) := by
    obtain ⟨t, ht, hld⟩ := load_reached selectable inp hstart low ch
    obtain ⟨k, rfl⟩ := Nat.exists_eq_add_of_lt (Nat.lt_of_le_of_lt ht hu)
    have hread : t + 74 + k + 1 - 73 = t + 2 + k := by
      omega
    rw [half_after_load hstart hfill hnear hper hb hsteady hrange (by omega) hld k (by omega), hread]
  have hhi := hhalf false
  have hlo := hhalf true
  change serdesWord selectable ((inp u).bank ch) ((Module.run selectable m₀ inp u).half false ch)
    ((Module.run selectable m₀ inp u).half true ch) = _
  rw [hhi, hlo, hsteady.bank u hul]

end Runs

/-- As long as eight times the ECA time does not run over and the patterns hold no late
edges, the loads of a channel do not show, and a second module with the same settings and
the same time puts out the same words after the first pass of both. -/
theorem seamless {n n' : Nat} (selectable : Bool) (m₀ : Module n) (m₀' : Module n') (inp : Nat → Inputs n)
    (inp' : Nat → Inputs n') (ch : Fin n) (ch' : Fin n') (b : Bank) (fillFactor delay last : Nat)
    (hfill : 0 < fillFactor) (hper : 8 ≤ b.per.toNat) (hb : b.Configured (clk fillFactor b.per b.frac))
    (hnear : NearOffsets fillFactor b.per.toNat)
    (hstart : m₀.sync.state = .start) (hstart' : m₀'.sync.state = .start)
    (hsteady : Steady inp ch b (delay + last)) (hsteady' : Steady inp' ch' b last)
    (htime : ∀ t ≤ last, (inp (delay + t)).ecaTime = (inp' t).ecaTime)
    (hrange : ∀ t < delay + last, InRange (inp t).ecaTime) :
    (∀ low first, 0 < first → first ≤ delay + last →
      (Module.run selectable m₀ inp first).ld low ch = true →
        Seamless (Module.run selectable m₀ inp) b low ch first (delay + last)) ∧
    ∀ u ≤ last, 148 * n < delay + u → 148 * n' < u →
      (Module.run selectable m₀ inp (delay + u + 1)).serdesDat ch =
        (Module.run selectable m₀' inp' (u + 1)).serdesDat ch' := by
  have hrange' (t : Nat) (ht : t < last) : InRange (inp' t).ecaTime := by
    rw [← htime t ht.le]
    exact hrange _ (by omega)
  constructor
  · intro low first hfirst hlast hld
    exact seamless_of_range hstart hfill hnear hper hb hsteady hrange hfirst hlast hld
  · intro u hul hpass hpass'
    have hpos := ch'.pos
    have hread : delay + u - 73 = delay + (u - 73) := by
      omega
    rw [serdesDat_after_pass hstart hfill hnear hper hb hsteady hrange hpass (by omega),
      serdesDat_after_pass hstart' hfill hnear hper hb hsteady' hrange' hpass' hul, hread,
      htime _ (by omega)]

/-! ## Runs of one channel -/

/-- The machine after its reset, in a module with one output. -/
def Sync.reset : Sync 1 where
  state := .start
  channelCount := 0
  divCount := 0
  numerator := 0
  denominator := 0
  didSubtract := false
  lastBit := false
  fracCarry := false
  int := 0
  fraction := 0
  countInteger := 0
  countFraction := 0
  phase := 0
  bitpatt := 0
  bitpattBit0 := false
  parity := false
  setLoCount := false
  subTime := 0
  ldHi := fun _ => false
  ldLo := fun _ => false

def Module.reset : Module 1 where
  sync := Sync.reset
  hi := fun _ => ⟨0, 0, false, false⟩
  lo := fun _ => ⟨0, 0, false, false⟩
  serdesDat := fun _ _ => false

/-- Constant settings, and an ECA time that begins with `begin`. -/
def counting (b : Bank) (start : Nat) (t : Nat) : Inputs 1 where
  ecaTime := BitVec.ofNat 64 (start + t)
  bank := fun _ => b
  ldRegs := fun _ => false

theorem counting_steady (b : Bank) (start last : Nat) : Steady (counting b start) 0 b last where
  bank _ _ := rfl
  noLoad _ _ := rfl
  advances t _ := by
    change BitVec.ofNat 64 (start + (t + 1)) = BitVec.ofNat 64 (start + t) + 1
    rw [← Nat.add_assoc, BitVec.ofNat_add]
    rfl

/-- Every second pass loads the high half. -/
theorem counting_load {b : Bank} (hper : 8 ≤ b.per.toNat) (start j : Nat) :
    (Module.run true Module.reset (counting b start) (74 * (2 * j) + 74)).ld false 0 = true ∧
      (Module.run true Module.reset (counting b start) (74 * (2 * j) + 74)).sync.values =
        b.counterAt (b.time false (BitVec.ofNat 64 (start + (74 * (2 * j) + 2)))) := by
  have hrun := run_follows true Module.reset (counting b start)
  have hreset : Module.reset.sync.state = .start := rfl
  obtain ⟨hstate, hhalf⟩ := pass_begins true (counting b start) hreset (2 * j)
  have hnumber : Module.reset.sync.halfNumber = 0 := rfl
  have heven : (Module.run true Module.reset (counting b start) (74 * (2 * j))).sync.halfNumber =
      2 * (0 : Fin 1).val + false.toNat := by
    rw [hhalf, hnumber, Nat.zero_add, Nat.mul_one, Nat.mul_mod_right]
    rfl
  obtain ⟨hset, hch⟩ := halfNumber_inj heven
  have hmarked := Sync.pass_marked hrun hstate
  have hvalues := Sync.pass_values (b := b) hrun hstate rfl hper
  simp only [hset] at hvalues
  refine ⟨(hmarked.ldHi 0).trans ?_, hvalues⟩
  simp only [hset, hch, Bool.not_false, Bool.true_and, decide_true]

/-- A difference between the free-running counter and the values of the second load shows. -/
theorem counting_glitch {b : Bank} (hper : 8 ≤ b.per.toNat) {start : Nat}
    (hne : b.counterAt (b.time false (BitVec.ofNat 64 (start + 150))) ≠
      (b.counterAt (b.time false (BitVec.ofNat 64 (start + 2)))).run b 148) :
    (Module.run true Module.reset (counting b start) 74).ld false 0 = true ∧
      ¬ Seamless (Module.run true Module.reset (counting b start)) b false 0 74 222 := by
  obtain ⟨hld, hvalues⟩ := counting_load hper start 0
  obtain ⟨hld', hvalues'⟩ := counting_load hper start 1
  simp only [Nat.reduceMul, Nat.reduceAdd] at hld hvalues hld' hvalues'
  refine ⟨hld, fun h => hne ?_⟩
  have hloads := h.loads 222 (by decide) le_rfl hld'
  rw [hvalues, hvalues'] at hloads
  exact hloads

def nineBits : Bank where
  per := 9
  perHi := 4
  frac := 0
  bitpattNormal := 0x80
  bitpattSkip := 0x40
  phofsl := 0
  phofsh := 0

theorem nineBits_configured : nineBits.Configured (clk 1 nineBits.per nineBits.frac) where
  per := rfl
  frac := rfl
  normal := by decide
  skip := by decide

theorem counting_range {start : Nat} (hstart : start + 300 < 2 ^ 61) :
    ∀ t < 0 + 300, InRange (counting nineBits start t).ecaTime := by
  intro t ht
  rw [InRange, counting, BitVec.toNat_ofNat]
  omega

theorem seamless_nineBits :
    Seamless (Module.run true Module.reset (counting nineBits 0)) nineBits false 0 74 300 :=
  (seamless true Module.reset Module.reset (counting nineBits 0) (counting nineBits 0) 0 0 nineBits 1 0 300
    (by decide) (by decide) nineBits_configured (by decide) rfl rfl (counting_steady _ _ _)
    (counting_steady _ _ _) (fun t _ => by rw [Nat.zero_add]) (counting_range (by decide))).1
    false 74 (by decide) (by decide) (counting_load (by decide) 0 0).1

/-- Two edges in fifteen and a half bits, the second one eight bits after the first. -/
def lateEdge : Bank where
  per := 15
  perHi := 4
  frac := 0x80000000
  bitpattNormal := 0x4080
  bitpattSkip := 0x4040
  phofsl := 0
  phofsh := 0

/-- A glitch where eight times the ECA time runs over, and one where an edge comes eight bits
after the first one of its word. -/
theorem loads_glitch :
    ((Module.run true Module.reset (counting nineBits (2 ^ 61 - 100)) 74).ld false 0 = true ∧
      ¬ Seamless (Module.run true Module.reset (counting nineBits (2 ^ 61 - 100))) nineBits false 0 74 222) ∧
    lateEdge.Configured (clk 2 lateEdge.per lateEdge.frac) ∧
    (Module.run true Module.reset (counting lateEdge 0) 74).ld false 0 = true ∧
      ¬ Seamless (Module.run true Module.reset (counting lateEdge 0)) lateEdge false 0 74 222 :=
  ⟨counting_glitch (by decide) (by decide +kernel),
    ⟨rfl, rfl, by decide, by decide⟩, counting_glitch (by decide) (by decide +kernel)⟩

end SerdesClkGen
