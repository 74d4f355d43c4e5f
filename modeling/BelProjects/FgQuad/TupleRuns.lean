import BelProjects.FgQuad.Timely

/-!
# Runs of the bus interface

The strobes, the state change and the output of a ramp whose blocks are written in time.
-/

namespace FgQuad

open Datapath

theorem Tuple.sample_eq (p : Tuple) (j : Nat) : (p.value j).extractLsb' 32 32 = p.sample j :=
  congrArg (·.extractLsb' 32 32) (p.value_eq j)

namespace Ramp

variable {p : Ramp} {s : Nat → ScuBus} {inp : Nat → BusInputs} {t₀ last : Nat} {baseAddr : BitVec 16}

theorem exists_bound (s : Nat → ScuBus) (t₀ last : Nat) : ∃ bound, bound ≤ last ∧ bound < p.endTick s t₀ ∧
    ((bound = last ∧ last < p.endTick s t₀) ∨ (p.endTick s t₀ = bound + 1 ∧ p.endTick s t₀ ≤ last)) := by
  have hlate : t₀ + 2 < p.endTick s t₀ := lt_tick _ _ _
  rcases Nat.lt_or_ge last (p.endTick s t₀) with hlt | hge
  · exact ⟨last, le_rfl, hlt, Or.inl ⟨rfl, hlt⟩⟩
  · exact ⟨p.endTick s t₀ - 1, by omega, by omega, Or.inr ⟨by omega, hge⟩⟩

theorem before_endTick (s : Nat → ScuBus) (t₀ : Nat) {n : Nat} (hn : n ≤ p.lastStrobe) : tick (datapath s) t₀ n + 4 < p.endTick s t₀ := by
  have hnext := tick_lt_succ (datapath s) t₀ n
  have hmono : tick (datapath s) t₀ (n + 1) ≤ tick (datapath s) t₀ (p.lastStrobe + 1) :=
    (tick_strictMono (datapath s) t₀).monotone (Nat.succ_le_succ hn)
  exact lt_of_lt_of_le hnext hmono

theorem tuple_end : p.tuple (p.count - 1 + 1) = p.tuple (p.count - 1) := by
  have hmin : min (p.count - 1 + 1) (p.count - 1) = min (p.count - 1) (p.count - 1) := by
    omega
  rw [tuple, tuple, hmin]

/-- After the end of the last segment the machine is idle and shows the start value once more. -/
theorem Timely.stopped (h : p.Written s inp t₀ last) (ht : p.Timely s t₀ last)
    (hrun : ∀ t, s (t + 1) = (s t).step baseAddr (inp t)) (hquiet : IdleQuiet (datapath s t₀))
    (hle : p.endTick s t₀ ≤ last) : (datapath s (p.endTick s t₀)).stops = true ∧
      ∀ u, p.endTick s t₀ < u → u ≤ last + 1 → Stopped (datapath s) p.tuple t₀ (p.count - 1) u := by
  have hlate : t₀ + 2 < p.endTick s t₀ := lt_tick _ _ _
  have hsupply := ht.supply h hrun (by omega)
  obtain ⟨bound, hbound, hend, ⟨-, hcut⟩ | ⟨hnext, -⟩⟩ := p.exists_bound s t₀ last
  · omega
  · have hfed := ht.fed h hrun hbound hend
    have hreloads : reloads (datapath s) t₀ (p.endTick s t₀) = p.count - 1 := by
      obtain ⟨-, -, hcount⟩ := (hsupply.mono hbound).at_tick hfed (datapath_run hrun) hquiet hnext.le
      rw [endTick, hcount, place_end]
      exact if_pos ⟨Nat.succ_pos _, rfl⟩
    have hnone := ht.none_received h hrun hle hreloads
    obtain ⟨hstops, hstopped⟩ := hsupply.stop hfed (datapath_run hrun) hquiet hnext hle place_end hnone
    have hpos : t₀ < p.endTick s t₀ + 1 := by
      omega
    exact ⟨hstops, fun u hu hul => hstopped.run hsupply (datapath_run hrun) hpos u hu hul⟩

theorem Timely.strobe_iff (h : p.Written s inp t₀ last) (ht : p.Timely s t₀ last)
    (hrun : ∀ t, s (t + 1) = (s t).step baseAddr (inp t)) (hquiet : IdleQuiet (datapath s t₀)) {u : Nat}
    (hu : t₀ < u) (hle : u ≤ last) :
    (datapath s u).swStrobe = true ↔ ∃ n ≤ p.lastStrobe, u = tick (datapath s) t₀ n + 3 := by
  have hlate : t₀ + 2 < p.endTick s t₀ := lt_tick _ _ _
  have hmono := tick_strictMono (datapath s) t₀
  have hsupply := ht.supply h hrun (by omega)
  obtain ⟨bound, hbound, hend, hcases⟩ := p.exists_bound s t₀ last
  have hfed := ht.fed h hrun hbound hend
  rcases Nat.lt_or_ge (bound + 1) u with hafter | hbefore
  · have hstop : p.endTick s t₀ = bound + 1 ∧ p.endTick s t₀ ≤ last := by
      omega
    obtain ⟨hstops, hstopped⟩ := ht.stopped h hrun hquiet hstop.2
    obtain ⟨v, rfl⟩ : ∃ v, u = v + 1 := ⟨u - 1, by omega⟩
    have hstrobe : (datapath s (v + 1)).swStrobe = decide ((datapath s v).control.state = .addXQ) := by
      rw [datapath_run hrun]
      exact swStrobe_step (h.quiet hrun (by omega) (by omega)).syncRst
    have hstate : (datapath s v).control.state ≠ .addXQ := by
      rcases Nat.lt_or_ge (p.endTick s t₀) v with hlater | hhere
      · rw [(hstopped v hlater (by omega)).state]
        decide
      · obtain rfl : v = p.endTick s t₀ := by
          omega
        intro hstate
        simp [Datapath.stops, hstate] at hstops
    rw [hstrobe, decide_eq_true_iff]
    refine iff_of_false hstate ?_
    rintro ⟨n, hn, heq⟩
    have hearly := before_endTick s t₀ hn
    omega
  · rw [(hsupply.mono hbound).strobe_iff hfed (datapath_run hrun) hquiet (by omega) hu hbefore]
    constructor
    · rintro ⟨n, rfl⟩
      refine ⟨n, ?_, rfl⟩
      have hlt : tick (datapath s) t₀ n < tick (datapath s) t₀ (p.lastStrobe + 1) := by
        rw [endTick] at hend
        omega
      exact Nat.le_of_lt_succ (hmono.lt_iff_lt.mp hlt)
    · rintro ⟨n, -, rfl⟩
      exact ⟨n, rfl⟩

theorem Timely.strobe_value (h : p.Written s inp t₀ last) (ht : p.Timely s t₀ last)
    (hrun : ∀ t, s (t + 1) = (s t).step baseAddr (inp t)) (hquiet : IdleQuiet (datapath s t₀)) {n : Nat}
    (hn : n ≤ p.lastStrobe) (hle : tick (datapath s) t₀ n + 3 ≤ last) {i j : Nat}
    (hplace : place p.tuple (n + 1) = ⟨i, j⟩) :
    (datapath s (tick (datapath s) t₀ n + 3)).swOut = (p.tuple i).sample j := by
  have hlate := lt_tick (datapath s) t₀ n
  have hearly := before_endTick s t₀ hn
  have hsupply := ht.supply h hrun (by omega)
  obtain ⟨bound, hbound, hend, hcases⟩ := p.exists_bound s t₀ last
  have hfed := ht.fed h hrun hbound hend
  have hwithin : tick (datapath s) t₀ n + 3 ≤ bound + 1 := by
    omega
  have hvalue := (hsupply.mono hbound).strobe_value hfed (datapath_run hrun) hquiet hwithin
  rw [hplace] at hvalue
  rw [swOut, hvalue]
  exact Tuple.sample_eq _ _

theorem Timely.stateChange_iff (h : p.Written s inp t₀ last) (ht : p.Timely s t₀ last)
    (hrun : ∀ t, s (t + 1) = (s t).step baseAddr (inp t)) (hquiet : IdleQuiet (datapath s t₀)) {u : Nat}
    (hu : t₀ < u) (hle : u ≤ last) :
    (datapath s u).stateChangeIrq (ports s inp u) = true ↔ u = p.endTick s t₀ + 1 := by
  have hlate : t₀ + 2 < p.endTick s t₀ := lt_tick _ _ _
  have hsupply := ht.supply h hrun (by omega)
  have harmed := h.armed.1
  have hopens := (p.opens_first 0 5).trans (p.opens_le 0 5)
  obtain ⟨v, rfl⟩ : ∃ v, u = v + 1 := ⟨u - 1, by omega⟩
  have hrst : (ports s inp v).syncRst = false := h.noReset hrun v (by omega) (by omega)
  have hirq : (datapath s (v + 1)).stateChangeIrq (ports s inp (v + 1)) = (datapath s v).stops := by
    rw [stateChangeIrq, h.once _ hu hle, Bool.false_or, datapath_run hrun]
    exact signalStateChange_step hrst
  rw [hirq, Nat.succ_inj]
  obtain ⟨bound, hbound, hend, hcases⟩ := p.exists_bound s t₀ last
  have hfed := ht.fed h hrun hbound hend
  rcases Nat.lt_or_ge bound v with hafter | hbefore
  · have hstop : p.endTick s t₀ = bound + 1 ∧ p.endTick s t₀ ≤ last := by
      omega
    obtain ⟨hstops, hstopped⟩ := ht.stopped h hrun hquiet hstop.2
    rcases Nat.lt_or_ge (p.endTick s t₀) v with hlater | hhere
    · have hidle := (hstopped v hlater (by omega)).state
      refine iff_of_false ?_ (by omega)
      simp [Datapath.stops, hidle]
    · obtain rfl : v = p.endTick s t₀ := by
        omega
      exact iff_of_true hstops rfl
  · refine iff_of_false ?_ (by omega)
    rw [Bool.not_eq_true]
    rcases Nat.lt_or_ge t₀ v with hstarted | hstart
    · exact (hsupply.mono hbound).not_stops hfed (datapath_run hrun) hquiet hstarted hbefore
    · obtain rfl : v = t₀ := by
        omega
      simp [Datapath.stops, h.idle]

theorem Timely.output_end (h : p.Written s inp t₀ last) (ht : p.Timely s t₀ last)
    (hrun : ∀ t, s (t + 1) = (s t).step baseAddr (inp t)) (hquiet : IdleQuiet (datapath s t₀)) {u : Nat}
    (hu : tick (datapath s) t₀ p.lastStrobe + 3 ≤ u) (hle : u ≤ last) :
    (datapath s u).swOut = (p.tuple (p.count - 1)).sample 0 := by
  have hlate := lt_tick (datapath s) t₀ p.lastStrobe
  have hmono := tick_strictMono (datapath s) t₀
  have hsupply := ht.supply h hrun (by omega)
  have hc64 : (datapath s u).reg.x = (p.tuple (p.count - 1)).value 0 := by
    obtain ⟨bound, hbound, hend, hcases⟩ := p.exists_bound s t₀ last
    have hfed := ht.fed h hrun hbound hend
    rcases Nat.lt_or_ge (p.endTick s t₀) u with hafter | hbefore
    · obtain ⟨-, hstopped⟩ := ht.stopped h hrun hquiet (by omega)
      rw [(hstopped u hafter (by omega)).x, tuple_end, Tuple.value_zero]
    · have hstrobes (m : Nat) (hm : m < p.lastStrobe + 1) : tick (datapath s) t₀ m + 3 ≤ u :=
        (Nat.add_le_add_right (hmono.monotone (Nat.le_of_lt_succ hm)) 3).trans hu
      obtain ⟨hholding, -, -⟩ := (hsupply.mono hbound).waiting hfed (datapath_run hrun) hquiet (by omega)
        hstrobes hbefore (by omega)
      have hx := hholding.x
      rw [place_end] at hx
      rw [hx]
      exact congrArg (fun q : Tuple => q.value 0) tuple_end
  rw [swOut, hc64]
  exact Tuple.sample_eq _ _

/-- The samples of the first tuple and of each other one come at their strobes. -/
theorem Timely.samples (h : p.Written s inp t₀ last) (ht : p.Timely s t₀ last)
    (hrun : ∀ t, s (t + 1) = (s t).step baseAddr (inp t)) (hquiet : IdleQuiet (datapath s t₀)) :
    (∀ j, 1 ≤ j → j ≤ (p.tuple 0).steps - 2 → tick (datapath s) t₀ (j - 1) + 3 ≤ last →
      (datapath s (tick (datapath s) t₀ (j - 1) + 3)).swOut = (p.tuple 0).sample j) ∧
    ∀ i j, i + 1 < p.count → j < (p.tuple (i + 1)).steps →
      tick (datapath s) t₀ (before p.tuple i + j) + 3 ≤ last →
      (datapath s (tick (datapath s) t₀ (before p.tuple i + j) + 3)).swOut = (p.tuple (i + 1)).sample j := by
  obtain ⟨hfirst, hlater⟩ := place_of_sample p.tuple
  have hmono := (before_strictMono p.tuple).monotone
  constructor
  · intro j hj hsteps hle
    have hzero : before p.tuple 0 ≤ p.lastStrobe := hmono (Nat.zero_le _)
    have hn : j - 1 ≤ p.lastStrobe := by
      rw [before] at hzero
      omega
    exact ht.strobe_value h hrun hquiet hn hle (hfirst j hj hsteps)
  · intro i j hi hsteps hle
    have hsegment : before p.tuple (i + 1) ≤ p.lastStrobe := hmono (by omega)
    have hn : before p.tuple i + j ≤ p.lastStrobe := by
      rw [before] at hsegment
      omega
    exact ht.strobe_value h hrun hquiet hn hle (hlater i j hsteps)

/-- A ramp whose blocks are written in time: each segment shows the samples of its own tuple, in the
order of writing, and at the end of the last one the machine stops with one state change. Then
the output is the first sample again, so it keeps the last one if and only if they are equal. -/
theorem one_tuple_per_segment {addLinQuad freqCntEn coeffRcvd : Bool} {stepCnt : BitVec 16}
    (hinit : s 0 = ScuBus.reset (Datapath.reset addLinQuad freqCntEn coeffRcvd stepCnt))
    (hrun : ∀ t, s (t + 1) = (s t).step baseAddr (inp t)) (h : p.Written s inp t₀ last)
    (ht : p.Timely s t₀ last) :
    (∀ u, t₀ < u → u ≤ last →
      ((datapath s u).swStrobe = true ↔ ∃ n ≤ p.lastStrobe, u = tick (datapath s) t₀ n + 3)) ∧
    (∀ j, 1 ≤ j → j ≤ (p.tuple 0).steps - 2 → tick (datapath s) t₀ (j - 1) + 3 ≤ last →
      (datapath s (tick (datapath s) t₀ (j - 1) + 3)).swOut = (p.tuple 0).sample j) ∧
    (∀ i j, i + 1 < p.count → j < (p.tuple (i + 1)).steps →
      tick (datapath s) t₀ (before p.tuple i + j) + 3 ≤ last →
      (datapath s (tick (datapath s) t₀ (before p.tuple i + j) + 3)).swOut = (p.tuple (i + 1)).sample j) ∧
    (∀ u, t₀ < u → u ≤ last →
      ((datapath s u).stateChangeIrq (ports s inp u) = true ↔ u = p.endTick s t₀ + 1)) ∧
    (∀ u, p.endTick s t₀ < u → u ≤ last → (datapath s u).control.state = .idle) ∧
    (tick (datapath s) t₀ p.lastStrobe + 3 ≤ last →
      ((∀ u, tick (datapath s) t₀ p.lastStrobe + 3 ≤ u → u ≤ last →
        (datapath s u).swOut = (p.tuple (p.count - 1)).sample (lastSample p.tuple (p.count - 1))) ↔
      (p.tuple (p.count - 1)).sample 0 = (p.tuple (p.count - 1)).sample (lastSample p.tuple (p.count - 1)))) := by
  have hquiet : IdleQuiet (datapath s t₀) := by
    refine idleQuiet_run (datapath_run hrun) (fun _ => ?_) t₀
    rw [datapath, hinit]
    rfl
  obtain ⟨hfirst, hlater⟩ := ht.samples h hrun hquiet
  refine ⟨fun u hu hle => ht.strobe_iff h hrun hquiet hu hle, hfirst, hlater,
    fun u hu hle => ht.stateChange_iff h hrun hquiet hu hle, fun u hu hle => ?_, fun hend => ?_⟩
  · obtain ⟨-, hstopped⟩ := ht.stopped h hrun hquiet (hu.le.trans hle)
    exact (hstopped u hu (Nat.le_succ_of_le hle)).state
  · constructor
    · intro hkept
      exact (ht.output_end h hrun hquiet le_rfl hend).symm.trans (hkept _ le_rfl hend)
    · intro heq u hu hle
      exact (ht.output_end h hrun hquiet hu hle).trans heq

/-! ## A ramp of two tuples -/

/-- Two rising segments at 2 MHz; each access takes one clock, every second clock. -/
def rising : Ramp where
  channel := 0
  pset k := if k = 0 then ⟨0, 1, 0, 0x838⟩ else ⟨0, 2, 249, 0x838⟩
  cntrlReg _ := 0xec0c
  access k r :=
    let begins := if k = 0 then 1 else 100 * k
    ⟨begins + 2 * r, begins + 2 * r⟩
  enable := ⟨13, 13⟩
  count := 2
  count_pos := by decide
  opens_le _ _ := le_rfl
  order k r r' h := by
    have hlt : (r : Nat) < r' := h
    dsimp only
    omega
  next k := by
    rcases Nat.eq_zero_or_pos k with rfl | hpos
    · decide
    · simp only [Nat.pos_iff_ne_zero.mp hpos, Nat.succ_ne_zero, if_false, Fin.isValue]
      change 100 * k + 2 * 5 < 100 * (k + 1) + 2 * 0
      omega

/-- The bus at the time of the blocks: the word of an access stays latched in the clock after it. -/
def risingBus (t : Nat) : BusInputs :=
  let write (adr data : BitVec 16) : BusInputs := ⟨adr, data, t % 2 = 0, true, 0, false, false⟩
  let blk (k i : Nat) : BusInputs :=
    write ([0, 1, 2, 4, 6].getD i 5) (rising.word k (Fin.ofNat 6 i))
  if t < 12 then blk 0 (t / 2)
  else if t < 14 then write 0 (rising.word 0 0 ||| ParamSet.fgEnabled)
  else if t = 20 then ⟨0, 0, false, false, 0, false, true⟩
  else if 99 ≤ t ∧ t < 111 then { blk 1 ((t - 99) / 2) with adrVal := t % 2 = 1 }
  else ⟨0, 0, false, false, 0, false, false⟩

def risingRun : Nat → ScuBus
  | 0 => ScuBus.reset (Datapath.reset false false false 0)
  | t + 1 => (risingRun t).step 0 (risingBus t)

theorem risingRun_wr (t : Nat) : (risingRun (t + 1)).wr = adrDecoder 0 (risingBus t) := by
  rw [risingRun, ScuBus.step]
  split <;> rfl

/-- After the second block nothing more is written. -/
theorem risingBus_quiet {t : Nat} (ht : 111 ≤ t) : risingBus t = ⟨0, 0, false, false, 0, false, false⟩ := by
  have hne : ¬ t < 12 ∧ ¬ t < 14 ∧ t ≠ 20 ∧ ¬ (99 ≤ t ∧ t < 111) := by
    omega
  simp only [risingBus, if_neg hne.1, if_neg hne.2.1, if_neg hne.2.2.1, if_neg hne.2.2.2]

/-- What an evaluation of the two blocks and of the run up to the end of the second one shows. -/
theorem rising_evaluated :
    (∀ t < 111, (risingBus t).tagValid = false ∧ (20 < t → (risingBus t).extTrigger = false) ∧
      ∀ r, adrDecoder 0 (risingBus t) = some (writeOrder r) →
        (∃ k < 2, t + 1 = (rising.access k r).opens) ∨ (r = 0 ∧ t + 1 = 13)) ∧
    (∀ k < 2, ∀ r : Fin 6,
      adrDecoder 0 (risingBus ((rising.access k r).opens - 1)) = some (writeOrder r) ∧
        (risingBus (rising.access k r).opens).data = rising.word k r) ∧
    (∀ t < 111, 20 < t → (datapath risingRun t).control.state ≠ .idle ∧
      (datapath risingRun t).stpReached = false) ∧
    (risingRun (rising.access 0 0).opens).fgCntrlReg.getLsbD 0 = false ∧
    (risingBus 13).data &&& wordMask 0 = rising.word 0 0 &&& wordMask 0 ∧
    (datapath risingRun 20).control.state = .idle ∧ (ports risingRun risingBus 20).syncStart = true := by
  decide +kernel

theorem risingRun_tag : ∀ t, (risingRun t).tagStart = false ∧ (risingRun t).tagReceived = false
  | 0 => ⟨rfl, rfl⟩
  | t + 1 => by
      obtain ⟨-, hreceived⟩ := risingRun_tag t
      have hvalid : (risingBus t).tagValid = false := by
        rcases Nat.lt_or_ge t 111 with hlt | hge
        · exact (rising_evaluated.1 t hlt).1
        · rw [risingBus_quiet hge]
      rw [risingRun, ScuBus.step]
      split <;> simp [hreceived, hvalid]

theorem risingRun_written (last : Nat) : rising.Written risingRun risingBus 20 last where
  ready := rising_evaluated.2.2.2.1
  written := by
    rintro k hk r t ⟨hopens, hcloses⟩
    obtain rfl : t = (rising.access k r).opens := le_antisymm hcloses hopens
    obtain ⟨hwr, hdata⟩ := rising_evaluated.2.1 k hk r
    refine ⟨?_, hdata⟩
    have hpos : 0 < (rising.access k r).opens := by
      rcases Nat.eq_zero_or_pos k with rfl | hpos
      · exact Nat.lt_of_lt_of_le Nat.zero_lt_one (Nat.le_add_right 1 _)
      · simp only [rising, Nat.pos_iff_ne_zero.mp hpos, if_false]
        omega
    rw [← Nat.sub_add_cancel hpos, risingRun_wr]
    exact hwr
  enabled := by
    rintro t ⟨hopens, hcloses⟩
    obtain rfl : t = 13 := le_antisymm hcloses hopens
    exact rising_evaluated.2.2.2.2.1
  only := by
    intro t hopens hle r hwr
    have hpos : 0 < t := hopens
    rw [← Nat.sub_add_cancel hpos, risingRun_wr] at hwr
    rcases Nat.lt_or_ge (t - 1) 111 with hlt | hge
    · rcases (rising_evaluated.1 (t - 1) hlt).2.2 r hwr with ⟨k, hk, heq⟩ | ⟨hr, heq⟩
      · rw [Nat.sub_add_cancel hpos] at heq
        exact Or.inl ⟨k, hk, heq.ge, heq.le⟩
      · rw [Nat.sub_add_cancel hpos] at heq
        exact Or.inr ⟨hr, heq.ge, heq.le⟩
    · rw [risingBus_quiet hge] at hwr
      cases hwr
  armed := by decide
  idle := rising_evaluated.2.2.2.2.2.1
  start := rising_evaluated.2.2.2.2.2.2
  once := by
    intro t ht hle
    have htrigger : (risingBus t).extTrigger = false := by
      rcases Nat.lt_or_ge t 111 with hlt | hge
      · exact (rising_evaluated.1 t hlt).2.1 ht
      · rw [risingBus_quiet hge]
    change (((risingRun t).tagStart || (risingBus t).extTrigger) && (risingRun t).fgCntrlReg.getLsbD 1) = false
    rw [(risingRun_tag t).1, htrigger]
    rfl

theorem risingRun_timely {last : Nat} (hlast : 111 ≤ last) : rising.Timely risingRun 20 last := by
  intro k hpos hk
  obtain rfl : k = 1 := by
    have hcount : rising.count = 2 := rfl
    omega
  have hspan {t : Nat} (hopens : 100 ≤ t) (hcloses : t ≤ 110) : 20 < t ∧ t ≤ last ∧
      (datapath risingRun t).control.state ≠ .idle ∧ (datapath risingRun t).stpReached = false := by
    obtain ⟨hstate, hstp⟩ := rising_evaluated.2.2.1 t (by omega) (by omega)
    exact ⟨by omega, by omega, hstate, hstp⟩
  constructor
  · intro t hopens hcloses
    have hcloses' : t ≤ 110 := hcloses
    obtain ⟨ht, hle, hstate, hstp⟩ := hspan hopens hcloses'
    refine ⟨ht, hle, hstate, Or.inl hstp, ?_⟩
    refine Nat.count_iff_forall_not.mpr ?_
    rintro u hu ⟨hlate, hreload⟩
    have hrunning := (rising_evaluated.2.2.1 u (by omega) hlate).2
    simp [Datapath.reload, hrunning] at hreload
  · rintro t ⟨hopens, hcloses⟩
    have hopens' : 102 ≤ t := hopens
    have hcloses' : t ≤ 102 := hcloses
    exact (hspan (by omega) (by omega)).2.2.2

/-- The two segments of `rising`, followed for 5000000 clocks. -/
theorem one_tuple_per_segment_rising :
    (∀ u, 20 < u → u ≤ 5000000 → ((datapath risingRun u).swStrobe = true ↔
      ∃ n ≤ rising.lastStrobe, u = tick (datapath risingRun) 20 n + 3)) ∧
    (∀ j, 1 ≤ j → j ≤ (rising.tuple 0).steps - 2 → tick (datapath risingRun) 20 (j - 1) + 3 ≤ 5000000 →
      (datapath risingRun (tick (datapath risingRun) 20 (j - 1) + 3)).swOut = (rising.tuple 0).sample j) ∧
    (∀ i j, i + 1 < rising.count → j < (rising.tuple (i + 1)).steps →
      tick (datapath risingRun) 20 (before rising.tuple i + j) + 3 ≤ 5000000 →
      (datapath risingRun (tick (datapath risingRun) 20 (before rising.tuple i + j) + 3)).swOut =
        (rising.tuple (i + 1)).sample j) ∧
    (∀ u, 20 < u → u ≤ 5000000 → ((datapath risingRun u).stateChangeIrq (ports risingRun risingBus u) = true ↔
      u = rising.endTick risingRun 20 + 1)) ∧
    (∀ u, rising.endTick risingRun 20 < u → u ≤ 5000000 → (datapath risingRun u).control.state = .idle) ∧
    (tick (datapath risingRun) 20 rising.lastStrobe + 3 ≤ 5000000 →
      ((∀ u, tick (datapath risingRun) 20 rising.lastStrobe + 3 ≤ u → u ≤ 5000000 →
        (datapath risingRun u).swOut =
          (rising.tuple (rising.count - 1)).sample (lastSample rising.tuple (rising.count - 1))) ↔
      (rising.tuple (rising.count - 1)).sample 0 =
        (rising.tuple (rising.count - 1)).sample (lastSample rising.tuple (rising.count - 1)))) :=
  one_tuple_per_segment rfl (fun _ => rfl) (risingRun_written _) (risingRun_timely (by decide))

theorem tick_le (x : Nat → Datapath) (t₀ : Nat) : ∀ n, tick x t₀ n ≤ t₀ + 8194 + 8193 * n
  | 0 => by
      have hbound := (cFreqCnt_bounds (x t₀).reg.freqSel).2
      rw [tick]
      omega
  | n + 1 => by
      have hbound := (cFreqCnt_bounds (x (tick x t₀ n)).reg.freqSel).2
      have hle := tick_le x t₀ n
      rw [tick]
      omega

theorem rising_first : (rising.tuple (rising.count - 1)).sample 0 = 249 := by
  decide

theorem rising_last : (rising.tuple (0 + 1)).sample 249 = 747 := by
  decide

/-- The machine stops after the sample 747, and the output falls back to 249, the first value of
the segment. -/
theorem output_falls_back : rising.Written risingRun risingBus 20 5000000 ∧
    ∃ u v, u < v ∧ v ≤ 5000000 ∧ (datapath risingRun u).swStrobe = true ∧ (datapath risingRun u).swOut = 747 ∧
      (∀ w, v ≤ w → w ≤ 5000000 → (datapath risingRun w).swOut = 249) ∧
      (datapath risingRun 5000000).control.state = .idle := by
  have hwritten := risingRun_written 5000000
  have htimely : rising.Timely risingRun 20 5000000 := risingRun_timely (by decide)
  have hrun : ∀ t, risingRun (t + 1) = (risingRun t).step 0 (risingBus t) := fun _ => rfl
  have hquiet : IdleQuiet (datapath risingRun 20) :=
    idleQuiet_run (datapath_run hrun) (fun _ => rfl) 20
  have hlast : rising.lastStrobe = 497 + 1 := by decide
  have hbefore : before rising.tuple 0 = 248 := by decide
  have htick := tick_le (datapath risingRun) 20
  have hnext := tick_lt_succ (datapath risingRun) 20 497
  have hstrobe : tick (datapath risingRun) 20 497 + 3 ≤ 5000000 := by
    have := htick 497
    omega
  refine ⟨hwritten, tick (datapath risingRun) 20 497 + 3, tick (datapath risingRun) 20 (497 + 1) + 3, by omega,
    ?_, ?_, ?_, ?_, ?_⟩
  · have := htick (497 + 1)
    omega
  · refine (htimely.strobe_iff hwritten hrun hquiet ?_ hstrobe).mpr ⟨497, by omega, rfl⟩
    have := lt_tick (datapath risingRun) 20 497
    omega
  · have hsample := (htimely.samples hwritten hrun hquiet).2 0 249 (by decide) (by decide)
    have hindex : before rising.tuple 0 + 249 = 497 := by
      rw [hbefore]
    rw [hindex] at hsample
    exact (hsample hstrobe).trans rising_last
  · intro w hw hle
    rw [← hlast] at hw
    exact (htimely.output_end hwritten hrun hquiet hw hle).trans rising_first
  · have hend : rising.endTick risingRun 20 < 5000000 := by
      have := htick (497 + 1 + 1)
      rw [endTick, hlast]
      omega
    exact ((htimely.stopped hwritten hrun hquiet hend.le).2 5000000 hend (Nat.le_succ _)).state

end Ramp

end FgQuad
