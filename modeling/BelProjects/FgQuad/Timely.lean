import BelProjects.FgQuad.Accesses
import BelProjects.FgQuad.Stop

/-!
# Tuples written in time

The firmware writes the blocks of a ramp one after the other. When each block is written while
the segment before it runs, the ports show one tuple whenever the datapath looks at them.
-/

namespace FgQuad

/-- The writes of a ramp with `count` tuples: the first block and the enabling access before the
start, and each other block after it. -/
structure Ramp where
  channel : Fin 16
  pset : Nat → ParamSet
  cntrlReg : Nat → BitVec 16
  access : Nat → Fin 6 → Access
  enable : Access
  count : Nat
  count_pos : 0 < count
  opens_le : ∀ k r, (access k r).opens ≤ (access k r).closes
  order : ∀ k r r', r < r' → (access k r).closes < (access k r').opens
  next : ∀ k, (access k 5).closes < (access (k + 1) 0).opens

namespace Ramp

def keep (p : Ramp) : Nat → BitVec 16
  | 0 => BitVec.ofNat 16 p.channel <<< 4
  | k + 1 => p.cntrlReg (k + 1) &&& ~~~0xfc07

def word (p : Ramp) (k : Nat) : Fin 6 → BitVec 16 := (p.pset k).blkData (p.keep k)

/-- The tuples of a ramp; after the last one its registers stay. -/
def tuple (p : Ramp) (i : Nat) : Tuple := (p.pset (min i (p.count - 1))).tuple

variable (p : Ramp) (s : Nat → ScuBus) (inp : Nat → BusInputs) (t₀ last : Nat)

def datapath (t : Nat) : Datapath := (s t).quadFg

def ports (t : Nat) : Inputs := (s t).ports (inp t)

/-- A run in which the firmware, and nobody else, writes the blocks of a ramp that is started in
clock `t₀` and not once more up to clock `last`. -/
structure Written : Prop where
  ready : (s (p.access 0 0).opens).fgCntrlReg.getLsbD 0 = false
  written : ∀ k < p.count, ∀ r t, (p.access k r).During t →
    (s t).wr = some (writeOrder r) ∧ (inp t).data = p.word k r
  enabled : ∀ t, p.enable.During t → (inp t).data &&& wordMask 0 = p.word 0 0 &&& wordMask 0
  only : ∀ t, (p.access 0 0).opens ≤ t → t ≤ last → ∀ r, (s t).wr = some (writeOrder r) →
    (∃ k < p.count, (p.access k r).During t) ∨ (r = 0 ∧ p.enable.During t)
  armed : (p.access 0 5).closes < t₀ ∧ p.enable.closes < t₀
  idle : (datapath s t₀).control.state = .idle
  start : (ports s inp t₀).syncStart = true
  once : ∀ t, t₀ < t → t ≤ last → (ports s inp t).syncStart = false

/-- Each block is written while the segment before it runs: after the reload, of which only the
control word may use the very clock, and before the step counter expires. -/
def Timely : Prop := ∀ k, 0 < k → k < p.count →
  (∀ t, (p.access k 0).opens ≤ t → t ≤ (p.access k 5).closes →
    t₀ < t ∧ t ≤ last ∧ (datapath s t).control.state ≠ .idle ∧
      ((datapath s t).stpReached = false ∨ (datapath s t).reload = true) ∧
      reloads (datapath s) t₀ (t + 1) = k - 1) ∧
  ∀ t, (p.access k 1).During t → (datapath s t).stpReached = false

/-! ## The order of the accesses -/

theorem keep_flags : ∀ k, (p.keep k).getLsbD 0 = false ∧ (p.keep k).extractLsb' 10 6 = 0
  | 0 => by
      constructor
      · simp [keep]
      · apply BitVec.eq_of_toNat_eq
        have hchannel := p.channel.isLt
        simp only [keep, BitVec.extractLsb'_toNat, BitVec.toNat_shiftLeft, BitVec.toNat_ofNat]
        rw [Nat.shiftLeft_eq, Nat.shiftRight_eq_div_pow, Nat.mod_eq_of_lt (Nat.lt_trans hchannel (by decide))]
        have hsmall : (p.channel : Nat) * 2 ^ 4 % 2 ^ 16 / 2 ^ 10 = 0 := by
          omega
        rw [hsmall]
        rfl
  | k + 1 => by
      constructor
      · simp [keep]
      · rw [keep, BitVec.extractLsb'_and]
        exact BitVec.and_zero

theorem opens_first (k : Nat) (r : Fin 6) : (p.access k 0).opens ≤ (p.access k r).opens := by
  rcases Fin.eq_zero_or_eq_succ r with rfl | ⟨r', rfl⟩
  · exact le_rfl
  · have hopens := p.opens_le k 0
    have horder := p.order k 0 r'.succ (Fin.succ_pos r')
    omega

theorem closes_last (k : Nat) (r : Fin 6) : (p.access k r).closes ≤ (p.access k 5).closes := by
  rcases Nat.lt_or_ge r 5 with hlt | hge
  · have hopens := p.opens_le k 5
    have horder := p.order k r 5 hlt
    omega
  · obtain rfl : r = 5 := le_antisymm (Fin.le_last r) hge
    exact le_rfl

theorem blocks_apart {k k' : Nat} (h : k < k') : (p.access k 5).closes < (p.access k' 0).opens := by
  induction k', h using Nat.le_induction with
  | base => exact p.next k
  | succ k' h ih =>
      have hopens := p.opens_le k' 0
      have hspan := p.closes_last k' 0
      have hnext := p.next k'
      omega

theorem closes_lt_opens {k k' : Nat} (h : k < k') (r r' : Fin 6) :
    (p.access k r).closes < (p.access k' r').opens :=
  lt_of_le_of_lt (p.closes_last k r) (lt_of_lt_of_le (p.blocks_apart h) (p.opens_first k' r'))

/-! ## The registers in a run -/

variable {p s inp t₀ last} {baseAddr : BitVec 16}

/-- While the firmware writes a ramp, the control register does not reset. -/
theorem Written.noReset (h : p.Written s inp t₀ last) (hrun : ∀ t, s (t + 1) = (s t).step baseAddr (inp t)) :
    ∀ t, (p.access 0 0).opens ≤ t → t ≤ last + 1 → (s t).fgCntrlReg.getLsbD 0 = false := by
  have hword (k : Nat) : (p.word k 0).getLsbD 0 = false := (p.pset k).blkData_reset (p.keep_flags k).1
  intro t ht
  induction t, ht using Nat.le_induction with
  | base => exact fun _ => h.ready
  | succ t ht ih =>
      intro hle
      have hrst := ih (Nat.le_of_succ_le hle)
      rw [hrun]
      by_cases hwr : (s t).wr = some (writeOrder 0)
      · rcases h.only t ht (Nat.le_of_succ_le_succ hle) 0 hwr with ⟨k, hk, hduring⟩ | ⟨-, hduring⟩
        · have hdata := (h.written k hk 0 t hduring).2
          have hmask := congrArg (· &&& wordMask 0) hdata
          exact (ScuBus.getLsbD_of_shows (ScuBus.shows_of_access hrst hwr hmask)).trans (hword k)
        · exact (ScuBus.getLsbD_of_shows (ScuBus.shows_of_access hrst hwr (h.enabled t hduring))).trans (hword 0)
      · have hshows : (s t).Shows 0 (s t).fgCntrlReg := rfl
        exact (ScuBus.getLsbD_of_shows (ScuBus.shows_of_none hrst hwr hshows)).trans hrst

/-- A register shows its word of a block until the next block begins. -/
theorem Written.shows (h : p.Written s inp t₀ last) (hrun : ∀ t, s (t + 1) = (s t).step baseAddr (inp t))
    {k : Nat} (hk : k < p.count) (hafter : 0 < k → t₀ < (p.access k 0).opens) {t : Nat} (hle : t ≤ last + 1)
    (hlater : ∀ k', k < k' → k' < p.count → t ≤ (p.access k' 0).opens) (r : Fin 6)
    (hclosed : (p.access k r).closes < t) : (s t).Shows r (p.word k r) := by
  have hfirst : (p.access 0 0).opens ≤ (p.access k r).closes := by
    have hopens := p.opens_le k r
    rcases Nat.eq_zero_or_pos k with rfl | hpos
    · exact (p.opens_first 0 r).trans hopens
    · have hbefore := p.closes_lt_opens hpos 0 r
      have hopens₀ := p.opens_le 0 0
      omega
  have hkeep (u : Nat) (hu : (p.access k r).closes + 1 ≤ u) : u ≤ t → (s u).Shows r (p.word k r) := by
    induction u, hu using Nat.le_induction with
    | base =>
        intro _
        have hduring : (p.access k r).During (p.access k r).closes := ⟨p.opens_le k r, le_rfl⟩
        obtain ⟨hwr, hdata⟩ := h.written k hk r _ hduring
        rw [hrun]
        exact ScuBus.shows_of_access (h.noReset hrun _ hfirst (by omega)) hwr (by rw [hdata])
    | succ u hu ih =>
        intro hut
        have hshows := ih (Nat.le_of_succ_le hut)
        have hrst := h.noReset hrun u (by omega) (by omega)
        rw [hrun]
        by_cases hwr : (s u).wr = some (writeOrder r)
        · rcases h.only u (by omega) (by omega) r hwr with ⟨k', hk', hopens', hcloses'⟩ | ⟨rfl, hduring⟩
          · -- an access of another block comes before or after
            exfalso
            rcases lt_trichotomy k' k with hlt | rfl | hgt
            · have := p.closes_lt_opens hlt r r
              have := p.opens_le k r
              omega
            · omega
            · have := hlater k' hgt hk'
              have := p.opens_first k' r
              omega
          · -- the enabling access belongs to the first block
            rcases Nat.eq_zero_or_pos k with rfl | hpos
            · exact ScuBus.shows_of_access hrst hwr (h.enabled u hduring)
            · exfalso
              have := hafter hpos
              have := h.armed.2
              have := p.opens_le k 0
              have := hduring.2
              omega
        · exact ScuBus.shows_of_none hrst hwr hshows
  exact hkeep t hclosed le_rfl

theorem Written.presents (h : p.Written s inp t₀ last) (hrun : ∀ t, s (t + 1) = (s t).step baseAddr (inp t))
    {k : Nat} (hk : k < p.count) (hafter : 0 < k → t₀ < (p.access k 0).opens) {t : Nat} (hle : t ≤ last + 1)
    (hclosed : (p.access k 5).closes < t) (hlater : ∀ k', k < k' → k' < p.count → t ≤ (p.access k' 0).opens) :
    (ports s inp t).Presents (p.pset k).tuple :=
  ports_presents (inp t) (p.keep_flags k).2 fun r =>
    h.shows hrun hk hafter hle hlater r (lt_of_le_of_lt (p.closes_last k r) hclosed)

/-! ## A ramp as a chain -/

theorem datapath_run (hrun : ∀ t, s (t + 1) = (s t).step baseAddr (inp t)) (t : Nat) :
    datapath s (t + 1) = (datapath s t).step (ports s inp t) := by
  rw [datapath, hrun, ScuBus.step]
  split <;> rfl

theorem Written.quiet (h : p.Written s inp t₀ last) (hrun : ∀ t, s (t + 1) = (s t).step baseAddr (inp t))
    {t : Nat} (ht : t₀ < t) (hle : t ≤ last) : (ports s inp t).Quiet := by
  have harmed := h.armed.1
  have hfirst := p.opens_first 0 5
  have hopens := p.opens_le 0 5
  exact ⟨h.noReset hrun t (by omega) (Nat.le_succ_of_le hle), h.once t ht hle⟩

theorem Timely.after (ht : p.Timely s t₀ last) {k : Nat} (hpos : 0 < k) (hk : k < p.count) :
    t₀ < (p.access k 0).opens :=
  ((ht k hpos hk).1 _ le_rfl ((p.opens_first k 5).trans (p.opens_le k 5))).1

theorem Timely.block_done (h : p.Written s inp t₀ last) (ht : p.Timely s t₀ last)
    (hrun : ∀ t, s (t + 1) = (s t).step baseAddr (inp t)) {k : Nat} (hpos : 0 < k) (hk : k < p.count) {t w : Nat}
    (htt : t₀ < t) (hopens : (p.access k 0).opens ≤ w) (hcloses : w ≤ (p.access k 5).closes)
    (hstp : (datapath s t).stpReached = true) (hcount : k - 1 ≤ reloads (datapath s) t₀ t) : w < t := by
  obtain ⟨hw, hlast, hrunning, hsegment, hreloads⟩ := (ht k hpos hk).1 w hopens hcloses
  by_contra hge
  rw [Nat.not_lt] at hge
  -- from the clock on the counter stays expired
  have hcount' : reloads (datapath s) t₀ (w + 1) ≤ reloads (datapath s) t₀ t := hreloads.trans_le hcount
  have hreload := no_reload_between htt hcount' hge (Nat.lt_succ_self w)
  have hcount'' : reloads (datapath s) t₀ w ≤ reloads (datapath s) t₀ t :=
    (Nat.count_monotone _ (Nat.le_succ w)).trans hcount'
  rcases stalled (datapath_run hrun) htt (fun u hu huw => h.quiet hrun (lt_of_lt_of_le htt hu)
    (huw.le.trans hlast)) hcount'' hstp w hge le_rfl with hstp' | hidle
  · simp [hstp', hreload] at hsegment
  · exact hrunning hidle

theorem Timely.supplied (h : p.Written s inp t₀ last) (ht : p.Timely s t₀ last)
    (hrun : ∀ t, s (t + 1) = (s t).step baseAddr (inp t)) {t : Nat} (htt : t₀ < t) (hle : t ≤ last)
    (hstp : (datapath s t).stpReached = true) :
    (ports s inp t).Presents (p.tuple (reloads (datapath s) t₀ t + 1)) := by
  have hcount := p.count_pos
  have hk : min (reloads (datapath s) t₀ t + 1) (p.count - 1) < p.count := by
    omega
  refine h.presents hrun hk (fun hpos => ht.after hpos hk) (Nat.le_succ_of_le hle) ?_ ?_
  · rcases Nat.eq_zero_or_pos (min (reloads (datapath s) t₀ t + 1) (p.count - 1)) with hzero | hpos
    · rw [hzero]
      exact h.armed.1.trans htt
    · exact ht.block_done h hrun hpos hk htt ((p.opens_first _ 5).trans (p.opens_le _ 5)) le_rfl hstp (by omega)
  · intro k' hlt hk'
    by_contra hearly
    rw [Nat.not_le] at hearly
    have hpos : 0 < k' := Nat.zero_lt_of_lt hlt
    obtain ⟨-, -, -, -, hreloads⟩ := (ht k' hpos hk').1 _ le_rfl ((p.opens_first k' 5).trans (p.opens_le k' 5))
    have hmono : reloads (datapath s) t₀ ((p.access k' 0).opens + 1) ≤ reloads (datapath s) t₀ t :=
      Nat.count_monotone _ hearly
    omega

theorem Timely.supply (h : p.Written s inp t₀ last) (ht : p.Timely s t₀ last)
    (hrun : ∀ t, s (t + 1) = (s t).step baseAddr (inp t)) (hlast : t₀ ≤ last) :
    Supply (datapath s) (ports s inp) p.tuple t₀ last := by
  have hfirst : ∀ t, (p.access 0 5).closes < t → t ≤ t₀ → (ports s inp t).Presents (p.tuple 0) := by
    intro t hclosed hle
    have hzero : min 0 (p.count - 1) = 0 := Nat.zero_min _
    rw [tuple, hzero]
    exact h.presents hrun p.count_pos (fun hpos => absurd hpos (Nat.lt_irrefl 0)) (by omega) hclosed
      (fun k' hpos hk' => hle.trans (ht.after hpos hk').le)
  refine ⟨h.idle, h.start, ?_, hfirst t₀ h.armed.1 le_rfl, fun t htt hle => h.quiet hrun htt hle,
    fun t htt hle hstp => ht.supplied h hrun htt hle hstp⟩
  -- the start value is written last
  have hduring : (p.access 0 5).During (p.access 0 5).closes := ⟨p.opens_le 0 5, le_rfl⟩
  refine ⟨(p.access 0 5).closes, h.armed.1, ?_, fun u hu hle => ⟨?_, ?_⟩⟩
  · have hwr := (h.written 0 p.count_pos 5 _ hduring).1
    exact decide_eq_true hwr
  · have hopens := p.opens_first 0 5
    have hopens' := p.opens_le 0 5
    exact h.noReset hrun u (by omega) (by omega)
  · have hshows := h.shows hrun p.count_pos (fun hpos => absurd hpos (Nat.lt_irrefl 0)) (by omega)
      (fun k' hpos hk' => hle.trans (ht.after hpos hk').le) 0 (lt_of_lt_of_le (p.order 0 0 5 (by decide))
      ((p.opens_le 0 5).trans hu))
    have hzero : min 0 (p.count - 1) = 0 := Nat.zero_min _
    rw [tuple, hzero]
    exact ports_stepSel (inp u) (p.keep_flags 0).2 hshows

/-! ## The end of a ramp -/

variable (p) in
def lastStrobe : Nat := before p.tuple (p.count - 1)

variable (p s t₀) in
def endTick : Nat := tick (datapath s) t₀ (p.lastStrobe + 1)

theorem place_end : place p.tuple (p.lastStrobe + 1) = ⟨p.count - 1 + 1, 0⟩ := place_before _

theorem Timely.pulse (h : p.Written s inp t₀ last) (ht : p.Timely s t₀ last) {k : Nat} (hpos : 0 < k)
    (hk : k < p.count) {w : Nat} (hduring : (p.access k 1).During w) :
    t₀ < w ∧ (ports s inp w).aEn = true ∧ (datapath s w).stpReached = false ∧ reloads (datapath s) t₀ w = k - 1 := by
  have hopens := (p.opens_first k 1).trans hduring.1
  have hcloses := hduring.2.trans (p.closes_last k 1)
  obtain ⟨hw, -, -, -, hreloads⟩ := (ht k hpos hk).1 w hopens hcloses
  have hstp := (ht k hpos hk).2 w hduring
  have hreload : (datapath s w).reload = false := by
    simp [Datapath.reload, hstp]
  rw [reloads_succ, hreload] at hreloads
  refine ⟨hw, decide_eq_true (h.written k hk 1 w hduring).1, hstp, ?_⟩
  simpa using hreloads

theorem Timely.fed (h : p.Written s inp t₀ last) (ht : p.Timely s t₀ last)
    (hrun : ∀ t, s (t + 1) = (s t).step baseAddr (inp t)) {bound : Nat} (hle : bound ≤ last)
    (hend : bound < p.endTick s t₀) : Fed (datapath s) p.tuple t₀ bound := by
  intro n hn hexp hstp hreloads
  have hmono := tick_strictMono (datapath s) t₀
  have hlate := lt_tick (datapath s) t₀ n
  have hbefore : n < p.lastStrobe + 1 := hmono.lt_iff_lt.mp (lt_of_le_of_lt hn hend)
  -- the segment that begins here has a tuple of its own
  have hk : (place p.tuple n).segment < p.count := by
    have hindex : (place p.tuple n).index p.tuple = n := place_index n
    have hcount := p.count_pos
    obtain ⟨i, hi⟩ : ∃ i, (place p.tuple n).segment = i + 1 := ⟨_, (Nat.sub_add_cancel hexp.1).symm⟩
    have hbegin : before p.tuple i + 1 + (place p.tuple n).sample = n := by
      rwa [Place.index, hi] at hindex
    have hlt : before p.tuple i < before p.tuple (p.count - 1) := by
      rw [hexp.2] at hbegin
      rw [lastStrobe] at hbefore
      omega
    have hsegment := (before_strictMono p.tuple).lt_iff_lt.mp hlt
    omega
  have hreloaded : (place p.tuple n).reloaded = (place p.tuple n).segment - 1 := if_pos hexp
  have hduring : (p.access (place p.tuple n).segment 1).During (p.access (place p.tuple n).segment 1).opens :=
    ⟨le_rfl, p.opens_le _ 1⟩
  obtain ⟨hw, hen, -, hcount⟩ := ht.pulse h hexp.1 hk hduring
  have hbegun : (p.access (place p.tuple n).segment 1).opens < tick (datapath s) t₀ n :=
    ht.block_done h hrun hexp.1 hk (by omega) (p.opens_first _ 1)
      ((p.opens_le _ 1).trans (p.closes_last _ 1)) hstp (by rw [hreloads, hreloaded])
  exact coeffRcvd_of_pulse (datapath_run hrun) (fun u hu hut => h.quiet hrun hu (hut.trans (hn.trans hle))) hw
    hbegun hen (by rw [hcount, hreloads, hreloaded])

theorem Timely.none_received (h : p.Written s inp t₀ last) (ht : p.Timely s t₀ last)
    (hrun : ∀ t, s (t + 1) = (s t).step baseAddr (inp t)) (hle : p.endTick s t₀ ≤ last)
    (hreloads : reloads (datapath s) t₀ (p.endTick s t₀) = p.count - 1) :
    (datapath s (p.endTick s t₀)).control.coeffRcvd = false := by
  have hlate : t₀ + 2 < p.endTick s t₀ := lt_tick _ _ _
  have hcountPos := p.count_pos
  have hsupply := ht.supply h hrun (by omega)
  rw [← Bool.not_eq_true]
  intro hrcvd
  obtain ⟨w, hw, hwu, hen, hcount⟩ := hsupply.pulse_of_coeffRcvd (datapath_run hrun) _ (by omega)
    (Nat.le_succ_of_le hle) hrcvd
  have hwr : (s w).wr = some (writeOrder 1) := of_decide_eq_true hen
  have harmed := h.armed.1
  have hopens := (p.opens_first 0 5).trans (p.opens_le 0 5)
  rcases h.only w (by omega) (by omega) 1 hwr with ⟨k, hk, hduring⟩ | ⟨hzero, -⟩
  · rcases Nat.eq_zero_or_pos k with rfl | hpos
    · have hcloses := hduring.2.trans (p.closes_last 0 1)
      omega
    · obtain ⟨-, -, -, hk'⟩ := ht.pulse h hpos hk hduring
      omega
  · cases hzero

end Ramp

end FgQuad
