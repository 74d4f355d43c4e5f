import BelProjects.ScuFg.Channels

/-!
# Refill requests

The host is asked for more tuples when a channel has come down to the threshold. The firmware tests
for that level, right before it takes a tuple, but not before it takes the first one.
-/

namespace ScuFg

open Interference

/-! ## Histories -/

/-- The host, or whoever else shares the memory, between two accesses of the firmware. -/
inductive HostStep (s : Scu) : Scu → Prop
  /-- Tuples are stored. -/
  | store (c : Nat) (pset : Nat → ParamSet) :
      HostStep s (s.modify c fun ch => { ch with pset := pset })
  /-- `wr_ptr` is advanced behind tuples that have been stored; one slot is left free. -/
  | append (c k : Nat) (hpos : 0 < k) (hroom : (s.chan c).regs.fill + k < bufferSize) :
      HostStep s (s.modify c fun ch =>
        ch.move (fun r => { r with wrPtr := (r.wrPtr + k) % bufferSize }) .append)
  /-- A macro is assigned to a channel. -/
  | assign (c : Nat) (macroNumber : Word) :
      HostStep s (s.modify c fun ch => ch.setRegs fun r => { r with macroNumber := macroNumber })

inductive Call where
  /-- A macro interrupts, with the number of a channel in its register. -/
  | handle (slot : Slot) (fgBase : Nat) (reg : Half) (rampCnt : Word)
      (channel : channelOf reg < maxFgChannels)
  | swIrq (request : Request)
  /-- A task that leaves the channels alone. -/
  | other

def Call.prog : Call → Fw Unit
  | .handle slot fgBase reg rampCnt _ => do
      let _ ← ScuFg.handle slot fgBase reg rampCnt
  | .swIrq request => swIrqHandler request
  | .other => pure ()

/-- The channels behind `init`, with any macros. -/
def Scu.Boot (s : Scu) : Prop :=
  ∀ c, (s.chan c).regs.wrPtr = 0 ∧ (s.chan c).regs.rdPtr = 0 ∧ (s.chan c).log = []

/-- The main loop makes one call after the other, while the host appends tuples. -/
def firmware : TransitionSystem (Scu × Fw Unit) :=
  system Scu.Boot HostStep fun _ p => ∃ call : Call, p = call.prog

namespace History

def level : List Event → Nat
  | [] => 0
  | .append n :: _ => n
  | .first _ n :: _ => n
  | .next _ n :: _ => n
  | .reset n :: _ => n
  | _ :: l => level l

/-- The host has been asked since the level was last brought to the threshold or above. -/
def asked : List Event → Bool
  | [] => false
  | .signal .refill :: _ => true
  | e :: l => asked l && !(decide (level l < threshold) && decide (threshold ≤ level (e :: l)))

/-- The level has been at the threshold or above since the ring was last reset. -/
def primed : List Event → Bool
  | [] => false
  | .reset n :: _ => decide (threshold ≤ n)
  | e :: l => primed l || decide (threshold ≤ level (e :: l))

def levelAtTest : List Event → Nat
  | [] => 0
  | .test :: l => level l
  | _ :: l => levelAtTest l

end History

def Event.Takes : Event → Prop
  | .first _ _ | .next _ _ => True
  | _ => False

open History

/-- Whenever a tuple that is taken brings the level below the threshold, the host has been asked
since the level was last brought there or above. -/
def RefillAsked : List Event → Prop
  | [] => True
  | e :: l =>
      (e.Takes → threshold ≤ level l → level (e :: l) < threshold → asked l = true) ∧ RefillAsked l

/-- Whenever a tuple that is taken leaves the level below the threshold, the host has been asked
since the level was last brought there or above. -/
def NeverLow : List Event → Prop
  | [] => True
  | e :: l => (e.Takes → level (e :: l) < threshold → asked l = true) ∧ NeverLow l

/-- The first tuple of a channel is not taken just at the threshold, and no block of the host brings
the level up to just the threshold while the firmware is between its test and taking the tuple. -/
def TestsInTime : List Event → Prop
  | [] => True
  | .first _ _ :: l => level l ≠ threshold ∧ TestsInTime l
  | .next _ _ :: l => (level l = threshold → levelAtTest l = threshold) ∧ TestsInTime l
  | _ :: l => TestsInTime l

/-- Tuples are only taken when there has been a full block since the ring was last reset. -/
def StartsPrimed : List Event → Prop
  | [] => True
  | e :: l => (e.Takes → primed l = true) ∧ StartsPrimed l

/-! ## One event -/

structure HistoryOk (l : List Event) : Prop where
  crossing : TestsInTime l → RefillAsked l
  always : TestsInTime l → StartsPrimed l → NeverLow l
  low : TestsInTime l → StartsPrimed l → primed l = true → level l < threshold → asked l = true

namespace HistoryOk

variable {l : List Event} {e : Event} {n : Nat} {pset : ParamSet}

theorem nil : HistoryOk [] := ⟨fun _ => trivial, fun _ _ => trivial, nofun⟩

/-- An event that neither takes a tuple nor moves a position. -/
theorem still (h : HistoryOk l) (hlevel : level (e :: l) = level l) (htakes : ¬ e.Takes)
    (htests : TestsInTime (e :: l) → TestsInTime l)
    (hprimed : primed (e :: l) = true → level l < threshold → primed l = true)
    (hasked : level l < threshold → asked l = true → asked (e :: l) = true) :
    HistoryOk (e :: l) where
  crossing ht := ⟨fun hte => absurd hte htakes, h.crossing (htests ht)⟩
  always ht hs := ⟨fun hte => absurd hte htakes, h.always (htests ht) hs.2⟩
  low ht hs hp hl := by
    rw [hlevel] at hl
    exact hasked hl (h.low (htests ht) hs.2 (hprimed hp hl) hl)

theorem test (h : HistoryOk l) : HistoryOk (.test :: l) := by
  refine h.still rfl id id (fun hp hl => ?_) fun hl ha => ?_
  · simpa [primed, level, not_le.2 hl] using hp
  · simp [asked, level, ha, not_le.2 hl]

theorem send (h : HistoryOk l) (slot : Slot) (fgBase : Nat) (block : Block) :
    HistoryOk (.send slot fgBase block :: l) := by
  refine h.still rfl id id (fun hp hl => ?_) fun hl ha => ?_
  · simpa [primed, level, not_le.2 hl] using hp
  · simp [asked, level, ha, not_le.2 hl]

theorem signal (h : HistoryOk l) (sig : Signal) : HistoryOk (.signal sig :: l) := by
  refine h.still rfl id id (fun hp hl => ?_) fun hl ha => ?_
  · simpa [primed, level, not_le.2 hl] using hp
  · cases sig
    case refill => rfl
    all_goals simp [asked, level, ha, not_le.2 hl]

/-- Where the level stays below the threshold, no new request is due. -/
theorem append (h : HistoryOk l) (hn : level l ≤ n) : HistoryOk (.append n :: l) where
  crossing ht := ⟨nofun, h.crossing ht⟩
  always ht hs := ⟨nofun, h.always ht hs.2⟩
  low ht hs hp hl := by
    have hl' : n < threshold := hl
    have hp' : primed l = true := by simpa [primed, level, not_le.2 hl'] using hp
    simp [asked, level, h.low ht hs.2 hp' (hn.trans_lt hl'), not_le.2 hl']

theorem reset (h : HistoryOk l) : HistoryOk (.reset n :: l) where
  crossing ht := ⟨nofun, h.crossing ht⟩
  always ht hs := ⟨nofun, h.always ht hs.2⟩
  low _ _ hp hl := absurd (of_decide_eq_true hp) (not_le.2 hl)

theorem take (h : HistoryOk l) (hl : level l = level (e :: l) + 1)
    (hprimed : primed (e :: l) = (primed l || decide (threshold ≤ level (e :: l))))
    (hasked : asked (e :: l) = (asked l &&
      !(decide (level l < threshold) && decide (threshold ≤ level (e :: l)))))
    (htests : TestsInTime (e :: l) → TestsInTime l ∧ (level l = threshold → asked l = true)) :
    HistoryOk (e :: l) := by
  have hbelow : TestsInTime (e :: l) → StartsPrimed l → primed l = true →
      level (e :: l) < threshold → asked l = true := by
    intro ht hs hp hlow
    obtain ⟨ht', hthreshold⟩ := htests ht
    rcases Nat.lt_or_ge (level l) threshold with hlt | hge
    · exact h.low ht' hs hp hlt
    · exact hthreshold (Nat.le_antisymm (hl ▸ hlow) hge)
  refine ⟨fun ht => ⟨fun _ hge hlow => ?_, h.crossing (htests ht).1⟩,
    fun ht hs => ⟨fun hte hlow => ?_, h.always (htests ht).1 hs.2⟩, fun ht hs hp hlow => ?_⟩
  · exact (htests ht).2 (Nat.le_antisymm (hl ▸ hlow) hge)
  · exact hbelow ht hs.2 (hs.1 hte) hlow
  · have hp' : primed l = true := by simpa [hprimed, not_le.2 hlow] using hp
    rw [hasked, hbelow ht hs.2 hp' hlow]
    simp [not_le.2 hlow]

theorem first (h : HistoryOk l) (hl : level l = n + 1) : HistoryOk (.first pset n :: l) :=
  h.take hl rfl rfl fun ht => ⟨ht.2, fun heq => absurd heq ht.1⟩

theorem next (h : HistoryOk l) (hl : level l = n + 1)
    (htest : level l = threshold → levelAtTest l = threshold → asked l = true) :
    HistoryOk (.next pset n :: l) :=
  h.take hl rfl rfl fun ht => ⟨ht.2, fun heq => htest heq (ht.1 heq)⟩

end HistoryOk

/-! ## One access -/

/-- The positions are inside the ring, and the history tells how many tuples are between them. -/
structure Channel.Ok (ch : Channel) : Prop where
  rdPtr : ch.regs.rdPtr < bufferSize
  wrPtr : ch.regs.wrPtr < bufferSize
  count : level ch.log = ch.regs.fill
  history : HistoryOk ch.log

def Scu.Ok (s : Scu) : Prop := ∀ c, (s.chan c).Ok

namespace ChannelRegs

variable {r : ChannelRegs}

theorem fill_append {k : Nat} (hrd : r.rdPtr < bufferSize) (hwr : r.wrPtr < bufferSize)
    (h : r.fill + k < bufferSize) :
    ({ r with wrPtr := (r.wrPtr + k) % bufferSize } : ChannelRegs).fill = r.fill + k :=
  Ring.fill_add hrd hwr h

theorem fill_take (hrd : r.rdPtr < bufferSize) (hwr : r.wrPtr < bufferSize) (h : 0 < r.fill) :
    r.fill = ({ r with rdPtr := (r.rdPtr + 1) % bufferSize } : ChannelRegs).fill + 1 :=
  Ring.fill_pop hrd hwr fun heq => h.ne' ((Ring.fill_eq_zero_iff hrd hwr).2 heq)

end ChannelRegs

namespace Channel

variable {ch : Channel} {pset : ParamSet}

theorem Ok.test (h : ch.Ok) : (ch.record .test).Ok := ⟨h.rdPtr, h.wrPtr, h.count, h.history.test⟩

theorem Ok.send (h : ch.Ok) (slot : Slot) (fgBase : Nat) (block : Block) :
    (ch.record (.send slot fgBase block)).Ok :=
  ⟨h.rdPtr, h.wrPtr, h.count, h.history.send slot fgBase block⟩

theorem Ok.signal (h : ch.Ok) (sig : Signal) : (ch.record (.signal sig)).Ok :=
  ⟨h.rdPtr, h.wrPtr, h.count, h.history.signal sig⟩

theorem Ok.append (h : ch.Ok) {k : Nat} (hroom : ch.regs.fill + k < bufferSize) :
    (ch.move (fun r => { r with wrPtr := (r.wrPtr + k) % bufferSize }) .append).Ok := by
  refine ⟨h.rdPtr, Nat.mod_lt _ (by decide), rfl, h.history.append ?_⟩
  rw [h.count, ChannelRegs.fill_append h.rdPtr h.wrPtr hroom]
  exact Nat.le_add_right _ _

theorem Ok.reset (h : ch.Ok) {f : ChannelRegs → ChannelRegs}
    (hrd : (f ch.regs).rdPtr < bufferSize) (hwr : (f ch.regs).wrPtr < bufferSize) :
    (ch.move f .reset).Ok :=
  ⟨hrd, hwr, rfl, h.history.reset⟩

/-- A tuple is taken from a ring that is not empty. -/
theorem Ok.take (h : ch.Ok) (hfill : 0 < ch.regs.fill) {e : Nat → Event}
    (he : ∀ n l, level (e n :: l) = n)
    (hhistory : ∀ n, level ch.log = n + 1 → HistoryOk (e n :: ch.log)) :
    (ch.move (fun r => { r with rdPtr := (ch.regs.rdPtr + 1) % bufferSize }) e).Ok := by
  refine ⟨Nat.mod_lt _ (by decide), h.wrPtr, he _ _, hhistory _ ?_⟩
  exact h.count.trans (ChannelRegs.fill_take h.rdPtr h.wrPtr hfill)

/-- Registers other than the positions are written. -/
theorem Ok.setRegs (h : ch.Ok) {f : ChannelRegs → ChannelRegs}
    (hf : ∀ r, (f r).rdPtr = r.rdPtr ∧ (f r).wrPtr = r.wrPtr) : (ch.setRegs f).Ok := by
  obtain ⟨hrd, hwr⟩ := hf ch.regs
  refine ⟨hrd ▸ h.rdPtr, hwr ▸ h.wrPtr, h.count.trans ?_, h.history⟩
  change Ring.fill _ _ _ = Ring.fill _ (f ch.regs).rdPtr (f ch.regs).wrPtr
  rw [hrd, hwr]

end Channel

namespace Scu

variable {s s' : Scu} {c : Nat}

theorem modify_self (f : Channel → Channel) : (s.modify c f).chan c = f (s.chan c) := if_pos rfl

theorem modify_other {c' : Nat} (h : c' ≠ c) (f : Channel → Channel) :
    (s.modify c f).chan c' = s.chan c' := if_neg h

theorem Ok.modify (h : s.Ok) {f : Channel → Channel} (hf : (f (s.chan c)).Ok) :
    (s.modify c f).Ok := by
  intro c'
  by_cases hc : c' = c
  · subst hc
    rw [modify_self]
    exact hf
  · rw [modify_other hc]
    exact h c'

theorem Ok.touch_modify (h : s.Ok) {f : Channel → Channel} (hf : (f (s.chan c)).Ok) :
    ((s.touch c).modify c f).Ok :=
  Ok.modify (s := s.touch c) h hf

theorem ok_stable : Prog.Stable HostStep Ok := by
  rintro s s' h (⟨c, pset⟩ | ⟨c, k, -, hroom⟩ | ⟨c, n⟩)
  · exact h.modify ⟨(h c).rdPtr, (h c).wrPtr, (h c).count, (h c).history⟩
  · exact h.modify ((h c).append hroom)
  · exact h.modify ((h c).setRegs fun _ => ⟨rfl, rfl⟩)

theorem Boot.ok (h : s.Boot) : s.Ok := by
  intro c
  obtain ⟨hwr, hrd, hlog⟩ := h c
  refine ⟨?_, ?_, ?_, ?_⟩
  · rw [hrd]
    decide
  · rw [hwr]
    decide
  · rw [hlog, ChannelRegs.fill, hwr, hrd]
    rfl
  · rw [hlog]
    exact .nil

end Scu

/-! ## Programs that take no tuples -/

/-- Whatever the host does meanwhile, a program keeps what is known about the channels. -/
def Good {α : Type} (p : Fw α) : Prop :=
  ∀ s, Scu.Ok s → p.Safe HostStep Scu.Ok (fun _ s => s.Ok) s

section Good

variable {α β : Type} {c : Nat}

theorem good_ret (a : α) : Good (pure a : Fw α) := fun _ h => h

theorem Good.bind {p : Fw α} {q : α → Fw β} (hp : Good p) (hq : ∀ a, Good (q a)) :
    Good (p >>= q) :=
  fun s h => (hp s h).bind fun a s₁ h₁ => hq a s₁ h₁

theorem good_access {upd : Scu → Scu} {see : Scu → α} (h : ∀ s, Scu.Ok s → (upd s).Ok) :
    Good (Prog.access upd see) :=
  fun _ hs => Prog.Safe.access Scu.ok_stable hs fun s₁ h₁ => ⟨h s₁ h₁, h s₁ h₁⟩

theorem regs_good (f : ChannelRegs → α) : Good (regs c f) := good_access fun _ h => h

theorem setRegs_good {f : ChannelRegs → ChannelRegs}
    (hf : ∀ r, (f r).rdPtr = r.rdPtr ∧ (f r).wrPtr = r.wrPtr) : Good (setRegs c f) :=
  good_access fun _ h => h.touch_modify ((h c).setRegs hf)

theorem macroOf_good : Good (macroOf c) := (regs_good _).bind fun _ => good_access fun _ h => h

theorem sendSig_good (sig : Signal) : Good (sendSig c sig) :=
  good_access fun _ h => h.touch_modify ((h c).signal sig)

theorem sendBlock_good (slot : Slot) (fgBase : Nat) (block : Block) :
    Good (sendBlock c slot fgBase block) :=
  good_access fun _ h => h.modify ((h c).send slot fgBase block)

theorem cbisEmpty_good : Good (cbisEmpty c) :=
  (regs_good _).bind fun _ => (regs_good _).bind fun _ => good_ret _

theorem disableSlaveIrq_good : Good (disableSlaveIrq c) := by
  unfold disableSlaveIrq
  split
  · exact macroOf_good.bind fun _ => good_ret ()
  · exact good_ret ()

theorem handleStop_good : Good (handleStop c) := by
  refine cbisEmpty_good.bind fun empty => ?_
  split
  · exact (sendSig_good _).bind fun _ => disableSlaveIrq_good.bind fun _ =>
      setRegs_good fun _ => ⟨rfl, rfl⟩
  · exact (sendSig_good _).bind fun _ => disableSlaveIrq_good.bind fun _ =>
      setRegs_good fun _ => ⟨rfl, rfl⟩

theorem handleStart_good : Good (handleStart c) :=
  Good.bind (setRegs_good fun _ => ⟨rfl, rfl⟩) fun _ => sendSig_good .start

theorem initBuffers_good : Good (initBuffers c) := by
  unfold initBuffers
  split
  · refine Good.bind (good_access fun s h => h.touch_modify
      ((h c).reset (h c).rdPtr (Nat.zero_lt_succ _))) fun _ => ?_
    refine Good.bind (good_access fun s h => h.touch_modify
      ((h c).reset (Nat.zero_lt_succ _) (h c).wrPtr)) fun _ => ?_
    refine Good.bind (setRegs_good fun _ => ⟨rfl, rfl⟩) fun _ => ?_
    refine Good.bind (setRegs_good fun _ => ⟨rfl, rfl⟩) fun _ => ?_
    exact macroOf_good.bind fun _ => good_ret ()
  · exact good_ret ()

/-- The position that is written is one that has been read. -/
theorem disarm_good : Good (disarm c) := by
  refine (regs_good _).bind fun state => ?_
  split
  · intro s hs
    have hread : (regs c (·.wrPtr)).Safe HostStep Scu.Ok (fun wr s => s.Ok ∧ wr < bufferSize) s :=
      Prog.Safe.access Scu.ok_stable hs fun s₁ h₁ => ⟨h₁, h₁, (h₁ c).wrPtr⟩
    refine hread.bind fun wr s₁ h₁ => ?_
    exact good_access (fun s h => h.touch_modify ((h c).reset h₁.2 (h c).wrPtr)) s₁ h₁.1
  · exact Good.bind (setRegs_good fun _ => ⟨rfl, rfl⟩) fun _ => sendSig_good .disarmed

theorem disableChannel_good : Good (disableChannel c) := by
  refine (regs_good _).bind fun n => ?_
  split
  · exact good_ret ()
  · refine macroOf_good.bind fun m => ?_
    split
    · exact good_ret ()
    · exact disarm_good

end Good

/-! ## The host meanwhile -/

/-- The host leaves a channel alone, or there are more tuples in its ring than before. -/
theorem HostStep.channel {s s' : Scu} (h : HostStep s s') (hs : s.Ok) (c : Nat) :
    (s'.chan c).regs.rdPtr = (s.chan c).regs.rdPtr ∧
      (((s'.chan c).regs.wrPtr = (s.chan c).regs.wrPtr ∧ (s'.chan c).log = (s.chan c).log) ∨
        ((s.chan c).regs.fill < (s'.chan c).regs.fill ∧
          (s'.chan c).log = .append (s'.chan c).regs.fill :: (s.chan c).log)) := by
  have hother : ∀ {c' f}, c ≠ c' → (s.modify c' f).chan c = s.chan c := fun hc =>
    Scu.modify_other hc _
  rcases h with ⟨c', pset⟩ | ⟨c', k, hpos, hroom⟩ | ⟨c', n⟩
  · by_cases hc : c = c'
    · subst hc
      rw [Scu.modify_self]
      exact ⟨rfl, .inl ⟨rfl, rfl⟩⟩
    · rw [hother hc]
      exact ⟨rfl, .inl ⟨rfl, rfl⟩⟩
  · by_cases hc : c = c'
    · subst hc
      rw [Scu.modify_self]
      have hfill := ChannelRegs.fill_append (hs c).rdPtr (hs c).wrPtr hroom
      exact ⟨rfl, .inr ⟨(Nat.lt_add_of_pos_right hpos).trans_eq hfill.symm, rfl⟩⟩
    · rw [hother hc]
      exact ⟨rfl, .inl ⟨rfl, rfl⟩⟩
  · by_cases hc : c = c'
    · subst hc
      rw [Scu.modify_self]
      exact ⟨rfl, .inl ⟨rfl, rfl⟩⟩
    · rw [hother hc]
      exact ⟨rfl, .inl ⟨rfl, rfl⟩⟩

theorem HostStep.fill_le {s s' : Scu} (h : HostStep s s') (hs : s.Ok) (c : Nat) :
    (s.chan c).regs.fill ≤ (s'.chan c).regs.fill := by
  obtain ⟨hrd, ⟨hwr, -⟩ | ⟨hlt, -⟩⟩ := h.channel hs c
  · rw [ChannelRegs.fill, ChannelRegs.fill, hrd, hwr]
  · exact hlt.le

/-! ## Taking a tuple -/

/-- What is asserted about the channels and is stable makes sure that a tuple may be taken. -/
theorem cbRead_safe {A : (Nat → Channel) → Prop} (hA : Prog.Stable HostStep fun s => A s.chan)
    (hok : ∀ s : Scu, A s.chan → s.Ok) {c : Nat} {e : ParamSet → Nat → Event}
    (he : ∀ pset n l, level (e pset n :: l) = n)
    (htake : ∀ f pset n, A f → level (f c).log = n + 1 → HistoryOk (e pset n :: (f c).log))
    {s : Scu} (hs : A s.chan) : (cbRead c e).Safe HostStep Scu.Ok (fun _ s => s.Ok) s := by
  have hrd : ∀ rptr, Prog.Stable HostStep fun s =>
      A s.chan ∧ (s.chan c).regs.rdPtr = rptr := fun rptr s s' h hstep =>
    ⟨hA s s' h.1 hstep, ((hstep.channel (hok s h.1) c).1).trans h.2⟩
  have hfill : ∀ rptr, Prog.Stable HostStep fun s =>
      (A s.chan ∧ (s.chan c).regs.rdPtr = rptr) ∧ 0 < (s.chan c).regs.fill :=
    fun rptr s s' h hstep =>
      ⟨hrd rptr s s' h.1 hstep, h.2.trans_le (hstep.fill_le (hok s h.1.1) c)⟩
  have hrptr : (regs c (·.rdPtr)).Safe HostStep Scu.Ok
      (fun rptr s => A s.chan ∧ (s.chan c).regs.rdPtr = rptr) s :=
    Prog.Safe.access hA hs fun s₁ h₁ => ⟨hok _ h₁, h₁, rfl⟩
  refine hrptr.bind fun rptr s₁ h₁ => ?_
  have hwptr : (regs c (·.wrPtr)).Safe HostStep Scu.Ok
      (fun wptr s => (A s.chan ∧ (s.chan c).regs.rdPtr = rptr) ∧
        (wptr ≠ rptr → 0 < (s.chan c).regs.fill)) s₁ := by
    refine Prog.Safe.access (hrd rptr) h₁ fun s₂ h₂ => ⟨hok _ h₂.1, h₂, fun hne => ?_⟩
    have hs₂ := hok s₂ h₂.1 c
    refine Nat.pos_of_ne_zero fun hzero => hne ?_
    exact ((Ring.fill_eq_zero_iff hs₂.rdPtr hs₂.wrPtr).1 hzero).symm.trans h₂.2
  refine hwptr.bind fun wptr s₂ h₂ => ?_
  split
  next => exact hok _ h₂.1.1
  next hne =>
    have hpset : (fgBuffer c rptr).Safe HostStep Scu.Ok
        (fun _ s => (A s.chan ∧ (s.chan c).regs.rdPtr = rptr) ∧ 0 < (s.chan c).regs.fill) s₂ :=
      Prog.Safe.access (hfill rptr) ⟨h₂.1, h₂.2 hne⟩ fun s₃ h₃ => ⟨hok _ h₃.1.1, h₃⟩
    refine hpset.bind fun pset s₃ h₃ => ?_
    have hmove : (moveRdPtr c rptr (e pset)).Safe HostStep Scu.Ok (fun _ s => s.Ok) s₃ := by
      refine Prog.Safe.access (hfill rptr) h₃ fun s₄ h₄ => ?_
      obtain ⟨⟨hA₄, rfl⟩, hpos⟩ := h₄
      have hs₄ : s₄.Ok := hok s₄ hA₄
      have htaken : ((s₄.touch c).modify c fun ch =>
          ch.move (fun r => { r with rdPtr := ((s₄.chan c).regs.rdPtr + 1) % bufferSize })
            (e pset)).Ok :=
        hs₄.touch_modify ((hs₄ c).take hpos (he pset) fun n => htake s₄.chan pset n hA₄)
      exact ⟨htaken, htaken⟩
    exact hmove.bind fun _ s₄ h₄ => h₄

theorem cbRead_first_good (c : Nat) : Good (cbRead c .first) := fun _ hs =>
  cbRead_safe (A := fun f => ∀ c, (f c).Ok) Scu.ok_stable (fun _ h => h) (fun _ _ _ => rfl)
    (fun _ _ _ hf hl => (hf c).history.first hl) hs

/-! ## The test for a refill -/

/-- While `cbgetCount` runs: where the level has not changed since the test began, the positions are
those of that time, and what has been read since is known. -/
structure Testing (c rd wr : Nat) (P : Prop) (f : Nat → Channel) : Prop where
  ok : ∀ c, (f c).Ok
  rdPtr : (f c).regs.rdPtr = rd
  test : levelAtTest (f c).log = Ring.fill bufferSize rd wr
  le : Ring.fill bufferSize rd wr ≤ (f c).regs.fill
  same : (f c).regs.fill = Ring.fill bufferSize rd wr → (f c).regs.wrPtr = wr ∧ P

/-- Behind a test: the level has not come down since it began, and where it has not changed, this
holds of the history. -/
structure Behind (c : Nat) (P : List Event → Prop) (f : Nat → Channel) : Prop where
  ok : ∀ c, (f c).Ok
  le : levelAtTest (f c).log ≤ (f c).regs.fill
  same : (f c).regs.fill = levelAtTest (f c).log → P (f c).log

/-- Behind `cbgetCount`: what it returns. -/
abbrev Counted (c : Nat) (count : Int) : (Nat → Channel) → Prop :=
  Behind c fun l => count = levelAtTest l

abbrev Asked (c : Nat) : (Nat → Channel) → Prop :=
  Behind c fun l => levelAtTest l = threshold → asked l = true

section Test

variable {c rd wr : Nat} {P : Prop}

theorem Testing.stable : Prog.Stable HostStep fun s => Testing c rd wr P s.chan := by
  intro s s' h hstep
  have hok := Scu.ok_stable s s' h.ok hstep
  obtain ⟨hrd, ⟨hwr, hlog⟩ | ⟨hlt, hlog⟩⟩ := hstep.channel h.ok c
  · have hfill : (s'.chan c).regs.fill = (s.chan c).regs.fill := by
      rw [ChannelRegs.fill, ChannelRegs.fill, hrd, hwr]
    refine ⟨hok, hrd.trans h.rdPtr, ?_, hfill ▸ h.le, fun heq => ?_⟩
    · rw [hlog]
      exact h.test
    · rw [hwr]
      exact h.same (hfill ▸ heq)
  · refine ⟨hok, hrd.trans h.rdPtr, ?_, h.le.trans hlt.le, fun heq => ?_⟩
    · rw [hlog]
      exact h.test
    · exact absurd (heq ▸ h.le) (not_le.2 hlt)

theorem Behind.stable {P : List Event → Prop} :
    Prog.Stable HostStep fun s => Behind c P s.chan := by
  intro s s' h hstep
  have hok := Scu.ok_stable s s' h.ok hstep
  obtain ⟨hrd, ⟨hwr, hlog⟩ | ⟨hlt, hlog⟩⟩ := hstep.channel h.ok c
  · have hfill : (s'.chan c).regs.fill = (s.chan c).regs.fill := by
      rw [ChannelRegs.fill, ChannelRegs.fill, hrd, hwr]
    refine ⟨hok, ?_, ?_⟩
    · rw [hlog, hfill]
      exact h.le
    · rw [hlog, hfill]
      exact h.same
  · refine ⟨hok, ?_, fun heq => ?_⟩
    · rw [hlog]
      exact h.le.trans hlt.le
    · rw [hlog] at heq
      exact absurd heq (h.le.trans_lt hlt).ne'

theorem readWrPtr_safe {s : Scu} (hs : Testing c rd wr P s.chan) :
    (regs c (·.wrPtr)).Safe HostStep Scu.Ok (fun a s => Testing c rd wr (P ∧ a = wr) s.chan) s := by
  refine Prog.Safe.access Testing.stable hs fun s₁ h₁ => ⟨h₁.ok, ?_⟩
  exact ⟨h₁.ok, h₁.rdPtr, h₁.test, h₁.le, fun heq => ⟨(h₁.same heq).1, (h₁.same heq).2,
    (h₁.same heq).1⟩⟩

theorem readRdPtr_safe {s : Scu} (hs : Testing c rd wr P s.chan) :
    (regs c (·.rdPtr)).Safe HostStep Scu.Ok (fun a s => Testing c rd wr P s.chan ∧ a = rd) s :=
  Prog.Safe.access Testing.stable hs fun _ h₁ => ⟨h₁.ok, h₁, h₁.rdPtr⟩

/-- What has been read gives the level, unless the host has appended tuples. -/
theorem Testing.counted {s : Scu} (h : Testing c rd wr P s.chan) {count : Int}
    (hcount : P → count = Ring.fill bufferSize rd wr) : Counted c count s.chan := by
  refine ⟨h.ok, h.test ▸ h.le, fun heq => ?_⟩
  rw [h.test] at heq ⊢
  exact hcount (h.same heq).2

theorem cbgetCount_safe {s : Scu} (hs : s.Ok) (c : Nat) :
    (cbgetCount c).Safe HostStep Scu.Ok (fun count s => Counted c count s.chan) s := by
  have hbegin : (beginTest c).Safe HostStep Scu.Ok
      (fun wr s => ∃ rd, rd < bufferSize ∧ wr < bufferSize ∧ Testing c rd wr True s.chan) s := by
    refine Prog.Safe.access Scu.ok_stable hs fun s₁ h₁ => ?_
    have htest : ((s₁.touch c).modify c fun ch => ch.record .test).Ok :=
      h₁.touch_modify (h₁ c).test
    have hself := Scu.modify_self (s := s₁.touch c) (c := c) fun ch => ch.record .test
    refine ⟨htest, (s₁.chan c).regs.rdPtr, (h₁ c).rdPtr, (h₁ c).wrPtr, htest, ?_, ?_, ?_, ?_⟩
    · rw [hself]
      rfl
    · rw [hself]
      exact (h₁ c).count
    · rw [hself]
      rfl
    · rw [hself]
      exact fun _ => ⟨rfl, trivial⟩
  refine hbegin.bind fun wr s₁ ⟨rd, hrd, hwr, h₁⟩ => (readRdPtr_safe h₁).bind ?_
  rintro _ s₂ ⟨h₂, rfl⟩
  have hfill := Ring.fill_eq hrd hwr
  split
  next hlt =>
    refine (readWrPtr_safe h₂).bind fun wr' s₃ h₃ => (readRdPtr_safe h₃).bind ?_
    rintro _ s₄ ⟨h₄, rfl⟩
    refine h₄.counted fun ⟨_, hwr'⟩ => ?_
    rw [hwr', hfill, if_pos hlt.le]
    omega
  next hge =>
    refine (readRdPtr_safe h₂).bind ?_
    rintro _ s₃ ⟨h₃, rfl⟩
    refine (readWrPtr_safe h₃).bind fun wr' s₄ h₄ => ?_
    split
    next hlt =>
      refine (readRdPtr_safe h₄).bind ?_
      rintro _ s₅ ⟨h₅, rfl⟩
      refine (readWrPtr_safe h₅).bind fun wr'' s₆ h₆ => h₆.counted ?_
      rintro ⟨⟨-, hwr'⟩, hwr''⟩
      rw [hwr''] at *
      rw [hfill, if_neg (by omega)]
      omega
    next hge' =>
      refine h₄.counted fun ⟨_, hwr'⟩ => ?_
      rw [hfill]
      split <;> omega

/-- A tuple is sent behind a test. -/
theorem sendFgParam_safe {slot : Slot} {fgBase : Nat} {reg : Half} {s : Scu}
    (hs : Asked (channelOf reg) s.chan) :
    (sendFgParam slot fgBase reg).Safe HostStep Scu.Ok (fun _ s => s.Ok) s := by
  have hread : (cbRead (channelOf reg) .next).Safe HostStep Scu.Ok (fun _ s => s.Ok) s :=
    cbRead_safe (A := Asked (channelOf reg)) Behind.stable (fun _ h => h.ok) (fun _ _ _ => rfl)
      (fun f _ _ hf hl => (hf.ok _).history.next hl fun hlevel htest =>
        hf.same ((hf.ok _).count.symm.trans (hlevel.trans htest.symm)) htest) hs
  refine hread.bind fun pset s₁ h₁ => ?_
  cases pset with
  | none => exact h₁
  | some pset =>
    refine Good.bind (sendBlock_good _ _ _) (fun _ => ?_) s₁ h₁
    cases slot <;> exact good_ret _

/-- `handle`: the host is asked, and a tuple is sent. -/
theorem handleRefill_good (slot : Slot) (fgBase : Nat) (reg : Half) :
    Good (handleRefill (channelOf reg) slot fgBase reg) := by
  intro s hs
  refine (cbgetCount_safe hs (channelOf reg)).bind fun count s₁ h₁ => ?_
  split
  next heq =>
    have hsig : (sendSig (channelOf reg) .refill).Safe HostStep Scu.Ok
        (fun _ s => Asked (channelOf reg) s.chan) s₁ := by
      refine Prog.Safe.access Behind.stable h₁ fun s₂ h₂ => ?_
      have hok : ((s₂.touch _).modify _ fun ch => ch.record (.signal .refill)).Ok :=
        Scu.Ok.touch_modify h₂.ok ((h₂.ok (channelOf reg)).signal .refill)
      have hself := Scu.modify_self (s := s₂.touch (channelOf reg)) (c := channelOf reg)
        fun ch => ch.record (.signal .refill)
      refine ⟨hok, hok, ?_, ?_⟩
      · rw [hself]
        exact h₂.le
      · rw [hself]
        exact fun _ _ => rfl
    exact hsig.bind fun _ _ h₂ => sendFgParam_safe h₂
  next hne =>
    refine sendFgParam_safe ⟨h₁.ok, h₁.le, fun heq htest => ?_⟩
    have hcount := h₁.same heq
    rw [htest] at hcount
    exact absurd hcount hne

end Test

/-! ## All calls -/

/-- What is done only sometimes, and then something more. -/
theorem Good.ite_bind {α β : Type} {cond : Prop} [Decidable cond] {p : Fw α} {q : Fw β}
    (hp : Good p) (hq : Good q) : Good (if cond then p >>= fun _ => q else q) := by
  split
  · exact hp.bind fun _ => hq
  · exact hq

theorem handleBus_good (nr : BitVec 4) (fgBase : Nat) (cntrlReg : Half) (rampCnt : Word) :
    Good (handleBus nr fgBase cntrlReg rampCnt) := by
  have hrefill : Good (do
      if cntrlReg &&& fgRunning ≠ 0 ∧ cntrlReg &&& fgDreq = 0 then
        handleStart (channelOf cntrlReg)
        handleRefill (channelOf cntrlReg) (.bus nr) fgBase cntrlReg
      else if cntrlReg &&& fgRunning ≠ 0 ∧ cntrlReg &&& fgDreq ≠ 0 then
        handleRefill (channelOf cntrlReg) (.bus nr) fgBase cntrlReg
      else
        return none) := by
    split
    · exact handleStart_good.bind fun _ => handleRefill_good _ _ _
    · split
      · exact handleRefill_good _ _ _
      · exact good_ret none
  exact Good.bind (setRegs_good fun _ => ⟨rfl, rfl⟩) fun _ => handleStop_good.ite_bind hrefill

theorem handleDev_good (slot : Slot) (fgBase : Nat) (irqActReg : Half) :
    Good (handleDev slot fgBase irqActReg) := by
  have hrefill : Good (do
      if irqActReg &&& fgRunning ≠ 0 ∧ irqActReg &&& devStateIrq ≠ 0 then
        handleStart (channelOf irqActReg)
        handleRefill (channelOf irqActReg) slot fgBase irqActReg
      else if irqActReg &&& (fgRunning ||| devDrq) ≠ 0 then
        handleRefill (channelOf irqActReg) slot fgBase irqActReg
      else
        return none) := by
    split
    · exact handleStart_good.bind fun _ => handleRefill_good _ _ _
    · split
      · exact handleRefill_good _ _ _
      · exact good_ret none
  have hstop : Good (do
      setRegs (channelOf irqActReg) fun r => { r with rampCount := r.rampCount - 1 }
      handleStop (channelOf irqActReg)) :=
    Good.bind (setRegs_good fun _ => ⟨rfl, rfl⟩) fun _ => handleStop_good
  exact Good.bind (setRegs_good fun _ => ⟨rfl, rfl⟩) fun _ => hstop.ite_bind hrefill

theorem handle_good (slot : Slot) (fgBase : Nat) (reg : Half) (rampCnt : Word) :
    Good (handle slot fgBase reg rampCnt) := by
  cases slot with
  | bus nr => exact handleBus_good nr fgBase reg rampCnt
  | milExt => exact handleDev_good .milExt fgBase reg
  | sio nr => exact handleDev_good (.sio nr) fgBase reg

theorem armMacro_good (c : Nat) (m : Macro) (fgBase : Nat) : Good (armMacro c m fgBase) := by
  have harmed : Good (do
      setRegs c fun r => { r with state := .armed }
      sendSig c .armed) :=
    Good.bind (setRegs_good fun _ => ⟨rfl, rfl⟩) fun _ => sendSig_good .armed
  have hsave : ∀ coeffC, Good (saveCCoeff c coeffC) := fun coeffC =>
    good_access fun s h => h.modify ⟨(h c).rdPtr, (h c).wrPtr, (h c).count, (h c).history⟩
  refine (cbRead_first_good c).bind fun pset => ?_
  cases pset with
  | none => exact harmed
  | some pset =>
    cases m.slot with
    | bus nr => exact (sendBlock_good _ _ _).bind fun _ => harmed
    | milExt => exact (hsave _).bind fun _ => (sendBlock_good _ _ _).bind fun _ => harmed
    | sio nr => exact (hsave _).bind fun _ => (sendBlock_good _ _ _).bind fun _ => harmed

theorem configureFgMacro_good (c : Nat) (dreq : Bool) : Good (configureFgMacro c dreq) := by
  unfold configureFgMacro
  split
  · refine macroOf_good.bind fun m => ?_
    split
    · exact good_ret ()
    · exact good_ret ()
    · split
      · exact good_ret ()
      · exact armMacro_good c m _
  · exact good_ret ()

theorem swIrqHandler_good (request : Request) : Good (swIrqHandler request) := by
  cases request with
  | initBuffers value => exact initBuffers_good
  | configure value dreq =>
    exact (macroOf_good.bind fun _ => good_ret ()).bind fun _ => configureFgMacro_good _ dreq
  | disable value => exact disableChannel_good
  | rescan found => exact good_access fun _ h => h
  | other => exact good_ret ()

theorem call_good (call : Call) : Good call.prog := by
  cases call with
  | handle slot fgBase reg rampCnt channel =>
    exact (handle_good slot fgBase reg rampCnt).bind fun _ => good_ret ()
  | swIrq request => exact swIrqHandler_good request
  | other => exact good_ret ()

theorem firmware_ok {c : Scu × Fw Unit} (hc : firmware.Reachable c) : c.1.Ok := by
  refine (@system_invariant _ _ _ _ Scu.Ok Scu.Ok (fun _ h => h.ok) (fun _ h => h)
    Scu.ok_stable Scu.ok_stable ?_ c hc).1
  rintro s p hs ⟨call, rfl⟩
  exact call_good call s hs

/-- **Refill requests**: in a run in which no first tuple is taken just at the threshold, and the
host does not bring the level up to just the threshold between a test and taking the tuple, the
host has been asked for more whenever a tuple brings the level below the threshold; and also
whenever one leaves it below, if no tuple is taken before the level has been up there. -/
theorem refill_requested {c : Scu × Fw Unit} (hc : firmware.Reachable c) (ch : Nat)
    (htests : TestsInTime (c.1.chan ch).log) :
    RefillAsked (c.1.chan ch).log ∧
      (StartsPrimed (c.1.chan ch).log → NeverLow (c.1.chan ch).log) := by
  have hhistory := (firmware_ok hc ch).history
  exact ⟨hhistory.crossing htests, hhistory.always htests⟩

/-! ## The first tuple -/

section Sample

/-- All channels are empty, with the first macro of the first slave. -/
def bootScu : Scu where
  chan _ := ⟨⟨0, 0, 0, 0, .stopped⟩, fun _ => ⟨0, 0, 0, 0⟩, 0, []⟩
  macros _ := ⟨.bus 0, 0⟩
  outside := false

/-- The host has appended tuples to the first channel. -/
def Scu.appended (s : Scu) (k : Nat) : Scu :=
  s.modify 0 fun ch =>
    ch.move (fun r => { r with wrPtr := (r.wrPtr + k) % bufferSize }) .append

def armed (k : Nat) : Scu := ((swIrqHandler (.configure 0 false)).run (bootScu.appended k)).2

theorem armed_reachable {k : Nat} (hpos : 0 < k) (hk : k < bufferSize) :
    firmware.Reachable (armed k, .ret ()) := by
  have hboot : firmware.Reachable (bootScu, .ret ()) := .init ⟨fun _ => ⟨rfl, rfl, rfl⟩, rfl⟩
  have hroom : (bootScu.chan 0).regs.fill + k < bufferSize := (Nat.zero_add k).symm ▸ hk
  exact reachable_call (reachable_interfere hboot (.append 0 k hpos hroom))
    ⟨.swIrq (.configure 0 false), rfl⟩

/-- Behind an interrupt of the macro of the first channel, which is running. -/
def handled (s : Scu) : Scu := ((Call.handle (.bus 0) fg1Base 0xc 0 (by decide)).prog.run s).2

/-- The first tuple and the one behind it, with a request before the second. -/
theorem handled_log : ((handled (armed 49)).chan 0).log =
    [.send (.bus 0) fg1Base ⟨8, 0, 0, 0, 0, 0⟩, .next ⟨0, 0, 0, 0⟩ 47, .signal .refill, .test,
      .signal .armed, .send (.bus 0) fg1Base ⟨0, 0, 0, 0, 0, 0⟩, .first ⟨0, 0, 0, 0⟩ 48,
      .append 49] := by
  decide +kernel

theorem handled_requested : RefillAsked ((handled (armed 49)).chan 0).log := by
  have hreach := reachable_call (armed_reachable (k := 49) (by decide) (by decide))
    ⟨.handle (.bus 0) fg1Base 0xc 0 (by decide), rfl⟩
  refine (refill_requested hreach 0 ?_).1
  change TestsInTime ((handled (armed 49)).chan 0).log
  rw [handled_log]
  exact ⟨fun _ => rfl, by decide, trivial⟩

theorem first_log : ((armed threshold).chan 0).log =
    [.signal .armed, .send (.bus 0) fg1Base ⟨0, 0, 0, 0, 0, 0⟩, .first ⟨0, 0, 0, 0⟩ 47,
      .append 48] := by
  decide +kernel

theorem first_not_requested : ¬ ∀ c : Scu × Fw Unit, firmware.Reachable c →
    ∀ ch, RefillAsked (c.1.chan ch).log := by
  intro hall
  have hasked := hall _ (armed_reachable (k := threshold) (by decide) (by decide)) 0
  change RefillAsked ((armed threshold).chan 0).log at hasked
  rw [first_log] at hasked
  exact absurd (hasked.2.2.1 trivial (by decide) (by decide)) (by decide)

end Sample

end ScuFg
