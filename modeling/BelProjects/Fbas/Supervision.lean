import BelProjects.Fbas.Node

/-!
# What an RX node knows about its senders

In operation an RX node handles events and evaluates the lifetime of the stored messages
in any order.  The steps are those of `doActionOperation`, one event at a time, with the
local pointer to the message buffer as part of the state.

The entry action clears the lifetime value that every stored message gets, so a message
never expires, and a stored message replaces the flag of the one before, so an error is not
latched.  Both properties hold exactly for runs whose messages say NOK themselves.
-/

namespace Fbas

/-! ### Steps of the do action -/

/-- A node and the local variable `buf` of `doActionOperation`. -/
structure Loop where
  node : Node
  buf : Option Nat

inductive Label where
  | enter
  | poll (e : EcaEvent)
  | finish (ttlExpired registrExpired : Bool) (sendTime : Long)
  deriving DecidableEq, Repr

namespace Loop

def step (l : Loop) : Label → Loop
  | .enter => { l with buf := some 0 }
  | .poll e => ⟨(handleEcaEvent l.node l.buf e).2, (handleEcaEvent l.node l.buf e).1⟩
  | .finish ttlExpired registrExpired sendTime =>
      { l with node := (l.node.checkTimers ttlExpired registrExpired).doNodeAction sendTime }

def run (l : Loop) (tr : List Label) : Loop := tr.foldl step l

theorem run_cons (l : Loop) (lab : Label) (tr : List Label) :
    l.run (lab :: tr) = (l.step lab).run tr := rfl

theorem run_append (l : Loop) (tr tr' : List Label) : l.run (tr ++ tr') = (l.run tr).run tr' :=
  List.foldl_append

theorem run_snoc (l : Loop) (tr : List Label) (lab : Label) :
    l.run (tr ++ [lab]) = (l.run tr).step lab := by
  rw [run_append]
  rfl

end Loop

def Round.labels (r : Round) : List Label :=
  .enter :: r.polls.map .poll ++ [.finish r.ttlExpired r.registrExpired r.sendTime]

theorem run_polls (es : List EcaEvent) : ∀ l : Loop,
    l.run (es.map .poll) = ⟨(handleEcaEvents l.node l.buf es).2, (handleEcaEvents l.node l.buf es).1⟩ := by
  induction es with
  | nil => intro l; rfl
  | cons e es ih =>
      intro l
      rw [List.map_cons, Loop.run_cons, ih]
      rfl

theorem run_labels (l : Loop) (r : Round) :
    (l.run r.labels).node = doActionOperation l.node r := by
  rw [Round.labels, List.cons_append, Loop.run_cons, Loop.run_snoc, run_polls]
  rfl

theorem run_rounds (rs : List Round) : ∀ l : Loop,
    (l.run (rs.flatMap Round.labels)).node = rs.foldl doActionOperation l.node := by
  induction rs with
  | nil => intro l; rfl
  | cons r rs ih =>
      intro l
      rw [List.flatMap_cons, Loop.run_append, ih, run_labels]
      rfl

/-! ### What a step does to one channel -/

def Label.newCycle : Label → Bool
  | .poll e => e.action == .newCycle
  | _ => false

namespace Loop

variable {l : Loop} {ch : Nat}

/-- The event whose message the step stores for channel `ch`. -/
def accepted (l : Loop) (ch : Nat) : Label → Option EcaEvent
  | .poll e =>
      if (e.action = .wrEvt ∨ e.action = .wrFlg) ∧
          Accepts l.node.bufMpsMsg e.param e.deadline ch then some e
      else none
  | _ => none

def evaluates (l : Loop) : Label → Bool
  | .finish ttlExpired registrExpired _ =>
      (l.node.checkTimers ttlExpired registrExpired).hasTask tskEvalMpsTtl
  | _ => false

/-- On an RX node an event starts a new cycle, stores a message, or leaves the message
buffer, the tasks and the published flags alone. -/
inductive PollRx (s : Node) (head : Option Nat) (e : EcaEvent) (s' : Node) : Prop
  | newCycle : e.action = .newCycle → s' = s.forceHigh head → PollRx s head e s'
  | message : (e.action = .wrEvt ∨ e.action = .wrFlg) →
      s' = { s with bufMpsMsg := (msgStoreMpsMsg s.bufMpsMsg e.param e.deadline s.mpsMsgCtrl).2 } →
      PollRx s head e s'
  | other (mode : OpMode) (mac : Long) (sent : List TimingMsg) :
      e.action ≠ .newCycle → ¬ (e.action = .wrEvt ∨ e.action = .wrFlg) →
      s' = { s with opMode := mode, endpDstMac := mac, sent := sent } → PollRx s head e s'

theorem handleNodeReg_rx {s : Node} (hrx : s.nodeType = .rx) (e : EcaEvent) :
    ∃ mac sent, s.handleNodeReg e = { s with endpDstMac := mac, sent := sent } := by
  simp only [Node.handleNodeReg, hrx]
  split
  · exact ⟨s.endpDstMac, s.sent, by rw [← hrx]⟩
  · split
    · split
      · exact ⟨_, _, by rw [← hrx]; rfl⟩
      · exact ⟨s.endpDstMac, s.sent, by rw [← hrx]⟩
    · exact ⟨s.endpDstMac, s.sent, by rw [← hrx]⟩

theorem poll_rx {s : Node} (hrx : s.nodeType = .rx) (head : Option Nat) (e : EcaEvent) :
    PollRx s head e (handleEcaEvent s head e).2 := by
  have hidle : e.action ≠ .newCycle → ¬ (e.action = .wrEvt ∨ e.action = .wrFlg) →
      PollRx s head e s := fun hnew hmsg => .other s.opMode s.endpDstMac s.sent hnew hmsg rfl
  simp only [handleEcaEvent]
  split <;> rename_i haction
  · refine .newCycle haction ?_
    simp only [Node.handleNewCycle, hrx, clearError_eq]
  · exact .other _ _ _ (by simp [haction]) (by simp [haction]) rfl
  · simp only [Node.handleGenEvt, hrx]
    exact hidle (by simp [haction]) (by simp [haction])
  · exact .message (Or.inl haction) (by simp only [Node.handleMpsMsg, hrx])
  · exact .message (Or.inr haction) (by simp only [Node.handleMpsMsg, hrx])
  · obtain ⟨mac, sent, hreg⟩ := handleNodeReg_rx hrx e
    exact .other _ _ _ (by simp [haction]) (by simp [haction]) hreg
  all_goals exact hidle (by simp [haction]) (by simp [haction])

theorem checkTimers_eq (s : Node) (t r : Bool) :
    s.checkTimers t r = { s with mpsTask := (s.checkTimers t r).mpsTask } := by
  simp only [Node.checkTimers]
  split <;> split <;> rfl

theorem evalMps_eq (s : Node) :
    ∃ init writes, s.evalMps =
      { s with
        mpsTask := s.mpsTask &&& ~~~tskEvalMpsTtl
        bufMpsMsg := evalMpsMsgs s.bufMpsMsg nMaxMpsChannels
        echoInitialized := init
        echoFlags := (msgRepresentMpsFlags (evalMpsMsgs s.bufMpsMsg nMaxMpsChannels) nMaxTxNodes).setWidth 16
        echoWrites := writes } := by
  simp only [Node.evalMps, Node.sbPutMpsFlags, Node.writeDiobReg]
  split
  · split <;> exact ⟨_, _, rfl⟩
  · rename_i hsame
    have hflags := not_not.mp (not_or.mp hsame).2
    exact ⟨s.echoInitialized, s.echoWrites, by rw [← hflags]⟩

theorem step_finish (hrx : l.node.nodeType = .rx) (t r : Bool) (now : Long) :
    (l.step (.finish t r now)).node =
      if l.evaluates (.finish t r now) = true then (l.node.checkTimers t r).evalMps
      else l.node.checkTimers t r := by
  have htype : (l.node.checkTimers t r).nodeType = .rx := by rw [checkTimers_eq]; exact hrx
  simp only [step, Node.doNodeAction, htype]
  rfl

theorem step_rx (hrx : l.node.nodeType = .rx) (lab : Label) :
    (l.step lab).node.nodeType = .rx ∧ (l.step lab).node.mpsMsgCtrl = l.node.mpsMsgCtrl := by
  cases lab with
  | enter => exact ⟨hrx, rfl⟩
  | poll e =>
      simp only [step]
      rcases poll_rx hrx l.buf e with ⟨-, heq⟩ | ⟨-, heq⟩ | ⟨mode, mac, sent, -, -, heq⟩ <;> rw [heq]
      · cases l.buf <;> exact ⟨hrx, rfl⟩
      · exact ⟨hrx, rfl⟩
      · exact ⟨hrx, rfl⟩
  | finish t r now =>
      rw [step_finish hrx]
      split
      · obtain ⟨init, writes, heq⟩ := evalMps_eq (l.node.checkTimers t r)
        rw [heq, checkTimers_eq]
        exact ⟨hrx, rfl⟩
      · rw [checkTimers_eq]
        exact ⟨hrx, rfl⟩

theorem run_rx (tr : List Label) : ∀ {l : Loop}, l.node.nodeType = .rx →
    (l.run tr).node.nodeType = .rx ∧ (l.run tr).node.mpsMsgCtrl = l.node.mpsMsgCtrl := by
  induction tr with
  | nil => intro l hrx; exact ⟨hrx, rfl⟩
  | cons lab tr ih =>
      intro l hrx
      obtain ⟨htype, hctrl⟩ := step_rx hrx lab
      obtain ⟨htype', hctrl'⟩ := ih htype
      exact ⟨htype', hctrl'.trans hctrl⟩

/-- The entry of a channel after message `e` has been stored in it. -/
def storedMsg (msg : MpsMsg) (ctrl : MsgCtrl) (e : EcaEvent) : MpsMsg :=
  { prot := { msg.prot with flag := rawFlag e.param }
    tsRx := e.deadline
    ttl := ctrl.ttl
    pending := (msg.prot.flag ^^^ rawFlag e.param).setWidth 8 }

/-- **A channel's entry on an RX node** changes when a message is stored for it, when its
lifetime is evaluated, and with a new cycle. -/
theorem step_entry (hrx : l.node.nodeType = .rx) (hch : ch < nMaxMpsChannels) {lab : Label}
    (hnew : lab.newCycle = false) :
    (l.step lab).node.bufMpsMsg ch =
      match l.accepted ch lab with
      | some e => storedMsg (l.node.bufMpsMsg ch) l.node.mpsMsgCtrl e
      | none =>
          if l.evaluates lab then evalMpsMsgTtl (l.node.bufMpsMsg ch) else l.node.bufMpsMsg ch := by
  cases lab with
  | enter => rfl
  | poll e =>
      simp only [Label.newCycle, beq_eq_false_iff_ne] at hnew
      simp only [step, accepted, evaluates, Bool.false_eq_true, if_false]
      rcases poll_rx hrx l.buf e with ⟨haction, -⟩ | ⟨haction, heq⟩ | ⟨_, _, _, -, haction, heq⟩
      · exact absurd haction hnew
      · have hbuf : (handleEcaEvent l.node l.buf e).2.bufMpsMsg =
            (msgStoreMpsMsg l.node.bufMpsMsg e.param e.deadline l.node.mpsMsgCtrl).2 := by rw [heq]
        rw [hbuf]
        by_cases hacc : Accepts l.node.bufMpsMsg e.param e.deadline ch
        · rw [if_pos ⟨haction, hacc⟩, msgStoreMpsMsg_accepts _ hacc, Function.update_self]
          rfl
        · rw [if_neg fun h => hacc h.2, msgStoreMpsMsg_other _ hacc]
      · rw [heq, if_neg fun h => haction h.1]
  | finish t r now =>
      have hbuf : (l.node.checkTimers t r).bufMpsMsg = l.node.bufMpsMsg := by rw [checkTimers_eq]
      rw [step_finish hrx]
      simp only [accepted]
      split
      · obtain ⟨init, writes, heq⟩ := evalMps_eq (l.node.checkTimers t r)
        have hnext : (l.node.checkTimers t r).evalMps.bufMpsMsg =
            evalMpsMsgs l.node.bufMpsMsg nMaxMpsChannels := by rw [heq, ← hbuf]
        rw [hnext, evalMpsMsgs_apply, if_pos hch]
      · rw [hbuf]

theorem step_echo (hrx : l.node.nodeType = .rx) (hch : ch < nMaxTxNodes) (lab : Label) :
    (l.step lab).node.echoFlags.getLsbD ch =
      if l.evaluates lab then decide (((l.step lab).node.bufMpsMsg ch).prot.flag = mpsFlagNok)
      else l.node.echoFlags.getLsbD ch := by
  have hlt : ch < 16 := hch
  cases lab with
  | enter => rfl
  | poll e =>
      simp only [step, evaluates, Bool.false_eq_true, if_false]
      rcases poll_rx hrx l.buf e with ⟨-, heq⟩ | ⟨-, heq⟩ | ⟨_, _, _, -, -, heq⟩ <;> rw [heq]
      cases l.buf <;> rfl
  | finish t r now =>
      have hecho : (l.node.checkTimers t r).echoFlags = l.node.echoFlags := by rw [checkTimers_eq]
      rw [step_finish hrx]
      split
      · obtain ⟨init, writes, heq⟩ := evalMps_eq (l.node.checkTimers t r)
        rw [heq, BitVec.getLsbD_setWidth,
          msgRepresentMpsFlags_getLsbD _ (by decide) hch, decide_eq_true hlt, Bool.true_and]
      · rw [hecho]

/-! ### Latching of errors -/

theorem step_nok (hrx : l.node.nodeType = .rx) (hch : ch < nMaxMpsChannels) {lab : Label}
    (hnew : lab.newCycle = false) (hnok : (l.node.bufMpsMsg ch).prot.flag = mpsFlagNok) :
    ((l.step lab).node.bufMpsMsg ch).prot.flag = mpsFlagNok ↔
      ∀ e, l.accepted ch lab = some e → rawFlag e.param = mpsFlagNok := by
  rw [step_entry hrx hch hnew]
  cases hacc : l.accepted ch lab with
  | some e =>
      constructor
      · intro h e' he'
        rwa [← Option.some.inj he']
      · intro h
        exact h e rfl
  | none =>
      have hkeep : (evalMpsMsgTtl (l.node.bufMpsMsg ch)).prot.flag = mpsFlagNok := by
        simp only [evalMpsMsgTtl]
        split
        · split
          · rfl
          · exact hnok
        · exact hnok
      constructor
      · intro _ e he
        exact absurd he (by simp)
      · intro _
        dsimp only
        split
        · exact hkeep
        · exact hnok

/-- **Errors are latched exactly as long as no other flag is stored**: from a state in which
the flag of a channel is NOK, in a run without a new cycle, the flag is NOK in every state
if and only if every message stored for the channel says NOK. -/
theorem nok_latched_iff (hrx : l.node.nodeType = .rx) (hch : ch < nMaxMpsChannels)
    (hnok : (l.node.bufMpsMsg ch).prot.flag = mpsFlagNok) {tr : List Label}
    (hnew : ∀ lab ∈ tr, lab.newCycle = false) :
    (∀ pre, pre <+: tr → ((l.run pre).node.bufMpsMsg ch).prot.flag = mpsFlagNok) ↔
      ∀ pre lab e, pre ++ [lab] <+: tr → (l.run pre).accepted ch lab = some e →
        rawFlag e.param = mpsFlagNok := by
  have hlab : ∀ {pre lab}, pre ++ [lab] <+: tr → lab.newCycle = false :=
    fun h => hnew _ (h.subset (List.mem_append_right _ (List.mem_singleton_self _)))
  constructor
  · intro hall pre lab e hpre hacc
    have hbefore := hall pre ((List.prefix_append pre [lab]).trans hpre)
    have hafter := hall _ hpre
    rw [run_snoc] at hafter
    exact (step_nok (run_rx pre hrx).1 hch (hlab hpre) hbefore).mp hafter e hacc
  · intro hall pre
    induction pre using List.reverseRecOn with
    | nil => intro _; exact hnok
    | append_singleton pre lab ih =>
        intro hpre
        have hbefore := ih ((List.prefix_append pre [lab]).trans hpre)
        rw [run_snoc]
        exact (step_nok (run_rx pre hrx).1 hch (hlab hpre) hbefore).mpr
          fun e hacc => hall pre lab e hpre hacc

/-! ### Supervision of the lifetime -/

def evaluations (l : Loop) : List Label → Nat
  | [] => 0
  | lab :: tr => (if l.evaluates lab then 1 else 0) + (l.step lab).evaluations tr

def silent (l : Loop) (ch : Nat) : List Label → Bool
  | [] => true
  | lab :: tr => (l.accepted ch lab).isNone && (l.step lab).silent ch tr

/-- A message without lifetime keeps its flag for ever, and every evaluation publishes it. -/
theorem run_silent (hch : ch < nMaxTxNodes) : ∀ (tr : List Label) {l : Loop},
    l.node.nodeType = .rx → (l.node.bufMpsMsg ch).ttl = 0 → (∀ lab ∈ tr, lab.newCycle = false) →
    l.silent ch tr = true →
    (l.run tr).node.bufMpsMsg ch = l.node.bufMpsMsg ch ∧
      (l.run tr).node.echoFlags.getLsbD ch =
        if 0 < l.evaluations tr then decide ((l.node.bufMpsMsg ch).prot.flag = mpsFlagNok)
        else l.node.echoFlags.getLsbD ch := by
  intro tr
  induction tr with
  | nil => intro l _ _ _ _; exact ⟨rfl, rfl⟩
  | cons lab tr ih =>
      intro l hrx httl hnew hsilent
      rw [silent, Bool.and_eq_true, Option.isNone_iff_eq_none] at hsilent
      obtain ⟨hnone, hrest⟩ := hsilent
      have hentry : (l.step lab).node.bufMpsMsg ch = l.node.bufMpsMsg ch := by
        rw [step_entry hrx hch (hnew lab List.mem_cons_self), hnone]
        have hfixed : evalMpsMsgTtl (l.node.bufMpsMsg ch) = l.node.bufMpsMsg ch := by
          rw [evalMpsMsgTtl, if_neg (not_not.mpr httl)]
        simp only [hfixed, ite_self]
      obtain ⟨hbuf, hecho⟩ := ih (step_rx hrx lab).1 (by rw [hentry]; exact httl)
        (fun lab' h => hnew lab' (List.mem_cons_of_mem _ h)) hrest
      rw [run_cons, hbuf, hecho, step_echo hrx hch, hentry, evaluations]
      refine ⟨rfl, ?_⟩
      cases l.evaluates lab with
      | true =>
          rw [if_pos rfl, if_pos (show 0 < (if true = true then 1 else 0) + _ by
            rw [if_pos rfl]; exact Nat.lt_of_lt_of_le Nat.one_pos (Nat.le_add_right _ _)), ite_self]
      | false => simp only [Bool.false_eq_true, if_false, Nat.zero_add]

end Loop

theorem entryActionOperation_rx {s : Node} (hrx : s.nodeType = .rx) (now : Long) :
    (entryActionOperation s now).nodeType = .rx := by
  simp only [entryActionOperation, hrx, reduceCtorEq, false_and, if_false]

namespace Loop

theorem last_message {s : Node} (hrx : s.nodeType = .rx) {now : Long} {buf : Option Nat}
    {ch : Nat} (hch : ch < nMaxTxNodes) {pre post : List Label} {lab : Label} {e : EcaEvent}
    (hnew : lab.newCycle = false)
    (hacc : ((⟨entryActionOperation s now, buf⟩ : Loop).run pre).accepted ch lab = some e)
    (hquiet : ∀ lab' ∈ post, lab'.newCycle = false)
    (hsilent : ((⟨entryActionOperation s now, buf⟩ : Loop).run (pre ++ [lab])).silent ch post = true)
    (heval : 0 < ((⟨entryActionOperation s now, buf⟩ : Loop).run (pre ++ [lab])).evaluations post) :
    (((⟨entryActionOperation s now, buf⟩ : Loop).run (pre ++ lab :: post)).node.bufMpsMsg ch).prot.flag =
        rawFlag e.param ∧
      ((⟨entryActionOperation s now, buf⟩ : Loop).run (pre ++ lab :: post)).node.echoFlags.getLsbD ch =
        decide (rawFlag e.param = mpsFlagNok) := by
  generalize hl : (⟨entryActionOperation s now, buf⟩ : Loop) = l at hacc hsilent heval ⊢
  have hstart : l.node.nodeType = .rx := by rw [← hl]; exact entryActionOperation_rx hrx now
  have hctrl : l.node.mpsMsgCtrl.ttl = 0 := by rw [← hl]; rfl
  obtain ⟨hpre, hctrlPre⟩ := run_rx pre hstart
  have hentry := step_entry hpre hch hnew
  rw [hacc] at hentry
  have hmsg : ((l.run (pre ++ [lab])).node.bufMpsMsg ch).prot.flag = rawFlag e.param ∧
      ((l.run (pre ++ [lab])).node.bufMpsMsg ch).ttl = 0 := by
    rw [run_snoc, hentry]
    exact ⟨rfl, (congrArg MsgCtrl.ttl hctrlPre).trans hctrl⟩
  obtain ⟨hbuf, hecho⟩ := run_silent hch post (run_rx (pre ++ [lab]) hstart).1 hmsg.2 hquiet hsilent
  rw [show pre ++ lab :: post = pre ++ [lab] ++ post by simp, run_append, hbuf, hecho, if_pos heval,
    hmsg.1]
  exact ⟨rfl, rfl⟩

/-- **Lifetime supervision**: in a run of an RX node from the entry into operation, after a
message for a channel and then 101 lifetime evaluations without another message for it or a
new cycle, the channel is NOK, here and on the SCU bus, if and only if the message itself
said so. -/
theorem lifetime_supervised_iff {s : Node} (hrx : s.nodeType = .rx) {now : Long} {buf : Option Nat}
    {ch : Nat} (hch : ch < nMaxTxNodes) {pre post : List Label} {lab : Label} {e : EcaEvent}
    (hnew : lab.newCycle = false)
    (hacc : ((⟨entryActionOperation s now, buf⟩ : Loop).run pre).accepted ch lab = some e)
    (hquiet : ∀ lab' ∈ post, lab'.newCycle = false)
    (hsilent : ((⟨entryActionOperation s now, buf⟩ : Loop).run (pre ++ [lab])).silent ch post = true)
    (heval : ((⟨entryActionOperation s now, buf⟩ : Loop).run (pre ++ [lab])).evaluations post = 101) :
    ((((⟨entryActionOperation s now, buf⟩ : Loop).run (pre ++ lab :: post)).node.bufMpsMsg ch).prot.flag =
        mpsFlagNok ∧
      ((⟨entryActionOperation s now, buf⟩ : Loop).run (pre ++ lab :: post)).node.echoFlags.getLsbD ch =
        true) ↔
      rawFlag e.param = mpsFlagNok := by
  obtain ⟨hflag, hecho⟩ := last_message hrx hch hnew hacc hquiet hsilent (by rw [heval]; decide)
  rw [hflag, hecho, decide_eq_true_iff, and_self]

/-! ### A silent sender -/

def silentRound : Round := { polls := [], ttlExpired := true, registrExpired := false, sendTime := 0 }

/-- In operation the expired timer leads to an evaluation. -/
theorem step_silent {l : Loop} (hrx : l.node.nodeType = .rx) (htask : l.node.mpsTask = 0x70000000) :
    l.evaluates (.finish true false 0) = true ∧
      (l.step (.finish true false 0)).node.mpsTask = 0x70000000 := by
  have htimers : (l.node.checkTimers true false).mpsTask = 0xf0000000 := by
    rw [Node.checkTimers, Node.hasTask, htask]
    rfl
  have heval : l.evaluates (.finish true false 0) = true := by
    simp only [evaluates, Node.hasTask, htimers]
    rfl
  refine ⟨heval, ?_⟩
  obtain ⟨init, writes, heq⟩ := evalMps_eq (l.node.checkTimers true false)
  rw [step_finish hrx, if_pos heval, heq]
  change (l.node.checkTimers true false).mpsTask &&& ~~~tskEvalMpsTtl = 0x70000000
  rw [htimers]
  rfl

theorem silentRounds (n : Nat) : ∀ l : Loop, l.node.nodeType = .rx → l.node.mpsTask = 0x70000000 →
    l.evaluations ((List.replicate n silentRound).flatMap Round.labels) = n ∧
      ∀ ch, l.silent ch ((List.replicate n silentRound).flatMap Round.labels) = true := by
  induction n with
  | zero => intro l _ _; exact ⟨rfl, fun _ => rfl⟩
  | succ n ih =>
      intro l hrx htask
      obtain ⟨heval, hnext⟩ := step_silent (l := l.step .enter) hrx htask
      obtain ⟨hcount, hsilent⟩ :=
        ih _ (step_rx (l := l.step .enter) hrx (.finish true false 0)).1 hnext
      have hlabels : (List.replicate (n + 1) silentRound).flatMap Round.labels =
          .enter :: .finish true false 0 :: (List.replicate n silentRound).flatMap Round.labels := rfl
      rw [hlabels]
      constructor
      · simp only [evaluations, heval, if_true, hcount]
        rw [show l.evaluates .enter = false from rfl, if_neg (by simp)]
        omega
      · intro ch
        simp only [silent, hsilent, Bool.and_true]
        rfl

/-- The sender of `sampleRx` sends one message and falls silent for 101 ms. -/
def sampleSilence : List Label :=
  .finish true false 0 :: (List.replicate 100 silentRound).flatMap Round.labels

theorem sampleSilence_quiet : ∀ lab ∈ sampleSilence, lab.newCycle = false := by
  intro lab hlab
  rcases List.mem_cons.mp hlab with rfl | hrest
  · rfl
  · obtain ⟨r, hr, hmem⟩ := List.mem_flatMap.mp hrest
    rw [List.eq_of_mem_replicate hr] at hmem
    simp only [Round.labels, silentRound, List.map_nil, List.cons_append, List.nil_append,
      List.mem_cons, List.not_mem_nil, or_false] at hmem
    rcases hmem with rfl | rfl <;> rfl

def sampleHeard (flag : BitVec 4) : Loop :=
  (⟨entryActionOperation sampleRx 0, none⟩ : Loop).run ([.enter] ++ [.poll (sampleMsg flag 5)])

theorem sampleSilence_counts (flag : BitVec 4) :
    (sampleHeard flag).evaluations sampleSilence = 101 ∧
      (sampleHeard flag).silent 0 sampleSilence = true := by
  have hrx : (sampleHeard flag).node.nodeType = .rx := (run_rx _ rfl).1
  have htask : (sampleHeard flag).node.mpsTask = 0x70000000 := rfl
  obtain ⟨heval, hnext⟩ := step_silent hrx htask
  obtain ⟨hcount, hsilent⟩ := silentRounds 100 _ (step_rx hrx (.finish true false 0)).1 hnext
  constructor
  · rw [sampleSilence, evaluations, heval, hcount]
    rfl
  · rw [sampleSilence, silent, hsilent 0]
    rfl

theorem sampleMsg_accepted (flag : BitVec 4) :
    ((⟨entryActionOperation sampleRx 0, none⟩ : Loop).run [.enter]).accepted 0
      (.poll (sampleMsg flag 5)) = some (sampleMsg flag 5) := by
  have haccepts : Accepts sampleRx.bufMpsMsg (sampleMsg flag 5).param 5 0 := by
    revert flag
    decide
  exact if_pos ⟨Or.inr rfl, haccepts⟩

/-- A sender that reported NOK before it fell silent is known to be NOK. -/
theorem lifetime_supervised_sample :
    (((⟨entryActionOperation sampleRx 0, none⟩ : Loop).run
        ([.enter] ++ .poll (sampleMsg mpsFlagNok 5) :: sampleSilence)).node.bufMpsMsg 0).prot.flag =
        mpsFlagNok ∧
      ((⟨entryActionOperation sampleRx 0, none⟩ : Loop).run
        ([.enter] ++ .poll (sampleMsg mpsFlagNok 5) :: sampleSilence)).node.echoFlags.getLsbD 0 = true :=
  (lifetime_supervised_iff rfl (by decide) rfl (sampleMsg_accepted mpsFlagNok) sampleSilence_quiet
    (sampleSilence_counts mpsFlagNok).2 (sampleSilence_counts mpsFlagNok).1).mpr rfl

def sampleRounds : List Round :=
  { silentRound with polls := [sampleMsg mpsFlagOk 5] } :: List.replicate 100 silentRound

theorem sampleRounds_labels :
    sampleRounds.flatMap Round.labels = [.enter] ++ .poll (sampleMsg mpsFlagOk 5) :: sampleSilence := by
  rw [sampleRounds, List.flatMap_cons]
  rfl

/-- **A silent sender is not noticed**: 101 calls of the do action after its last message,
each with a lifetime evaluation, its flag is still OK, here and on the SCU bus. -/
theorem silent_sender_unnoticed : ∃ (s : Node) (ch : Nat) (e : EcaEvent) (rs : List Round)
    (post : List Label),
    s.nodeType = .rx ∧ rs.flatMap Round.labels = [.enter] ++ .poll e :: post ∧
      ((⟨entryActionOperation s 0, none⟩ : Loop).run [.enter]).accepted ch (.poll e) = some e ∧
      ((⟨entryActionOperation s 0, none⟩ : Loop).run ([.enter] ++ [.poll e])).evaluations post = 101 ∧
      ((⟨entryActionOperation s 0, none⟩ : Loop).run ([.enter] ++ [.poll e])).silent ch post = true ∧
      (∀ lab ∈ post, lab.newCycle = false) ∧
      ((rs.foldl doActionOperation (entryActionOperation s 0)).bufMpsMsg ch).prot.flag = mpsFlagOk ∧
      (rs.foldl doActionOperation (entryActionOperation s 0)).echoFlags.getLsbD ch = false := by
  obtain ⟨hcount, hsilent⟩ := sampleSilence_counts mpsFlagOk
  have heard : 0 < (sampleHeard mpsFlagOk).evaluations sampleSilence := by
    rw [hcount]
    decide
  obtain ⟨hflag, hecho⟩ := last_message rfl (by decide) rfl (sampleMsg_accepted mpsFlagOk)
    sampleSilence_quiet hsilent heard
  have hrun : ((⟨entryActionOperation sampleRx 0, none⟩ : Loop).run
      ([.enter] ++ .poll (sampleMsg mpsFlagOk 5) :: sampleSilence)).node =
      sampleRounds.foldl doActionOperation (entryActionOperation sampleRx 0) := by
    rw [← sampleRounds_labels]
    exact run_rounds _ _
  have hok : rawFlag (sampleMsg mpsFlagOk 5).param = mpsFlagOk := rfl
  have hne : decide (mpsFlagOk = mpsFlagNok) = false := rfl
  rw [hrun, hok] at hflag hecho
  rw [hne] at hecho
  exact ⟨sampleRx, 0, sampleMsg mpsFlagOk 5, sampleRounds, sampleSilence, rfl, sampleRounds_labels,
    sampleMsg_accepted mpsFlagOk, hcount, hsilent, sampleSilence_quiet, hflag, hecho⟩

/-- A second NOK message leaves the error latched. -/
theorem nok_latched_sample :
    (∀ pre, pre <+: [.poll (sampleMsg mpsFlagNok 6)] →
        (((sampleHeard mpsFlagNok).run pre).node.bufMpsMsg 0).prot.flag = mpsFlagNok) ↔
      ∀ pre lab e, pre ++ [lab] <+: [.poll (sampleMsg mpsFlagNok 6)] →
        ((sampleHeard mpsFlagNok).run pre).accepted 0 lab = some e → rawFlag e.param = mpsFlagNok :=
  nok_latched_iff (run_rx _ rfl).1 (by decide) rfl
    (fun lab hlab => by rw [List.mem_singleton.mp hlab]; rfl)

/-- **A single OK message clears an error**: the flag of the channel is NOK, and OK after the
next message, without a new cycle. -/
theorem nok_cleared : ∃ (l : Loop) (ch : Nat) (e : EcaEvent),
    l = (⟨entryActionOperation sampleRx 0, none⟩ : Loop).run [.enter, .poll (sampleMsg mpsFlagNok 5)] ∧
      (l.node.bufMpsMsg ch).prot.flag = mpsFlagNok ∧ e.action ≠ .newCycle ∧
      ((l.step (.poll e)).node.bufMpsMsg ch).prot.flag = mpsFlagOk :=
  ⟨_, 0, sampleMsg mpsFlagOk 6, rfl, rfl, by decide, rfl⟩

end Loop

end Fbas
