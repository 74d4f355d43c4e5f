import BelProjects.Fbas.NewCycle
import BelProjects.Fbas.Supervision

/-!
# When a TX node sends

The messaging controller of a TX node has one time stamp, `last`: the time of the last
periodic message, or a time 52 ms ahead after a new cycle, or 0 to send at once.  Both senders
compare it with the clock, each in its own way.  As long as the clock does not go back and
stays away from 0 and from its end, it keeps the messages apart.
-/

namespace Fbas

/-- A class 2 message: all others are for the registration. -/
def TimingMsg.isC2 (m : TimingMsg) : Bool := m.evtId != fbasRegEid

/-- The number of class 2 messages sent so far. -/
def Node.c2Sent (s : Node) : Nat := s.sent.countP TimingMsg.isC2

/-- What matters for the pacing, with the clock reading it goes by; a periodic message
comes with the controller's period. -/
inductive Activity where
  | newCycle (now : Long)
  | pcEvent (now : Long)
  | pcFlag (now period : Long)
  deriving DecidableEq, Repr

def Activity.now : Activity → Long
  | .newCycle now | .pcEvent now | .pcFlag now _ => now

/-- No message in the 52 ms after a new cycle, and a period between periodic messages. -/
def Spaced : Activity → Activity → Prop
  | .newCycle t, .pcEvent t' | .newCycle t, .pcFlag t' _ => t.toNat + tim52Ms.toNat < t'.toNat
  | .pcFlag t _, .pcFlag t' period => t.toNat + period.toNat ≤ t'.toNat
  | _, _ => True

/-- The clock readings that a step of the do action compares or stores. -/
def Label.readings : Label → List Long
  | .enter => []
  | .poll e =>
      match e.action with
      | .newCycle => [e.now]
      | .genEvt => [e.sendTime]
      | _ => []
  | .finish _ _ sendTime => [sendTime]

/-- The clock never goes back, and its readings are far enough from its ends: none is 0, and
`margin` can be added to each. -/
structure Clock (margin : Nat) (ts : List Long) : Prop where
  sorted : ts.Pairwise (· ≤ ·)
  inside : ∀ t ∈ ts, 0 < t.toNat ∧ t.toNat + margin < 2 ^ 64

namespace Loop

/-- What a step of a TX node does: a new cycle, or class 2 messages sent, if any. -/
def activity (l : Loop) (lab : Label) : Option Activity :=
  let sends := l.node.c2Sent < (l.step lab).node.c2Sent
  match lab with
  | .enter => none
  | .poll e =>
      if e.action = .newCycle then some (.newCycle e.now)
      else if sends then some (.pcEvent e.sendTime)
      else none
  | .finish _ _ sendTime =>
      if sends then some (.pcFlag sendTime l.node.mpsMsgCtrl.period) else none

def activities (l : Loop) : List Label → List Activity
  | [] => []
  | lab :: tr => (l.activity lab).toList ++ (l.step lab).activities tr

end Loop

/-! ### The steps of a TX node -/

def cyclePeriod : Long := 33333000

theorem msgInitMsgCtrl_newCycle (ctrl : MsgCtrl) (now : Long) :
    (msgInitMsgCtrl ctrl (BitVec.ofNat 8 nMpsChannels) now 33333).last = now ∧
      (msgInitMsgCtrl ctrl (BitVec.ofNat 8 nMpsChannels) now 33333).period = cyclePeriod :=
  ⟨rfl, rfl⟩

theorem setEndpDstAddr_ctrl (s : Node) (mac : Long) :
    (s.setEndpDstAddr mac).mpsMsgCtrl = s.mpsMsgCtrl ∧
      (s.setEndpDstAddr mac).c2Sent = s.c2Sent := by
  rw [Node.setEndpDstAddr]
  split <;> exact ⟨rfl, rfl⟩

/-- A registration request is no class 2 message. -/
theorem msgRegisterNode_ctrl (s : Node) (now nodeId : Long) (bicId chId : BitVec 8)
    (flag : BitVec 4) :
    (s.msgRegisterNode now nodeId bicId chId flag).mpsMsgCtrl = s.mpsMsgCtrl ∧
      (s.msgRegisterNode now nodeId bicId chId flag).c2Sent = s.c2Sent := by
  refine ⟨rfl, ?_⟩
  simp only [Node.c2Sent, Node.msgRegisterNode, Node.ebmWriteTM]
  rw [List.countP_cons_of_neg]
  simp [TimingMsg.isC2]

theorem ebmWriteTMs_ctrl (deadline evtId param : Long) (n : Nat) : ∀ s : Node,
    (s.ebmWriteTMs deadline evtId param n).mpsMsgCtrl = s.mpsMsgCtrl := by
  induction n with
  | zero => intro s; rfl
  | succ n ih => intro s; exact ih _

theorem msgSendPcEvent_ctrl (s : Node) (now : Long) (idx : Nat) (evtId : Long) :
    (s.msgSendPcEvent now idx evtId).mpsMsgCtrl = s.mpsMsgCtrl ∧
      (s.c2Sent < (s.msgSendPcEvent now idx evtId).c2Sent → s.mpsMsgCtrl.last < now) := by
  simp only [Node.msgSendPcEvent]
  split
  · exact ⟨rfl, fun h => absurd h (Nat.lt_irrefl _)⟩
  · rename_i hlast
    refine ⟨?_, fun _ => BitVec.not_le.mp hlast⟩
    split
    · exact ebmWriteTMs_ctrl _ _ _ _ _
    · rfl

/-- The event IDs of class 2 messages and of registrations differ. -/
theorem fbasFlgEid_ne (idx : BitVec 8) : fbasFlgEid + idx.setWidth 64 ≠ fbasRegEid := by
  intro h
  have hval := congrArg BitVec.toNat h
  have hidx := idx.isLt
  have hflg : fbasFlgEid.toNat = 0x1fcbfcb000000000 := rfl
  have hreg : fbasRegEid.toNat = 0x1fcdfcd000000000 := rfl
  rw [BitVec.toNat_add, BitVec.toNat_setWidth, hflg, hreg] at hval
  omega

/-- The controller is left alone and nothing is sent; or a period is over and a message
is sent. -/
structure SendsFlag (s s' : Node) (now : Long) : Prop where
  ctrl : s'.mpsMsgCtrl = { s.mpsMsgCtrl with last := now }
  sends : s.c2Sent < s'.c2Sent
  due : s.mpsMsgCtrl.last = 0 ∨ s.mpsMsgCtrl.last + s.mpsMsgCtrl.period ≤ now

theorem msgSendPcFlag_cases (s : Node) (now : Long) (idx : BitVec 8) :
    (s.msgSendPcFlag now (fbasFlgEid + idx.setWidth 64)).mpsMsgCtrl = s.mpsMsgCtrl ∧
        (s.msgSendPcFlag now (fbasFlgEid + idx.setWidth 64)).c2Sent = s.c2Sent ∨
      SendsFlag s (s.msgSendPcFlag now (fbasFlgEid + idx.setWidth 64)) now := by
  by_cases hdue : (if s.mpsMsgCtrl.last = 0 then now
      else s.mpsMsgCtrl.last + s.mpsMsgCtrl.period) ≤ now
  · refine Or.inr ⟨?_, ?_, ?_⟩
    · simp only [Node.msgSendPcFlag, if_pos hdue]
      rfl
    · simp only [Node.msgSendPcFlag, if_pos hdue, Node.c2Sent, Node.ebmWriteTM]
      rw [List.countP_cons_of_pos]
      · exact Nat.lt_succ_self _
      · simpa only [TimingMsg.isC2, bne_iff_ne] using fbasFlgEid_ne idx
    · split at hdue
      · rename_i hlast
        exact Or.inl hlast
      · exact Or.inr hdue
  · left
    simp only [Node.msgSendPcFlag, if_neg hdue]
    exact ⟨trivial, trivial⟩

/-- The controller stays as it is, and class 2 messages are sent only after its time stamp. -/
structure Waits (s s' : Node) (now : Long) : Prop where
  ctrl : s'.mpsMsgCtrl = s.mpsMsgCtrl
  sends : s.c2Sent < s'.c2Sent → s.mpsMsgCtrl.last < now

theorem Waits.of_silent {s s' : Node} (now : Long) (hctrl : s'.mpsMsgCtrl = s.mpsMsgCtrl)
    (hsent : s'.c2Sent = s.c2Sent) : Waits s s' now :=
  ⟨hctrl, fun h => absurd h (by rw [hsent]; exact Nat.lt_irrefl _)⟩

theorem setEndpDstAddr_msgSendPcEvent_waits (s : Node) (mac now : Long) (idx : Nat)
    (evtId : Long) : Waits s ((s.setEndpDstAddr mac).msgSendPcEvent now idx evtId) now := by
  obtain ⟨haddrCtrl, haddrSent⟩ := setEndpDstAddr_ctrl s mac
  obtain ⟨hctrl, hsends⟩ := msgSendPcEvent_ctrl (s.setEndpDstAddr mac) now idx evtId
  rw [haddrCtrl, haddrSent] at hsends
  exact ⟨hctrl.trans haddrCtrl, hsends⟩

theorem handleGenEvt_waits (s : Node) (head : Option Nat) (e : EcaEvent) :
    Waits s (s.handleGenEvt head e).2 e.sendTime := by
  simp only [Node.handleGenEvt]
  split
  · split
    · obtain ⟨hctrl, hsends⟩ := setEndpDstAddr_msgSendPcEvent_waits
        { s with bufMpsMsg := msgStorePcEvent s.bufMpsMsg e.evtId e.deadline } _ e.sendTime
        pcEventIdx (fbasFlgEid + s.myIdx.setWidth 64)
      exact ⟨hctrl, hsends⟩
    · exact .of_silent _ rfl rfl
  · exact .of_silent _ rfl rfl

theorem handleEcaEvent_ctrl {s : Node} (htx : s.nodeType = .tx) (head : Option Nat)
    (e : EcaEvent) :
    (e.action = .newCycle ∧
        (handleEcaEvent s head e).2.mpsMsgCtrl.last = e.now + tim52Ms ∧
        (handleEcaEvent s head e).2.mpsMsgCtrl.period = cyclePeriod) ∨
      (e.action = .genEvt ∧ Waits s (handleEcaEvent s head e).2 e.sendTime) ∨
      (e.action ≠ .newCycle ∧ (handleEcaEvent s head e).2.mpsMsgCtrl = s.mpsMsgCtrl ∧
        (handleEcaEvent s head e).2.c2Sent = s.c2Sent) := by
  cases haction : e.action with
  | newCycle =>
      refine Or.inl ⟨rfl, ?_⟩
      simp only [handleEcaEvent, haction, Node.handleNewCycle, htx]
      exact msgInitMsgCtrl_newCycle _ _
  | genEvt =>
      refine Or.inr (Or.inl ⟨rfl, ?_⟩)
      simp only [handleEcaEvent, haction]
      exact handleGenEvt_waits s head e
  | nodeReg =>
      refine Or.inr (Or.inr ⟨by decide, ?_⟩)
      simp only [handleEcaEvent, haction, Node.handleNodeReg, htx]
      split
      · exact ⟨rfl, rfl⟩
      · split <;> exact ⟨rfl, rfl⟩
  | wrEvt | wrFlg =>
      refine Or.inr (Or.inr ⟨by decide, ?_⟩)
      simp only [handleEcaEvent, haction, Node.handleMpsMsg]
      split <;> exact ⟨rfl, rfl⟩
  | opMode =>
      refine Or.inr (Or.inr ⟨by decide, ?_⟩)
      simp only [handleEcaEvent, haction]
      exact ⟨rfl, rfl⟩
  | timeout | tluEvt | other =>
      refine Or.inr (Or.inr ⟨by decide, ?_⟩)
      simp only [handleEcaEvent, haction]
      exact ⟨trivial, trivial⟩

theorem doNodeAction_ctrl {s : Node} (htx : s.nodeType = .tx) (sendTime : Long) :
    (s.doNodeAction sendTime).mpsMsgCtrl = s.mpsMsgCtrl ∧
        (s.doNodeAction sendTime).c2Sent = s.c2Sent ∨
      SendsFlag s (s.doNodeAction sendTime) sendTime := by
  simp only [Node.doNodeAction]
  split
  · split
    · split
      · left
        split
        · obtain ⟨hctrl, hsent⟩ := setEndpDstAddr_ctrl
            { s with mpsTask := s.mpsTask &&& ~~~tskRegPerOver } broadcastMac
          obtain ⟨hctrl', hsent'⟩ := msgRegisterNode_ctrl (({ s with
            mpsTask := s.mpsTask &&& ~~~tskRegPerOver }).setEndpDstAddr broadcastMac)
            sendTime s.myMac 0xFF 0xF regReq
          exact ⟨hctrl'.trans hctrl, hsent'.trans hsent⟩
        · exact ⟨rfl, rfl⟩
      · obtain ⟨haddrCtrl, haddrSent⟩ := setEndpDstAddr_ctrl s s.rxMac
        rcases msgSendPcFlag_cases (s.setEndpDstAddr s.rxMac) sendTime s.myIdx with hnone | hflag
        · rw [haddrCtrl, haddrSent] at hnone
          exact Or.inl hnone
        · obtain ⟨hctrl, hsends, hdue⟩ := hflag
          rw [haddrCtrl] at hctrl hdue
          rw [haddrSent] at hsends
          exact Or.inr ⟨hctrl, hsends, hdue⟩
    · exact Or.inl ⟨rfl, rfl⟩
  · rename_i hrx
    rw [htx] at hrx
    cases hrx
  · exact Or.inl ⟨rfl, rfl⟩

theorem msgSendPcFlag_nodeType (s : Node) (now evtId : Long) :
    (s.msgSendPcFlag now evtId).nodeType = s.nodeType := by
  by_cases hdue : (if s.mpsMsgCtrl.last = 0 then now
      else s.mpsMsgCtrl.last + s.mpsMsgCtrl.period) ≤ now
  · simp only [Node.msgSendPcFlag, if_pos hdue]
    rfl
  · simp only [Node.msgSendPcFlag, if_neg hdue]

theorem doNodeAction_tx {s : Node} (htx : s.nodeType = .tx) (sendTime : Long) :
    (s.doNodeAction sendTime).nodeType = .tx := by
  simp only [Node.doNodeAction]
  split
  · split
    · split
      · split
        · exact (setEndpDstAddr_nodeType _ _).trans htx
        · exact htx
      · exact (msgSendPcFlag_nodeType ..).trans ((setEndpDstAddr_nodeType _ _).trans htx)
    · exact htx
  · rename_i hrx
    rw [htx] at hrx
    cases hrx
  · exact htx

theorem checkTimers_ctrl (s : Node) (ttlExpired registrExpired : Bool) :
    (s.checkTimers ttlExpired registrExpired).mpsMsgCtrl = s.mpsMsgCtrl ∧
      (s.checkTimers ttlExpired registrExpired).c2Sent = s.c2Sent ∧
      (s.checkTimers ttlExpired registrExpired).nodeType = s.nodeType := by
  simp only [Node.checkTimers]
  repeat' split
  all_goals exact ⟨rfl, rfl, rfl⟩

/-! ### The phase -/

/-- The time that an activity reserves: the time stamp is not before it. -/
def Activity.hold : Activity → Nat
  | .newCycle now => now.toNat + tim52Ms.toNat
  | .pcEvent _ => 0
  | .pcFlag now _ => now.toNat

def Activity.isNewCycle : Activity → Bool
  | .newCycle _ => true
  | _ => false

/-- A TX node whose clock has read `now`, after the activities `acts`. -/
structure Pacing (bound : Nat) (l : Loop) (now : Nat) (acts : List Activity) : Prop where
  nodeType : l.node.nodeType = .tx
  period : l.node.mpsMsgCtrl.period.toNat ≤ bound
  /-- The time stamp is at most 52 ms ahead. -/
  last : l.node.mpsMsgCtrl.last.toNat ≤ now + tim52Ms.toNat
  times : ∀ a ∈ acts, 0 < a.now.toNat ∧ a.now.toNat ≤ now
  hold : ∀ a ∈ acts, a.hold ≤ l.node.mpsMsgCtrl.last.toNat
  cycled : ∀ a ∈ acts, a.isNewCycle = true → l.node.mpsMsgCtrl.period = cyclePeriod
  spaced : acts.Pairwise Spaced

/-- A step that leaves the controller alone and sends nothing. -/
theorem Pacing.idle {bound now now' : Nat} {l l' : Loop} {acts : List Activity}
    (h : Pacing bound l now acts) (hnow : now ≤ now') (htype : l'.node.nodeType = .tx)
    (hctrl : l'.node.mpsMsgCtrl = l.node.mpsMsgCtrl) : Pacing bound l' now' acts where
  nodeType := htype
  period := by rw [hctrl]; exact h.period
  last := by rw [hctrl]; exact h.last.trans (Nat.add_le_add_right hnow _)
  times a ha := ⟨(h.times a ha).1, (h.times a ha).2.trans hnow⟩
  hold := by rw [hctrl]; exact h.hold
  cycled := by rw [hctrl]; exact h.cycled
  spaced := h.spaced

/-- A step that does something. -/
theorem Pacing.snoc {bound now : Nat} {l l' : Loop} {acts : List Activity} {a : Activity}
    (h : Pacing bound l now acts) (hnow : now ≤ a.now.toNat) (hpos : 0 < a.now.toNat)
    (htype : l'.node.nodeType = .tx) (hperiod : l'.node.mpsMsgCtrl.period.toNat ≤ bound)
    (hlast : l'.node.mpsMsgCtrl.last.toNat ≤ a.now.toNat + tim52Ms.toNat)
    (hmono : l.node.mpsMsgCtrl.last.toNat ≤ l'.node.mpsMsgCtrl.last.toNat)
    (hhold : a.hold ≤ l'.node.mpsMsgCtrl.last.toNat)
    (hcycled : a.isNewCycle = true ∨ l'.node.mpsMsgCtrl.period = l.node.mpsMsgCtrl.period)
    (hcycle : a.isNewCycle = true → l'.node.mpsMsgCtrl.period = cyclePeriod)
    (hspaced : ∀ b ∈ acts, Spaced b a) : Pacing bound l' a.now.toNat (acts ++ [a]) where
  nodeType := htype
  period := hperiod
  last := hlast
  times b hb := by
    rcases List.mem_append.mp hb with hb | hb
    · exact ⟨(h.times b hb).1, (h.times b hb).2.trans hnow⟩
    · rw [List.mem_singleton.mp hb]
      exact ⟨hpos, le_rfl⟩
  hold b hb := by
    rcases List.mem_append.mp hb with hb | hb
    · exact (h.hold b hb).trans hmono
    · rw [List.mem_singleton.mp hb]
      exact hhold
  cycled b hb hnew := by
    rcases hcycled with hnewCycle | hsame
    · exact hcycle hnewCycle
    rcases List.mem_append.mp hb with hb | hb
    · rw [hsame]
      exact h.cycled b hb hnew
    · exact hcycle (List.mem_singleton.mp hb ▸ hnew)
  spaced := by
    rw [List.pairwise_append]
    refine ⟨h.spaced, List.pairwise_singleton .., ?_⟩
    intro b hb c hc
    rw [List.mem_singleton.mp hc]
    exact hspaced b hb

theorem toNat_add_tim52Ms {t : Long} {bound : Nat}
    (h : t.toNat + (tim52Ms.toNat + bound) < 2 ^ 64) :
    (t + tim52Ms).toNat = t.toNat + tim52Ms.toNat := by
  rw [BitVec.toNat_add]
  exact Nat.mod_eq_of_lt (by omega)

theorem Pacing.step_poll {bound now : Nat} {l : Loop} {acts : List Activity}
    (h : Pacing bound l now acts) (hbound : cyclePeriod.toNat ≤ bound) (e : EcaEvent)
    (hclock : ∀ t ∈ (Label.poll e).readings, now ≤ t.toNat ∧ 0 < t.toNat ∧
      t.toNat + (tim52Ms.toNat + bound) < 2 ^ 64) :
    Pacing bound (l.step (.poll e)) now (acts ++ (l.activity (.poll e)).toList) ∨
      ∃ t ∈ (Label.poll e).readings,
        Pacing bound (l.step (.poll e)) t.toNat (acts ++ (l.activity (.poll e)).toList) := by
  have htype : (l.step (.poll e)).node.nodeType = .tx :=
    (handleEcaEvent_nodeType ..).trans h.nodeType
  have hread : ∀ {t}, t ∈ (Label.poll e).readings → now ≤ t.toNat ∧ 0 < t.toNat ∧
      t.toNat + (tim52Ms.toNat + bound) < 2 ^ 64 := fun ht => hclock _ ht
  rcases handleEcaEvent_ctrl h.nodeType l.buf e with ⟨hnew, hlast, hperiod⟩ |
    ⟨hgen, hctrl, hsends⟩ | ⟨hother, hctrl, hsent⟩
  · have hmem : e.now ∈ (Label.poll e).readings := by
      simp only [Label.readings, hnew, List.mem_singleton]
    have hact : l.activity (.poll e) = some (.newCycle e.now) := if_pos hnew
    obtain ⟨hnow, hpos, hroom⟩ := hread hmem
    have hahead := toNat_add_tim52Ms hroom
    rw [hact]
    refine Or.inr ⟨_, hmem, h.snoc (a := .newCycle e.now) hnow hpos htype ?_ ?_ ?_ ?_
      (Or.inl rfl) (fun _ => hperiod) ?_⟩
    · rw [show (l.step (.poll e)).node.mpsMsgCtrl.period = _ from hperiod]
      exact hbound
    · rw [show (l.step (.poll e)).node.mpsMsgCtrl.last = _ from hlast, hahead]
      exact le_rfl
    · rw [show (l.step (.poll e)).node.mpsMsgCtrl.last = _ from hlast, hahead]
      exact h.last.trans (Nat.add_le_add_right hnow _)
    · rw [show (l.step (.poll e)).node.mpsMsgCtrl.last = _ from hlast, hahead]
      exact le_rfl
    · intro b _
      cases b <;> trivial
  · have hnot : e.action ≠ .newCycle := by rw [hgen]; decide
    by_cases hsent : l.node.c2Sent < (l.step (.poll e)).node.c2Sent
    · have hmem : e.sendTime ∈ (Label.poll e).readings := by
        simp only [Label.readings, hgen, List.mem_singleton]
      have hact : l.activity (.poll e) = some (.pcEvent e.sendTime) :=
        (if_neg hnot).trans (if_pos hsent)
      obtain ⟨hnow, hpos, _⟩ := hread hmem
      have hlast := BitVec.lt_def.mp (hsends hsent)
      rw [hact]
      refine Or.inr ⟨_, hmem, h.snoc (a := .pcEvent e.sendTime) hnow hpos htype ?_ ?_ ?_
        (Nat.zero_le _) (Or.inr ?_) (fun hc => by cases hc) ?_⟩
      · rw [show (l.step (.poll e)).node.mpsMsgCtrl = _ from hctrl]
        exact h.period
      · rw [show (l.step (.poll e)).node.mpsMsgCtrl = _ from hctrl]
        exact h.last.trans (Nat.add_le_add_right hnow _)
      · rw [show (l.step (.poll e)).node.mpsMsgCtrl = _ from hctrl]
      · rw [show (l.step (.poll e)).node.mpsMsgCtrl = _ from hctrl]
      · intro b hb
        cases b with
        | newCycle t => exact (h.hold _ hb).trans_lt hlast
        | pcEvent t => trivial
        | pcFlag t period => trivial
    · have hact : l.activity (.poll e) = none := (if_neg hnot).trans (if_neg hsent)
      rw [hact, Option.toList_none, List.append_nil]
      exact Or.inl (h.idle le_rfl htype hctrl)
  · have hact : l.activity (.poll e) = none :=
      (if_neg hother).trans (if_neg (by rw [Loop.step, hsent]; exact Nat.lt_irrefl _))
    rw [hact, Option.toList_none, List.append_nil]
    exact Or.inl (h.idle le_rfl htype hctrl)

theorem Pacing.step_finish {bound now : Nat} {l : Loop} {acts : List Activity}
    (h : Pacing bound l now acts) (ttlExpired registrExpired : Bool) {sendTime : Long}
    (hnow : now ≤ sendTime.toNat) (hpos : 0 < sendTime.toNat)
    (hroom : sendTime.toNat + (tim52Ms.toNat + bound) < 2 ^ 64) :
    Pacing bound (l.step (.finish ttlExpired registrExpired sendTime)) sendTime.toNat
      (acts ++ (l.activity (.finish ttlExpired registrExpired sendTime)).toList) := by
  obtain ⟨htimersCtrl, htimersSent, htimersType⟩ :=
    checkTimers_ctrl l.node ttlExpired registrExpired
  have htype := htimersType.trans h.nodeType
  have htype' : (l.step (.finish ttlExpired registrExpired sendTime)).node.nodeType = .tx :=
    doNodeAction_tx htype _
  rcases doNodeAction_ctrl htype sendTime with ⟨hctrl, hsent⟩ | ⟨hctrl, hsends, hdue⟩
  · have hact : l.activity (.finish ttlExpired registrExpired sendTime) = none :=
      if_neg (by rw [Loop.step, hsent, htimersSent]; exact Nat.lt_irrefl _)
    rw [hact, Option.toList_none, List.append_nil]
    exact h.idle hnow htype' (hctrl.trans htimersCtrl)
  · rw [htimersSent] at hsends
    rw [htimersCtrl] at hctrl hdue
    have hact : l.activity (.finish ttlExpired registrExpired sendTime) =
        some (.pcFlag sendTime l.node.mpsMsgCtrl.period) := if_pos hsends
    have hctrl' : (l.step (.finish ttlExpired registrExpired sendTime)).node.mpsMsgCtrl =
        { l.node.mpsMsgCtrl with last := sendTime } := hctrl
    -- either nothing is reserved yet, or the period after the time stamp is over
    have hdue' : l.node.mpsMsgCtrl.last.toNat = 0 ∨
        l.node.mpsMsgCtrl.last.toNat + l.node.mpsMsgCtrl.period.toNat ≤ sendTime.toNat := by
      rcases hdue with hzero | hle
      · exact Or.inl (by rw [hzero]; rfl)
      · right
        have hlast := h.last
        have hperiod := h.period
        rw [BitVec.le_def, BitVec.toNat_add, Nat.mod_eq_of_lt (by omega)] at hle
        exact hle
    rw [hact]
    refine h.snoc (a := .pcFlag sendTime l.node.mpsMsgCtrl.period) hnow hpos htype' ?_ ?_ ?_ ?_
      (Or.inr ?_) (fun hc => by cases hc) ?_
    · rw [hctrl']
      exact h.period
    · rw [hctrl']
      exact Nat.le_add_right ..
    · rw [hctrl']
      dsimp only
      omega
    · rw [hctrl']
      exact le_rfl
    · rw [hctrl']
    · intro b hb
      have hhold := h.hold b hb
      cases b with
      | newCycle t =>
          have hperiod : l.node.mpsMsgCtrl.period.toNat = 33333000 := by
            rw [h.cycled _ hb rfl]
            rfl
          have htim : tim52Ms.toNat = 52000000 := rfl
          simp only [Activity.hold] at hhold
          simp only [Spaced]
          omega
      | pcEvent t => trivial
      | pcFlag t period =>
          have htpos := (h.times _ hb).1
          simp only [Activity.hold, Activity.now] at hhold htpos
          simp only [Spaced]
          omega

theorem Pacing.step {bound now : Nat} {l : Loop} {acts : List Activity}
    (h : Pacing bound l now acts) (hbound : cyclePeriod.toNat ≤ bound) (lab : Label)
    (hclock : ∀ t ∈ lab.readings, now ≤ t.toNat ∧ 0 < t.toNat ∧
      t.toNat + (tim52Ms.toNat + bound) < 2 ^ 64) :
    Pacing bound (l.step lab) now (acts ++ (l.activity lab).toList) ∨
      ∃ t ∈ lab.readings,
        Pacing bound (l.step lab) t.toNat (acts ++ (l.activity lab).toList) := by
  cases lab with
  | enter =>
      left
      rw [Loop.activity, Option.toList_none, List.append_nil]
      exact h.idle le_rfl h.nodeType rfl
  | poll e => exact h.step_poll hbound e hclock
  | finish ttlExpired registrExpired sendTime =>
      obtain ⟨hnow, hpos, hroom⟩ := hclock sendTime (List.mem_singleton_self _)
      exact Or.inr ⟨sendTime, List.mem_singleton_self _,
        h.step_finish ttlExpired registrExpired hnow hpos hroom⟩

theorem Pacing.run {bound : Nat} (hbound : cyclePeriod.toNat ≤ bound) (tr : List Label) :
    ∀ {l : Loop} {now : Nat} {acts : List Activity}, Pacing bound l now acts →
      (∀ t ∈ tr.flatMap Label.readings, now ≤ t.toNat) →
      Clock (tim52Ms.toNat + bound) (tr.flatMap Label.readings) →
      (acts ++ l.activities tr).Pairwise Spaced := by
  induction tr with
  | nil =>
      intro l now acts h _ _
      rw [Loop.activities, List.append_nil]
      exact h.spaced
  | cons lab tr ih =>
      intro l now acts h hnow hclock
      rw [List.flatMap_cons] at hnow hclock
      obtain ⟨_, hsorted, hlater⟩ := List.pairwise_append.mp hclock.sorted
      have hrest : Clock (tim52Ms.toNat + bound) (tr.flatMap Label.readings) :=
        ⟨hsorted, fun t ht => hclock.inside t (List.mem_append_right _ ht)⟩
      have hstep := h.step hbound lab fun t ht =>
        ⟨hnow t (List.mem_append_left _ ht), hclock.inside t (List.mem_append_left _ ht)⟩
      rw [Loop.activities, ← List.append_assoc]
      rcases hstep with hidle | ⟨t, ht, hread⟩
      · exact ih hidle (fun t' ht' => hnow t' (List.mem_append_right _ ht')) hrest
      · exact ih hread (fun t' ht' => BitVec.le_def.mp (hlater t ht t' ht')) hrest

/-- **The pacing of a TX node**: in every phase of operation, for every order of events and
calls of the senders, no message follows a new cycle within 52 ms, and periodic messages are
a period apart, provided the clock does not go back, is never 0, and ends far enough away:
52 ms and the longest period can be added to every reading. -/
theorem phase_paced {s : Node} (htx : s.nodeType = .tx) (entered : Long) (buf : Option Nat)
    (tr : List Label)
    (hclock : Clock (tim52Ms.toNat + max s.mpsMsgCtrl.period.toNat cyclePeriod.toNat)
      (tr.flatMap Label.readings)) :
    ((⟨entryActionOperation s entered, buf⟩ : Loop).activities tr).Pairwise Spaced := by
  have hctrl : (entryActionOperation s entered).nodeType = .tx ∧
      (entryActionOperation s entered).mpsMsgCtrl.last = 0 ∧
      (entryActionOperation s entered).mpsMsgCtrl.period = s.mpsMsgCtrl.period := by
    simp only [entryActionOperation]
    split
    · exact ⟨(setEndpDstAddr_nodeType _ _).trans htx, trivial,
        congrArg MsgCtrl.period (setEndpDstAddr_ctrl s broadcastMac).1⟩
    · exact ⟨htx, trivial, rfl⟩
  have hstart : Pacing (max s.mpsMsgCtrl.period.toNat cyclePeriod.toNat)
      ⟨entryActionOperation s entered, buf⟩ 0 [] := by
    refine ⟨hctrl.1, ?_, ?_, ?_, ?_, ?_, List.Pairwise.nil⟩
    · rw [hctrl.2.2]
      exact le_max_left ..
    · rw [hctrl.2.1]
      exact Nat.zero_le _
    all_goals
      intro a ha
      cases ha
  have hpaced := hstart.run (le_max_right ..) tr (fun t _ => Nat.zero_le _) hclock
  exact hpaced

def pacedTx : Node := { sampleRx with nodeType := .tx }

def sampleGenEvt (sendTime : Long) : EcaEvent :=
  { tag := 0x42, deadline := 0, evtId := 1, param := 0, now := 0, sendTime }

def newCycleAt (now : Long) : EcaEvent := { sampleNewCycle with now }

def samplePhase : List Label :=
  [.poll (newCycleAt 1000000000), .poll (sampleGenEvt 1060000000), .finish false false 1070000000]

theorem samplePhase_clock :
    Clock (tim52Ms.toNat + max pacedTx.mpsMsgCtrl.period.toNat cyclePeriod.toNat)
      (samplePhase.flatMap Label.readings) := by
  have hreadings : samplePhase.flatMap Label.readings = [1000000000, 1060000000, 1070000000] := by
    decide
  have hmargin : tim52Ms.toNat + max pacedTx.mpsMsgCtrl.period.toNat cyclePeriod.toNat =
      85333000 := rfl
  rw [hreadings, hmargin]
  refine ⟨by decide, fun t ht => ?_⟩
  simp only [List.mem_cons, List.not_mem_nil, or_false] at ht
  rcases ht with rfl | rfl | rfl <;> decide

theorem phase_paced_sample :
    ((⟨entryActionOperation pacedTx 0, none⟩ : Loop).activities samplePhase).Pairwise Spaced :=
  phase_paced (s := pacedTx) rfl 0 none samplePhase samplePhase_clock

/-- **A new cycle 52 ms before the end of the clock**: the time stamp wraps to 0, which means
to send at once, and a PC event goes out 1 ns later. -/
theorem cycle_wraps : ∃ (s : Node) (tr : List Label), s.nodeType = .tx ∧
    (tr.flatMap Label.readings).Pairwise (· ≤ ·) ∧
    (⟨entryActionOperation s 0, none⟩ : Loop).activities tr =
      [.newCycle 0xfffffffffce68b00, .pcEvent 0xfffffffffce68b01] ∧
    ¬ ((⟨entryActionOperation s 0, none⟩ : Loop).activities tr).Pairwise Spaced := by
  have hactivities : (⟨entryActionOperation pacedTx 0, none⟩ : Loop).activities
      [.poll (newCycleAt 0xfffffffffce68b00), .poll (sampleGenEvt 0xfffffffffce68b01)] =
        [.newCycle 0xfffffffffce68b00, .pcEvent 0xfffffffffce68b01] := by
    decide +kernel
  refine ⟨pacedTx, _, rfl, by decide, hactivities, ?_⟩
  rw [hactivities, List.pairwise_pair]
  exact Nat.not_lt.mpr (by decide)

end Fbas
