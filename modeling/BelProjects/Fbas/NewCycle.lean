import BelProjects.Fbas.Node

/-!
# The new cycle

`FBAS_AUX_NEWCYCLE` resets the message buffer through the pointer `head`, a local variable
of `doActionOperation` that starts as the buffer and that the event handler clears after
every poll but that of a PC event.  So the reset reaches the buffer only for some orders of
the events of one call; otherwise it goes through the null pointer.
-/

namespace Fbas

/-- What a new cycle is for: all entries are OK, and nothing is written outside the buffer
and the messaging controller. -/
structure NewCycleDone (s s' : Node) : Prop where
  entries : ∀ i, i < nMaxTxNodes →
    (s'.bufMpsMsg i).prot.flag = mpsFlagOk ∧ (s'.bufMpsMsg i).ttl = 0 ∧ (s'.bufMpsMsg i).tsRx = 0
  frame : s' = { s with bufMpsMsg := s'.bufMpsMsg, mpsMsgCtrl := s'.mpsMsgCtrl }

/-- The events handled so far in a call leave the pointer to the buffer valid. On a TX node
a PC event sets it again. -/
def HeadValid : NodeType → List EcaEvent → Prop
  | .tx, es => ∀ e, es.getLast? = some e → e.action = .genEvt
  | _, es => ∀ e ∈ es, e.action = .genEvt

theorem ebmWriteTMs_nodeType (deadline evtId param : Long) (n : Nat) : ∀ s : Node,
    (s.ebmWriteTMs deadline evtId param n).nodeType = s.nodeType := by
  induction n with
  | zero => intro s; rfl
  | succ n ih => intro s; exact ih _

theorem setEndpDstAddr_nodeType (s : Node) (mac : Long) :
    (s.setEndpDstAddr mac).nodeType = s.nodeType := by
  rw [Node.setEndpDstAddr]
  split <;> rfl

theorem msgSendPcEvent_nodeType (s : Node) (now : Long) (idx : Nat) (evtId : Long) :
    (s.msgSendPcEvent now idx evtId).nodeType = s.nodeType := by
  simp only [Node.msgSendPcEvent]
  split
  · rfl
  · split
    · exact ebmWriteTMs_nodeType _ _ _ _ _
    · rfl

theorem handleEcaEvent_nodeType (s : Node) (head : Option Nat) (e : EcaEvent) :
    (handleEcaEvent s head e).2.nodeType = s.nodeType := by
  simp only [handleEcaEvent]
  split
  · simp only [Node.handleNewCycle]
    split
    · cases head <;> rfl
    · rw [clearError_eq]
      cases head <;> rfl
    · rfl
  · rfl
  · simp only [Node.handleGenEvt]
    split
    · split
      · rw [msgSendPcEvent_nodeType, setEndpDstAddr_nodeType]
      · rfl
    · rfl
  · simp only [Node.handleMpsMsg]
    split <;> rfl
  · simp only [Node.handleMpsMsg]
    split <;> rfl
  · simp only [Node.handleNodeReg]
    repeat' split
    all_goals rfl
  all_goals rfl

theorem handleEcaEvent_head (s : Node) (head : Option Nat) (e : EcaEvent) :
    (handleEcaEvent s head e).1 =
      if e.action = .genEvt then if s.nodeType = .tx then some pcEventIdx else head else none := by
  simp only [handleEcaEvent]
  split <;> rename_i haction <;> rw [haction] <;> try rfl
  simp only [Node.handleGenEvt, if_true]
  cases s.nodeType with
  | tx =>
      dsimp only
      split <;> rfl
  | rx => rfl
  | cm => rfl

theorem handleEcaEvents_append (es es' : List EcaEvent) : ∀ (s : Node) (head : Option Nat),
    handleEcaEvents s head (es ++ es') =
      handleEcaEvents (handleEcaEvents s head es).2 (handleEcaEvents s head es).1 es' := by
  induction es with
  | nil => intro s head; rfl
  | cons e es ih => intro s head; exact ih _ _

theorem handleEcaEvents_nodeType (es : List EcaEvent) : ∀ (s : Node) (head : Option Nat),
    (handleEcaEvents s head es).2.nodeType = s.nodeType := by
  induction es with
  | nil => intro s head; rfl
  | cons e es ih =>
      intro s head
      exact (ih _ _).trans (handleEcaEvent_nodeType s head e)

/-- The pointer is either the buffer or null, and `HeadValid` says when it is the buffer. -/
theorem handleEcaEvents_head (s : Node) (es : List EcaEvent) :
    ((handleEcaEvents s (some 0) es).1 = some 0 ∧ HeadValid s.nodeType es) ∨
      ((handleEcaEvents s (some 0) es).1 = none ∧ ¬ HeadValid s.nodeType es) := by
  induction es using List.reverseRecOn with
  | nil =>
      left
      refine ⟨rfl, ?_⟩
      cases s.nodeType <;> intro e he <;> exact absurd he (by simp)
  | append_singleton es e ih =>
      have hhead : (handleEcaEvents s (some 0) (es ++ [e])).1 =
          if e.action = .genEvt then
            if s.nodeType = .tx then some pcEventIdx else (handleEcaEvents s (some 0) es).1
          else none := by
        rw [handleEcaEvents_append]
        have hlast := handleEcaEvent_head (handleEcaEvents s (some 0) es).2
          (handleEcaEvents s (some 0) es).1 e
        rw [handleEcaEvents_nodeType] at hlast
        exact hlast
      rw [hhead]
      have htx : HeadValid .tx (es ++ [e]) ↔ e.action = .genEvt := by
        simp only [HeadValid, List.getLast?_append, List.getLast?_singleton, Option.some_or]
        exact ⟨fun h => h e rfl, fun h e' he' => by rw [← Option.some.inj he']; exact h⟩
      by_cases hgen : e.action = .genEvt
      · rw [if_pos hgen]
        cases htype : s.nodeType with
        | tx => exact Or.inl ⟨rfl, htx.mpr hgen⟩
        | rx | cm =>
            rw [htype] at ih
            simp only [reduceCtorEq, if_false]
            rcases ih with ⟨hsome, hvalid⟩ | ⟨hnone, hvalid⟩
            · refine Or.inl ⟨hsome, ?_⟩
              intro e' he'
              rcases List.mem_append.mp he' with hes | he
              · exact hvalid e' hes
              · rw [List.mem_singleton.mp he]
                exact hgen
            · exact Or.inr ⟨hnone, fun h => hvalid fun e' he' => h e' (List.mem_append_left _ he')⟩
      · rw [if_neg hgen]
        refine Or.inr ⟨rfl, ?_⟩
        cases s.nodeType with
        | tx => exact fun h => hgen (htx.mp h)
        | rx | cm => exact fun h => hgen (h e (List.mem_append_right _ (List.mem_singleton_self e)))

/-- The reset through a valid pointer. -/
theorem handleNewCycle_done {s : Node} (hnode : s.nodeType = .tx ∨ s.nodeType = .rx) (e : EcaEvent) :
    NewCycleDone s (s.handleNewCycle (some 0) e) := by
  have hforce : ∀ i, i < nMaxTxNodes →
      msgForceHigh s.bufMpsMsg 0 nMaxTxNodes i = forceHigh (s.bufMpsMsg i) := by
    intro i hi
    rw [msgForceHigh_apply, if_pos ⟨Nat.zero_le i, by rwa [Nat.zero_add]⟩]
  rcases hnode with htype | htype
  · simp only [Node.handleNewCycle, htype, Node.forceHigh]
    refine ⟨?_, by rw [← htype]⟩
    intro i hi
    dsimp only
    rw [hforce i hi]
    exact ⟨rfl, rfl, rfl⟩
  · simp only [Node.handleNewCycle, htype, clearError_eq, Node.forceHigh]
    refine ⟨?_, by rw [← htype]⟩
    intro i hi
    dsimp only
    rw [hforce i hi]
    exact ⟨rfl, rfl, rfl⟩

/-- The reset through the null pointer writes at address 0. -/
theorem handleNewCycle_null {s : Node} (hnode : s.nodeType = .tx ∨ s.nodeType = .rx) (e : EcaEvent) :
    (s.handleNewCycle none e).nullStores = List.range nMaxTxNodes ++ s.nullStores := by
  rcases hnode with htype | htype
  · simp only [Node.handleNewCycle, htype, Node.forceHigh]
  · simp only [Node.handleNewCycle, htype, clearError_eq, Node.forceHigh]

/-- **When a new cycle takes effect**: for every state at the begin of a call and every
sequence of events before it in the call, a new cycle resets all entries and writes nothing
else if and only if the pointer to the buffer is still valid: on an RX node all events
before it were PC events, on a TX node the last one was, or there was none. -/
theorem newCycle_done_iff {s : Node} (hnode : s.nodeType = .tx ∨ s.nodeType = .rx)
    (es : List EcaEvent) {e : EcaEvent} (he : e.action = .newCycle) :
    NewCycleDone (handleEcaEvents s (some 0) es).2 (handleEcaEvents s (some 0) (es ++ [e])).2 ↔
      HeadValid s.nodeType es := by
  have hstep : (handleEcaEvents s (some 0) (es ++ [e])).2 =
      (handleEcaEvents s (some 0) es).2.handleNewCycle (handleEcaEvents s (some 0) es).1 e := by
    rw [handleEcaEvents_append]
    simp only [handleEcaEvents, handleEcaEvent, he]
  have htype : (handleEcaEvents s (some 0) es).2.nodeType = .tx ∨
      (handleEcaEvents s (some 0) es).2.nodeType = .rx := by
    rw [handleEcaEvents_nodeType]
    exact hnode
  rw [hstep]
  rcases handleEcaEvents_head s es with ⟨hsome, hvalid⟩ | ⟨hnone, hvalid⟩
  · rw [hsome]
    exact ⟨fun _ => hvalid, fun _ => handleNewCycle_done htype e⟩
  · rw [hnone]
    refine ⟨fun hdone => ?_, fun h => absurd h hvalid⟩
    have hstores := congrArg (fun n : Node => n.nullStores.length) hdone.frame
    simp only [handleNewCycle_null htype, List.length_append, List.length_range] at hstores
    have hq : nMaxTxNodes = 16 := rfl
    omega

def sampleNewCycle : EcaEvent :=
  { tag := 0x26, deadline := 0, evtId := 0, param := 0, now := 0, sendTime := 0 }

/-- A new cycle at the begin of a call takes effect. -/
theorem newCycle_done_first :
    NewCycleDone (handleEcaEvents sampleRx (some 0) []).2
        (handleEcaEvents sampleRx (some 0) ([] ++ [sampleNewCycle])).2 ↔
      HeadValid sampleRx.nodeType [] :=
  newCycle_done_iff (Or.inr rfl) [] rfl

/-- **A new cycle after another event of the same call is lost**: the sender's NOK stays,
and 16 entries at address 0 are overwritten. -/
theorem newCycle_lost : ∃ (s : Node) (e e' : EcaEvent), s.nodeType = .rx ∧ e'.action = .newCycle ∧
    ((handleEcaEvents s (some 0) [e, e']).2.bufMpsMsg 0).prot.flag = mpsFlagNok ∧
    (handleEcaEvents s (some 0) [e]).2.nullStores = [] ∧
    (handleEcaEvents s (some 0) [e, e']).2.nullStores = List.range nMaxTxNodes :=
  ⟨sampleRx, sampleMsg mpsFlagNok 5, sampleNewCycle, rfl, rfl, rfl, rfl, rfl⟩

end Fbas
