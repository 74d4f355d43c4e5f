import BelProjects.Fbas.MessageOrder

/-!
# The sender tables of an RX node

An RX node keeps the MAC addresses of its senders twice.  The sender list answers the
registration requests of TX nodes, and the message buffer decides which messages are
accepted.  A host command enters a sender in both; a transition to 'configured' enters the
node's own address in the whole message buffer and leaves the sender list alone.
-/

namespace Fbas

/-! ### Table updates -/

/-- A loop over the first `n` entries of a table, in which entry `i` is replaced by `f i`
of it. -/
def forEntries {α : Type*} (f : Nat → α → α) (table : Nat → α) : Nat → Nat → α
  | 0 => table
  | n + 1 => Function.update (forEntries f table n) n (f n (forEntries f table n n))

theorem forEntries_apply {α : Type*} (f : Nat → α → α) (table : Nat → α) (n i : Nat) :
    forEntries f table n i = if i < n then f i (table i) else table i := by
  induction n with
  | zero => rfl
  | succ n ih =>
      rw [forEntries]
      by_cases hi : i = n
      · subst hi
        rw [Function.update_self, ih, if_neg (Nat.lt_irrefl i), if_pos (Nat.lt_succ_self i)]
      · rw [Function.update_of_ne hi, ih]
        refine if_congr ?_ rfl rfl
        omega

/-- What `msgResetMpsBuf` does to entry `chId`. -/
def MpsMsg.reset (chId : Nat) (id : BitVec 48) (flag : BitVec 4) (msg : MpsMsg) : MpsMsg :=
  { msg with
    prot := { msg.prot with addr := id, chId := BitVec.ofNat 4 chId, flag }
    ttl := 0
    tsRx := 0 }

def msgResetMpsBuf (buf : MsgBuf) (chId : Nat) (id : BitVec 48) (flag : BitVec 4) : MsgBuf :=
  Function.update buf chId ((buf chId).reset chId id flag)

/-- The MAC address in the lower six bytes. -/
def macOf (id : Long) : BitVec 48 := id.setWidth 48

def msgInitMpsMsgBuf (buf : MsgBuf) (id : Long) : MsgBuf :=
  forEntries (fun i => MpsMsg.reset i (macOf id) mpsFlagTest) buf nMaxTxNodes

def msgSetBic (buf : MsgBuf) (id : BitVec 8) : MsgBuf :=
  forEntries (fun _ msg => { msg with prot := { msg.prot with bicId := id } }) buf nMaxTxNodes

def nodeIdx (id : Long) : Nat := (id >>> 56).toNat

/-- Enter a sender in both tables, in place of all earlier entries with its address. -/
def msgUpdateMpsBuf (senders : Nat → BitVec 48) (buf : MsgBuf) (id : Long) :
    (Nat → BitVec 48) × MsgBuf :=
  let senders := forEntries (fun _ addr => if addr = macOf id then 0 else addr) senders nMaxTxNodes
  let buf := forEntries
    (fun i msg => if msg.prot.addr = macOf id then msg.reset i 0 mpsFlagTest else msg) buf nMaxTxNodes
  (Function.update senders (nodeIdx id) (macOf id),
    msgResetMpsBuf buf (nodeIdx id) (macOf id) mpsFlagOk)

/-! ### Transitions and commands -/

/-- `readNodeId`, without the set-up of the output port. -/
def Node.readNodeId (s : Node) (id : Long) : Node :=
  if nodeIdx id < nMaxTxNodes then
    { s with
      senders := (msgUpdateMpsBuf s.senders s.bufMpsMsg id).1
      bufMpsMsg := (msgUpdateMpsBuf s.senders s.bufMpsMsg id).2 }
  else s

def Node.cmdGetSenderId (s : Node) (id : Long) : Node :=
  let s := s.readNodeId id
  { s with bufMpsMsg := msgSetBic s.bufMpsMsg s.myBic }

def convertMacToU64 (hi lo : Word) : Long := ((hi &&& 0x0000ffff).setWidth 64 <<< 32) + lo.setWidth 64

def Node.initMpsData (s : Node) (macHi macLo : Word) : Node :=
  let myMac := convertMacToU64 macHi macLo
  { s with
    mpsTask := 0
    myMac
    bufMpsMsg := msgInitPcEventBuf (msgInitMpsMsgBuf s.bufMpsMsg myMac) myMac 0 0
    mpsMsgCtrl := msgInitMsgCtrl s.mpsMsgCtrl (BitVec.ofNat 8 nMpsChannels) 0 33333 }

/-- `extern_entryActionConfigured`; the endpoint has the address `macHi`, `macLo`. -/
def Node.entryActionConfigured (s : Node) (macHi macLo : Word) : Node :=
  (s.setEndpDstAddr broadcastMac).initMpsData macHi macLo

def Node.exitActionOperation (s : Node) : Node :=
  { s with
    mpsTask := s.mpsTask &&& ~~~tskTxMpsFlags &&& ~~~tskTxMpsEvents &&& ~~~tskMonitMpsTtl &&&
      ~~~tskRegComplete }

/-- What happens to a node, in any order. -/
inductive Event where
  | configure (macHi macLo : Word)
  | senderId (id : Long)
  | enterOperation (now : Long)
  | operation (lab : Label)
  | exitOperation
  deriving DecidableEq, Repr

def Loop.event (l : Loop) : Event → Loop
  | .configure macHi macLo => { l with node := l.node.entryActionConfigured macHi macLo }
  | .senderId id => { l with node := l.node.cmdGetSenderId id }
  | .enterOperation now => { l with node := entryActionOperation l.node now }
  | .operation lab => l.step lab
  | .exitOperation => { l with node := l.node.exitActionOperation }

def Loop.events (l : Loop) (es : List Event) : Loop := es.foldl Loop.event l

theorem Loop.events_snoc (l : Loop) (es : List Event) (e : Event) :
    l.events (es ++ [e]) = (l.events es).event e := by
  rw [Loop.events, List.foldl_append]
  rfl

/-- An RX node after power-up, without any sender. -/
structure Boot (l : Loop) : Prop where
  nodeType : l.node.nodeType = .rx
  senders : ∀ i, l.node.senders i = 0
  addr : ∀ i, (l.node.bufMpsMsg i).prot.addr = 0

/-- The sender-ID command enters the address. -/
def Event.Registers (mac : BitVec 48) : Event → Prop
  | .senderId id => nodeIdx id < nMaxTxNodes ∧ macOf id = mac
  | _ => False

def Event.Configures : Event → Prop
  | .configure _ _ => True
  | _ => False

/-- The address has been entered since the last transition to 'configured'. -/
def Registered (mac : BitVec 48) (es : List Event) : Prop :=
  ∃ pre e post, es = pre ++ e :: post ∧ e.Registers mac ∧ ∀ e' ∈ post, ¬ e'.Configures

theorem registered_snoc (mac : BitVec 48) (es : List Event) (e : Event) :
    Registered mac (es ++ [e]) ↔ e.Registers mac ∨ (¬ e.Configures ∧ Registered mac es) := by
  constructor
  · rintro ⟨pre, e₀, post, heq, hreg, hpost⟩
    induction post using List.reverseRecOn with
    | nil =>
        obtain ⟨-, he⟩ := List.append_inj' heq rfl
        rw [(List.cons.inj he).1]
        exact Or.inl hreg
    | append_singleton post e' _ =>
        rw [← List.cons_append, ← List.append_assoc] at heq
        obtain ⟨hes, he⟩ := List.append_inj' heq rfl
        have hlast : e = e' := (List.cons.inj he).1
        refine Or.inr ⟨hlast ▸ hpost e' (by simp), pre, e₀, post, hes, hreg, fun e'' he'' => ?_⟩
        exact hpost e'' (List.mem_append_left _ he'')
  · rintro (hreg | ⟨hconf, pre, e₀, post, rfl, hreg, hpost⟩)
    · exact ⟨es, e, [], rfl, hreg, fun e' he' => absurd he' List.not_mem_nil⟩
    · refine ⟨pre, e₀, post ++ [e], by simp, hreg, fun e' he' => ?_⟩
      rcases List.mem_append.mp he' with h | h
      · exact hpost e' h
      · exact List.mem_singleton.mp h ▸ hconf

/-! ### What happens to the entries -/

/-- The sender list after a command for channel `c`. -/
theorem senders_update (senders : Nat → BitVec 48) (buf : MsgBuf) (id : Long) {i : Nat}
    (hi : i < nMaxTxNodes) :
    (msgUpdateMpsBuf senders buf id).1 i =
      if i = nodeIdx id then macOf id
      else if senders i = macOf id then 0 else senders i := by
  rw [msgUpdateMpsBuf]
  dsimp only
  rw [Function.update_apply, forEntries_apply, if_pos hi]

/-- The senders in the message buffer after a command. -/
theorem buf_update (senders : Nat → BitVec 48) (buf : MsgBuf) (id : Long) {i : Nat}
    (hi : i < nMaxTxNodes) :
    ((msgUpdateMpsBuf senders buf id).2 i).sender =
      if i = nodeIdx id then (macOf id, (buf i).prot.bicId, BitVec.ofNat 4 i)
      else if (buf i).prot.addr = macOf id then (0, (buf i).prot.bicId, BitVec.ofNat 4 i)
      else (buf i).sender := by
  have hcleared : ∀ j, (forEntries
      (fun i msg => if msg.prot.addr = macOf id then msg.reset i 0 mpsFlagTest else msg) buf
      nMaxTxNodes j).prot.bicId = (buf j).prot.bicId := by
    intro j
    rw [forEntries_apply]
    split
    · split
      · rfl
      · rfl
    · rfl
  rw [msgUpdateMpsBuf]
  dsimp only
  rw [msgResetMpsBuf, Function.update_apply]
  by_cases heq : i = nodeIdx id
  · rw [if_pos heq, if_pos heq, ← heq, ← hcleared i]
    rfl
  · rw [if_neg heq, if_neg heq, forEntries_apply, if_pos hi]
    split
    · rfl
    · rfl

theorem msgSetBic_sender (buf : MsgBuf) (id : BitVec 8) {i : Nat} (hi : i < nMaxTxNodes) :
    (msgSetBic buf id i).sender = ((buf i).prot.addr, id, (buf i).prot.chId) := by
  rw [msgSetBic, forEntries_apply, if_pos hi]
  rfl

theorem initMpsData_addr (s : Node) (macHi macLo : Word) {i : Nat} (hi : i < nMaxTxNodes) :
    ((s.initMpsData macHi macLo).bufMpsMsg i).prot.addr = macOf (s.initMpsData macHi macLo).myMac := by
  have hinit : (msgInitMpsMsgBuf s.bufMpsMsg (convertMacToU64 macHi macLo) i).prot.addr =
      macOf (convertMacToU64 macHi macLo) := by
    rw [msgInitMpsMsgBuf, forEntries_apply, if_pos hi]
    rfl
  rw [Node.initMpsData]
  dsimp only
  rw [msgInitPcEventBuf, Function.update_apply]
  split
  · rfl
  · exact hinit

/-- **Operation** changes neither the senders nor what the node knows about itself. -/
theorem Loop.step_identity {l : Loop} (hrx : l.node.nodeType = .rx) (lab : Label) :
    (l.step lab).node.senders = l.node.senders ∧ (l.step lab).node.myBic = l.node.myBic ∧
      (l.step lab).node.myMac = l.node.myMac ∧
      ∀ i, ((l.step lab).node.bufMpsMsg i).sender = (l.node.bufMpsMsg i).sender := by
  cases lab with
  | enter => exact ⟨rfl, rfl, rfl, fun _ => rfl⟩
  | poll e =>
      simp only [Loop.step]
      rcases poll_rx hrx l.buf e with ⟨-, heq⟩ | ⟨-, heq⟩ | ⟨mode, mac, sent, -, -, heq⟩ <;> rw [heq]
      · cases l.buf with
        | none => exact ⟨rfl, rfl, rfl, fun _ => rfl⟩
        | some base =>
            refine ⟨rfl, rfl, rfl, fun i => ?_⟩
            simp only [Node.forceHigh, msgForceHigh_apply]
            split
            · rfl
            · rfl
      · refine ⟨rfl, rfl, rfl, fun i => ?_⟩
        by_cases hacc : Accepts l.node.bufMpsMsg e.param e.deadline i
        · simp only [msgStoreMpsMsg_accepts _ hacc, Function.update_self]
          rfl
        · simp only [msgStoreMpsMsg_other _ hacc]
      · exact ⟨rfl, rfl, rfl, fun _ => rfl⟩
  | finish t r now =>
      have hbuf : (l.node.checkTimers t r).bufMpsMsg = l.node.bufMpsMsg := by rw [checkTimers_eq]
      rw [step_finish hrx]
      split
      · obtain ⟨init, writes, heq⟩ := evalMps_eq (l.node.checkTimers t r)
        have hother : (l.node.checkTimers t r).evalMps.senders = l.node.senders ∧
            (l.node.checkTimers t r).evalMps.myBic = l.node.myBic ∧
            (l.node.checkTimers t r).evalMps.myMac = l.node.myMac := by
          rw [heq, checkTimers_eq]
          exact ⟨rfl, rfl, rfl⟩
        refine ⟨hother.1, hother.2.1, hother.2.2, fun i => ?_⟩
        have hnext : (l.node.checkTimers t r).evalMps.bufMpsMsg =
            evalMpsMsgs l.node.bufMpsMsg nMaxMpsChannels := by rw [heq, ← hbuf]
        rw [hnext, evalMpsMsgs_apply]
        split
        · simp only [evalMpsMsgTtl]
          split
          · split
            · rfl
            · rfl
          · rfl
        · rfl
      · rw [checkTimers_eq]
        exact ⟨rfl, rfl, rfl, fun _ => rfl⟩

/-! ### The tables agree -/

/-- No address is entered twice, but the node's own one in the message buffer. -/
structure Tables (s : Node) : Prop where
  nodeType : s.nodeType = .rx
  senders : ∀ i j, i < nMaxTxNodes → j < nMaxTxNodes → s.senders i = s.senders j →
    s.senders i ≠ 0 → i = j
  addr : ∀ i j, i < nMaxTxNodes → j < nMaxTxNodes →
    (s.bufMpsMsg i).prot.addr = (s.bufMpsMsg j).prot.addr → (s.bufMpsMsg i).prot.addr ≠ 0 →
    (s.bufMpsMsg i).prot.addr ≠ macOf s.myMac → i = j

/-- Where the sender list has `mac`, the message buffer expects its messages. -/
def Matching (s : Node) (mac : BitVec 48) : Prop :=
  ∀ i, i < nMaxTxNodes → s.senders i = mac →
    (s.bufMpsMsg i).sender = (mac, s.myBic, BitVec.ofNat 4 i)

theorem Tables.congr {s s' : Node} (h : Tables s) (htype : s'.nodeType = s.nodeType)
    (hsenders : s'.senders = s.senders) (hmac : s'.myMac = s.myMac)
    (haddr : ∀ i, i < nMaxTxNodes → (s'.bufMpsMsg i).prot.addr = (s.bufMpsMsg i).prot.addr) :
    Tables s' := by
  refine ⟨htype.trans h.nodeType, ?_, ?_⟩
  · rw [hsenders]
    exact h.senders
  · intro i j hi hj
    rw [haddr i hi, haddr j hj, hmac]
    exact h.addr i j hi hj

theorem Matching.congr {s s' : Node} {mac : BitVec 48} (h : Matching s mac)
    (hsenders : s'.senders = s.senders) (hbic : s'.myBic = s.myBic)
    (hbuf : ∀ i, (s'.bufMpsMsg i).sender = (s.bufMpsMsg i).sender) : Matching s' mac := by
  intro i hi hmac
  rw [hbuf, hbic]
  exact h i hi (hsenders ▸ hmac)

/-- **The sender-ID command** with a valid index. -/
theorem cmdGetSenderId_entry (s : Node) {id : Long} (hid : nodeIdx id < nMaxTxNodes) {i : Nat}
    (hi : i < nMaxTxNodes) :
    (s.cmdGetSenderId id).senders i =
        (if i = nodeIdx id then macOf id else if s.senders i = macOf id then 0 else s.senders i) ∧
      ((s.cmdGetSenderId id).bufMpsMsg i).prot.addr =
        (if i = nodeIdx id then macOf id
          else if (s.bufMpsMsg i).prot.addr = macOf id then 0 else (s.bufMpsMsg i).prot.addr) ∧
      (i = nodeIdx id ∨ (s.bufMpsMsg i).prot.addr ≠ macOf id →
        ((s.cmdGetSenderId id).bufMpsMsg i).sender =
          if i = nodeIdx id then (macOf id, s.myBic, BitVec.ofNat 4 i)
          else ((s.bufMpsMsg i).prot.addr, s.myBic, (s.bufMpsMsg i).prot.chId)) := by
  have hupdate := buf_update s.senders s.bufMpsMsg id hi
  have hread : s.readNodeId id = { s with
      senders := (msgUpdateMpsBuf s.senders s.bufMpsMsg id).1
      bufMpsMsg := (msgUpdateMpsBuf s.senders s.bufMpsMsg id).2 } := if_pos hid
  have hsender : ((s.cmdGetSenderId id).bufMpsMsg i).sender =
      (((msgUpdateMpsBuf s.senders s.bufMpsMsg id).2 i).sender.1, s.myBic,
        ((msgUpdateMpsBuf s.senders s.bufMpsMsg id).2 i).sender.2.2) := by
    rw [Node.cmdGetSenderId, hread]
    exact msgSetBic_sender _ _ hi
  have hlist : (s.cmdGetSenderId id).senders = (msgUpdateMpsBuf s.senders s.bufMpsMsg id).1 := by
    rw [Node.cmdGetSenderId, hread]
  rw [hupdate] at hsender
  refine ⟨?_, ?_, ?_⟩
  · rw [hlist]
    exact senders_update _ _ _ hi
  · refine (congrArg Prod.fst hsender).trans ?_
    split
    · rfl
    · split
      · rfl
      · rfl
  · intro h
    rw [hsender]
    split
    · rfl
    · rename_i hne
      rw [if_neg (h.resolve_left hne)]
      rfl

/-- To enter an address in place of its earlier entries keeps the entries apart. -/
theorem distinct_put {table table' : Nat → BitVec 48} {n c : Nat} {mac : BitVec 48}
    {P : BitVec 48 → Prop} (hzero : ¬ P 0)
    (h : ∀ i j, i < n → j < n → table i = table j → P (table i) → i = j)
    (hput : ∀ i, i < n → table' i = if i = c then mac else if table i = mac then 0 else table i) :
    ∀ i j, i < n → j < n → table' i = table' j → P (table' i) → i = j := by
  have hother : ∀ i, i < n → i ≠ c → P (table' i) → table' i = table i ∧ table i ≠ mac := by
    intro i hi hne hP
    rw [hput i hi, if_neg hne] at hP ⊢
    by_cases hmac : table i = mac
    · rw [if_pos hmac] at hP
      exact absurd hP hzero
    · exact ⟨if_neg hmac, hmac⟩
  have hself : ∀ i, i < n → i = c → table' i = mac := fun i hi heq => (hput i hi).trans (if_pos heq)
  intro i j hi hj heq hP
  have hP' : P (table' j) := heq ▸ hP
  by_cases hic : i = c
  · by_cases hjc : j = c
    · rw [hic, hjc]
    · obtain ⟨hj', hne⟩ := hother j hj hjc hP'
      exact absurd (hj'.symm.trans (heq.symm.trans (hself i hi hic))) hne
  · obtain ⟨hi', hne⟩ := hother i hi hic hP
    by_cases hjc : j = c
    · exact absurd (hi'.symm.trans (heq.trans (hself j hj hjc))) hne
    · obtain ⟨hj', -⟩ := hother j hj hjc hP'
      exact h i j hi hj (hi'.symm.trans (heq.trans hj')) (hi' ▸ hP)

theorem cmdGetSenderId_invalid (s : Node) {id : Long} (hid : ¬ nodeIdx id < nMaxTxNodes) {i : Nat}
    (hi : i < nMaxTxNodes) :
    (s.cmdGetSenderId id).senders = s.senders ∧
      ((s.cmdGetSenderId id).bufMpsMsg i).sender =
        ((s.bufMpsMsg i).prot.addr, s.myBic, (s.bufMpsMsg i).prot.chId) := by
  have hread : s.readNodeId id = s := if_neg hid
  rw [Node.cmdGetSenderId, hread]
  exact ⟨rfl, msgSetBic_sender _ _ hi⟩

theorem cmdGetSenderId_same (s : Node) (id : Long) :
    (s.cmdGetSenderId id).nodeType = s.nodeType ∧ (s.cmdGetSenderId id).myMac = s.myMac ∧
      (s.cmdGetSenderId id).myBic = s.myBic := by
  rw [Node.cmdGetSenderId, Node.readNodeId]
  split
  · exact ⟨rfl, rfl, rfl⟩
  · exact ⟨rfl, rfl, rfl⟩

theorem Tables.cmdGetSenderId {s : Node} (h : Tables s) (id : Long) : Tables (s.cmdGetSenderId id) := by
  obtain ⟨htype, hmac, -⟩ := cmdGetSenderId_same s id
  by_cases hid : nodeIdx id < nMaxTxNodes
  · have hentry := fun i hi => cmdGetSenderId_entry s hid (i := i) hi
    refine ⟨htype.trans h.nodeType, ?_, ?_⟩
    · exact distinct_put (P := (· ≠ 0)) (not_not.mpr rfl) h.senders fun i hi => (hentry i hi).1
    · rw [hmac]
      intro i j hi hj heq hne hown
      refine distinct_put (P := fun x => x ≠ 0 ∧ x ≠ macOf s.myMac) (fun h => h.1 rfl) ?_
        (fun i hi => (hentry i hi).2.1) i j hi hj heq ⟨hne, hown⟩
      exact fun i j hi hj heq hP => h.addr i j hi hj heq hP.1 hP.2
  · refine h.congr htype ?_ hmac fun i hi => ?_
    · exact (cmdGetSenderId_invalid s hid (i := 0) (by decide)).1
    · exact congrArg Prod.fst (cmdGetSenderId_invalid s hid hi).2

/-- The command makes the tables agree for its own address, and keeps that for the others. -/
theorem matching_cmdGetSenderId {s : Node} {mac : BitVec 48} (hmac : mac ≠ 0) (id : Long)
    (h : (Event.senderId id).Registers mac ∨ Matching s mac) : Matching (s.cmdGetSenderId id) mac := by
  obtain ⟨-, -, hbic⟩ := cmdGetSenderId_same s id
  intro i hi hfound
  rw [hbic]
  by_cases hid : nodeIdx id < nMaxTxNodes
  · obtain ⟨hsenders, -, hsender⟩ := cmdGetSenderId_entry s hid hi
    rw [hsenders] at hfound
    by_cases hic : i = nodeIdx id
    · rw [if_pos hic] at hfound
      rw [hsender (Or.inl hic), if_pos hic, hfound]
    · rw [if_neg hic] at hfound
      by_cases hold : s.senders i = macOf id
      · rw [if_pos hold] at hfound
        exact absurd hfound.symm hmac
      · rw [if_neg hold] at hfound
        have hne : macOf id ≠ mac := fun heq => hold (hfound.trans heq.symm)
        have hmatch := h.resolve_left (fun hreg => hne hreg.2) i hi hfound
        simp only [MpsMsg.sender, Prod.mk.injEq] at hmatch
        obtain ⟨haddr, -, hch⟩ := hmatch
        rw [hsender (Or.inr (haddr ▸ hne.symm)), if_neg hic, haddr, hch]
  · obtain ⟨hsenders, hsender⟩ := cmdGetSenderId_invalid s hid hi
    have hmatch := h.resolve_left (fun hreg => hid hreg.1) i hi (hsenders ▸ hfound)
    simp only [MpsMsg.sender, Prod.mk.injEq] at hmatch
    rw [hsender, hmatch.1, hmatch.2.2]

theorem Tables.configure {s : Node} (h : Tables s) (macHi macLo : Word) :
    Tables (s.entryActionConfigured macHi macLo) := by
  have hsame : (s.entryActionConfigured macHi macLo).nodeType = s.nodeType ∧
      (s.entryActionConfigured macHi macLo).senders = s.senders := by
    rw [Node.entryActionConfigured, Node.setEndpDstAddr]
    split
    · exact ⟨rfl, rfl⟩
    · exact ⟨rfl, rfl⟩
  refine ⟨hsame.1.trans h.nodeType, ?_, fun i j hi _ _ _ hown => ?_⟩
  · rw [hsame.2]
    exact h.senders
  · exact absurd (initMpsData_addr _ macHi macLo hi) hown

theorem entryActionOperation_same {s : Node} (hrx : s.nodeType = .rx) (now : Long) :
    (entryActionOperation s now).senders = s.senders ∧
      (entryActionOperation s now).bufMpsMsg = s.bufMpsMsg ∧
      (entryActionOperation s now).myMac = s.myMac ∧ (entryActionOperation s now).myBic = s.myBic := by
  simp only [entryActionOperation, hrx, reduceCtorEq, false_and, if_false, and_self]

/-- **The tables agree** in every state that an RX node reaches. -/
theorem events_tables {l : Loop} (hboot : Boot l) (es : List Event) :
    Tables (l.events es).node ∧ ∀ mac, mac ≠ 0 → Registered mac es → Matching (l.events es).node mac := by
  induction es using List.reverseRecOn with
  | nil =>
      refine ⟨⟨hboot.nodeType, fun i _ _ _ _ hne => ?_, fun i _ _ _ _ hne => ?_⟩, ?_⟩
      · exact absurd (hboot.senders i) hne
      · exact absurd (hboot.addr i) hne
      · rintro mac - ⟨pre, e, post, heq, -⟩
        exact absurd heq (by simp)
  | append_singleton es e ih =>
      obtain ⟨htables, hmatch⟩ := ih
      rw [Loop.events_snoc]
      -- an event that registers nothing keeps what is registered, or is a 'configured' transition
      have hold : ∀ mac, mac ≠ 0 → Registered mac (es ++ [e]) →
          e.Registers mac ∨ ¬ e.Configures ∧ Matching (l.events es).node mac := fun mac hmac hreg =>
        ((registered_snoc mac es e).mp hreg).imp_right fun h => ⟨h.1, hmatch mac hmac h.2⟩
      cases e with
      | configure macHi macLo =>
          refine ⟨htables.configure macHi macLo, fun mac hmac hreg => ?_⟩
          rcases hold mac hmac hreg with h | ⟨h, -⟩
          · exact h.elim
          · exact absurd trivial h
      | senderId id =>
          refine ⟨htables.cmdGetSenderId id, fun mac hmac hreg => ?_⟩
          exact matching_cmdGetSenderId hmac id ((hold mac hmac hreg).imp_right And.right)
      | enterOperation now =>
          obtain ⟨hsenders, hbuf, hmac', hbic⟩ := entryActionOperation_same htables.nodeType now
          have hsender : ∀ i, ((entryActionOperation (l.events es).node now).bufMpsMsg i).sender =
              ((l.events es).node.bufMpsMsg i).sender := fun i => by rw [hbuf]
          refine ⟨htables.congr ?_ hsenders hmac' fun i _ => congrArg Prod.fst (hsender i), ?_⟩
          · exact (entryActionOperation_rx htables.nodeType now).trans htables.nodeType.symm
          · intro mac hmac hreg
            exact ((hold mac hmac hreg).resolve_left id).2.congr hsenders hbic hsender
      | operation lab =>
          obtain ⟨hsenders, hbic, hmac', hsender⟩ := Loop.step_identity htables.nodeType lab
          refine ⟨htables.congr ?_ hsenders hmac' fun i _ => congrArg Prod.fst (hsender i), ?_⟩
          · exact (Loop.step_rx htables.nodeType lab).1.trans htables.nodeType.symm
          · intro mac hmac hreg
            exact ((hold mac hmac hreg).resolve_left id).2.congr hsenders hbic hsender
      | exitOperation =>
          refine ⟨htables.congr rfl rfl rfl fun _ _ => rfl, fun mac hmac hreg => ?_⟩
          exact ((hold mac hmac hreg).resolve_left id).2.congr rfl rfl fun _ => rfl

/-! ### Answers and messages -/

def regParam (nodeId : Long) (bicId chId : BitVec 8) (flag : BitVec 4) : Long :=
  (nodeId <<< 16) ||| (bicId.setWidth 64 <<< 8) ||| (chId.setWidth 64 <<< 4) ||| flag.setWidth 64

def Node.regResponse (s : Node) (i : Nat) : Long := regParam s.myMac s.myBic (BitVec.ofNat 8 i) regRsp

/-- A class 2 message of a TX node, with a flag of its power converter. -/
def Node.mpsMessage (s : Node) (flag : BitVec 4) : Long :=
  { (s.bufMpsMsg pcEventIdx).prot with flag := flag }.param

theorem regParam_fields (nodeId : Long) (bicId chId : BitVec 8) (flag : BitVec 4)
    (hch : chId.toNat < nMaxTxNodes) :
    rawBic (regParam nodeId bicId chId flag) = bicId ∧
      rawCh (regParam nodeId bicId chId flag) = chId.setWidth 4 ∧
      rawFlag (regParam nodeId bicId chId flag) = flag := by
  have hhigh : ∀ i, 4 ≤ i → chId.getLsbD i = false := by
    intro i hi
    exact Nat.testBit_lt_two_pow (lt_of_lt_of_le hch (Nat.pow_le_pow_right Nat.two_pos hi))
  refine ⟨?_, ?_, ?_⟩ <;> apply BitVec.eq_of_getLsbD_eq <;> intro i hi <;>
    simp only [rawBic, rawCh, rawFlag, regParam, BitVec.getLsbD_extractLsb', BitVec.getLsbD_or,
      BitVec.getLsbD_shiftLeft, BitVec.getLsbD_setWidth] <;> grind

theorem param_fields (p : MpsProtocol) :
    rawAddr p.param = p.addr ∧ rawBic p.param = p.bicId ∧ rawCh p.param = p.chId ∧
      rawFlag p.param = p.flag := by
  refine ⟨?_, ?_, ?_, ?_⟩ <;> apply BitVec.eq_of_getLsbD_eq <;> intro i hi <;>
    simp only [rawAddr, rawBic, rawCh, rawFlag, MpsProtocol.param, BitVec.getLsbD_extractLsb',
      BitVec.getLsbD_append] <;> grind

/-- The registered address is found where the sender list has it. -/
theorem msgGetSenderIndex_some {senders : Nat → BitVec 48} {id : Long} {i : Nat}
    (h : msgGetSenderIndex senders id = some i) : i < nMaxTxNodes ∧ senders i = macOf id := by
  have hfind : ∀ n k, findSender senders (macOf id) k n = some i →
      i < k + n ∧ senders i = macOf id := by
    intro n
    induction n with
    | zero => exact fun k h => absurd h (Option.some_ne_none i).symm
    | succ n ih =>
        intro k h
        rw [findSender] at h
        split at h
        · rename_i heq
          rw [← Option.some.inj h]
          exact ⟨by omega, heq⟩
        · obtain ⟨hlt, heq⟩ := ih (k + 1) h
          exact ⟨by omega, heq⟩
  obtain ⟨hlt, heq⟩ := hfind nMaxTxNodes 0 h
  exact ⟨by omega, heq⟩

theorem handleNodeReg_registers {t : Node} (htx : t.nodeType = .tx)
    (htask : t.hasTask tskTxMpsEvents = true) {e : EcaEvent} (hrsp : rawFlag e.param = regRsp) :
    ((t.handleNodeReg e).bufMpsMsg pcEventIdx).prot =
      { addr := macOf t.myMac, bicId := rawBic e.param, chId := rawCh e.param, flag := mpsFlagTest } := by
  rw [Node.handleNodeReg, htask, if_neg Bool.true_eq_false.mp]
  simp only [htx, hrsp, if_true, msgInitPcEventBuf, Function.update_self, macOf]
  congr 1
  simp

/-- The message with flag `flag` of TX node `t`, after the response for channel `i`. -/
def Node.messageAfter (s : Node) (i : Nat) (t : Node) (e : EcaEvent) (flag : BitVec 4) : Long :=
  (t.handleNodeReg { e with param := s.regResponse i }).mpsMessage flag

theorem messageAfter_fields (s : Node) {i : Nat} (hi : i < nMaxTxNodes) {t : Node}
    (htx : t.nodeType = .tx) (htask : t.hasTask tskTxMpsEvents = true) (e : EcaEvent) (flag : BitVec 4) :
    rawAddr (s.messageAfter i t e flag) = macOf t.myMac ∧ rawBic (s.messageAfter i t e flag) = s.myBic ∧
      rawCh (s.messageAfter i t e flag) = BitVec.ofNat 4 i ∧
      rawFlag (s.messageAfter i t e flag) = flag := by
  have hlt : i < 16 := hi
  have hch : (BitVec.ofNat 8 i).toNat < nMaxTxNodes := by
    rw [BitVec.toNat_ofNat]
    exact lt_of_le_of_lt (Nat.mod_le _ _) hi
  obtain ⟨hbic, hchan, hflag⟩ := regParam_fields s.myMac s.myBic (BitVec.ofNat 8 i) regRsp hch
  have hreg := handleNodeReg_registers htx htask (e := { e with param := s.regResponse i }) hflag
  have hfields := param_fields
    { ((t.handleNodeReg { e with param := s.regResponse i }).bufMpsMsg pcEventIdx).prot with flag }
  rw [hreg] at hfields
  obtain ⟨haddr, hbic', hchan', hflag'⟩ := hfields
  have hmsg : s.messageAfter i t e flag =
      { ((t.handleNodeReg { e with param := s.regResponse i }).bufMpsMsg pcEventIdx).prot with
        flag := flag }.param := rfl
  rw [hmsg, hreg]
  refine ⟨haddr, hbic'.trans hbic, hchan'.trans (hchan.trans ?_), hflag'⟩
  apply BitVec.eq_of_toNat_eq
  simp

theorem message_accepted {s : Node} {mac : BitVec 48} (hmatch : Matching s mac) {id : Long}
    (hid : macOf id = mac) {i : Nat} (hfind : msgGetSenderIndex s.senders id = some i) {t : Node}
    (htx : t.nodeType = .tx) (htask : t.hasTask tskTxMpsEvents = true) (hmac : t.myMac = id)
    (e : EcaEvent) (flag : BitVec 4) {ts : Long} (hts : ts ≠ (s.bufMpsMsg i).tsRx) (ctrl : MsgCtrl) :
    (msgStoreMpsMsg s.bufMpsMsg (s.messageAfter i t e flag) ts ctrl).1 = i ∧
      ((msgStoreMpsMsg s.bufMpsMsg (s.messageAfter i t e flag) ts ctrl).2 i).prot.flag = flag := by
  obtain ⟨hi, hsender⟩ := msgGetSenderIndex_some hfind
  have hentry := hmatch i hi (hsender.trans hid)
  simp only [MpsMsg.sender, Prod.mk.injEq] at hentry
  obtain ⟨haddr, hbic, hch⟩ := hentry
  obtain ⟨haddr', hbic', hch', hflag'⟩ := messageAfter_fields s hi htx htask e flag
  have hchannel : (rawCh (s.messageAfter i t e flag)).toNat = i := by
    rw [hch', BitVec.toNat_ofNat]
    exact Nat.mod_eq_of_lt hi
  have hacc : Accepts s.bufMpsMsg (s.messageAfter i t e flag) ts i :=
    { channel := hchannel
      addr := by rw [haddr', hmac, hid, haddr]
      ids := ⟨hch.trans hch'.symm, hbic.trans hbic'.symm⟩
      fresh := hts }
  constructor
  · have hlt := rawCh_lt (s.messageAfter i t e flag)
    rw [msgStoreMpsMsg, if_neg (Nat.not_le.mpr hlt), hchannel, if_pos hacc.addr, if_pos hacc.ids,
      if_pos hacc.fresh]
  · rw [msgStoreMpsMsg_accepts ctrl hacc, Function.update_self]
    exact hflag'

/-- **The sender tables**, in every state that an RX node reaches.  The sender list has no
address twice, the message buffer none but the node's own one.  If the sender list has an
address that has been entered since the last transition to 'configured', the messages of that
sender, after the response, are accepted for its channel. -/
theorem sender_tables_agree {l : Loop} (hboot : Boot l) (es : List Event) :
    (∀ i j, i < nMaxTxNodes → j < nMaxTxNodes →
        (l.events es).node.senders i = (l.events es).node.senders j →
        (l.events es).node.senders i ≠ 0 → i = j) ∧
      (∀ i j, i < nMaxTxNodes → j < nMaxTxNodes →
        ((l.events es).node.bufMpsMsg i).prot.addr = ((l.events es).node.bufMpsMsg j).prot.addr →
        ((l.events es).node.bufMpsMsg i).prot.addr ≠ 0 →
        ((l.events es).node.bufMpsMsg i).prot.addr ≠ macOf (l.events es).node.myMac → i = j) ∧
      ∀ id i, macOf id ≠ 0 → msgGetSenderIndex (l.events es).node.senders id = some i →
        Registered (macOf id) es → ∀ t : Node, t.nodeType = .tx → t.hasTask tskTxMpsEvents = true →
        t.myMac = id → ∀ e flag ts ctrl, ts ≠ ((l.events es).node.bufMpsMsg i).tsRx →
        (msgStoreMpsMsg (l.events es).node.bufMpsMsg ((l.events es).node.messageAfter i t e flag) ts
            ctrl).1 = i ∧
          ((msgStoreMpsMsg (l.events es).node.bufMpsMsg ((l.events es).node.messageAfter i t e flag) ts
            ctrl).2 i).prot.flag = flag := by
  obtain ⟨htables, hmatch⟩ := events_tables hboot es
  refine ⟨htables.senders, htables.addr, ?_⟩
  intro id i hmac hfind hreg t htx htask hown e flag ts ctrl hts
  exact message_accepted (hmatch _ hmac hreg) rfl hfind htx htask hown e flag hts ctrl

/-! ### A second transition to 'configured' -/

/-- The RX node of `sampleRx` without its sender. -/
def sampleBoot : Loop :=
  { node := { sampleRx with
      senders := fun _ => 0
      bufMpsMsg := fun _ => ⟨⟨0, 0, 0, 0⟩, 0, 0, 0⟩ }
    buf := none }

theorem sampleBoot_boot : Boot sampleBoot := ⟨rfl, fun _ => rfl, fun _ => rfl⟩

def sampleTx : Node :=
  { sampleRx with nodeType := .tx, myMac := 0x00267b000002, mpsTask := tskTxMpsEvents }

/-- The node is configured, and then gets the address of `sampleTx` for channel 3. -/
def sampleSetup : List Event :=
  [.configure 0x0026 0x7b000001, .senderId 0x0300_00267b000002]

theorem sender_tables_sample :
    (msgStoreMpsMsg (sampleBoot.events sampleSetup).node.bufMpsMsg
      ((sampleBoot.events sampleSetup).node.messageAfter 3 sampleTx (sampleMsg 0 0) mpsFlagNok) 1000
      (sampleBoot.events sampleSetup).node.mpsMsgCtrl).1 = 3 := by
  have hreg : Registered (macOf 0x00267b000002) sampleSetup :=
    ⟨[.configure 0x0026 0x7b000001], .senderId 0x0300_00267b000002, [], rfl, ⟨by decide, by decide⟩,
      fun e he => absurd he List.not_mem_nil⟩
  exact ((sender_tables_agree sampleBoot_boot sampleSetup).2.2 0x00267b000002 3 (by decide)
    (by decide +kernel) hreg sampleTx rfl (by decide) rfl (sampleMsg 0 0) mpsFlagNok 1000 _
    (by decide +kernel)).1

/-- **One table is forgotten**: after a second transition to 'configured' the node still answers
the sender of channel 3, and does not accept its messages; and its own address is in two
channels, as after every such transition. -/
theorem senders_outlive_configuration :
    Boot sampleBoot ∧
      (∃ i j, i < nMaxTxNodes ∧ j < nMaxTxNodes ∧ i ≠ j ∧
        ((sampleBoot.events sampleSetup).node.bufMpsMsg i).prot.addr =
          ((sampleBoot.events sampleSetup).node.bufMpsMsg j).prot.addr ∧
        ((sampleBoot.events sampleSetup).node.bufMpsMsg i).prot.addr ≠ 0) ∧
      let l := sampleBoot.events (sampleSetup ++ [.configure 0x0026 0x7b000001])
      msgGetSenderIndex l.node.senders sampleTx.myMac = some 3 ∧
        (msgStoreMpsMsg l.node.bufMpsMsg (l.node.messageAfter 3 sampleTx (sampleMsg 0 0) mpsFlagNok)
          1000 l.node.mpsMsgCtrl).1 = -1 := by
  refine ⟨⟨rfl, fun _ => rfl, fun _ => rfl⟩, ⟨0, 1, ?_⟩, ?_, ?_⟩
  · decide +kernel
  · decide +kernel
  · decide +kernel

end Fbas
