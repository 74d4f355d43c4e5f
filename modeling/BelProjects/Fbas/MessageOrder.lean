import BelProjects.Fbas.Supervision
import BelProjects.Library.Stamped

/-!
# The order of messages

Messages are repeated and may arrive late.  An RX node stores a message for a channel unless
it carries the time stamp that is stored there, so of all messages between two new cycles the
one that arrives last counts, not the one with the newest time stamp.
-/

namespace Fbas

/-- A class 2 message of the sender that is registered in entry `msg` for channel `ch`. -/
structure FromSender (msg : MpsMsg) (ch : Nat) (e : EcaEvent) : Prop where
  action : e.action = .wrEvt ∨ e.action = .wrFlg
  channel : (rawCh e.param).toNat = ch
  addr : rawAddr e.param = msg.prot.addr
  ids : msg.prot.chId = rawCh e.param ∧ msg.prot.bicId = rawBic e.param

instance (msg : MpsMsg) (ch : Nat) (e : EcaEvent) : Decidable (FromSender msg ch e) :=
  decidable_of_iff ((e.action = .wrEvt ∨ e.action = .wrFlg) ∧ (rawCh e.param).toNat = ch ∧
      rawAddr e.param = msg.prot.addr ∧ msg.prot.chId = rawCh e.param ∧ msg.prot.bicId = rawBic e.param)
    ⟨fun ⟨h₁, h₂, h₃, h₄⟩ => ⟨h₁, h₂, h₃, h₄⟩, fun ⟨h₁, h₂, h₃, h₄⟩ => ⟨h₁, h₂, h₃, h₄⟩⟩

def Label.message (msg : MpsMsg) (ch : Nat) : Label → Option EcaEvent
  | .poll e => if FromSender msg ch e then some e else none
  | _ => none

/-- The messages of the sender in a run, in the order of delivery. -/
def messages (msg : MpsMsg) (ch : Nat) (tr : List Label) : List EcaEvent :=
  tr.filterMap (Label.message msg ch)

def ConsistentFlags (es : List EcaEvent) : Prop :=
  ∀ e ∈ es, ∀ e' ∈ es, e.deadline = e'.deadline → rawFlag e.param = rawFlag e'.param

instance (es : List EcaEvent) : Decidable (ConsistentFlags es) :=
  inferInstanceAs (Decidable (∀ e ∈ es, ∀ e' ∈ es, _ → _))

/-- A message with the greatest time stamp. -/
structure Newest (es : List EcaEvent) (e : EcaEvent) : Prop where
  mem : e ∈ es
  newest : ∀ e' ∈ es, e'.deadline ≤ e.deadline

/-! ### The flag of a channel as a register -/

def EcaEvent.flagWrite (e : EcaEvent) : Stamped Long (BitVec 4) := ⟨e.deadline, rawFlag e.param⟩

def MpsMsg.flagRegister (msg : MpsMsg) : Stamped Long (BitVec 4) := ⟨msg.tsRx, msg.prot.flag⟩

def MpsMsg.sender (msg : MpsMsg) : BitVec 48 × BitVec 8 × BitVec 4 :=
  (msg.prot.addr, msg.prot.bicId, msg.prot.chId)

theorem FromSender.congr {msg msg' : MpsMsg} (h : msg.sender = msg'.sender) (ch : Nat)
    (e : EcaEvent) : FromSender msg ch e ↔ FromSender msg' ch e := by
  simp only [MpsMsg.sender, Prod.mk.injEq] at h
  obtain ⟨haddr, hbic, hch⟩ := h
  constructor
  · rintro ⟨h₁, h₂, h₃, h₄⟩
    exact ⟨h₁, h₂, haddr ▸ h₃, hch ▸ hbic ▸ h₄⟩
  · rintro ⟨h₁, h₂, h₃, h₄⟩
    exact ⟨h₁, h₂, haddr ▸ h₃, hch ▸ hbic ▸ h₄⟩

theorem messages_congr {msg msg' : MpsMsg} (h : msg.sender = msg'.sender) (ch : Nat)
    (tr : List Label) : messages msg ch tr = messages msg' ch tr := by
  have hlabel : Label.message msg ch = Label.message msg' ch := by
    funext lab
    cases lab with
    | enter => rfl
    | poll e => simp only [Label.message, FromSender.congr h ch e]
    | finish => rfl
  rw [messages, messages, hlabel]

/-- An RX node in operation: neither the channel's entry nor a new message has a lifetime. -/
structure Operating (l : Loop) (ch : Nat) : Prop where
  nodeType : l.node.nodeType = .rx
  ctrlTtl : l.node.mpsMsgCtrl.ttl = 0
  entryTtl : (l.node.bufMpsMsg ch).ttl = 0

namespace Loop

variable {l : Loop} {ch : Nat}

theorem accepted_iff (e : EcaEvent) :
    l.accepted ch (.poll e) = some e ↔
      FromSender (l.node.bufMpsMsg ch) ch e ∧ e.deadline ≠ (l.node.bufMpsMsg ch).tsRx := by
  simp only [accepted, Option.ite_none_right_eq_some, and_true]
  constructor
  · rintro ⟨haction, ⟨hch, haddr, hids, hfresh⟩⟩
    exact ⟨⟨haction, hch, haddr, hids⟩, hfresh⟩
  · rintro ⟨⟨haction, hch, haddr, hids⟩, hfresh⟩
    exact ⟨haction, ⟨hch, haddr, hids, hfresh⟩⟩

theorem accepted_eq_none (e : EcaEvent) :
    l.accepted ch (.poll e) = none ∨ l.accepted ch (.poll e) = some e := by
  simp only [accepted]
  split
  · exact Or.inr rfl
  · exact Or.inl rfl

/-- An entry without lifetime is not changed by an evaluation. -/
theorem step_entry_operating (hop : Operating l ch) (hch : ch < nMaxMpsChannels) {lab : Label}
    (hnew : lab.newCycle = false) (hnone : l.accepted ch lab = none) :
    (l.step lab).node.bufMpsMsg ch = l.node.bufMpsMsg ch := by
  have hfixed : evalMpsMsgTtl (l.node.bufMpsMsg ch) = l.node.bufMpsMsg ch := by
    rw [evalMpsMsgTtl, if_neg (not_not.mpr hop.entryTtl)]
  rw [step_entry hop.nodeType hch hnew, hnone]
  simp only [hfixed, ite_self]

theorem step_register (hop : Operating l ch) (hch : ch < nMaxMpsChannels) {lab : Label}
    (hnew : lab.newCycle = false) :
    ((l.step lab).node.bufMpsMsg ch).sender = (l.node.bufMpsMsg ch).sender ∧
      ((l.step lab).node.bufMpsMsg ch).ttl = 0 ∧
      ((l.step lab).node.bufMpsMsg ch).flagRegister =
        match lab.message (l.node.bufMpsMsg ch) ch with
        | some e => (l.node.bufMpsMsg ch).flagRegister.put e.flagWrite
        | none => (l.node.bufMpsMsg ch).flagRegister := by
  have hkept : l.accepted ch lab = none →
      ((l.step lab).node.bufMpsMsg ch).sender = (l.node.bufMpsMsg ch).sender ∧
        ((l.step lab).node.bufMpsMsg ch).ttl = 0 ∧
        ((l.step lab).node.bufMpsMsg ch).flagRegister = (l.node.bufMpsMsg ch).flagRegister := by
    intro hnone
    rw [step_entry_operating hop hch hnew hnone]
    exact ⟨rfl, hop.entryTtl, rfl⟩
  cases lab with
  | enter => exact hkept rfl
  | finish => exact hkept rfl
  | poll e =>
      simp only [Label.message]
      by_cases hfrom : FromSender (l.node.bufMpsMsg ch) ch e
      · rw [if_pos hfrom]
        by_cases hfresh : e.deadline ≠ (l.node.bufMpsMsg ch).tsRx
        · have hacc := (accepted_iff e).mpr ⟨hfrom, hfresh⟩
          rw [step_entry hop.nodeType hch hnew, hacc]
          exact ⟨rfl, hop.ctrlTtl, (Stamped.put_other hfresh).symm⟩
        · have hnone : l.accepted ch (.poll e) = none :=
            (accepted_eq_none e).resolve_right fun h => hfresh ((accepted_iff e).mp h).2
          obtain ⟨hsender, httl, hreg⟩ := hkept hnone
          exact ⟨hsender, httl, hreg.trans (Stamped.put_same (not_not.mp hfresh)).symm⟩
      · rw [if_neg hfrom]
        exact hkept ((accepted_eq_none e).resolve_right fun h => hfrom ((accepted_iff e).mp h).1)

/-- A new cycle resets the entry or, through the null pointer, leaves it alone. -/
theorem step_newCycle (hrx : l.node.nodeType = .rx) {e : EcaEvent} (hnew : e.action = .newCycle)
    (ch : Nat) :
    (l.step (.poll e)).node.bufMpsMsg ch = forceHigh (l.node.bufMpsMsg ch) ∨
      (l.step (.poll e)).node.bufMpsMsg ch = l.node.bufMpsMsg ch := by
  rcases poll_rx hrx l.buf e with ⟨-, heq⟩ | ⟨haction, -⟩ | ⟨_, _, _, hne, -, -⟩
  · simp only [step, heq]
    cases l.buf with
    | none => exact Or.inr rfl
    | some base =>
        simp only [Node.forceHigh]
        rw [msgForceHigh_apply]
        split
        · exact Or.inl rfl
        · exact Or.inr rfl
  · rw [hnew] at haction
    simp at haction
  · exact absurd hnew hne

theorem step_operating (hop : Operating l ch) (hch : ch < nMaxMpsChannels) (lab : Label) :
    Operating (l.step lab) ch := by
  obtain ⟨htype, hctrl⟩ := step_rx hop.nodeType lab
  refine ⟨htype, hctrl ▸ hop.ctrlTtl, ?_⟩
  cases hnew : lab.newCycle with
  | false => exact (step_register hop hch hnew).2.1
  | true =>
      cases lab with
      | enter => simp [Label.newCycle] at hnew
      | finish => simp [Label.newCycle] at hnew
      | poll e =>
          simp only [Label.newCycle, beq_iff_eq] at hnew
          rcases step_newCycle hop.nodeType hnew ch with heq | heq <;> rw [heq]
          · rfl
          · exact hop.entryTtl

theorem run_operating (hch : ch < nMaxMpsChannels) (tr : List Label) : ∀ {l : Loop},
    Operating l ch → Operating (l.run tr) ch := by
  induction tr with
  | nil => intro l hop; exact hop
  | cons lab tr ih =>
      intro l hop
      exact ih (step_operating hop hch lab)

/-- **A run, seen from the channel**, is the series of writes of its sender's messages. -/
theorem run_register (hch : ch < nMaxMpsChannels) (tr : List Label) : ∀ {l : Loop},
    Operating l ch → (∀ lab ∈ tr, lab.newCycle = false) →
    ((l.run tr).node.bufMpsMsg ch).flagRegister =
      ((messages (l.node.bufMpsMsg ch) ch tr).map EcaEvent.flagWrite).foldl Stamped.put
        (l.node.bufMpsMsg ch).flagRegister := by
  induction tr with
  | nil => intro l _ _; rfl
  | cons lab tr ih =>
      intro l hop hnew
      obtain ⟨hsender, -, hreg⟩ := step_register hop hch (hnew lab List.mem_cons_self)
      rw [run_cons, ih (step_operating hop hch lab) fun lab' h => hnew lab' (List.mem_cons_of_mem _ h),
        messages_congr hsender, hreg]
      simp only [messages, List.filterMap_cons]
      cases lab.message (l.node.bufMpsMsg ch) ch <;> rfl

theorem run_flag (hop : Operating l ch) (hch : ch < nMaxMpsChannels) {tr : List Label}
    (hnew : ∀ lab ∈ tr, lab.newCycle = false)
    (hcons : ConsistentFlags (messages (l.node.bufMpsMsg ch) ch tr))
    (hne : messages (l.node.bufMpsMsg ch) ch tr ≠ []) :
    ((l.run tr).node.bufMpsMsg ch).prot.flag =
      if ∀ e ∈ messages (l.node.bufMpsMsg ch) ch tr, e.deadline = (l.node.bufMpsMsg ch).tsRx then
        (l.node.bufMpsMsg ch).prot.flag
      else rawFlag ((messages (l.node.bufMpsMsg ch) ch tr).getLast hne).param := by
  have hwrites : Stamped.Consistent
      ((messages (l.node.bufMpsMsg ch) ch tr).map EcaEvent.flagWrite) := by
    intro m hm m' hm'
    obtain ⟨e, he, rfl⟩ := List.mem_map.mp hm
    obtain ⟨e', he', rfl⟩ := List.mem_map.mp hm'
    exact hcons e he e' he'
  have hvalue := congrArg Stamped.value (run_register hch tr hop hnew)
  rw [Stamped.foldl_put_value hwrites, List.getLast?_map, List.getLast?_eq_some_getLast hne] at hvalue
  simp only [List.forall_mem_map] at hvalue
  exact hvalue

end Loop

/-- In operation no message has a lifetime, if none had one before. -/
theorem operating_entry {s : Node} (hrx : s.nodeType = .rx) (now : Long) (buf : Option Nat)
    {ch : Nat} (httl : (s.bufMpsMsg ch).ttl = 0) :
    Operating ⟨entryActionOperation s now, buf⟩ ch := by
  refine ⟨entryActionOperation_rx hrx now, rfl, ?_⟩
  simpa only [entryActionOperation, hrx, reduceCtorEq, false_and, if_false] using httl

namespace Loop

/-- **Which message counts**: from any point of a run on, a new cycle for one, and up to the
next new cycle, messages of one sender with consistent time stamps leave the flag of the
newest of them if and only if the one that is delivered last has that flag, or, where all
carry the time stamp that was stored before and none is stored, if the flag stored before is
that of the newest. -/
theorem newest_flag_iff {s : Node} (hrx : s.nodeType = .rx) {ch : Nat} (hch : ch < nMaxTxNodes)
    (httl : (s.bufMpsMsg ch).ttl = 0) {now : Long} {buf : Option Nat} {pre : List Label}
    {l : Loop} (hl : l = (⟨entryActionOperation s now, buf⟩ : Loop).run pre) {tr : List Label}
    (hnew : ∀ lab ∈ tr, lab.newCycle = false)
    (hcons : ConsistentFlags (messages (l.node.bufMpsMsg ch) ch tr)) {e : EcaEvent}
    (he : Newest (messages (l.node.bufMpsMsg ch) ch tr) e) :
    ((l.run tr).node.bufMpsMsg ch).prot.flag = rawFlag e.param ↔
      if ∀ e' ∈ messages (l.node.bufMpsMsg ch) ch tr,
          e'.deadline = (l.node.bufMpsMsg ch).tsRx then
        (l.node.bufMpsMsg ch).prot.flag = rawFlag e.param
      else
        rawFlag ((messages (l.node.bufMpsMsg ch) ch tr).getLast (List.ne_nil_of_mem he.mem)).param =
          rawFlag e.param := by
  have hop : Operating l ch := by
    rw [hl]
    exact run_operating hch _ (operating_entry hrx now buf httl)
  rw [run_flag hop hch hnew hcons (List.ne_nil_of_mem he.mem)]
  split <;> rfl

/-! ### A late message -/

def sampleCycle : EcaEvent := { tag := 0x26, deadline := 0, evtId := 0, param := 0, now := 0, sendTime := 0 }

def sampleStart : Loop := (⟨entryActionOperation sampleRx 0, none⟩ : Loop).run ([.enter] ++ [.poll sampleCycle])

/-- An error report and an older message, which is delivered first or last. -/
def sampleInOrder : List Label := [.poll (sampleMsg mpsFlagOk 1), .poll (sampleMsg mpsFlagNok 2)]
def sampleLate : List Label := [.poll (sampleMsg mpsFlagNok 2), .poll (sampleMsg mpsFlagOk 1)]

theorem newest_flag_sample :
    ((sampleStart.run sampleInOrder).node.bufMpsMsg 0).prot.flag = mpsFlagNok :=
  (newest_flag_iff (s := sampleRx) (e := sampleMsg mpsFlagNok 2) rfl (by decide) rfl
    (rfl : sampleStart = _) (by decide) (by decide) ⟨by decide, by decide⟩).mpr (by decide)

/-- **A late message replaces a newer one**: the error report has the newest time stamp, and
the flag that is stored at the end depends on the order of delivery. -/
theorem late_message_stored : ∃ (s : Node) (ch : Nat) (cycle : EcaEvent) (l : Loop)
    (tr tr' : List Label) (e : EcaEvent),
    s.nodeType = .rx ∧ ch < nMaxTxNodes ∧ (s.bufMpsMsg ch).ttl = 0 ∧ cycle.action = .newCycle ∧
      l = (⟨entryActionOperation s 0, none⟩ : Loop).run ([.enter] ++ [.poll cycle]) ∧
      tr.Perm tr' ∧ (∀ lab ∈ tr, lab.newCycle = false) ∧
      ConsistentFlags (messages (l.node.bufMpsMsg ch) ch tr) ∧
      Newest (messages (l.node.bufMpsMsg ch) ch tr) e ∧
      ((l.run tr).node.bufMpsMsg ch).prot.flag = rawFlag e.param ∧
      ((l.run tr').node.bufMpsMsg ch).prot.flag ≠ rawFlag e.param :=
  ⟨sampleRx, 0, sampleCycle, sampleStart, sampleInOrder, sampleLate, sampleMsg mpsFlagNok 2, rfl,
    by decide, rfl, by decide, rfl, by decide, by decide, by decide, ⟨by decide, by decide⟩,
    by decide, by decide⟩

end Loop

end Fbas
