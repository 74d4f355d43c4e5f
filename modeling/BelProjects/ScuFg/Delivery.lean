import BelProjects.ScuFg.MessageQueues

/-!
# Delivery of the messages

Interrupts come between any two accesses of the main loop. Only the queue of the interrupts is open
to them, and of that queue only the head and the free slots. So a call runs as if it were alone,
but for what it finds in that queue.
-/

namespace ScuFg.MainLoop

open Interference

/-! ## States with and without interrupts -/

namespace MsgBuf

/-- What holds behind every access. -/
def InOrder (s : MsgBuf) : Prop := s.full = false → s.RingsOk

def TasksInOrder (s : MsgBuf) : Prop := s.full = false → ∀ q, q ≠ .irq → s.RingOk q

/-- What holds between two calls. -/
structure Idle (s : MsgBuf) : Prop where
  irqEnabled : s.irqEnabled = true
  inOrder : s.InOrder
  delivered : s.full = false → s.Delivered

/-- A state that the main loop has reached alone, and the one reached with interrupts. -/
structure Same (e s : MsgBuf) : Prop where
  irqEnabled : s.irqEnabled = e.irqEnabled
  taken : s.taken = e.taken
  intActs : s.intActs = e.intActs
  buf : ∀ q, q ≠ .irq → s.buf q = e.buf q
  added : ∀ q, q ≠ .irq → s.added q = e.added q
  irqTail : (s.buf .irq).ringTail = (e.buf .irq).ringTail
  moved : addedBy .dispatch (s.added .irq) = addedBy .dispatch (e.added .irq)
  full : s.full = false → e.full = false
  irqRing : s.full = false → s.RingOk .irq
  received : s.full = false → (s.added .irq).map Prod.snd = s.received

variable {e s s' : MsgBuf} {who : Adder} {q : Queue} {m : Msi}

theorem Same.refl (h : s.InOrder) : Same s s where
  irqEnabled := rfl
  taken := rfl
  intActs := rfl
  buf _ _ := rfl
  added _ _ := rfl
  irqTail := rfl
  moved := rfl
  full := id
  irqRing hfull := (h hfull).ring .irq
  received hfull := (h hfull).received

theorem Same.inOrder (h : Same e s) (he : e.TasksInOrder) : s.InOrder := by
  intro hfull
  refine ⟨fun q => ?_, h.received hfull⟩
  by_cases hq : q = .irq
  · subst hq
    exact h.irqRing hfull
  · exact (he (h.full hfull) q hq).congr (h.buf q hq) (h.added q hq) (congrFun h.taken q)

theorem Same.delivered (h : Same e s) (he : e.Delivered) : s.Delivered := by
  obtain ⟨hmoved, hhandled, hforwarded⟩ := he
  refine ⟨fun q => ?_, ?_, ?_⟩
  · rw [h.taken, ← hmoved q]
    by_cases hq : q = .irq
    · subst hq
      exact h.moved
    · exact congrArg _ (h.added q hq)
  · rw [h.intActs, h.taken]
    exact hhandled
  · rw [h.added .devsio (by decide), h.intActs]
    exact hforwarded

theorem interrupt_cases (h : Interrupt s s') : ∃ m,
    (s.Room .irq ∧
        s' = ({ s with received := s.received ++ [m] } : MsgBuf).push .interrupt .irq m) ∨
      s' = { s with received := s.received ++ [m], full := true } := by
  obtain ⟨-, m, rfl⟩ := h
  have hrun : (irqHandler m).run { s with received := s.received ++ [m] } =
      ((), ((addMsg .interrupt .irq m).run { s with received := s.received ++ [m] }).2) :=
    Prog.run_bind _ _ _
  refine ⟨m, ?_⟩
  rw [hrun, addMsg_run]
  split
  next hroom => exact .inl ⟨hroom, rfl⟩
  next => exact .inr rfl

theorem Same.interrupt (h : Same e s) (hs : Interrupt s s') : Same e s' := by
  obtain ⟨m, ⟨hroom, rfl⟩ | rfl⟩ := interrupt_cases hs
  · refine ⟨h.irqEnabled, h.taken, h.intActs, fun q hq => ?_, fun q hq => ?_, ?_, ?_, h.full,
      fun hfull => ?_, fun hfull => ?_⟩
    · exact (if_neg hq).trans (h.buf q hq)
    · exact (if_neg hq).trans (h.added q hq)
    · rw [push_self]
      exact h.irqTail
    · rw [push_added, addedBy, List.filter_append, List.map_append, ← h.moved]
      exact List.append_nil _
    · exact RingOk.push ((h.irqRing hfull).congr rfl rfl rfl) hroom
    · rw [push_added, List.map_append, h.received hfull]
      rfl
  · exact { h with full := nofun, irqRing := nofun, received := nofun }

/-! ## Accesses that leave the queue of the interrupts alone -/

theorem Same.modify (h : Same e s) (hq : q ≠ .irq) {f g : MessageBuffer → MessageBuffer}
    (hfg : f (e.buf q) = g (s.buf q)) : Same (e.modify q f) (s.modify q g) := by
  have hirq : ∀ (s : MsgBuf) f, (s.modify q f).buf .irq = s.buf .irq := fun s =>
    modify_other s hq.symm
  refine ⟨h.irqEnabled, h.taken, h.intActs, fun q' hq' => ?_, h.added, ?_, h.moved, h.full,
    fun hfull => ?_, h.received⟩
  · by_cases hqq : q' = q
    · subst hqq
      rw [modify_self, modify_self]
      exact hfg.symm
    · rw [modify_other s hqq, modify_other e hqq]
      exact h.buf q' hq'
  · rw [hirq, hirq]
    exact h.irqTail
  · exact (h.irqRing hfull).modify_other hq.symm g

end MsgBuf

open MsgBuf

section Respects

variable {who : Adder} {q : Queue} {m : Msi}

end Respects

/-! ## What a call does alone -/

namespace MsgBuf

variable {s s' : MsgBuf} {who : Adder} {q : Queue} {m : Msi}

theorem TasksInOrder.congr (h : s.TasksInOrder) (hbuf : s'.buf = s.buf)
    (hadded : s'.added = s.added) (htaken : s'.taken = s.taken) (hfull : s'.full = s.full) :
    s'.TasksInOrder :=
  fun hfull' q hq => (h (hfull ▸ hfull') q hq).congr (congrFun hbuf q) (congrFun hadded q)
    (congrFun htaken q)

theorem TasksInOrder.setSlot (h : s.TasksInOrder) {f : MessageBuffer → MessageBuffer}
    (hf : f (s.buf q) = (s.buf q).setSlot (s.buf q).ringHead m) : (s.modify q f).TasksInOrder := by
  intro hfull q' hq'
  by_cases hqq : q' = q
  · subst hqq
    exact (h hfull q' hq').setSlot hf
  · exact (h hfull q' hq').modify_other hqq f

theorem TasksInOrder.push (h : s.TasksInOrder) (hroom : s.Room q) :
    (s.push who q m).TasksInOrder := by
  intro hfull q' hq'
  by_cases hqq : q' = q
  · subst hqq
    exact (h hfull q' hq').push hroom
  · exact (h hfull q' hq').push_other hqq

theorem TasksInOrder.pop (h : s.TasksInOrder) (hne : (s.buf q).ringHead ≠ (s.buf q).ringTail) :
    (s.pop q ((s.buf q).ringData (s.buf q).ringTail)).TasksInOrder := by
  intro hfull q' hq'
  by_cases hqq : q' = q
  · subst hqq
    exact (h hfull q' hq').pop hne
  · exact (h hfull q' hq').pop_other hqq

end MsgBuf

section Along

variable {s : MsgBuf} {who : Adder} {q : Queue} {m : Msi}

end Along

/-! ## Messages that are moved -/

theorem addedBy_append (who who' : Adder) (l : List (Adder × Msi)) (m : Msi) :
    addedBy who (l ++ [(who', m)]) = addedBy who l ++ if who' = who then [m] else [] := by
  rw [addedBy, List.filter_append, List.map_append]
  by_cases h : who' = who
  · have hfilter : [(who', m)].filter (fun a => a.1 = who) = [(who', m)] := by simp [h]
    rw [if_pos h, hfilter]
    rfl
  · have hfilter : [(who', m)].filter (fun a => a.1 = who) = [] := by simp [h]
    rw [if_neg h, hfilter]
    rfl

namespace MsgBuf

variable {s : MsgBuf} {who who' : Adder} {q q' : Queue} {m : Msi}

theorem addedBy_push_other (h : who' ≠ who ∨ q' ≠ q) :
    addedBy who ((s.push who' q' m).added q) = addedBy who (s.added q) := by
  by_cases hq : q = q'
  · subst hq
    rw [push_added, addedBy_append, if_neg (h.resolve_right fun hne => hne rfl), List.append_nil]
  · exact congrArg (addedBy who) (if_neg hq)

theorem addedBy_push : addedBy who ((s.push who q m).added q) = addedBy who (s.added q) ++ [m] := by
  rw [push_added, addedBy_append, if_pos rfl]

theorem pop_taken_other (h : q' ≠ q) : (s.pop q m).taken q' = s.taken q' := if_neg h

theorem Delivered.setIrq (h : s.Delivered) (enabled : Bool) :
    ({ s with irqEnabled := enabled } : MsgBuf).Delivered :=
  ⟨h.moved, h.handled, h.forwarded⟩

theorem Delivered.pop (h : s.Delivered) (hirq : q ≠ .irq) (hscu : q ≠ .scubus) :
    (s.pop q m).Delivered where
  moved q' := by
    rw [pop_taken_other hirq.symm]
    exact h.moved q'
  handled := by
    rw [pop_taken_other hscu.symm]
    exact h.handled
  forwarded := h.forwarded

theorem Delivered.dispatch (h : s.Delivered) (hq : queueOf m.adr = some q) :
    ((s.pop .irq m).push .dispatch q m).Delivered where
  moved q' := by
    have htaken : ((s.pop .irq m).push .dispatch q m).taken .irq = s.taken .irq ++ [m] :=
      pop_taken s .irq m
    rw [htaken, List.filter_append, ← h.moved q']
    by_cases hqq : q = q'
    · subst hqq
      have hfilter : [m].filter (fun m => queueOf m.adr = some q) = [m] := by simp [hq]
      rw [addedBy_push, hfilter]
      rfl
    · have hother : queueOf m.adr ≠ some q' := fun h => hqq (Option.some.inj (hq.symm.trans h))
      rw [addedBy_push_other (.inr hqq), List.filter_cons_of_neg (by simpa using hother)]
      exact (List.append_nil _).symm
  handled := h.handled
  forwarded := (addedBy_push_other (.inl (by decide))).trans h.forwarded

/-- A message of an unknown source is dropped. -/
theorem Delivered.drop (h : s.Delivered) (hq : queueOf m.adr = none) :
    (s.pop .irq m).Delivered where
  moved q' := by
    have hother : queueOf m.adr ≠ some q' := by
      rw [hq]
      nofun
    rw [pop_taken, List.filter_append, List.filter_cons_of_neg (by simpa using hother)]
    exact (h.moved q').trans (List.append_nil _).symm
  handled := h.handled
  forwarded := h.forwarded

/-- What the main loop has read from the slave of a message. -/
def readBy (s : MsgBuf) (m : Msi) (slvIntActReg : Word) : MsgBuf :=
  { s.pop .scubus m with intActs := s.intActs ++ [(m, slvIntActReg)] }

theorem Delivered.handled_readBy (h : s.Delivered) (hm : m.OfSlave) (slvIntActReg : Word) :
    (s.readBy m slvIntActReg).intActs.map Prod.fst =
      ((s.readBy m slvIntActReg).taken .scubus).filter fun m => m.OfSlave := by
  have htaken : (s.readBy m slvIntActReg).taken .scubus = s.taken .scubus ++ [m] :=
    pop_taken s .scubus m
  have hfilter : [m].filter (fun m => m.OfSlave) = [m] := by simp [hm]
  rw [htaken, List.filter_append, hfilter, ← h.handled]
  exact List.map_append

theorem Delivered.request (h : s.Delivered) (hm : m.OfSlave) {slvIntActReg : Word}
    (hr : slvIntActReg &&& dreq ≠ 0) :
    ((s.readBy m slvIntActReg).push .scuBus .devsio m).Delivered where
  moved _ := (addedBy_push_other (.inl (by decide))).trans (h.moved _)
  handled := h.handled_readBy hm slvIntActReg
  forwarded := by
    have hfilter : [(m, slvIntActReg)].filter (fun a => a.2 &&& dreq ≠ 0) =
        [(m, slvIntActReg)] := List.filter_cons_of_pos (decide_eq_true hr)
    change addedBy .scuBus (((s.readBy m slvIntActReg).push .scuBus .devsio m).added .devsio) =
      ((s.intActs ++ [(m, slvIntActReg)]).filter _).map Prod.fst
    rw [addedBy_push, List.filter_append, hfilter, List.map_append]
    exact congrArg (· ++ [m]) h.forwarded

end MsgBuf

/-! ## Tasks that take a message -/

/-- A task takes a message from its queue, if there is one, and goes on with it. -/
def visit (q : Queue) (next : Msi → MsgProg Unit) : MsgProg Unit := do
  if ← hasMsg q then
    let m ← removeMsg q
    next m

section Visit

variable {s : MsgBuf} {q : Queue} {next : Msi → MsgProg Unit}

end Visit

/-- What is left to do behind a message that has been taken. -/
structure MsgBuf.After (s s' : MsgBuf) : Prop where
  irqEnabled : s.irqEnabled = true → s'.irqEnabled = true
  full : s'.full = false → s.full = false
  taken : s'.taken = s.taken

section Calls

variable {s s' : MsgBuf} {who : Adder} {q : Queue} {m : Msi}

end Calls

namespace MsgBuf

variable {e s s' : MsgBuf} {q : Queue} {m : Msi}

/-- The interrupts are served, and the oldest message of a queue has been taken. -/
def Takes (s s' : MsgBuf) (q : Queue) : Prop :=
  ∀ m rest, s.waiting q = m :: rest → s'.full = false → s'.taken q = s.taken q ++ [m]

/-- How a call that has run as if it were alone leaves the state. -/
theorem Same.idle (h : Same e s) (hirq : e.irqEnabled = true) (horder : e.TasksInOrder)
    (hdel : e.full = false → e.Delivered) : s.Idle :=
  ⟨h.irqEnabled.trans hirq, h.inOrder horder, fun hfull => h.delivered (hdel (h.full hfull))⟩

end MsgBuf

section Safe

variable {e s s' : MsgBuf} {q : Queue} {m : Msi}

end Safe

/-! ## The queue of the interrupts -/

namespace MsgBuf

variable {e s s' : MsgBuf} {m : Msi}

def Front (s : MsgBuf) (m : Msi) : Prop :=
  s.full = false → ∃ rest, s.waiting .irq = m :: rest

theorem Front.interrupt (h : s.Front m) (hes : Same e s) (hs : Interrupt s s') : s'.Front m := by
  obtain ⟨m', ⟨hroom, rfl⟩ | rfl⟩ := interrupt_cases hs
  · intro hfull
    obtain ⟨rest, hw⟩ := h hfull
    have hring := hes.irqRing hfull
    have hring' : (({ s with received := s.received ++ [m'] } : MsgBuf).push .interrupt .irq
        m').RingOk .irq := RingOk.push (hring.congr rfl rfl rfl) hroom
    have hcontent := hring'.content
    rw [push_added, List.map_append, hring.content, hw, List.append_assoc] at hcontent
    exact ⟨rest ++ [m'], (List.append_cancel_left hcontent).symm⟩
  · nofun

/-- While a message is fetched from the queue of the interrupts: that which was the oldest one is
still the oldest. -/
structure Fetching (e s₀ s : MsgBuf) : Prop where
  same : Same e s
  front : ∀ m, s₀.Front m → s.Front m

theorem Fetching.stable (e s₀ : MsgBuf) : Prog.Stable Interrupt (Fetching e s₀) :=
  fun _ _ h hs => ⟨h.same.interrupt hs, fun m hm => (h.front m hm).interrupt h.same hs⟩

end MsgBuf

section Fetch

variable {e s₀ s : MsgBuf} {α : Type} {A : MsgBuf → Prop}

open MsgBuf

theorem MsgBuf.Fetching.inOrder (h : Fetching e s₀ s) (he : e.TasksInOrder) : s.InOrder :=
  h.same.inOrder he

end Fetch

/-! ## All calls -/

section Calls

variable {s : MsgBuf}

end Calls

namespace MsgBuf

variable {s s' : MsgBuf}

end MsgBuf

end ScuFg.MainLoop
