import BelProjects.DataMaster.Commands.RoundTrip
import BelProjects.DataMaster.Commands.Writes
import BelProjects.DataMaster.Dot.Text

/-!
# Two front ends for commands

A program may hand the arguments of a command to `createFullCommand`, or have
`createCommandBurst` read them from the vertices of a command graph.  Both call
`createCommand`, but `createFullCommand` passes five of its arguments at the places of others.
-/

namespace DataMaster

open BigEndian Programs

structure CommandVertex where
  name : String
  type : String
  patName : String
  bpName : String
  cmdTarget : String
  cmdDest : String
  cmdDestBp : String
  cmdDestPat : String
  cmdDestThr : String
  prio : String
  qty : String
  tValid : String
  vabs : String
  tWait : String
  qIl : String
  qHi : String
  qLo : String
  perma : String

structure CommandGraph where
  graphName : String
  vertices : List CommandVertex

def sCmd : String := "!CMD!"

/-- The conversion of a truth value to a number. -/
def ofBool (b : Bool) : Time := if b then 1 else 0

/-- The arguments as `createFullCommand` passes them: from `cmdTvalid` to `qLo` each one but the
last gets the value of the next one, and the last gets the first. -/
def FullCommand.passed (x : FullCommand) : FullCommand :=
  { x with
    cmdTvalid := ofBool x.perma
    perma := x.qIl
    qIl := x.qHi
    qHi := x.qLo
    qLo := x.cmdTvalid != 0 }

namespace CommandProg

def createFullCommand (E : CommandEnv) (x : FullCommand) : CommandProg PUnit := do
  updateModTime E
  createCommand E x.passed

/-- Target and destination: the pattern overrides the beam process. -/
def targetOf (E : CommandEnv) (v : CommandVertex) : String :=
  if v.patName ≠ sUndefined then E.getPatternExitNode v.patName
  else if v.bpName ≠ sUndefined then E.getBeamprocExitNode v.bpName
  else v.cmdTarget

/-- The destination. What pattern and beam process set before is overwritten in every case. -/
def destinationOf (E : CommandEnv) (v : CommandVertex) : String :=
  if v.cmdDestPat ≠ sUndefined then E.getPatternEntryNode v.cmdDestPat
  else if v.cmdDestBp ≠ sUndefined then E.getBeamprocEntryNode v.cmdDestBp
  else if v.cmdDest ≠ sUndefined then v.cmdDest
  else E.getPatternEntryNode v.patName

/-- What `createCommandBurst` reads from a vertex. -/
def readCommand (E : CommandEnv) (v : CommandVertex) : Except String FullCommand := do
  let cmdPrio ← Dot.s2u v.prio
  let vabs ← Dot.s2u v.vabs
  let cmdQty ← Dot.s2u v.qty
  let cmdTvalid ← Dot.s2u v.tValid
  let cmdTwait ← Dot.s2u v.tWait
  let qIl ← Dot.s2u v.qIl
  let qHi ← Dot.s2u v.qHi
  let qLo ← Dot.s2u v.qLo
  let perma ← Dot.s2u v.perma
  let cmdThr ← Dot.s2u v.cmdDestThr
  return {
    type := v.type
    target := targetOf E v
    destination := destinationOf E v
    cmdPrio := BitVec.ofNat 8 cmdPrio
    cmdQty := BitVec.ofNat 8 cmdQty
    vabs := vabs != 0
    cmdTvalid := BitVec.ofNat 64 cmdTvalid
    perma := perma != 0
    qIl := qIl != 0
    qHi := qHi != 0
    qLo := qLo != 0
    cmdTwait := BitVec.ofNat 64 cmdTwait
    abswait := false
    lockRd := true
    lockWr := true
    cmdThr := BitVec.ofNat 8 cmdThr }

/-- `p`, with the text that every exception gets. -/
def withCause (name : String) (p : CommandProg PUnit) : CommandProg PUnit := fun s =>
  match p s with
  | .ok a s' => .ok a s'
  | .error what s' =>
    .error ("Parser error when processing command <" ++ name ++ ">. Cause: " ++ what) s'

def createVertexCommand (E : CommandEnv) (v : CommandVertex) : CommandProg PUnit :=
  withCause v.name do
    let x ← ask fun _ => readCommand E v
    createCommand E x

def createCommandBurst (E : CommandEnv) (g : CommandGraph) : CommandProg PUnit := do
  modify fun s => { s with vBl := [] }
  if sCmd.toList <:+: g.graphName.toList then pure ⟨⟩
  else
    throw ("Expected a series of commands, but this appears to be a schedule (Tag '" ++ sCmd ++
      "' not found in graphname)")
  updateModTime E
  g.vertices.forM (createVertexCommand E)

/-- Run from one state, both programs add the same to the write, and one throws if and only if
the other does. -/
def Agree (p q : CommandProg PUnit) (s : CommandState) : Prop :=
  (after p s).va = (after q s).va ∧ (after p s).vb = (after q s).vb ∧ (Throws p s ↔ Throws q s)

/-! ### What the lock manager cannot change -/

/-- The states differ at most in the entries of the lock manager. -/
def SameWrites (s t : CommandState) : Prop := s.view = t.view ∧ s.va = t.va ∧ s.vb = t.vb

section Alike

variable {E : CommandEnv}

theorem alike_ask {α : Type} {f g : HostView → Except String α} (h : ∀ H, f H = g H) :
    Alike SameWrites (ask f) (ask g) := by
  intro s t hst
  have hview : f s.view = g t.view := by rw [hst.1, h]
  cases hr : g t.view with
  | ok a => exact Or.inl ⟨a, s, t, ask_ok (hview.trans hr), ask_ok hr, hst⟩
  | error e => exact Or.inr ⟨e, e, s, t, ask_error (hview.trans hr), ask_error hr, hst⟩

theorem alike_pushAdrs (va : List Word) : Alike SameWrites (pushAdrs va) (pushAdrs va) :=
  alike_modify fun s t h => ⟨h.1, congrArg (· ++ va) h.2.1, h.2.2⟩

theorem alike_pushData (vb : List Octet) : Alike SameWrites (pushData vb) (pushData vb) :=
  alike_modify fun s t h => ⟨h.1, h.2.1, congrArg (· ++ vb) h.2.2⟩

theorem alike_request (f g : BlockLock → BlockLock) :
    Alike SameWrites (request f) (request g) := alike_modify fun s t h => h

theorem alike_addLock (name : String) : Alike SameWrites (addLock name) (addLock name) :=
  (alike_ask fun _ => rfl).bind fun _ => alike_modify fun s t h => h

theorem alike_createCmdModInfo (cpu : CpuIdx) (modCnt : Word) (opType : BitVec 8) :
    Alike SameWrites (createCmdModInfo E cpu modCnt opType) (createCmdModInfo E cpu modCnt opType) :=
  (alike_ask fun _ => rfl).bind fun S => (alike_ask fun _ => rfl).bind fun modTime =>
    (alike_pushAdrs _).bind fun _ => alike_pushData _

theorem alike_setThrOrigin (cpuIdx : CpuIdx) (thrIdx : BitVec 8) (name : String) :
    Alike SameWrites (setThrOrigin cpuIdx thrIdx name) (setThrOrigin cpuIdx thrIdx name) :=
  (alike_ask fun _ => rfl).bind fun S => (alike_pushAdrs _).bind fun _ =>
    (alike_ask fun _ => rfl).bind fun adr => alike_pushData _

theorem alike_startNodeOrigin (sNode : String) (thrIdx : BitVec 8) (t : Time) :
    Alike SameWrites (startNodeOrigin E sNode thrIdx t) (startNodeOrigin E sNode thrIdx t) := by
  refine (alike_ask fun _ => rfl).bind fun cpuIdx => (alike_setThrOrigin _ _ _).bind fun _ => ?_
  have htime : Alike SameWrites (setThrStartTime cpuIdx thrIdx t) (setThrStartTime cpuIdx thrIdx t) :=
    (alike_ask fun _ => rfl).bind fun S => (alike_pushAdrs _).bind fun _ => alike_pushData _
  refine htime.bind fun _ => ?_
  exact (alike_ask fun _ => rfl).bind fun S => (alike_pushAdrs _).bind fun _ =>
    (alike_pushData _).bind fun _ => alike_createCmdModInfo _ _ _

theorem alike_abortNodeOrigin (sNode : String) :
    Alike SameWrites (abortNodeOrigin E sNode) (abortNodeOrigin E sNode) := by
  unfold abortNodeOrigin
  cases E.findRunningPattern (E.getNodePattern sNode) with
  | none => exact alike_pure _
  | some cpuAndThr =>
    exact (alike_ask fun _ => rfl).bind fun S => (alike_pushAdrs _).bind fun _ =>
      (alike_pushData _).bind fun _ => alike_createCmdModInfo _ _ _

theorem alike_getCmdInc (hash : Word) (prio : BitVec 8) :
    Alike SameWrites (getCmdInc hash prio) (getCmdInc hash prio) := by
  refine (alike_ask fun _ => rfl).bind fun newIdxs => Alike.bind ?_ fun _ => alike_pure _
  exact alike_modify fun s t h => ⟨congrArg (HostView.storeWrIdxs · hash newIdxs) h.1, h.2⟩

theorem alike_createMiniCommand (targetName : String) (cmdPrio : BitVec 8) (mc : MiniCommand) :
    Alike SameWrites (createMiniCommand E targetName cmdPrio mc)
      (createMiniCommand E targetName cmdPrio mc) :=
  (alike_ask fun _ => rfl).bind fun _ => (alike_ask fun _ => rfl).bind fun hash =>
    (alike_ask fun _ => rfl).bind fun tmp => (alike_pushAdrs _).bind fun _ =>
      (alike_getCmdInc _ _).bind fun cmdWrInc => (alike_pushData _).bind fun _ =>
        (alike_ask fun _ => rfl).bind fun cpu => alike_createCmdModInfo _ _ _

theorem alike_withNode (quoted name : String) {p q : CommandProg PUnit} (h : Alike SameWrites p q) :
    Alike SameWrites (withNode quoted name p) (withNode quoted name q) :=
  (alike_ask fun _ => rfl).bind fun _ => alike_ite (fun _ => h) fun _ => alike_throw _ _

theorem alike_createBlockCommand {x y : FullCommand} (htype : x.type = y.type)
    (htarget : x.target = y.target) (hdest : x.destination = y.destination)
    (hprio : x.cmdPrio = y.cmdPrio)
    (hmini : ∀ q, CommandType.ofName y.type = .queue q →
      ∀ H : HostView, H.createCommand (x.queueArgs q) = H.createCommand (y.queueArgs q)) :
    Alike SameWrites (createBlockCommand E x) (createBlockCommand E y) := by
  unfold createBlockCommand
  rw [htype, htarget, hdest, hprio]
  refine (alike_addLock _).bind fun _ => ?_
  cases hkind : CommandType.ofName y.type with
  | lock => exact alike_request _ _
  | unlock => exact alike_request _ _
  | asyncClear =>
    refine Alike.bind ?_ fun _ => alike_request _ _
    exact (alike_ask fun _ => rfl).bind fun _ => (alike_pushAdrs _).bind fun _ => alike_pushData _
  | switch =>
    exact (alike_ask fun _ => rfl).bind fun _ => (alike_ask fun _ => rfl).bind fun _ =>
      (alike_pushAdrs _).bind fun _ => alike_pushData _
  | queue q =>
    exact (alike_ask (hmini q hkind)).bind fun mc => (alike_request _ _).bind fun _ =>
      alike_createMiniCommand _ _ _
  | start => exact alike_throw _ _
  | stop => exact alike_throw _ _
  | abort => exact alike_throw _ _
  | origin => exact alike_throw _ _
  | unsupported => exact alike_throw _ _

end Alike

/-! ### One command -/

section Command

variable {E : CommandEnv} {x : FullCommand} {s : CommandState}

/-- The commands whose destination is a downloaded node whose name has a hash other than zero. -/
def Startable (H : HostView) (destination : String) : Prop :=
  ∃ hash e, hash ≠ 0 ∧ H.hashOf destination = some hash ∧ H.table.lookupHash hash = some e

theorem createCommand_start (h : CommandType.ofName x.type = .start) :
    createCommand E x s =
      withNode (x.type ++ "'") x.destination (startNodeOrigin E x.destination x.cmdThr
        (s.view.adjustValidTime x.cmdTvalid x.vabs)) s := by
  rw [createCommand_eq]
  unfold createAdjusted
  rw [h]

theorem createCommand_queue {q : QCmdType} (h : CommandType.ofName x.type = .queue q) :
    createCommand E x s = createBlockCommand E x s := by
  rw [createCommand_eq]
  unfold createAdjusted
  rw [h]

theorem start_written (h : CommandType.ofName x.type = .start)
    (hnode : Startable s.view x.destination) :
    ∃ s' adr rest, createCommand E x s = .ok ⟨⟩ s' ∧
      s'.vb = s.vb ++ ((be32 adr ++ be64 (s.view.adjustValidTime x.cmdTvalid x.vabs)) ++ rest) := by
  obtain ⟨hash, e, hzero, hhash, he⟩ := hnode
  obtain ⟨S, hS⟩ := HostView.getMemories_ok he
  obtain ⟨adr, hadr⟩ := HostView.getNodeAdr_ok hhash he
  obtain ⟨s', rest, hrun, hvb⟩ := startNodeOrigin_eq (E := E) hS x.cmdThr
    (HostView.getNodeCpu_ok hhash he) hadr (s.view.adjustValidTime x.cmdTvalid x.vabs)
  refine ⟨s', adr, rest, ?_, hvb⟩
  rw [createCommand_start h]
  unfold withNode
  rw [bind_of_ok (ask_ok (HostView.lookup_ok hhash "")), if_pos hzero]
  exact hrun

theorem start_refused (h : CommandType.ofName x.type = .start)
    (hnode : ¬ Startable s.view x.destination) : ∃ e, createCommand E x s = .error e s := by
  rw [createCommand_start h]
  unfold withNode
  cases hhash : s.view.hashOf x.destination with
  | none =>
    obtain ⟨e, he⟩ : ∃ e, s.view.lookup x.destination "" = .error e := by
      unfold HostView.lookup
      rw [hhash]
      exact ⟨_, rfl⟩
    exact ⟨e, bind_of_error (ask_error he)⟩
  | some hash =>
    rw [bind_of_ok (ask_ok (HostView.lookup_ok hhash ""))]
    by_cases hzero : hash ≠ 0
    · rw [if_pos hzero]
      obtain ⟨e, he⟩ : ∃ e, s.view.getNodeCpu x.destination = .error e := by
        cases hnone : s.view.table.lookupHash hash with
        | some e => exact absurd ⟨hash, e, hzero, hhash, hnone⟩ hnode
        | none =>
          unfold HostView.getNodeCpu HostView.lookupNode
          rw [HostView.lookup_ok hhash]
          refine ⟨"unknown hash " ++ toString hash.toNat ++ " (dec)", ?_⟩
          simp only [hnone, bind, Except.bind]
      exact ⟨e, bind_of_error (ask_error he)⟩
    · rw [if_neg hzero]
      exact ⟨_, rfl⟩

theorem addLock_cases (name : String) :
    (∃ e, addLock name s = .error e s) ∨ ∃ s', addLock name s = .ok ⟨⟩ s' ∧ SameWrites s s' := by
  cases hadr : s.view.getBaseAdr name with
  | error e => exact Or.inl ⟨e, bind_of_error (ask_error hadr)⟩
  | ok adr => exact Or.inr ⟨_, bind_of_ok (ask_ok hadr), rfl, rfl, rfl⟩

/-- What a command for a queue needs: the queue takes it, and a flow has a destination. -/
def Queued (E : CommandEnv) (H : HostView) (x : FullCommand) (q : QCmdType) : Prop :=
  Takes E H x.target x.cmdPrio ∧ (q = .flow → ∃ adr, H.getNodeAdr x.destination .INT = .ok adr)

theorem createCommand_isOk_iff (H : HostView) (q : QCmdType) :
    (∃ mc, H.createCommand (x.queueArgs q) = .ok mc) ↔
      (q = .flow → ∃ adr, H.getNodeAdr x.destination .INT = .ok adr) := by
  unfold HostView.createCommand FullCommand.queueArgs
  cases q with
  | noop => exact ⟨fun _ hq => (nomatch hq), fun _ => ⟨_, rfl⟩⟩
  | flush => exact ⟨fun _ hq => (nomatch hq), fun _ => ⟨_, rfl⟩⟩
  | wait => exact ⟨fun _ hq => (nomatch hq), fun _ => ⟨_, rfl⟩⟩
  | flow =>
    dsimp only
    cases hadr : H.getNodeAdr x.destination .INT with
    | ok adr => exact ⟨fun _ _ => ⟨adr, rfl⟩, fun _ => ⟨_, rfl⟩⟩
    | error e =>
      constructor
      · rintro ⟨mc, hmc⟩
        cases hmc
      · intro hok
        obtain ⟨adr, hok⟩ := hok rfl
        cases hok

section Queue

variable {q : QCmdType} (h : CommandType.ofName x.type = .queue q)
include h

theorem queue_written (hq : Queued E s.view x q) :
    ∃ s' mc inc rest, s.view.createCommand (x.queueArgs q) = .ok mc ∧
      createCommand E x s = .ok ⟨⟩ s' ∧ s'.vb = s.vb ++ (mc.bytes E.buf inc ++ rest) := by
  obtain ⟨mc, hmc⟩ := (createCommand_isOk_iff s.view q).2 hq.2
  obtain ⟨-, hash, va, hhash, hva⟩ := hq.1
  obtain ⟨e, he⟩ := lookupHash_of_getCmdWrAdrs hva
  obtain ⟨adr, hadr⟩ := HostView.getBaseAdr_ok hhash he
  let s₁ : CommandState := { s with vBl := s.vBl ++ [⟨adr, rdRequest, rdRequest⟩] }
  have hlocked : addLock x.target s = .ok ⟨⟩ s₁ := bind_of_ok (ask_ok hadr)
  let s₂ : CommandState :=
    { s₁ with
      vBl := s₁.vBl.dropLast ++ s₁.vBl.getLast?.toList.map fun l =>
        { l with wr := { l.wr with set := true, clr := true } } }
  have htakes : Takes E s₂.view x.target x.cmdPrio := hq.1
  obtain ⟨s', inc, rest, hrun, hvb⟩ := createMiniCommand_eq htakes mc
  refine ⟨s', mc, inc, rest, hmc, ?_, hvb⟩
  rw [createCommand_queue h]
  unfold createBlockCommand
  rw [bind_of_ok hlocked, h]
  dsimp only
  rw [bind_of_ok (ask_ok (s := s₁) hmc)]
  exact (bind_of_ok (rfl : request _ s₁ = .ok ⟨⟩ s₂)).trans hrun

theorem queue_refused (hq : ¬ Queued E s.view x q) :
    ∃ e s', createCommand E x s = .error e s' ∧ SameWrites s s' := by
  rw [createCommand_queue h]
  unfold createBlockCommand
  rcases addLock_cases (s := s) x.target with ⟨e, he⟩ | ⟨s₁, hs₁, hsame⟩
  · exact ⟨e, s, bind_of_error he, rfl, rfl, rfl⟩
  · rw [bind_of_ok hs₁, h]
    dsimp only
    cases hmc : s₁.view.createCommand (x.queueArgs q) with
    | error e => exact ⟨e, s₁, bind_of_error (ask_error hmc), hsame⟩
    | ok mc =>
      rw [← hsame.1] at hmc
      have hnot : ¬ Takes E s.view x.target x.cmdPrio := fun ht =>
        hq ⟨ht, (createCommand_isOk_iff s.view q).1 ⟨mc, hmc⟩⟩
      rw [hsame.1] at hmc hnot
      rw [bind_of_ok (ask_ok hmc)]
      let s₂ : CommandState :=
        { s₁ with
          vBl := s₁.vBl.dropLast ++ s₁.vBl.getLast?.toList.map fun l =>
            { l with wr := { l.wr with set := true, clr := true } } }
      obtain ⟨e, he⟩ := createMiniCommand_refused (s := s₂) hnot mc
      exact ⟨e, s₂, (bind_of_ok (rfl : request _ s₁ = .ok ⟨⟩ s₂)).trans he, hsame⟩

end Queue

end Command

/-! ### What an element tells of its arguments -/

theorem adjustValidTime_inj {H : HostView} {t u : Time} {abs : Bool}
    (h : H.adjustValidTime t abs = H.adjustValidTime u abs) : t = u := by
  unfold HostView.adjustValidTime at h
  cases abs with
  | true => exact h
  | false =>
    have hsum : H.modTime + (if H.testmode then 0 else HostView.processingTimeMargin) + t =
        H.modTime + (if H.testmode then 0 else HostView.processingTimeMargin) + u := h
    bv_omega

theorem be64_inj {t u : Time} (h : be64 t = be64 u) : t = u := by
  have hread : ∀ v : Time, read64 (copyTo (List.replicate 8 0) 0 (be64 v)) 0 = v := fun v =>
    read64_copyTo_same (Nat.le_refl 8)
  rw [← hread t, h, hread u]

def flushBits (qIl qHi qLo : Bool) : Word :=
  (bit qIl <<< prioIl) ||| (bit qHi <<< prioHi) ||| (bit qLo <<< prioLo)

theorem flushBits_inj : ∀ {a b c a' b' c' : Bool}, flushBits a b c = flushBits a' b' c' →
    a = a' ∧ b = b' ∧ c = c' := by decide

theorem flushBits_lt : ∀ a b c : Bool, (flushBits a b c).toNat < 8 := by decide

structure Shows (H : HostView) (x : FullCommand) (q : QCmdType) (el : QueuedCmd) : Prop where
  validTime : el.validTime = H.adjustValidTime x.cmdTvalid x.vabs
  perma : q = .flow ∨ q = .flush → el.act.getLsbD 27 = x.perma
  queues : q = .flush → (el.act >>> actFlushPrioPos) &&& actFlushPrioMsk = flushBits x.qIl x.qHi x.qLo

theorem shows_of_createCommand {H : HostView} {x : FullCommand} {q : QCmdType} {mc : MiniCommand}
    (h : H.createCommand (x.queueArgs q) = .ok mc) (arg : Word × Word) :
    Shows H x q (mc.element arg) := by
  unfold HostView.createCommand FullCommand.queueArgs at h
  cases q with
  | noop =>
    dsimp only at h
    rw [miniNoop_eq] at h
    cases h
    exact ⟨rfl, fun hq => (nomatch hq), fun hq => (nomatch hq)⟩
  | wait =>
    dsimp only at h
    rw [miniWait_eq] at h
    cases h
    exact ⟨rfl, fun hq => (nomatch hq), fun hq => (nomatch hq)⟩
  | flow =>
    dsimp only at h
    split at h
    next adr hadr =>
      rw [miniFlow_eq] at h
      cases h
      exact ⟨rfl, fun _ => packAct_chp (by decide), fun hq => (nomatch hq)⟩
    next => cases h
  | flush =>
    dsimp only at h
    rw [miniFlush_eq] at h
    cases h
    exact ⟨rfl, fun _ => packAct_chp (by decide), fun _ => packAct_spec (by decide) (flushBits_lt _ _ _)⟩

end CommandProg

/-! ### When the exchanged arguments do not matter -/

/-- The arguments as a vertex gives them: the locks are always taken, and waits are relative. -/
def FullCommand.asRead (x : FullCommand) : FullCommand :=
  { x with
    abswait := false
    lockRd := true
    lockWr := true }

namespace CommandProg

/-- The graph holds nothing but a vertex for the command. -/
def Describes (E : CommandEnv) (g : CommandGraph) (x : FullCommand) : Prop :=
  sCmd.toList <:+: g.graphName.toList ∧ ∃ v, g.vertices = [v] ∧ readCommand E v = .ok x.asRead

/-- The arguments that the command uses are equal to those passed in their place. -/
def Harmless (x : FullCommand) : Prop :=
  match CommandType.ofName x.type with
  | .start | .queue .noop | .queue .wait => x.cmdTvalid = ofBool x.perma
  | .queue .flow => x.cmdTvalid = ofBool x.perma ∧ x.perma = x.qIl
  | .queue .flush =>
    x.cmdTvalid = ofBool x.perma ∧ x.perma = x.qIl ∧ x.qIl = x.qHi ∧ x.qHi = x.qLo
  | _ => True

/-- The command comes to write arguments that are exchanged. -/
def Performed (E : CommandEnv) (H : HostView) (x : FullCommand) : Prop :=
  match CommandType.ofName x.type with
  | .start => Startable H x.destination
  | .queue q => Queued E H x q
  | _ => False

theorem ofBool_ne_zero (b : Bool) : (ofBool b != 0#64) = b := by
  cases b <;> rfl

section FrontEnds

variable {E : CommandEnv} {x : FullCommand} {g : CommandGraph} {s : CommandState}

theorem Harmless.element_eq (h : Harmless x) {q : QCmdType}
    (hkind : CommandType.ofName x.type = .queue q) (H : HostView) :
    H.createCommand (x.passed.queueArgs q) = H.createCommand (x.asRead.queueArgs q) := by
  unfold Harmless at h
  rw [hkind] at h
  cases q with
  | noop =>
    have htime : x.cmdTvalid = ofBool x.perma := h
    simp [HostView.createCommand, FullCommand.queueArgs, FullCommand.passed, FullCommand.asRead, htime]
  | wait =>
    have htime : x.cmdTvalid = ofBool x.perma := h
    simp [HostView.createCommand, FullCommand.queueArgs, FullCommand.passed, FullCommand.asRead, htime]
  | flow =>
    obtain ⟨htime, hperma⟩ : x.cmdTvalid = ofBool x.perma ∧ x.perma = x.qIl := h
    simp [HostView.createCommand, FullCommand.queueArgs, FullCommand.passed, FullCommand.asRead, htime,
      hperma]
  | flush =>
    obtain ⟨htime, hperma, hil, hhi⟩ :
      x.cmdTvalid = ofBool x.perma ∧ x.perma = x.qIl ∧ x.qIl = x.qHi ∧ x.qHi = x.qLo := h
    simp [HostView.createCommand, FullCommand.queueArgs, FullCommand.passed, FullCommand.asRead, htime,
      hperma, hil, hhi, ofBool_ne_zero]

theorem Harmless.alike (h : Harmless x) :
    Alike SameWrites (createCommand E x.passed) (createCommand E x.asRead) := by
  have hblock : Alike SameWrites (createBlockCommand E x.passed) (createBlockCommand E x.asRead) :=
    alike_createBlockCommand rfl rfl rfl rfl fun q hq => h.element_eq hq
  have hstop : Alike SameWrites (stopNodeOrigin E x.target) (stopNodeOrigin E x.target) :=
    alike_createBlockCommand rfl rfl rfl rfl fun _ _ _ => rfl
  intro s t hst
  rw [createCommand_eq, createCommand_eq]
  unfold createAdjusted
  have hpassed : CommandType.ofName x.passed.type = CommandType.ofName x.type := rfl
  have hread : CommandType.ofName x.asRead.type = CommandType.ofName x.type := rfl
  rw [hpassed, hread]
  cases hkind : CommandType.ofName x.type with
  | start =>
    have htime : x.cmdTvalid = ofBool x.perma := by
      unfold Harmless at h
      rw [hkind] at h
      exact h
    have hadjusted : s.view.adjustValidTime x.passed.cmdTvalid x.passed.vabs =
        t.view.adjustValidTime x.asRead.cmdTvalid x.asRead.vabs := by
      rw [hst.1]
      change t.view.adjustValidTime (ofBool x.perma) x.vabs = t.view.adjustValidTime x.cmdTvalid x.vabs
      rw [htime]
    rw [hadjusted]
    exact alike_withNode _ _ (alike_startNodeOrigin _ _ _) s t hst
  | stop => exact alike_withNode _ _ hstop s t hst
  | abort => exact alike_withNode _ _ (alike_abortNodeOrigin _) s t hst
  | origin =>
    exact alike_withNode _ _ ((alike_ask fun _ => rfl).bind fun _ => alike_setThrOrigin _ _ _) s t hst
  | lock => exact hblock s t hst
  | asyncClear => exact hblock s t hst
  | unlock => exact hblock s t hst
  | switch => exact hblock s t hst
  | unsupported => exact hblock s t hst
  | queue q => exact hblock s t hst

theorem kind_of_not_harmless (h : ¬ Harmless x) :
    CommandType.ofName x.type = .start ∨ ∃ q, CommandType.ofName x.type = .queue q := by
  unfold Harmless at h
  cases hkind : CommandType.ofName x.type with
  | start => exact Or.inl rfl
  | queue q => exact Or.inr ⟨q, rfl⟩
  | _ =>
    rw [hkind] at h
    exact absurd trivial h

theorem refused
    (hkind : CommandType.ofName x.type = .start ∨ ∃ q, CommandType.ofName x.type = .queue q)
    (h : ¬ Performed E s.view x) : ∃ e s', createCommand E x s = .error e s' ∧ SameWrites s s' := by
  unfold Performed at h
  rcases hkind with hkind | ⟨q, hkind⟩
  · rw [hkind] at h
    obtain ⟨e, he⟩ := start_refused (E := E) hkind h
    exact ⟨e, s, he, rfl, rfl, rfl⟩
  · rw [hkind] at h
    exact queue_refused hkind h

theorem harmless_of_performed {t : CommandState} (hst : SameWrites s t)
    (h : Performed E s.view x)
    (hsame : (after (createCommand E x.passed) s).vb = (after (createCommand E x.asRead) t).vb) :
    Harmless x := by
  have ht : Performed E t.view x := hst.1 ▸ h
  unfold Performed at h ht
  unfold Harmless
  cases hkind : CommandType.ofName x.type with
  | start =>
    rw [hkind] at h ht
    obtain ⟨s', adr, rest, hs', hvb⟩ := start_written (E := E) (x := x.passed) hkind h
    obtain ⟨t', adr', rest', ht', hvb'⟩ := start_written (E := E) (x := x.asRead) hkind ht
    rw [after_ok hs', after_ok ht', hvb, hvb', hst.2.2, List.append_cancel_left_eq] at hsame
    have htimes := (List.append_inj (List.append_inj hsame rfl).1 rfl).2
    rw [hst.1] at htimes
    exact (adjustValidTime_inj (be64_inj htimes)).symm
  | queue q =>
    rw [hkind] at h ht
    obtain ⟨s', mc, inc, rest, hmc, hs', hvb⟩ := queue_written (E := E) (x := x.passed) hkind h
    obtain ⟨t', mc', inc', rest', hmc', ht', hvb'⟩ := queue_written (E := E) (x := x.asRead) hkind ht
    rw [after_ok hs', after_ok ht', hvb, hvb', hst.2.2, List.append_cancel_left_eq] at hsame
    have hlen : ∀ (mc : MiniCommand) (inc : Word), (mc.bytes E.buf inc).length = 24 := by
      intro mc inc
      unfold MiniCommand.bytes
      rw [length_copyTo]
      · exact length_serialise mc E.length_buf
      · rw [length_serialise mc E.length_buf, length_be32]
        decide
    have hbytes := (List.append_inj hsame (by rw [hlen, hlen])).1
    have hel := congrArg elementOf hbytes
    rw [elementOf_bytes mc E.length_buf, elementOf_bytes mc' E.length_buf] at hel
    have hshows := shows_of_createCommand hmc (read32 E.buf 12, read32 E.buf 16)
    have hshows' := shows_of_createCommand hmc' (read32 E.buf 12, read32 E.buf 16)
    rw [← hel, ← hst.1] at hshows'
    have htime : x.cmdTvalid = ofBool x.perma :=
      adjustValidTime_inj (hshows'.validTime.symm.trans hshows.validTime)
    cases q with
    | noop => exact htime
    | wait => exact htime
    | flow =>
      have hperma : x.perma = x.qIl :=
        (hshows'.perma (Or.inl rfl)).symm.trans (hshows.perma (Or.inl rfl))
      exact ⟨htime, hperma⟩
    | flush =>
      have hperma : x.perma = x.qIl :=
        (hshows'.perma (Or.inr rfl)).symm.trans (hshows.perma (Or.inr rfl))
      obtain ⟨hil, hhi, -⟩ := flushBits_inj ((hshows'.queues rfl).symm.trans (hshows.queues rfl))
      exact ⟨htime, hperma, hil, hhi⟩
  | _ => trivial

theorem Describes.burst (h : Describes E g x) (s : CommandState) :
    let s₁ : CommandState := { s with view := s.view.withModTime E.getDmWrTime, vBl := [] }
    (Throws (createCommandBurst E g) s ↔ Throws (createCommand E x.asRead) s₁) ∧
      after (createCommandBurst E g) s = after (createCommand E x.asRead) s₁ := by
  intro s₁
  obtain ⟨hname, v, hv, hread⟩ := h
  have hrun : createCommandBurst E g s = (createVertexCommand E v >>= fun _ => pure ⟨⟩) s₁ := by
    unfold createCommandBurst
    rw [if_pos hname, hv]
    rfl
  have hinner : (ask (fun _ => readCommand E v) >>= createCommand E) s₁ =
      createCommand E x.asRead s₁ := bind_of_ok (ask_ok hread)
  have hvertex : createVertexCommand E v s₁ =
      withCause v.name (ask (fun _ => readCommand E v) >>= createCommand E) s₁ := rfl
  unfold withCause at hvertex
  rw [hinner] at hvertex
  cases hc : createCommand E x.asRead s₁ with
  | ok a t =>
    rw [hc] at hvertex
    have hburst : createCommandBurst E g s = .ok ⟨⟩ t := by
      rw [hrun, bind_of_ok hvertex]
      rfl
    refine ⟨⟨?_, ?_⟩, ?_⟩
    · rintro ⟨e, u, he⟩
      rw [hburst] at he
      cases he
    · rintro ⟨e, u, he⟩
      rw [hc] at he
      cases he
    · rw [after_ok hburst, after_ok hc]
  | error e t =>
    rw [hc] at hvertex
    have hburst := hrun.trans (bind_of_error hvertex)
    exact ⟨⟨fun _ => ⟨e, t, hc⟩, fun _ => ⟨_, t, hburst⟩⟩, by rw [after_error hburst, after_error hc]⟩

end FrontEnds

/-- **The two front ends agree exactly when the exchange is harmless**: for every command and every
command graph that holds a single vertex with the same properties, `createFullCommand` adds the
same addresses and data as `createCommandBurst`, and throws if and only if that does, if and only
if the command is not performed or has no use for arguments that differ. -/
theorem createFullCommand_agrees_iff (E : CommandEnv) (x : FullCommand) (g : CommandGraph)
    (s : CommandState) (h : Describes E g x) :
    Agree (createFullCommand E x) (createCommandBurst E g) s ↔
      (Performed E (s.view.withModTime E.getDmWrTime) x → Harmless x) := by
  let s₀ : CommandState := { s with view := s.view.withModTime E.getDmWrTime }
  let s₁ : CommandState := { s₀ with vBl := [] }
  have hst : SameWrites s₀ s₁ := ⟨rfl, rfl, rfl⟩
  have hfull : createFullCommand E x s = createCommand E x.passed s₀ := rfl
  obtain ⟨hthrows, hafter⟩ := h.burst s
  have hafterFull : after (createFullCommand E x) s = after (createCommand E x.passed) s₀ := by
    unfold after
    rw [hfull]
  have hthrowsFull : Throws (createFullCommand E x) s ↔ Throws (createCommand E x.passed) s₀ := by
    unfold Throws
    rw [hfull]
  have hagree : Agree (createFullCommand E x) (createCommandBurst E g) s ↔
      (after (createCommand E x.passed) s₀).va = (after (createCommand E x.asRead) s₁).va ∧
        (after (createCommand E x.passed) s₀).vb = (after (createCommand E x.asRead) s₁).vb ∧
          (Throws (createCommand E x.passed) s₀ ↔ Throws (createCommand E x.asRead) s₁) := by
    unfold Agree
    rw [hafterFull, hafter, hthrowsFull, hthrows]
  rw [hagree]
  constructor
  · rintro ⟨-, hvb, -⟩ hperf
    exact harmless_of_performed hst hperf hvb
  · intro himp
    by_cases hharmless : Harmless x
    · obtain ⟨hsame, -, hva, hvb⟩ := hharmless.alike.outcome hst
      exact ⟨hva, hvb, hsame⟩
    · have hkind := kind_of_not_harmless hharmless
      have hperf : ¬ Performed E s₀.view x := fun hp => hharmless (himp hp)
      obtain ⟨e, t, ht, htsame⟩ := refused (E := E) (s := s₀) (x := x.passed) hkind hperf
      obtain ⟨e', u, hu, husame⟩ := refused (E := E) (s := s₁) (x := x.asRead) hkind hperf
      rw [after_error ht, after_error hu]
      exact ⟨htsame.2.1.symm.trans (hst.2.1.trans husame.2.1),
        htsame.2.2.symm.trans (hst.2.2.trans husame.2.2), fun _ => ⟨e', u, hu⟩, fun _ => ⟨e, t, ht⟩⟩

/-! ### Samples -/

def sampleEnv : CommandEnv where
  getDmWrTime := 0
  covenant _ _ _ := false
  username := List.replicate 8 0
  machinename := List.replicate 8 0
  buf := List.replicate 24 0
  length_buf := noopCall.length_buf
  getNodePattern := id
  findRunningPattern _ := none
  getPatternEntryNode _ := sUndefined
  getPatternExitNode _ := sUndefined
  getBeamprocEntryNode _ := sUndefined
  getBeamprocExitNode _ := sUndefined

def sampleState : CommandState where
  view := HostView.sampleView 1
  va := []
  vb := []
  vBl := []

/-- A thread is started at the node at `cmdTvalid`. -/
def sampleStart (cmdTvalid : Time) : FullCommand where
  type := "start"
  target := sUndefined
  destination := "buffer"
  cmdPrio := 0
  cmdQty := 1
  vabs := true
  cmdTvalid := cmdTvalid
  perma := false
  qIl := false
  qHi := false
  qLo := false
  cmdTwait := 0
  abswait := false
  lockRd := true
  lockWr := true
  cmdThr := 2

def sampleGraph (tValid : String) : CommandGraph where
  graphName := "!CMD!"
  vertices :=
    [{ name := "Start"
       type := "start"
       patName := sUndefined
       bpName := sUndefined
       cmdTarget := sUndefined
       cmdDest := "buffer"
       cmdDestBp := sUndefined
       cmdDestPat := sUndefined
       cmdDestThr := "2"
       prio := "0"
       qty := "1"
       tValid := tValid
       vabs := "true"
       tWait := "0"
       qIl := "0"
       qHi := "0"
       qLo := "0"
       perma := "0" }]

/-- A start at time 0 is the same both ways. -/
theorem createFullCommand_agrees_sample :
    Agree (createFullCommand sampleEnv (sampleStart 0)) (createCommandBurst sampleEnv (sampleGraph "0"))
      sampleState :=
  (createFullCommand_agrees_iff sampleEnv (sampleStart 0) (sampleGraph "0") sampleState
    ⟨by decide, _, rfl, by decide⟩).2 fun _ => rfl

/-- A start at time 1000 becomes a start at time 0. -/
theorem createFullCommand_disagrees : ¬ ∀ (E : CommandEnv) (x : FullCommand) (g : CommandGraph)
    (s : CommandState), Describes E g x → Agree (createFullCommand E x) (createCommandBurst E g) s := by
  intro h
  have hsame := h sampleEnv (sampleStart 1000) (sampleGraph "1000") sampleState
    ⟨by decide, _, rfl, by decide⟩
  exact absurd hsame.2.1 (by decide +kernel)

end CommandProg

end DataMaster
