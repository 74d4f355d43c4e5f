import BelProjects.DataMaster.CarpeDM.Operations
import BelProjects.DataMaster.Alloc.Sequences

/-!
# Operations that fail

The guard around an operation puts the hash map, the group table and the covenant table
back, but neither the upload graph nor its allocation table.  A failed operation leaves the
same nodes in all tables if it throws in the checks it makes before it changes the graph,
and if the download it started with has found the nodes that were in the graph before.
-/

namespace DataMaster.CarpeDM

open Programs

/-! ### Runs -/

structure Turn where
  dm : Device
  op : Operation

def Host.found (s : Host) (dm : Device) : Host := { s with dm }

def Turn.run (o : Analyses) (x : Turn) (s : Host) : EStateM.Result Fault Host Unit :=
  x.op.run o (s.found x.dm)

/-- The host after a sequence of operations, each of which may throw. -/
def Host.after (o : Analyses) : List Turn → Host → Option Host
  | [], s => some s
  | x :: xs, s =>
    match x.run o s with
    | .ok _ s' => Host.after o xs s'
    | .error (.thrown _) s' => Host.after o xs s'
    | .error .undefined _ => none

/-- The operation of number `n` finds the host in state `s`, throws and leaves it in `s'`. -/
def Fails (o : Analyses) (s₀ : Host) (turns : List Turn) (n : Nat) (x : Turn) (s s' : Host) : Prop :=
  turns[n]? = some x ∧ s₀.after o (turns.take n) = some s ∧ ∃ what, x.run o s = .error (.thrown what) s'

/-! ### The nodes in the tables -/

/-- The nodes that each of the tables describes. -/
@[ext]
structure Nodes where
  hm : Set HashEntry
  gt : Set String
  atUp : Set Word
  gUp : Multiset (String × Word)

def Host.nodes (s : Host) : Nodes where
  hm := {x | x ∈ s.hm}
  gt := {name | ∃ x ∈ s.gt, x.node = name}
  atUp := {hash | ∃ e ∈ s.atUp.a, e.hash = hash}
  gUp := s.gUp.keys

/-- All tables describe the nodes of the graph: each has one entry for every vertex, and
no other. -/
structure Nodes.Agree (n : Nodes) : Prop where
  unique : (n.gUp.map Prod.snd).Nodup
  alloc : n.atUp = {hash | ∃ name, (name, hash) ∈ n.gUp}
  hash : n.hm = {x | (x.right, x.left) ∈ n.gUp}
  group : n.gt = {name | ∃ hash, (name, hash) ∈ n.gUp}

def Host.up (s : Host) : HostGraph × AllocTable := (s.gUp, s.atUp)

def Host.upNodes (s : Host) : Multiset (String × Word) × Set Word := (s.nodes.gUp, s.nodes.atUp)

/-! ### The condition -/

/-- The download an operation starts with finds the nodes of the upload graph and table. -/
def Redownloads (o : Analyses) (s : Host) : Prop :=
  (Programs.after (baseUploadOnDownload o) s).upNodes = s.upNodes

/-- There are no nodes in the upload graph and table. -/
def Host.NoNodes (s : Host) : Prop := s.gUp.vertices = [] ∧ s.atUp.a.entries = []

/-- A failing operation throws in the checks it makes before it merges or removes nodes.
Clearing empties the tables before all checks. -/
def Operation.ThrowsEarly (o : Analyses) (s : Host) : Operation → Prop
  | .add g _ => g.isCommands = true ∨ Throws (addChecks o g) s
  | .remove g force =>
    g.isCommands = true ∨ Throws (checkTablesForSubgraph g) s ∨ Throws (removeChecks o g force) s
  | .keep g force =>
    g.isCommands = true ∨ Throws (checkTablesForSubgraph g) s ∨ Throws (keepChecks o g force) s
  | .overwrite g _ => g.isCommands = true ∨ Throws (nullify >>= fun _ => additionChecks g) s
  | .clear _ => True

/-- What has been thrown away by then was there again, or had not been there. -/
def Operation.Restored (o : Analyses) (s : Host) : Operation → Prop
  | .add g _ => g.isCommands = true ∨ Redownloads o s
  | .remove g _ | .keep g _ =>
    g.isCommands = true ∨ Throws (checkTablesForSubgraph g) s ∨ Redownloads o s
  | .overwrite g _ => g.isCommands = true ∨ s.NoNodes
  | .clear _ => s.NoNodes

/-! ### What the checks keep -/

section Keeps

variable {γ : Type} {f : Host → γ} {α : Type}

theorem keeps_raise (what : String) : Keeps f (raise what : Prog α) := keeps_throw _

theorem keeps_check (x : Except String α) : Keeps f (check x) := by
  cases x with
  | ok a => exact keeps_pure a
  | error what => exact keeps_raise what

theorem keeps_checkAs (intro : String) (x : Except String α) : Keeps f (checkAs intro x) := by
  cases x with
  | ok a => exact keeps_pure a
  | error what => exact keeps_raise _

theorem keeps_hashAdd (name : String) : Keeps Host.up (hashAdd name) :=
  keeps_get.bind fun _ => (keeps_check _).bind fun _ => keeps_modify fun _ => rfl

theorem keeps_metaVertex (x : HostVertex) (name : String) (type : NodeType) :
    Keeps f (metaVertex x name type) :=
  keeps_get.bind fun _ => (keeps_check _).bind fun _ => keeps_pure _

theorem keeps_setMetaPattern (m : HostVertex) : Keeps Host.up (setMetaPattern m) :=
  keeps_modify fun _ => rfl

theorem keeps_generateDstLst (g : HostGraph) (v : Nat) (x : HostVertex) :
    Keeps Host.up (generateDstLst g v x) :=
  (keeps_hashAdd _).bind fun _ => (keeps_metaVertex _ _ _).bind fun _ =>
    (keeps_setMetaPattern _).bind fun _ => keeps_pure _

theorem keeps_generateQmeta (g : HostGraph) (v : Nat) (x : HostVertex) (prio : Nat) :
    Keeps Host.up (generateQmeta g v x prio) := by
  apply (keeps_hashAdd _).bind
  intro _
  apply (keeps_hashAdd _).bind
  intro _
  apply (keeps_hashAdd _).bind
  intro _
  apply (keeps_metaVertex _ _ _).bind
  intro vBl
  apply (keeps_metaVertex _ _ _).bind
  intro vB0
  apply (keeps_metaVertex _ _ _).bind
  intro vB1
  apply (keeps_setMetaPattern vBl).bind
  intro _
  apply (keeps_setMetaPattern vB0).bind
  intro _
  apply (keeps_setMetaPattern vB1).bind
  intro _
  exact keeps_pure _

theorem keeps_generateQueue (g : HostGraph) (v : Nat) (x : HostVertex) (prio : Nat)
    (gen has : Bool) : Keeps Host.up (generateQueue g v x prio gen has) :=
  keeps_ite (keeps_generateQmeta g v x prio) (keeps_pure g)

theorem keeps_generateMetaOf (g : HostGraph) (v : Nat) (x : HostVertex) :
    Keeps Host.up (generateMetaOf g v x) := by
  apply (keeps_checkAs _ _).bind
  intro genIl
  apply (keeps_checkAs _ _).bind
  intro genHi
  apply (keeps_checkAs _ _).bind
  intro genLo
  apply (keeps_generateQueue _ _ _ _ _ _).bind
  intro g
  apply (keeps_generateQueue _ _ _ _ _ _).bind
  intro g
  apply (keeps_generateQueue _ _ _ _ _ _).bind
  intro g
  exact keeps_ite (keeps_generateDstLst g v x) (keeps_pure g)

theorem keeps_generateBlockMeta (g : HostGraph) : Keeps Host.up (generateBlockMeta g) := by
  apply keeps_foldlM
  intro g v
  unfold generateMetaAt
  split
  next => exact keeps_pure g
  next x _ => exact keeps_ite (keeps_generateMetaOf g v x) (keeps_pure g)

theorem keeps_findDuplicates (gTmp : HostGraph) : Keeps Host.up (findDuplicates gTmp) := by
  apply keeps_foldlM
  intro duplicates wi
  apply (keeps_hashAdd _).bind
  intro _
  apply keeps_get.bind
  intro s
  split
  next => exact keeps_pure _
  next => exact keeps_ite (keeps_raise _) (keeps_pure _)

theorem keeps_additionChecks (gTmp : HostGraph) : Keeps Host.up (additionChecks gTmp) :=
  (keeps_generateBlockMeta gTmp).bind fun _ => (keeps_findDuplicates _).bind fun _ => keeps_pure _

theorem keeps_checkTables (g : HostGraph) : Keeps f (checkTablesForSubgraph g) := by
  apply keeps_forM
  intro x
  apply keeps_get.bind
  intro s
  apply (keeps_check _).bind
  intro hash
  exact keeps_ite (keeps_raise _) (keeps_ite (keeps_raise _) (keeps_pure _))

theorem keeps_safetyCheck (o : Analyses) (g : HostGraph) (force : Bool) :
    Keeps f (safetyCheck o g force) := by
  apply keeps_get.bind
  intro s
  apply (keeps_check _).bind
  rintro ⟨isSafe, report, ctAdditions⟩
  exact keeps_ite (keeps_pure _) (keeps_raise _)

end Keeps

/-! ### Management data -/

theorem insertMgmt_stored {t t' : AllocTable} {cpu : CpuIdx} {adr : Word} {buf : Option Block}
    {ok : Bool} (h : t.insertMgmt cpu adr buf = some (t', ok)) : t'.stored = t.stored := by
  unfold AllocTable.insertMgmt at h
  split at h
  next vPool hoccupy =>
    cases h
    exact congrArg (Prod.mk t.a) (occupyAt_marks hoccupy)
  next => cases h

theorem allocateMgmt_stored {t t' : AllocTable} {cpu : CpuIdx} {allocState : Int}
    (h : t.allocateMgmt cpu = some (t', allocState)) : t'.stored = t.stored := by
  unfold AllocTable.allocateMgmt at h
  split at h
  next =>
    cases h
    rfl
  next p hp =>
    split at h
    next =>
      cases h
      rfl
    next adr p' hacquire =>
      split at h
      next hinsert =>
        cases h
        obtain ⟨-, rfl⟩ := MemPool.acquireChunk_spec hacquire
        exact (insertMgmt_stored hinsert).trans
          (congrArg (Prod.mk t.a) (marks_set hp rfl rfl))
      next => cases h

theorem allocateMgmtLoop_stored {chunks : Nat} {t t' : AllocTable} {report : Report}
    (h : AllocTable.allocateMgmtLoop chunks t = some (t', report)) : t'.stored = t.stored := by
  induction chunks generalizing t with
  | zero =>
    cases h
    rfl
  | succ chunks ih =>
    unfold AllocTable.allocateMgmtLoop at h
    split at h
    next halloc =>
      split at h
      next => exact (ih h).trans (allocateMgmt_stored halloc)
      next =>
        cases h
        exact allocateMgmt_stored halloc
    next => cases h

theorem allocateMgmtFor_stored {t t' : AllocTable} {container : List Bitmap.Byte} {report : Report}
    (h : t.allocateMgmtFor container = some (t', report)) : t'.stored = t.stored := by
  unfold AllocTable.allocateMgmtFor at h
  split at h
  next => cases h
  next =>
    dsimp only at h
    split at h
    next =>
      cases h
      rfl
    next => exact allocateMgmtLoop_stored h

theorem upNodes_congr {s s' : Host} (hg : s'.gUp.vertices = s.gUp.vertices)
    (ha : s'.atUp.a = s.atUp.a) : s'.upNodes = s.upNodes := by
  unfold Host.upNodes Host.nodes HostGraph.keys
  rw [hg, ha]

theorem upNodes_of_up {s s' : Host} (h : s'.up = s.up) : s'.upNodes = s.upNodes := by
  obtain ⟨hg, ha⟩ := Prod.mk.inj h
  exact upNodes_congr (congrArg _ hg) (congrArg _ ha)

theorem keeps_generateMgmtData (o : Analyses) : Keeps Host.upNodes (generateMgmtData o) := by
  intro s
  cases h : s.atUp.allocateMgmtFor (o.container s.gt s.ct) with
  | none =>
    change Host.upNodes (Programs.after (defined (s.atUp.allocateMgmtFor _) >>= _) s) = _
    rw [h]
    rfl
  | some x =>
    obtain ⟨t, r⟩ := x
    have hstored : Host.upNodes { s with atUp := t } = s.upNodes :=
      upNodes_congr rfl (congrArg Prod.fst (allocateMgmtFor_stored h))
    change Host.upNodes (Programs.after (defined (s.atUp.allocateMgmtFor _) >>= _) s) = _
    rw [h, ← hstored]
    cases r with
    | error what => rfl
    | _ => exact upNodes_congr rfl rfl

theorem keeps_upload (o : Analyses) : Keeps Host.upNodes (upload o) :=
  (keeps_generateMgmtData o).bind fun _ => keeps_modify fun _ => rfl

/-! ### What a failing operation leaves -/

section Operations

variable (o : Analyses) {s s' t : Host}

theorem after_tagged {g : HostGraph} (h : g.isCommands = true) (q : Unit → Prog Unit) :
    Programs.after (tagCheck g >>= q) s = s := by
  have hthrows : Throws (tagCheck g) s := by
    unfold tagCheck
    rw [if_pos h]
    exact ⟨_, _, rfl⟩
  rw [after_bind_of_throws hthrows]
  exact keeps_ite (f := id) (keeps_raise _) (keeps_pure _) s

theorem after_untagged {g : HostGraph} (h : ¬ g.isCommands = true) (q : Unit → Prog Unit) :
    Programs.after (tagCheck g >>= q) s = Programs.after (q ()) s := by
  unfold tagCheck
  rw [if_neg h]
  rfl

theorem after_checks {α : Type} {q : Unit → Prog α} (hq : ∀ a, Keeps Host.up (q a)) (s : Host) :
    (Programs.after (baseUploadOnDownload o >>= q) s).upNodes =
      (Programs.after (baseUploadOnDownload o) s).upNodes :=
  upNodes_of_up (after_bind_keeps hq s)

theorem after_addChecks (g : HostGraph) (s : Host) :
    (Programs.after (addChecks o g) s).upNodes =
      (Programs.after (baseUploadOnDownload o) s).upNodes :=
  after_checks o (fun _ => keeps_additionChecks g) s

theorem after_removeChecks (g : HostGraph) (force : Bool) (s : Host) :
    (Programs.after (removeChecks o g force) s).upNodes =
      (Programs.after (baseUploadOnDownload o) s).upNodes := by
  apply after_checks
  intro _
  apply (keeps_generateBlockMeta g).bind
  intro g'
  exact (keeps_safetyCheck o g' force).bind fun _ => keeps_pure _

theorem after_keepChecks (g : HostGraph) (force : Bool) (s : Host) :
    (Programs.after (keepChecks o g force) s).upNodes =
      (Programs.after (baseUploadOnDownload o) s).upNodes := by
  apply after_checks
  intro _
  apply (keeps_generateBlockMeta g).bind
  intro gTmpKeep
  apply keeps_get.bind
  intro s
  exact (keeps_safetyCheck o _ force).bind fun _ => keeps_pure _

theorem upNodes_nullified (h : t.upNodes = (Programs.after nullify s).upNodes) :
    t.upNodes = s.upNodes ↔ s.NoNodes := by
  have hempty : (Programs.after nullify s).upNodes = (0, ∅) := by
    refine Prod.ext rfl ?_
    refine Set.eq_empty_of_forall_notMem ?_
    rintro hash ⟨e, he, -⟩
    exact UniqueSet.notMem_empty e he
  rw [h, hempty]
  constructor
  · intro heq
    obtain ⟨hg, ha⟩ := Prod.mk.inj heq
    constructor
    · have hkeys : s.gUp.keys = [] := (Multiset.coe_eq_zero _).1 hg.symm
      exact List.map_eq_nil_iff.1 hkeys
    · refine List.eq_nil_iff_forall_not_mem.2 fun e he => ?_
      have hmem : e.hash ∈ s.nodes.atUp := ⟨e, he, rfl⟩
      rw [← show (∅ : Set Word) = s.nodes.atUp from ha] at hmem
      exact hmem
  · rintro ⟨hg, ha⟩
    refine Prod.ext ?_ ?_
    · change 0 = Multiset.ofList s.gUp.keys
      unfold HostGraph.keys
      rw [hg]
      rfl
    · refine (Set.eq_empty_of_forall_notMem ?_).symm
      rintro hash ⟨e, he, -⟩
      rw [← UniqueSet.mem_entries, ha] at he
      exact List.not_mem_nil he

theorem tagged_iff {g : HostGraph} (h : g.isCommands = true) (q : Unit → Prog Unit) (P : Prop) :
    (Programs.after (tagCheck g >>= q) s).upNodes = s.upNodes ↔ g.isCommands = true ∨ P :=
  iff_of_true (congrArg _ (after_tagged h q)) (Or.inl h)

theorem add_iff {g : HostGraph} {force : Bool} (h : (Operation.add g force).ThrowsEarly o s) :
    (Programs.after (add o g force) s).upNodes = s.upNodes ↔ (Operation.add g force).Restored o s := by
  by_cases htag : g.isCommands = true
  · exact tagged_iff htag _ _
  · have hthrows : Throws (addChecks o g) s := h.resolve_left htag
    have hafter : (Programs.after (add o g force) s).upNodes =
        (Programs.after (baseUploadOnDownload o) s).upNodes := by
      rw [← after_addChecks o g s]
      exact congrArg _ ((after_untagged htag _).trans (after_bind_of_throws hthrows _))
    rw [hafter]
    exact ⟨Or.inr, fun hr => hr.resolve_left htag⟩

/-- `remove` and `keep` look into the tables and make their checks behind the download. -/
theorem subtract_iff {α : Type} {g : HostGraph} {checks : Prog α} {q : α → Prog Unit}
    (hchecks : (Programs.after checks s).upNodes =
      (Programs.after (baseUploadOnDownload o) s).upNodes)
    (h : g.isCommands = true ∨ Throws (checkTablesForSubgraph g) s ∨ Throws checks s) :
    (Programs.after (tagCheck g >>= fun _ => checkTablesForSubgraph g >>= fun _ => checks >>= q)
        s).upNodes = s.upNodes ↔
      g.isCommands = true ∨ Throws (checkTablesForSubgraph g) s ∨ Redownloads o s := by
  have htables : Programs.after (checkTablesForSubgraph g) s = s := keeps_checkTables (f := id) g s
  by_cases htag : g.isCommands = true
  · exact tagged_iff htag _ _
  · rw [after_untagged htag]
    by_cases hcheck : Throws (checkTablesForSubgraph g) s
    · rw [after_bind_of_throws hcheck, htables]
      exact iff_of_true rfl (Or.inr (Or.inl hcheck))
    · have hthrows : Throws checks s := (h.resolve_left htag).resolve_left hcheck
      rw [after_bind_of_passes htables hcheck, after_bind_of_throws hthrows, hchecks]
      constructor
      · exact fun hr => Or.inr (Or.inr hr)
      · exact fun hr => (hr.resolve_left htag).resolve_left hcheck

theorem overwrite_iff {g : HostGraph} {force : Bool}
    (h : (Operation.overwrite g force).ThrowsEarly o s) :
    (Programs.after (overwrite o g force) s).upNodes = s.upNodes ↔
      (Operation.overwrite g force).Restored o s := by
  by_cases htag : g.isCommands = true
  · exact tagged_iff htag _ _
  · have hthrows : Throws (additionChecks g) (Programs.after nullify s) := h.resolve_left htag
    have hafter : (Programs.after (overwrite o g force) s).upNodes =
        (Programs.after nullify s).upNodes := by
      have hrest := after_bind_of_throws (hthrows.bind fun x => merge o x.1 x.2)
        fun _ => validate o force >>= fun _ =>
          activityCheck (fun s => s.dm.thrRun) "overwrite" force >>= fun _ => upload o
      have hchecks := after_bind_of_throws hthrows fun x => merge o x.1 x.2
      have hkeeps := upNodes_of_up (keeps_additionChecks g (Programs.after nullify s))
      rw [← hkeeps]
      exact congrArg _ ((after_untagged htag _).trans (hrest.trans hchecks))
    rw [upNodes_nullified hafter]
    exact ⟨Or.inr, fun hr => hr.resolve_left htag⟩

theorem clear_iff (force : Bool) :
    (Programs.after (clear_raw o force) s).upNodes = s.upNodes ↔ s.NoNodes := by
  apply upNodes_nullified
  have hactivity : Keeps Host.upNodes
      (activityCheck (fun s => s.dm.thrStart ++ s.dm.thrRun) "clear" force) :=
    keeps_get.bind fun _ => keeps_ite (keeps_raise _) (keeps_pure _)
  exact after_bind_keeps (fun _ => hactivity.bind fun _ => keeps_upload o) s

theorem func_iff {op : Operation} (h : op.ThrowsEarly o s) :
    (Programs.after (op.func o) s).upNodes = s.upNodes ↔ op.Restored o s := by
  cases op with
  | add g force => exact add_iff o h
  | remove g force => exact subtract_iff o (after_removeChecks o g force s) h
  | keep g force => exact subtract_iff o (after_keepChecks o g force s) h
  | overwrite g force => exact overwrite_iff o h
  | clear force => exact clear_iff o force

/-- **A failing operation** that throws before it merges or removes nodes leaves the nodes
of all tables as they were exactly if what it has thrown away was there again. -/
theorem failing_operation_iff {op : Operation} {what : String}
    (h : op.run o s = .error (.thrown what) s') (hearly : op.ThrowsEarly o s) :
    s'.nodes = s.nodes ↔ op.Restored o s := by
  obtain ⟨t, hfunc, rfl⟩ := transaction_error Fault.isThrown rfl h
  rw [← func_iff o hearly, after_error hfunc]
  constructor
  · intro hnodes
    have hg := congrArg Nodes.gUp hnodes
    have ha := congrArg Nodes.atUp hnodes
    exact Prod.ext hg ha
  · intro hup
    obtain ⟨hg, ha⟩ := Prod.mk.inj hup
    exact Nodes.ext rfl rfl ha hg

end Operations

def Operation.Spares (o : Analyses) (s : Host) (op : Operation) : Prop :=
  op.ThrowsEarly o s ∧ op.Restored o s

/-- In every run whose failing operations all meet the condition, each of them leaves the
nodes of all tables as it has found them, and tables that agree go on to agree. A failing
operation that throws early leaves the nodes only if it meets the condition. -/
theorem failing_turns_keep_nodes (o : Analyses) (s₀ : Host) (turns : List Turn) :
    ((∀ n x s s', Fails o s₀ turns n x s s' → x.op.Spares o (s.found x.dm)) →
      ∀ n x s s', Fails o s₀ turns n x s s' →
        s'.nodes = s.nodes ∧ (s.nodes.Agree → s'.nodes.Agree)) ∧
    ∀ n x s s', Fails o s₀ turns n x s s' → x.op.ThrowsEarly o (s.found x.dm) →
      (s'.nodes = s.nodes ↔ x.op.Spares o (s.found x.dm)) := by
  constructor
  · intro hspares n x s s' hfails
    obtain ⟨hearly, hrestored⟩ := hspares n x s s' hfails
    obtain ⟨-, -, what, hthrown⟩ := hfails
    have hnodes : s'.nodes = s.nodes := (failing_operation_iff o hthrown hearly).2 hrestored
    refine ⟨hnodes, ?_⟩
    rw [hnodes]
    exact id
  · rintro n x s s' ⟨-, -, what, hthrown⟩ hearly
    refine (failing_operation_iff o hthrown hearly).trans ?_
    exact ⟨fun h => ⟨hearly, h⟩, And.right⟩

/-! ### A failing run -/

/-- The host before its first operation. -/
def Host.fresh (memories : List Space) : Host where
  hm := .empty
  gt := .empty
  ct := .empty
  atUp := .fresh memories
  gUp := {}
  atDown := .fresh memories
  gDown := {}
  dm :=
    { bmps := [], chunk := fun _ _ => blockOf [], mgmt := none, thrStart := [], thrRun := [] }

def oneBlock : HostGraph where
  vertices :=
    [{ v := Dot.readVertex
        { name := "B", type := .blockFixed, attrs := [(.cpu, "0"), (.tPeriod, "1000")] }
       hash := Dot.fnvHash "B"
       np := none }]
  edges := [⟨0, 0, .defDst⟩]

def crawlBlock (g : HostGraph) (t : AllocTable) (v : Nat) :
    Except String (Dot.Node × List Word) :=
  match g.vertices[v]?, (g.outEdges v).find? fun e => e.type == .defDst with
  | some ⟨_, _, some n⟩, some e => do
    let x ← t.lookupVertex e.target
    pure (n, [(t.adrConv .MGMT .INT x.cpu x.adr).getD lm32NullPtr, 0, 0, 0, 0])
  | _, _ => .error "VisitorUploadCrawler: "

/-- Analyses that find nothing to object to. -/
def lenient : Analyses where
  validate _ _ _ := .ok ()
  isSafeToRemove _ _ := .ok (true, "", .empty)
  isCovenantPending _ _ := .ok false
  crawlUp := crawlBlock
  crawlDown _ _ _ := .ok []
  container _ _ := [0]
  beginToEnd := id

def idleDevice : Device := (Host.fresh []).dm

/-- A schedule is written, and the host is asked to clear it while it is running. -/
def clearedWhileRunning : List Turn :=
  [{ dm := idleDevice, op := .overwrite oneBlock false },
    { dm := { idleDevice with thrRun := [1] }, op := .clear false }]

/-- The tables hold just these nodes. -/
def Host.Holds (s : Host) (keys : List (String × Word)) : Prop :=
  s.gUp.keys = keys ∧ s.atUp.a.entries.map AllocMeta.hash = keys.map Prod.snd ∧
    s.hm.entries = keys.map (fun x => ⟨x.2, x.1⟩) ∧ s.gt.entries.map GroupMeta.node = keys.map Prod.fst

instance (s : Host) (keys : List (String × Word)) : Decidable (s.Holds keys) :=
  inferInstanceAs (Decidable (_ ∧ _ ∧ _ ∧ _))

theorem agree_of_holds {s : Host} {keys : List (String × Word)} (h : s.Holds keys)
    (hunique : (keys.map Prod.snd).Nodup) : s.nodes.Agree := by
  obtain ⟨hg, ha, hhm, hgt⟩ := h
  constructor
  · change (Multiset.map Prod.snd (Multiset.ofList s.gUp.keys)).Nodup
    rw [hg]
    exact hunique
  · ext hash
    have hmem : (∃ e ∈ s.atUp.a, e.hash = hash) ↔ hash ∈ s.atUp.a.entries.map AllocMeta.hash :=
      List.mem_map.symm
    refine hmem.trans ?_
    rw [ha, List.mem_map]
    change _ ↔ ∃ name, (name, hash) ∈ Multiset.ofList s.gUp.keys
    rw [hg]
    constructor
    · rintro ⟨⟨name, hash⟩, hx, rfl⟩
      exact ⟨name, hx⟩
    · rintro ⟨name, hx⟩
      exact ⟨(name, hash), hx, rfl⟩
  · ext ⟨hash, name⟩
    have hmem : (⟨hash, name⟩ : HashEntry) ∈ s.hm ↔ (⟨hash, name⟩ : HashEntry) ∈ s.hm.entries := Iff.rfl
    refine hmem.trans ?_
    rw [hhm, List.mem_map]
    change _ ↔ (name, hash) ∈ Multiset.ofList s.gUp.keys
    rw [hg]
    constructor
    · rintro ⟨x, hx, heq⟩
      cases heq
      exact hx
    · intro hx
      exact ⟨(name, hash), hx, rfl⟩
  · ext name
    have hmem : (∃ x ∈ s.gt, x.node = name) ↔ name ∈ s.gt.entries.map GroupMeta.node :=
      List.mem_map.symm
    refine hmem.trans ?_
    rw [hgt, List.mem_map]
    change _ ↔ ∃ hash, (name, hash) ∈ Multiset.ofList s.gUp.keys
    rw [hg]
    constructor
    · rintro ⟨⟨name, hash⟩, hx, rfl⟩
      exact ⟨hash, hx⟩
    · rintro ⟨hash, hx⟩
      exact ⟨(name, hash), hx, rfl⟩

/-- A schedule is written, and a node of it is to be added once more. -/
def addedTwice (dm : Device) : List Turn :=
  [{ dm := idleDevice, op := .overwrite oneBlock false }, { dm, op := .add oneBlock false }]

theorem upNodes_of_lists {s s' : Host} (hg : s'.gUp.keys = s.gUp.keys)
    (ha : s'.atUp.a.entries.map AllocMeta.hash = s.atUp.a.entries.map AllocMeta.hash) :
    s'.upNodes = s.upNodes := by
  refine Prod.ext (congrArg Multiset.ofList hg) ?_
  ext hash
  have hmem (t : Host) : hash ∈ t.nodes.atUp ↔ hash ∈ t.atUp.a.entries.map AllocMeta.hash :=
    List.mem_map.symm
  refine (hmem s').trans ?_
  rw [ha]
  exact (hmem s).symm

/-- Adding a node twice fails after a download, which finds the node on the device. -/
theorem addedTwice_keeps_nodes :
    ∃ dm x s s', Fails lenient (Host.fresh [AllocTable.fourBlocks]) (addedTwice dm) 1 x s s' ∧
      s.nodes.Agree ∧ s'.nodes = s.nodes := by
  have hrun : ((Host.fresh [AllocTable.fourBlocks]).after lenient (clearedWhileRunning.take 1)).any
      (fun s =>
        decide (s.Holds [("B", 0xdcdcf25f)]) && decide (Throws (addChecks lenient oneBlock) s) &&
        decide ((Programs.after (baseUploadOnDownload lenient) s).gUp.keys = s.gUp.keys) &&
        decide ((Programs.after (baseUploadOnDownload lenient) s).atUp.a.entries.map AllocMeta.hash =
          s.atUp.a.entries.map AllocMeta.hash) &&
        match (Operation.add oneBlock false).run lenient s with
        | .error (.thrown _) _ => true
        | _ => false) = true := by
    decide +kernel
  obtain ⟨s, hs, hrest⟩ := (Option.any_eq_true _ _).1 hrun
  simp only [Bool.and_eq_true, decide_eq_true_iff] at hrest
  obtain ⟨⟨⟨⟨hholds, hthrows⟩, hg⟩, ha⟩, hadd⟩ := hrest
  split at hadd
  next what s' hthrown =>
    have hfails : Fails lenient (Host.fresh [AllocTable.fourBlocks]) (addedTwice s.dm) 1
        { dm := s.dm, op := .add oneBlock false } s s' := ⟨rfl, hs, what, hthrown⟩
    have hkept := (failing_turns_keep_nodes lenient _ (addedTwice s.dm)).2 1 _ s s' hfails
      (Or.inr hthrows)
    exact ⟨s.dm, _, s, s', hfails, agree_of_holds hholds (by decide),
      hkept.2 ⟨Or.inr hthrows, Or.inr (upNodes_of_lists hg ha)⟩⟩
  next => cases hadd

/-- Clearing fails because a thread is running. By then graph and allocation table are
empty, and only the hash map and the group table come back. -/
theorem clear_loses_nodes :
    ∃ s s', (∃ x, Fails lenient (Host.fresh [AllocTable.fourBlocks]) clearedWhileRunning 1 x s s') ∧
      s.nodes.Agree ∧ s'.nodes ≠ s.nodes ∧ ¬ s'.nodes.Agree := by
  have hrun : ((Host.fresh [AllocTable.fourBlocks]).after lenient (clearedWhileRunning.take 1)).any
      (fun s =>
        decide (s.Holds [("B", 0xdcdcf25f)]) &&
        match (clearedWhileRunning.get ⟨1, by decide⟩).run lenient s with
        | .error (.thrown _) s' => decide (s'.gUp.keys = []) && decide (s'.hm.entries = s.hm.entries)
        | _ => false) = true := by
    decide +kernel
  obtain ⟨s, hs, hrest⟩ := (Option.any_eq_true _ _).1 hrun
  rw [Bool.and_eq_true, decide_eq_true_iff] at hrest
  obtain ⟨hholds, hclear⟩ := hrest
  split at hclear
  next what s' hthrown =>
    rw [Bool.and_eq_true, decide_eq_true_iff, decide_eq_true_iff] at hclear
    obtain ⟨hempty, hhm⟩ := hclear
    refine ⟨s, s', ⟨_, rfl, hs, what, hthrown⟩, agree_of_holds hholds (by decide), ?_, ?_⟩
    · intro hnodes
      have hkeys : s'.nodes.gUp = s.nodes.gUp := congrArg Nodes.gUp hnodes
      have hlists : Multiset.ofList s'.gUp.keys = Multiset.ofList s.gUp.keys := hkeys
      rw [hempty, hholds.1] at hlists
      cases (Multiset.coe_eq_zero _).1 hlists.symm
    · intro hagree
      have hmem : (⟨0xdcdcf25f, "B"⟩ : HashEntry) ∈ s'.nodes.hm := by
        change _ ∈ s'.hm.entries
        rw [hhm, hholds.2.2.1]
        exact List.mem_cons_self
      rw [hagree.hash] at hmem
      have hnone : ("B", (0xdcdcf25f : Word)) ∈ Multiset.ofList s'.gUp.keys := hmem
      rw [hempty] at hnone
      exact List.not_mem_nil hnone
  next => cases hclear

end DataMaster.CarpeDM
