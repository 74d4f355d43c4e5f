import BelProjects.DataMaster.Firmware.Scheduler

/-!
# What a node handler writes

`nodeFootprint` lists the word addresses that executing a node may write, computed
from the state before the execution.  It follows the pointers of the node as the
handler does, so it says where a stray pointer would lead; every other word keeps
its value.
-/

namespace DataMaster

def Frame (W : List Nat) (m m' : Mem) : Prop := ∀ a, a ∉ W → m' a = m a

theorem Frame.refl (W : List Nat) (m : Mem) : Frame W m m := fun _ _ => rfl

theorem Frame.trans {W : List Nat} {m₁ m₂ m₃ : Mem} (h₁₂ : Frame W m₁ m₂)
    (h₂₃ : Frame W m₂ m₃) : Frame W m₁ m₃ :=
  fun a ha => (h₂₃ a ha).trans (h₁₂ a ha)

theorem Frame.mono {W W' : List Nat} {m m' : Mem} (h : Frame W m m') (hW : W ⊆ W') :
    Frame W' m m' :=
  fun a ha => h a fun hmem => ha (hW hmem)

variable (P : Platform)

def Platform.w32 (ptr : Word) : List Nat := [P.adr ptr]

def Platform.w64 (ptr : Word) : List Nat := [P.adr ptr, P.adr (ptr + 4)]

theorem Frame.st {W : List Nat} {m m' : Mem} {ptr v : Word} (h : Frame W m m')
    (hW : P.adr ptr ∈ W) : Frame W m (P.st m' ptr v) := by
  intro a ha
  rw [P.st_other, h a ha]
  rintro rfl
  exact ha hW

theorem Frame.st64 {W : List Nat} {m m' : Mem} {ptr : Word} {v : Time} (h : Frame W m m')
    (hW : P.adr ptr ∈ W ∧ P.adr (ptr + 4) ∈ W) : Frame W m (P.st64 m' ptr v) :=
  (h.st P hW.1).st P hW.2

/-! ### Footprints -/

def actionFootprint (node thrData : Word) : List Nat :=
  P.w32 statusPtr ++ P.w32 badwaitcntPtr ++ P.w32 (node + nodeDefDestPtr) ++
    P.w32 (node + blockCmdqRdIdxs) ++ P.w64 (node + blockPeriod) ++ P.w64 (thrData + tTdCurrtime)

def diagFootprint : List Nat :=
  P.w64 diffsumPtr ++ P.w64 diffminPtr ++ P.w64 diffmaxPtr ++ P.w64 countPtr ++
    P.w32 diffwcntPtr ++ P.w32 diffwhashPtr ++ P.w64 diffwtsPtr

def tmsgFootprint (node thrData : Word) : List Nat :=
  P.w32 (node + nodeFlags) ++ diagFootprint P ++ P.w64 (thrData + tTdMsgCnt)

def elemFootprint (e : Word) : List Nat :=
  P.w64 (e + tCmdTime) ++ P.w32 (e + tCmdAct) ++ P.w32 (e + (tCmdAct + 4)) ++
    P.w32 (e + (tCmdAct + 8))

def cmdFootprint (s : Cpu) (node : Word) : List Nat :=
  let tg := P.ld s.mem (node + cmdTarget)
  P.w32 abort1Ptr ++ P.w32 statusPtr ++ P.w32 (node + nodeFlags) ++
    elemFootprint P (writeElem P (s.paint P node).mem tg (cmdPrio P s.mem node)) ++
    P.w32 (tg + blockCmdqWrIdxs)

def cswitchFootprint (s : Cpu) (node : Word) : List Nat :=
  P.w32 (node + nodeFlags) ++ P.w32 (P.ld s.mem (node + switchTarget) + nodeDefDestPtr)

/-- Action words of the elements at the heads of the block's queues. -/
def headFootprint (m : Mem) (node : Word) : List Nat :=
  ([prioIl, prioHi, prioLo].filter fun prio => P.hasQueue m node prio).flatMap
    fun prio => P.w32 (readElem P m node prio + tCmdAct)

def blockFootprint (s : Cpu) (node thrData : Word) : List Nat :=
  P.w32 (node + nodeFlags) ++ headFootprint P (s.paint P node).mem node ++
    actionFootprint P node thrData ++ P.w64 (thrData + tTdDeadline)

def originFootprint (s : Cpu) (node : Word) : List Nat :=
  P.w32 (thrStaOf (P.ld s.mem (node + originThr)) + tTsNodePtr)

def startThreadFootprint (s : Cpu) (node : Word) : List Nat :=
  P.w64 (thrStaOf (P.ld s.mem (node + startthreadThr)) + tTsStarttime) ++ P.w32 startPtr

/-- The words that executing `node` on the thread record `thrData` may write. -/
def nodeFootprint (s : Cpu) (node thrData : Word) : NodeType → List Nat
  | .tmsg => tmsgFootprint P node thrData
  | .cnoop | .cflow | .cflush | .cwait => cmdFootprint P s node
  | .cswitch => cswitchFootprint P s node
  | .blockFixed | .blockAlign => blockFootprint P s node thrData
  | .origin => originFootprint P s node
  | .startthread => startThreadFootprint P s node
  | .null | .mgmt | .covenant => []
  | .unknown | .raw | .queue | .qbuf | .share | .altdst => P.w32 statusPtr

/-! ### Frames of the handlers -/

theorem paint_frame {W : List Nat} {m : Mem} {s : Cpu} {node : Word} (h : Frame W m s.mem)
    (hW : P.adr (node + nodeFlags) ∈ W) : Frame W m (s.paint P node).mem :=
  h.st P hW

theorem setStatus_frame {W : List Nat} {m : Mem} {s : Cpu} {bits : Word} (h : Frame W m s.mem)
    (hW : P.adr statusPtr ∈ W) : Frame W m (s.setStatus P bits).mem :=
  h.st P hW

theorem tmsgDiagnostics_frame {W : List Nat} {m : Mem} {s : Cpu} (node : Word) (diff now : Time)
    (h : Frame W m s.mem) (hW : diagFootprint P ⊆ W) :
    Frame W m (tmsgDiagnostics P s node diff now).mem := by
  unfold tmsgDiagnostics
  extract_lets diffsum sum overflow s₁ diffmin s₂ diffmax s₃ s₄ late s₅ diffwhash s₆ diffwts
  have h₁ : Frame W m s₁.mem := h.st64 P ⟨hW (by simp [diagFootprint, Platform.w64]),
    hW (by simp [diagFootprint, Platform.w64])⟩
  have h₂ : Frame W m s₂.mem := h₁.st64 P ⟨hW (by simp [diagFootprint, Platform.w64]),
    hW (by simp [diagFootprint, Platform.w64])⟩
  have h₃ : Frame W m s₃.mem := h₂.st64 P ⟨hW (by simp [diagFootprint, Platform.w64]),
    hW (by simp [diagFootprint, Platform.w64])⟩
  have h₄ : Frame W m s₄.mem := h₃.st64 P ⟨hW (by simp [diagFootprint, Platform.w64]),
    hW (by simp [diagFootprint, Platform.w64])⟩
  have h₅ : Frame W m s₅.mem := h₄.st P (hW (by simp [diagFootprint, Platform.w32]))
  have h₆ : Frame W m s₆.mem := h₅.st P (hW (by simp [diagFootprint, Platform.w32]))
  exact h₆.st64 P ⟨hW (by simp [diagFootprint, Platform.w64]),
    hW (by simp [diagFootprint, Platform.w64])⟩

theorem tmsg_frame (s : Cpu) (node thrData : Word) :
    Frame (tmsgFootprint P node thrData) s.mem (tmsg P s node thrData).2.mem := by
  have hpaint : Frame (tmsgFootprint P node thrData) s.mem (s.paint P node).mem :=
    paint_frame P (Frame.refl _ _) (by simp [tmsgFootprint, Platform.w32])
  have hdiag : diagFootprint P ⊆ tmsgFootprint P node thrData := by
    intro a ha
    simp [tmsgFootprint, ha]
  have hsent : ∀ diff now, Frame (tmsgFootprint P node thrData) s.mem
      (tmsgDiagnostics P (s.paint P node).getSysTime.2 node diff now).mem :=
    fun diff now => tmsgDiagnostics_frame P node diff now hpaint hdiag
  unfold tmsg
  extract_lets s₁ tmpPar now s₂ tmpPar' diff s₃ msg s₄ s₅ s₆
  have hcnt : Frame (tmsgFootprint P node thrData) s.mem s₅.mem :=
    (hsent _ _).st64 P (by simp [tmsgFootprint, Platform.w64])
  exact hcnt.st64 P ⟨hdiag (by simp [diagFootprint, Platform.w64]),
    hdiag (by simp [diagFootprint, Platform.w64])⟩

theorem enqueue_frame {W : List Nat} {m : Mem} {s : Cpu} {node e tg : Word} {prio : Nat}
    {tValid : Time} (h : Frame W m s.mem) (he : elemFootprint P e ⊆ W)
    (hW : P.adr (tg + blockCmdqWrIdxs) ∈ W) :
    Frame W m (enqueue P s node e tg prio tValid).mem := by
  unfold enqueue
  extract_lets s₁ s₂ s₃ s₄ wrIdxs
  have h₁ : Frame W m s₁.mem := h.st64 P ⟨he (by simp [elemFootprint, Platform.w64]),
    he (by simp [elemFootprint, Platform.w64])⟩
  have h₂ : Frame W m s₂.mem := h₁.st P (he (by simp [elemFootprint, Platform.w32]))
  have h₃ : Frame W m s₃.mem := h₂.st P (he (by simp [elemFootprint, Platform.w32]))
  have h₄ : Frame W m s₄.mem := h₃.st P (he (by simp [elemFootprint, Platform.w32]))
  exact h₄.st P hW

theorem cmd_frame (s : Cpu) (node thrData : Word) :
    Frame (cmdFootprint P s node) s.mem (cmd P s node thrData).2.mem := by
  have hpaint : Frame (cmdFootprint P s node) s.mem (s.paint P node).mem :=
    paint_frame P (Frame.refl _ _) (by simp [cmdFootprint, Platform.w32])
  simp only [cmd]
  split
  · have habort : Frame (cmdFootprint P s node) s.mem (s.st P abort1Ptr 0xffffffff).mem :=
      (Frame.refl _ _).st P (by simp [cmdFootprint, Platform.w32])
    exact setStatus_frame P habort (by simp [cmdFootprint, Platform.w32])
  · split
    · exact hpaint
    · split
      · exact hpaint
      · apply enqueue_frame P hpaint
        · intro a ha; simp [cmdFootprint, ha]
        · simp [cmdFootprint, Platform.w32]

theorem cswitch_frame (s : Cpu) (node thrData : Word) :
    Frame (cswitchFootprint P s node) s.mem (cswitch P s node thrData).2.mem := by
  have hpaint : Frame (cswitchFootprint P s node) s.mem (s.paint P node).mem :=
    paint_frame P (Frame.refl _ _) (by simp [cswitchFootprint, Platform.w32])
  simp only [cswitch]
  split
  · exact hpaint
  · split
    · exact hpaint
    · exact hpaint.st P (by simp [cswitchFootprint, Platform.w32])

theorem actionFuncs_frame {W : List Nat} {m : Mem} (atype : ActType) {s : Cpu}
    {node c thrData : Word} (h : Frame W m s.mem) (hW : actionFootprint P node thrData ⊆ W) :
    Frame W m (actionFuncs P atype s node c thrData).2.mem := by
  cases atype with
  | unknown => exact setStatus_frame P h (hW (by simp [actionFootprint, Platform.w32]))
  | noop => exact h
  | flow =>
      simp only [actionFuncs, execFlow]
      split
      · exact h.st P (hW (by simp [actionFootprint, Platform.w32]))
      · exact h
  | flush =>
      have hrd : ∀ v, Frame W m (s.st P (node + blockCmdqRdIdxs) v).mem :=
        fun v => h.st P (hW (by simp [actionFootprint, Platform.w32]))
      simp only [actionFuncs, execFlush]
      split
      · split
        · exact (hrd _).st P (hW (by simp [actionFootprint, Platform.w32]))
        · exact hrd _
      · exact hrd _
  | wait =>
      simp only [actionFuncs, execWait]
      split
      · split
        · exact h.st64 P ⟨hW (by simp [actionFootprint, Platform.w64]), hW (by simp [actionFootprint, Platform.w64])⟩
        · exact h.st P (hW (by simp [actionFootprint, Platform.w32]))
      · split
        · exact h.st64 P ⟨hW (by simp [actionFootprint, Platform.w64]), hW (by simp [actionFootprint, Platform.w64])⟩
        · exact h.st64 P ⟨hW (by simp [actionFootprint, Platform.w64]), hW (by simp [actionFootprint, Platform.w64])⟩

/-- A scan that ends with a command ends with the head of one of the block's queues,
or with the command it started from. -/
theorem scanQueues_cmd (m : Mem) (node : Word) :
    ∀ (prios : List Nat) (v : ScanVars) (clk : Nat → Time) (c : Word),
      (scanQueues P m node prios v clk).1.cmd = some c → v.cmd ≠ some c →
      ∃ prio ∈ prios, P.hasQueue m node prio = true ∧ c = readElem P m node prio := by
  intro prios
  induction prios with
  | nil => intro v clk c hc hv; exact absurd hc hv
  | cons prio prios ih =>
      have hlater : ∀ (v : ScanVars) (clk : Nat → Time) (c : Word),
          (scanQueues P m node prios v clk).1.cmd = some c → v.cmd ≠ some c →
          ∃ q ∈ prio :: prios, P.hasQueue m node q = true ∧ c = readElem P m node q := by
        intro v clk c hc hv
        obtain ⟨q, hq, hh⟩ := ih v clk c hc hv
        exact ⟨q, List.mem_cons_of_mem _ hq, hh⟩
      intro v clk c hc hv
      simp only [scanQueues] at hc
      split at hc
      · rename_i hqueue
        split at hc
        · by_cases heq : c = readElem P m node prio
          · exact ⟨prio, List.mem_cons_self, hqueue, heq⟩
          · split at hc
            · exact absurd (Option.some.inj hc).symm heq
            · exact hlater _ _ _ hc fun h => heq (Option.some.inj h).symm
        · exact hlater _ _ _ hc hv
      · exact hlater _ _ _ hc hv

theorem popQueue_frame {W : List Nat} {m : Mem} {s : Cpu} {node : Word} (prio : Nat)
    (n : BitVec 8) (h : Frame W m s.mem) (hW : P.adr (node + blockCmdqRdIdxs) ∈ W) :
    Frame W m (popQueue P s node prio n).mem :=
  h.st P hW

theorem serveCmd_frame {W : List Nat} {m : Mem} {s s' : Cpu} {node thrData c ret r : Word}
    {prio : Nat} (hs : serveCmd P s node thrData c prio ret = some (r, s'))
    (h : Frame W m s.mem) (hact : P.adr (c + tCmdAct) ∈ W)
    (hW : actionFootprint P node thrData ⊆ W) : Frame W m s'.mem := by
  have hrd : P.adr (node + blockCmdqRdIdxs) ∈ W :=
    hW (by simp [actionFootprint, Platform.w32])
  simp only [serveCmd] at hs
  split at hs
  · split at hs
    · exact absurd hs (by simp)
    · rename_i atype _
      obtain ⟨-, rfl⟩ := Prod.mk.inj (Option.some.inj hs)
      exact popQueue_frame P _ _ ((actionFuncs_frame P atype h hW).st P hact) hrd
  · split at hs <;> obtain ⟨-, rfl⟩ := Prod.mk.inj (Option.some.inj hs) <;>
      exact popQueue_frame P _ _ h hrd

theorem block_frame {s s' : Cpu} {node thrData r : Word}
    (hs : block P s node thrData = some (r, s')) :
    Frame (blockFootprint P s node thrData) s.mem s'.mem := by
  have hpaint : Frame (blockFootprint P s node thrData) s.mem (s.paint P node).mem :=
    paint_frame P (Frame.refl _ _) (by simp [blockFootprint, Platform.w32])
  simp only [block] at hs
  split at hs
  · split at hs
    · exact absurd hs (by simp)
    · rename_i c hc
      split at hs
      · obtain ⟨-, rfl⟩ := Prod.mk.inj (Option.some.inj hs)
        exact hpaint
      · obtain ⟨prio, hmem, hqueue, rfl⟩ := scanQueues_cmd P _ _ _ _ _ _ hc (by simp)
        refine serveCmd_frame P hs hpaint ?_ (by intro a ha; simp [blockFootprint, ha])
        have hhead : P.adr (readElem P (s.paint P node).mem node prio + tCmdAct) ∈
            headFootprint P (s.paint P node).mem node :=
          List.mem_flatMap.mpr ⟨prio, List.mem_filter.mpr ⟨hmem, hqueue⟩, by simp [Platform.w32]⟩
        simp [blockFootprint, hhead]
  · obtain ⟨-, rfl⟩ := Prod.mk.inj (Option.some.inj hs)
    exact hpaint

/-- **Footprint of a node**: executing it changes no word outside its footprint. -/
theorem nodeFuncs_frame {s s' : Cpu} {node thrData r : Word} {ty : NodeType}
    (hs : nodeFuncs P s node thrData ty = some (r, s')) :
    Frame (nodeFootprint P s node thrData ty) s.mem s'.mem := by
  have hblock : ∀ {s₁ : Cpu} {v w : Time}, block P s node thrData = some (r, s₁) →
      Frame (blockFootprint P s node thrData) s.mem
        (P.st64 (P.st64 s₁.mem (thrData + tTdCurrtime) v) (thrData + tTdDeadline) w) := by
    intro s₁ v w hb
    exact ((block_frame P hb).st64 P (by simp [blockFootprint, actionFootprint, Platform.w64])).st64 P
      (by simp [blockFootprint, Platform.w64])
  cases ty <;> simp only [nodeFuncs] at hs
  case tmsg => cases hs; exact tmsg_frame P s node thrData
  case cnoop | cflow | cflush | cwait =>
    obtain ⟨-, rfl⟩ := Prod.mk.inj (Option.some.inj hs)
    exact cmd_frame P s node thrData
  case cswitch =>
    obtain ⟨-, rfl⟩ := Prod.mk.inj (Option.some.inj hs)
    exact cswitch_frame P s node thrData
  case blockFixed =>
    simp only [blockFixed] at hs
    split at hs
    · exact absurd hs (by simp)
    · rename_i hb
      obtain ⟨rfl, rfl⟩ := Prod.mk.inj (Option.some.inj hs)
      exact hblock hb
  case blockAlign =>
    simp only [blockAlign] at hs
    split at hs
    · exact absurd hs (by simp)
    · rename_i hb
      obtain ⟨rfl, rfl⟩ := Prod.mk.inj (Option.some.inj hs)
      exact hblock hb
  case origin =>
    obtain ⟨-, rfl⟩ := Prod.mk.inj (Option.some.inj hs)
    exact (Frame.refl _ _).st P (by simp [nodeFootprint, originFootprint, Platform.w32])
  case startthread =>
    obtain ⟨-, rfl⟩ := Prod.mk.inj (Option.some.inj hs)
    exact ((Frame.refl _ _).st64 P (by simp [nodeFootprint, startThreadFootprint, Platform.w64])).st P
      (by simp [nodeFootprint, startThreadFootprint, Platform.w32])
  case null => obtain ⟨-, rfl⟩ := Prod.mk.inj (Option.some.inj hs); exact Frame.refl _ _
  case mgmt | covenant => exact absurd hs (by simp)
  case unknown | raw | queue | qbuf | share | altdst =>
    obtain ⟨-, rfl⟩ := Prod.mk.inj (Option.some.inj hs)
    exact setStatus_frame P (Frame.refl _ _) (by simp [nodeFootprint, Platform.w32])

theorem deadlineFuncs_frame {s s' : Cpu} {node thrData : Word} {ty : NodeType} {t : Time}
    (hs : deadlineFuncs P s node thrData ty = some (t, s')) :
    Frame (P.w32 statusPtr) s.mem s'.mem := by
  cases ty <;> simp only [deadlineFuncs, reduceCtorEq] at hs <;>
    obtain ⟨-, rfl⟩ := Prod.mk.inj (Option.some.inj hs) <;>
    first
      | exact Frame.refl _ _
      | exact setStatus_frame P (Frame.refl _ _) (by simp [nodeFootprint, Platform.w32])

end DataMaster
