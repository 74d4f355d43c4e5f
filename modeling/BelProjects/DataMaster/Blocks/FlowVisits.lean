import BelProjects.DataMaster.Blocks.Deactivated

/-!
# Visits that execute a flow

As long as the next pending command is a valid flow, a visit executes it: the block is left
for the destination of the flow, which becomes the default destination if the flow is
permanent, and the pending commands are those before without one execution of the flow.
-/

namespace DataMaster

def afterOne (x : QueuedCmd) (rest : List QueuedCmd) : List QueuedCmd :=
  if x.counted.qty = 0 then rest else x.counted :: rest

theorem leftOf_eq_afterOne {x : QueuedCmd} {rest : List QueuedCmd} (hqty : actQty x.act ≠ 0) :
    leftOf x rest = afterOne x rest := by
  have hpred := qty_counted hqty
  unfold leftOf afterOne
  by_cases hone : x.qty ≤ 1
  · rw [if_pos hone, if_pos (by omega)]
  · rw [if_neg hone, if_neg (by omega)]

/-- The pending commands of a block, in the order in which visits take them while all are
valid. -/
def pendingCmds (P : Platform) (m : Mem) (node : Word) : List QueuedCmd :=
  scanPrios.flatMap fun q => if P.hasQueue m node q then queueCmds P m node q else []

section Flow

variable {P : Platform} {s : Cpu} {node : Word} {base : Nat} {lst : Nat → Nat}
  {buf : Nat → Nat → Nat} (hl : BlockLayout P s.mem node base lst buf)
include hl

theorem BlockLayout.slotCmd_head {q : Nat} {x : QueuedCmd} {tl : List QueuedCmd} (hq : q < 3)
    (hex : P.hasQueue s.mem node q = true) (hcons : queueCmds P s.mem node q = x :: tl) :
    slotCmd P s.mem (readElem P s.mem node q) = x := by
  have hpos : 0 < occupancy P s.mem node q := by
    rw [← length_queueCmds, hcons, List.length_cons]
    exact Nat.succ_pos _
  have hhead := hl.queueCmds_cons hq hex hpos
  rw [hcons] at hhead
  rw [readElem_eq_slot, hl.slotCmd_eq hq hex (Nat.mod_lt _ (by decide))]
  exact (List.cons.inj hhead).1.symm

variable {t : Nat} (ht : t < thrQty) (hinv : QueueInv P s.mem node) {q : Nat}
  (htakes : Takes P s node q) {x : QueuedCmd} {tl : List QueuedCmd}
  (hcons : queueCmds P s.mem node q = x :: tl) (hqty : actQty x.act ≠ 0)
  (hflow : actType x.act = 2)
include htakes hcons hqty hflow

omit hqty in
theorem BlockLayout.not_slip_of_flow : ¬ ScanSlip P s node := by
  have hex := hasQueue_of_pending htakes.seen.1
  have hact : headAct P s.mem node q = x.act :=
    congrArg QueuedCmd.act (hl.slotCmd_head htakes.lt hex hcons)
  refine htakes.not_slip fun _ htype => ?_
  rw [hact, hflow] at htype
  cases htype

include ht hinv

/-- **A visit that takes a flow** executes it. -/
theorem BlockLayout.visit_flow : ∃ s', block P s node (thrPtr t) = some (x.arg1, s') ∧
    executed P s node = [x] ∧ QueueStep P s.mem s'.mem node lst [] [x] ∧
    (∀ p, p < 3 → P.hasQueue s.mem node p = true → queueCmds P s'.mem node p =
      if p = q then afterOne x tl else queueCmds P s.mem node p) ∧
    P.defDest s'.mem node = if IsPermanent x.act then x.arg1 else P.defDest s.mem node := by
  have hq := htakes.lt
  have hpend := htakes.seen.1
  have hex := hasQueue_of_pending hpend
  have hx := hl.slotCmd_head hq hex hcons
  have hact : P.ld s.mem (readElem P s.mem node q + tCmdAct) = x.act := congrArg QueuedCmd.act hx
  have harg : P.ld s.mem (readElem P s.mem node q + tCmdFlowDest) = x.arg1 :=
    congrArg QueuedCmd.arg1 hx
  have hfind := hl.findCmd_takes htakes
  have htype : ActType.ofNum? (actType (P.ld s.mem (readElem P s.mem node q + tCmdAct))) =
      some .flow := by
    rw [hact, hflow]
    rfl
  obtain ⟨s', hblock, -, hwords⟩ := hl.block_executes hfind (thrPtr t) (by rwa [hact]) htype
  have hret : (actionFuncs P .flow (atService P s node q) node (readElem P s.mem node q)
      (thrPtr t)).1 = x.arg1 := by
    simp only [actionFuncs, execFlow]
    split <;> exact (hl.ld_found hfind (k := 3) (by decide)).trans harg
  rw [hret] at hblock
  obtain ⟨r, s'', hblock', ⟨⟨s₁, hidle⟩, -⟩ | ⟨q', e, y, tl', -, hch, -, -, hy, hhead⟩⟩ :=
    hl.visit_served hinv.three_bit ht (hl.not_slip_of_flow htakes hcons hflow)
  · rw [hfind] at hidle
    cases hidle
  rw [hblock] at hblock'
  obtain ⟨rfl, rfl⟩ := Prod.mk.inj (Option.some.inj hblock')
  obtain rfl := (chosen_of_seen htakes.lt htakes.seen htakes.highest).unique hch
  obtain ⟨rfl, rfl⟩ := List.cons.inj (hcons.symm.trans hhead.head)
  have hact₁ : P.ld (atService P s node q).mem (readElem P s.mem node q + tCmdAct) = x.act :=
    congrArg QueuedCmd.act hy
  have hexec : executed P s node = [x] := by
    unfold executed
    rw [hfind]
    dsimp only
    rw [hact₁, if_neg hqty, hy]
  have hstep := hhead.step hinv hq hex
  rw [if_neg hqty] at hstep
  refine ⟨s', hblock, hexec, hstep, ?_, ?_⟩
  · intro p hp hexp
    have hno : x.flushes p = false := by
      rw [QueuedCmd.flushes, hflow]
      rfl
    rw [hhead.kept p hp hexp (hinv.occupancy_le p hp hexp) (Or.inr hno), leftOf_eq_afterOne hqty]
  · have hdest : P.defDest s'.mem node = (actionFuncs P .flow (atService P s node q) node
        (readElem P s.mem node q) (thrPtr t)).2.mem (base + 12) := by
      rw [Platform.defDest, Platform.ld, hl.adr_defDest]
      exact hwords _ (hl.adr_foundAct_ne hfind (by decide)).symm (by omega)
    rw [hdest, ← hret]
    simp only [actionFuncs, execFlow, hact₁]
    by_cases hperm : IsPermanent x.act
    · have hbit : x.act &&& actChpSmsk ≠ 0 := hperm
      rw [if_pos hperm, if_pos hbit, Cpu.st_mem, P.st_apply, hl.adr_defDest, if_pos rfl]
    · have hbit : ¬ x.act &&& actChpSmsk ≠ 0 := hperm
      rw [if_neg hperm, if_neg hbit, Platform.defDest,
        show P.ld s.mem (node + nodeDefDestPtr) = s.mem (base + 12) from
          congrArg s.mem hl.adr_defDest]
      exact hl.paint_other (by omega)

end Flow

/-! ### The next pending command -/

section Pending

variable {P : Platform} {m m' : Mem} {node : Word}

theorem pendingCmds_eq_cons {x : QueuedCmd} {rest : List QueuedCmd}
    (h : pendingCmds P m node = x :: rest) :
    ∃ above q below tl, scanPrios = above ++ q :: below ∧ P.hasQueue m node q = true ∧
      queueCmds P m node q = x :: tl ∧
      (∀ p ∈ above, P.hasQueue m node p = true → queueCmds P m node p = []) ∧
      rest = tl ++ below.flatMap fun p => if P.hasQueue m node p then queueCmds P m node p else [] := by
  unfold pendingCmds at h
  rw [List.flatMap_def, List.flatten_eq_cons_iff] at h
  obtain ⟨as, tl, cs, hsplit, hempty, hrest⟩ := h
  obtain ⟨above, l, hprios, rfl, hl⟩ := List.map_eq_append_iff.1 hsplit
  obtain ⟨q, below, rfl, hq, rfl⟩ := List.map_eq_cons_iff.1 hl
  have hex : P.hasQueue m node q = true := by
    by_contra hno
    rw [if_neg hno] at hq
    cases hq
  rw [if_pos hex] at hq
  refine ⟨above, q, below, tl, hprios, hex, hq, ?_, hrest⟩
  intro p hp hexp
  have hnil := hempty _ (List.mem_map_of_mem hp)
  rwa [if_pos hexp] at hnil

theorem pendingCmds_update {above below : List Nat} {q : Nat} {new : List QueuedCmd}
    (hsplit : scanPrios = above ++ q :: below)
    (hqueues : ∀ p, p < 3 → P.hasQueue m' node p = P.hasQueue m node p)
    (hex : P.hasQueue m node q = true)
    (hcmds : ∀ p, p < 3 → P.hasQueue m node p = true →
      queueCmds P m' node p = if p = q then new else queueCmds P m node p)
    (habove : ∀ p ∈ above, P.hasQueue m node p = true → queueCmds P m node p = []) :
    pendingCmds P m' node = new ++ below.flatMap fun p =>
      if P.hasQueue m node p then queueCmds P m node p else [] := by
  have hdesc := scanPrios_desc
  have hlt : ∀ p ∈ above ++ q :: below, p < 3 := by
    rw [← hsplit]
    exact fun p hp => mem_scanPrios.1 hp
  rw [hsplit] at hdesc
  obtain ⟨-, hbelow, habove'⟩ := List.pairwise_append.1 hdesc
  have hqb := (List.pairwise_cons.1 hbelow).1
  have hother : ∀ p, p < 3 → p ≠ q → (if P.hasQueue m' node p then queueCmds P m' node p else []) =
      if P.hasQueue m node p then queueCmds P m node p else [] := by
    intro p hp hne
    rw [hqueues p hp]
    split
    next hexp => rw [hcmds p hp hexp, if_neg hne]
    next => rfl
  have hq3 := hlt q (by simp)
  unfold pendingCmds
  rw [hsplit, List.flatMap_append, List.flatMap_cons, hqueues q hq3, if_pos hex, hcmds q hq3 hex,
    if_pos rfl]
  have hnone : (above.flatMap fun p => if P.hasQueue m' node p then queueCmds P m' node p else []) =
      [] := by
    rw [List.flatMap_eq_nil_iff]
    intro p hp
    have hpq : p ≠ q := Nat.ne_of_gt (habove' p hp q List.mem_cons_self)
    rw [hother p (hlt p (List.mem_append_left _ hp)) hpq]
    split
    next hexp => exact habove p hp hexp
    next => rfl
  rw [hnone, List.nil_append]
  congr 1
  apply List.flatMap_congr
  intro p hp
  exact hother p (hlt p (by simp [hp])) (Nat.ne_of_lt (hqb p hp))

theorem isPending_of_cons {q : Nat} {x : QueuedCmd} {tl : List QueuedCmd}
    (hex : P.hasQueue m node q = true) (hcons : queueCmds P m node q = x :: tl) :
    isPending P m node q = true := by
  unfold isPending queuePending
  rw [hex, Bool.true_and, bne_iff_ne]
  intro heq
  have hlen := congrArg List.length hcons
  rw [length_queueCmds, occupancy, rdIdx, wrIdx, heq, Ring.count_self (Nat.mod_lt _ (by decide))]
    at hlen
  cases hlen

end Pending

section Visit

variable {P : Platform} {s : Cpu} {node : Word} {base : Nat} {lst : Nat → Nat}
  {buf : Nat → Nat → Nat} (hl : BlockLayout P s.mem node base lst buf)
  (hinv : QueueInv P s.mem node) {x : QueuedCmd} {rest : List QueuedCmd}
  (hdnr : P.ld s.mem (node + blockCmdqFlags) &&& blockCmdqDnrSmsk = 0)
  (hpend : pendingCmds P s.mem node = x :: rest) (hvalid : ∀ n, x.validTime ≤ s.clk n)
include hl hinv hdnr hpend hvalid

/-- The first pending command is taken if it is valid. -/
theorem BlockLayout.takes_first : ∃ above q below tl, scanPrios = above ++ q :: below ∧
    Takes P s node q ∧ queueCmds P s.mem node q = x :: tl ∧
    (∀ p ∈ above, P.hasQueue s.mem node p = true → queueCmds P s.mem node p = []) ∧
    rest = tl ++ below.flatMap fun p =>
      if P.hasQueue s.mem node p then queueCmds P s.mem node p else [] := by
  obtain ⟨above, q, below, tl, hsplit, hex, hcons, habove, hrest⟩ := pendingCmds_eq_cons hpend
  refine ⟨above, q, below, tl, hsplit, ?_, hcons, habove, hrest⟩
  have hq : q < 3 := mem_scanPrios.1 (by rw [hsplit]; simp)
  have htime : headTime P s.mem node q = x.validTime :=
    congrArg QueuedCmd.validTime (hl.slotCmd_head hq hex hcons)
  refine ⟨hq, hdnr, ⟨isPending_of_cons hex hcons, ?_⟩, ?_, ?_⟩
  · rw [htime]
    exact hvalid _
  · intro p hqp hp hseen
    have hmem : p ∈ above := by
      have hpm := mem_scanPrios.2 hp
      have hdesc := scanPrios_desc
      rw [hsplit] at hpm hdesc
      rcases List.mem_append.1 hpm with hpm | hpm
      · exact hpm
      · rcases List.mem_cons.1 hpm with rfl | hpm
        · exact absurd hqp (Nat.lt_irrefl p)
        · have hlt := (List.pairwise_cons.1 (List.pairwise_append.1 hdesc).2.1).1 p hpm
          omega
    have hpos := occupancy_pos hinv.three_bit hp hseen.1
    have hnil := habove p hmem (hasQueue_of_pending hseen.1)
    rw [← length_queueCmds, hnil] at hpos
    exact Nat.lt_irrefl 0 hpos
  · rw [htime]
    exact hvalid _

/-- **A visit that finds a valid flow first** leaves the block for its destination. -/
theorem BlockLayout.visit_pending {t : Nat} (ht : t < thrQty) (hqty : actQty x.act ≠ 0)
    (hflow : actType x.act = 2) : ∃ s', block P s node (thrPtr t) = some (x.arg1, s') ∧
      executed P s node = [x] ∧ QueueStep P s.mem s'.mem node lst [] [x] ∧
      pendingCmds P s'.mem node = afterOne x rest ∧
      P.defDest s'.mem node = if IsPermanent x.act then x.arg1 else P.defDest s.mem node := by
  obtain ⟨above, q, below, tl, hsplit, htakes, hcons, habove, rfl⟩ :=
    hl.takes_first hinv hdnr hpend hvalid
  obtain ⟨s', hblock, hexec, hstep, hcmds, hdest⟩ :=
    hl.visit_flow ht hinv htakes hcons hqty hflow
  refine ⟨s', hblock, hexec, hstep, ?_, hdest⟩
  rw [pendingCmds_update hsplit hstep.shape.queues (hasQueue_of_pending htakes.seen.1) hcmds habove]
  unfold afterOne
  split
  · rfl
  · rw [List.cons_append]

end Visit

/-! ### Visits that do not lead back -/

/-- The command takes a visit of the block `node` to `dst`, whatever the default destination: a
command of quantity 0 takes it to the block itself, one of unknown type to idle. -/
def LeadsBack (node dst : Word) (y : QueuedCmd) : Prop :=
  if actQty y.act = 0 then node = dst
  else
    match ActType.ofNum? (actType y.act) with
    | some .flow => y.arg1 = dst
    | some .flush => y.arg1 ≠ lm32NullPtr ∧ y.arg1 = dst
    | some .unknown => lm32NullPtr = dst
    | _ => False

section Back

variable {P : Platform} {s : Cpu} {node : Word} {base : Nat} {lst : Nat → Nat}
  {buf : Nat → Nat → Nat} (hl : BlockLayout P s.mem node base lst buf) {t : Nat} (ht : t < thrQty)
include hl ht

/-- An action keeps the default destination, or replaces it by where it goes. -/
theorem BlockLayout.action_defDest {c : Word} (atype : ActType)
    (hc : P.adr (c + tCmdFlowDest) ≠ base + 7) :
    P.defDest (actionFuncs P atype s node c (thrPtr t)).2.mem node = P.defDest s.mem node ∨
      P.defDest (actionFuncs P atype s node c (thrPtr t)).2.mem node =
        actionDest atype (P.ld s.mem (c + tCmdFlowDest)) (P.defDest s.mem node) := by
  rw [← hl.action_dest ht atype hc]
  cases atype with
  | unknown =>
    left
    change P.defDest (s.setStatus P shctlStatusBadActTypeSmsk).mem node = P.defDest s.mem node
    apply P.ld_st_other
    rw [hl.adr_defDest, adr_status]
    exact (hl.ctl_ne_node (by decide) (by decide)).symm
  | noop => exact Or.inl rfl
  | flow =>
    simp only [actionFuncs, execFlow]
    split
    · exact Or.inr (P.ld_st_same _ _ _)
    · exact Or.inl rfl
  | flush =>
    have hrd : ∀ v, P.defDest (s.st P (node + blockCmdqRdIdxs) v).mem node = P.defDest s.mem node := by
      intro v
      apply P.ld_st_other
      rw [hl.adr_defDest, hl.adr_rdIdxs]
      omega
    simp only [actionFuncs, execFlush]
    split
    · split
      · exact Or.inr (P.ld_st_same _ _ _)
      · exact Or.inl (hrd _)
    · exact Or.inl (hrd _)
  | wait =>
    left
    change P.defDest (execWait P s node c (thrPtr t)).2.mem node = P.defDest s.mem node
    rw [Platform.defDest, Platform.defDest, Platform.ld, Platform.ld, hl.adr_defDest,
      hl.execWait_defDest ht]

/-- **A visit that does not lead back** to `dst` neither goes there nor makes it the default
destination again. -/
theorem BlockLayout.visit_avoids (hslip : ¬ ScanSlip P s node) {dst : Word}
    (hdest : P.defDest s.mem node ≠ dst)
    (hback : ∀ q, Chosen P s node q →
      ¬ LeadsBack node dst (slotCmd P s.mem (readElem P s.mem node q)))
    {r : Word} {s' : Cpu} (hblock : block P s node (thrPtr t) = some (r, s')) :
    r ≠ dst ∧ P.defDest s'.mem node ≠ dst := by
  obtain ⟨r', s'', hblock', ⟨s₁, hfind, hmem⟩ | ⟨q, e, hfind, hch, hpend, hserves⟩⟩ :=
    hl.block_of_not_slip (thrPtr t) hslip
  all_goals
    rw [hblock] at hblock'
    obtain ⟨rfl, rfl⟩ := Prod.mk.inj (Option.some.inj hblock')
  · rw [block_eq, hfind] at hblock
    obtain ⟨rfl, -⟩ := Prod.mk.inj (Option.some.inj hblock)
    refine ⟨hdest, ?_⟩
    rw [hmem, hl.defDest_paint]
    exact hdest
  · have hq := hch.lt
    have hex := hasQueue_of_pending hpend
    have hl₁ : BlockLayout P (atService P s node q).mem node base lst buf :=
      hl.of_sameShape hl.paint_sameShape
    have hnot := hback q hch
    have hact : P.ld (atService P s node q).mem (readElem P s.mem node q + tCmdAct) =
        (slotCmd P s.mem (readElem P s.mem node q)).act := hl.ld_foundAct hfind
    have harg : P.ld (atService P s node q).mem (readElem P s.mem node q + tCmdFlowDest) =
        (slotCmd P s.mem (readElem P s.mem node q)).arg1 := hl.ld_found hfind (k := 3) (by decide)
    have hdest₁ : P.defDest (atService P s node q).mem node = P.defDest s.mem node := hl.defDest_paint
    have hc : P.adr (readElem P s.mem node q + tCmdFlowDest) ≠ base + 7 := by
      obtain ⟨p, i, hp, hexp, hi, hadr⟩ := hl.adr_found hfind (k := 3) (by decide)
      rw [show tCmdFlowDest = BitVec.ofNat 32 (4 * 3) from rfl, hadr]
      exact hl.slotAdr_ne_node hp hexp hi (by decide) (by decide)
    generalize slotCmd P s.mem (readElem P s.mem node q) = y at hnot hact harg
    have hframe : ∀ {m : Mem} {act : Word} {n : Nat},
        Booked P m s'.mem node (readElem P s.mem node q) act q n →
        P.defDest s'.mem node = P.defDest m node := by
      intro m act n hbook
      rw [Platform.defDest, Platform.defDest, Platform.ld, Platform.ld, hl.adr_defDest]
      refine hbook.frame _ (hl.adr_foundAct_ne hfind (by decide)).symm ?_
      rw [hl.adr_rdIdxs]
      omega
    simp only [Serves, hact] at hserves
    unfold LeadsBack at hnot
    by_cases hqty : actQty y.act = 0
    · rw [if_pos hqty] at hserves hnot
      obtain ⟨rfl, hbook⟩ := hserves
      rw [hframe hbook, hdest₁]
      refine ⟨?_, hdest⟩
      split
      · exact hnot
      · exact hdest
    · rw [if_neg hqty] at hserves hnot
      obtain ⟨atype, htype, rfl, hbook⟩ := hserves
      rw [htype] at hnot
      have hgoes : actionDest atype y.arg1 (P.defDest s.mem node) ≠ dst := by
        cases atype with
        | unknown => exact hnot
        | noop => exact hdest
        | flow => exact hnot
        | flush =>
          unfold actionDest
          dsimp only
          split
          next hne => exact fun heq => hnot ⟨hne, heq⟩
          next => exact hdest
        | wait => exact hdest
      have hnew := hl₁.action_defDest ht atype hc
      rw [harg, hdest₁] at hnew
      rw [hframe hbook, hl₁.action_dest ht atype hc, harg, hdest₁]
      refine ⟨hgoes, ?_⟩
      rcases hnew with heq | heq
      · rw [heq]
        exact hdest
      · rw [heq]
        exact hgoes

end Back

end DataMaster
