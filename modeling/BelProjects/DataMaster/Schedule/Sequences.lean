import Mathlib.Data.List.Chain
import BelProjects.DataMaster.Schedule.Graph

/-!
# What the event sequence check accepts

From an event the default destinations lead either to a block, after some number of
events, or on and on, or to a node that has none.  The check follows them for a thousand
rounds; it accepts exactly the sequences that end in a block by then and whose time
offsets are in order.
-/

namespace DataMaster.Graph

variable {V : Type*} {g : Graph V}

/-! ### Sequences -/

/-- The node at the default destination. A node without one is taken for its own successor. -/
def follow (g : Graph V) (v : V) : V := (g.defDst v).getD v

/-- The default destinations lead through the events of the list to the block `b`, the first
block on the way. The first node of the list may be any. -/
inductive Leads (g : Graph V) (b : V) : List V → Prop
  | last {v : V} : g.follow v = b → (g.vertex b).type.isBlock = true → Leads g b [v]
  | step {v w : V} {vs : List V} : g.follow v = w → (g.vertex w).type.isBlock = false →
      Leads g b (w :: vs) → Leads g b (v :: w :: vs)

/-- A node has at most one sequence. -/
theorem Leads.unique {b b' v : V} {vs vs' : List V} (h : g.Leads b (v :: vs))
    (h' : g.Leads b' (v :: vs')) : vs = vs' := by
  induction vs generalizing v vs' with
  | nil =>
    cases h with
    | last hdst hblock =>
      cases h' with
      | last hdst' hblock' => rfl
      | step hdst' hevent' hrest' =>
        rw [← hdst, hdst', hevent'] at hblock
        cases hblock
  | cons w vs ih =>
    cases h with
    | step hdst hevent hrest =>
      cases h' with
      | last hdst' hblock' =>
        rw [← hdst', hdst, hevent] at hblock'
        cases hblock'
      | step hdst' hevent' hrest' =>
        obtain rfl := hdst.symm.trans hdst'
        rw [ih hrest hrest']

theorem Leads.suffix {b v w : V} {vs : List V} (h : g.Leads b (v :: vs)) (hw : w ∈ vs) :
    ∃ ws, g.Leads b (w :: ws) ∧ ws.length < vs.length := by
  induction vs generalizing v with
  | nil => exact absurd hw List.not_mem_nil
  | cons x vs ih =>
    cases h with
    | step hdst hevent hrest =>
      rcases List.mem_cons.1 hw with rfl | hmem
      · exact ⟨vs, hrest, Nat.lt_succ_self _⟩
      · obtain ⟨ws, hws, hlen⟩ := ih hrest hmem
        exact ⟨ws, hws, Nat.lt_succ_of_lt hlen⟩

/-- A sequence that ends in a block does not come back to a node. -/
theorem Leads.not_mem {b v : V} {vs : List V} (h : g.Leads b (v :: vs)) : v ∉ vs := by
  intro hv
  obtain ⟨ws, hws, hlen⟩ := h.suffix hv
  rw [h.unique hws] at hlen
  exact Nat.lt_irrefl _ hlen

/-! ### Time offsets -/

/-- The time offsets never decrease, and the last one is below the period of the block. -/
structure InOrder (g : Graph V) (vs : List V) (b : V) (ts : List Time) (tPeriod : Time) : Prop where
  events : List.Forall₂ g.IsEvent vs ts
  mono : ts.IsChain (· ≤ ·)
  block : g.IsBlock b tPeriod
  below : ∀ t ∈ ts.getLast?, t < tPeriod

/-- The end of a sequence as the check wants it. With `force` it looks at no times. -/
def EndsWell (g : Graph V) (force : Bool) (vs : List V) (b : V) : Prop :=
  if force then (∀ x ∈ vs.getLast?, (g.vertex x).np.isSome) ∧ (g.vertex b).np.isSome
  else ∃ ts tPeriod, g.InOrder vs b ts tPeriod

theorem endsWell_single {v b : V} {force : Bool} : g.EndsWell force [v] b ↔
    if force then (g.vertex v).np.isSome ∧ (g.vertex b).np.isSome
    else ∃ tOffs tPeriod, g.IsEvent v tOffs ∧ g.IsBlock b tPeriod ∧ tOffs < tPeriod := by
  cases force with
  | true => simp [EndsWell]
  | false =>
    simp only [EndsWell, Bool.false_eq_true, if_false]
    constructor
    · rintro ⟨ts, tPeriod, ⟨hevents, -, hblock, hbelow⟩⟩
      rcases hevents with _ | ⟨hevent, hnil⟩
      cases hnil
      exact ⟨_, tPeriod, hevent, hblock, hbelow _ rfl⟩
    · rintro ⟨tOffs, tPeriod, hevent, hblock, hlt⟩
      refine ⟨[tOffs], tPeriod, .cons hevent .nil, List.isChain_singleton _, hblock, ?_⟩
      rintro t ht
      cases ht
      exact hlt

theorem endsWell_cons {v w b : V} {vs : List V} {force : Bool} :
    g.EndsWell force (v :: w :: vs) b ↔
      (force = false → ∃ tOffs tNext, g.IsEvent v tOffs ∧ g.IsEvent w tNext ∧ tOffs ≤ tNext) ∧
        g.EndsWell force (w :: vs) b := by
  cases force with
  | true => simp [EndsWell]
  | false =>
    simp only [EndsWell, Bool.false_eq_true, if_false, forall_const]
    constructor
    · rintro ⟨ts, tPeriod, ⟨hevents, hmono, hblock, hbelow⟩⟩
      rcases hevents with _ | ⟨hv, htail⟩
      rcases htail with _ | ⟨hw, hrest⟩
      rw [List.isChain_cons_cons] at hmono
      exact ⟨⟨_, _, hv, hw, hmono.1⟩, _, tPeriod, .cons hw hrest, hmono.2, hblock,
        fun t ht => hbelow t (by rwa [List.getLast?_cons_cons])⟩
    · rintro ⟨⟨tOffs, tNext, hv, hw, hle⟩, ts, tPeriod, ⟨hevents, hmono, hblock, hbelow⟩⟩
      rcases hevents with _ | ⟨hw', hrest⟩
      rename_i t ts
      have ht : tNext = t := by
        have heq := hw.symm.trans hw'
        rw [Option.some.injEq, NodeObj.event.injEq] at heq
        exact heq
      refine ⟨tOffs :: t :: ts, tPeriod, .cons hv (.cons hw' hrest),
        List.isChain_cons_cons.2 ⟨ht ▸ hle, hmono⟩, hblock, fun x hx => hbelow x ?_⟩
      rwa [List.getLast?_cons_cons] at hx

/-! ### The loop -/

variable [DecidableEq V]

theorem eventSequenceLoop_block {v vcurrent : V} {force : Bool} {rounds : Nat}
    (hblock : (g.vertex (g.follow vcurrent)).type.isBlock = true) :
    g.eventSequenceLoop v force (rounds + 1) vcurrent = .ok () ↔
      g.EndsWell force [vcurrent] (g.follow vcurrent) := by
  rw [endsWell_single, eventSequenceLoop]
  simp only [← follow.eq_def, hblock, if_true]
  cases hcur : (g.vertex vcurrent).np with
  | none => cases force <;> simp [IsEvent, hcur]
  | some cur =>
    cases hnext : (g.vertex (g.follow vcurrent)).np with
    | none => cases force <;> simp [IsBlock, hnext]
    | some next =>
      cases force with
      | true => simp
      | false =>
        simp only [IsEvent, IsBlock, hcur, hnext, Option.isNone_some, Bool.false_eq_true, if_false,
          Option.some.injEq]
        cases cur <;> cases next <;> simp [BitVec.not_le]

theorem eventSequenceLoop_event {v vcurrent : V} {force : Bool} {rounds : Nat}
    (hevent : (g.vertex (g.follow vcurrent)).type.isBlock = false) :
    g.eventSequenceLoop v force (rounds + 1) vcurrent = .ok () ↔
      vcurrent ≠ g.follow vcurrent ∧ g.follow vcurrent ≠ v ∧
        (force = false → ∃ tOffs tNext, g.IsEvent vcurrent tOffs ∧ g.IsEvent (g.follow vcurrent) tNext ∧
          tOffs ≤ tNext) ∧
        g.eventSequenceLoop v force rounds (g.follow vcurrent) = .ok () := by
  rw [eventSequenceLoop]
  simp only [← follow.eq_def, hevent, Bool.false_eq_true, if_false]
  by_cases hself : vcurrent = g.follow vcurrent
  · simp [← hself]
  rw [if_neg hself]
  by_cases hstart : g.follow vcurrent = v
  · simp [hstart]
  rw [if_neg hstart]
  cases force with
  | true => simp [hself, hstart]
  | false =>
    simp only [Bool.false_eq_true, if_false, IsEvent, forall_const]
    cases hcur : (g.vertex vcurrent).np with
    | none => simp
    | some cur =>
      cases hnext : (g.vertex (g.follow vcurrent)).np with
      | none => cases cur <;> simp
      | some next =>
        cases cur <;> cases next <;> simp [hself, hstart]
        rename_i tOffs tNext
        by_cases hlt : tNext < tOffs
        · simp [hlt, BitVec.not_le.2 hlt]
        · simp [hlt, BitVec.not_lt.1 hlt]

/-- The loop at `vcurrent` accepts the sequences that are short enough and avoid the start. -/
theorem eventSequenceLoop_ok_iff {v : V} {force : Bool} {rounds : Nat} {vcurrent : V} :
    g.eventSequenceLoop v force rounds vcurrent = .ok () ↔
      ∃ vs b, g.Leads b (vcurrent :: vs) ∧ vs.length < rounds ∧ v ∉ vs ∧
        g.EndsWell force (vcurrent :: vs) b := by
  induction rounds generalizing vcurrent with
  | zero => simp [eventSequenceLoop]
  | succ rounds ih =>
    cases hblock : (g.vertex (g.follow vcurrent)).type.isBlock with
    | true =>
      rw [eventSequenceLoop_block hblock]
      constructor
      · intro hends
        exact ⟨[], _, .last rfl hblock, Nat.succ_pos _, List.not_mem_nil, hends⟩
      · rintro ⟨vs, b, hleads, -, -, hends⟩
        have hnil := hleads.unique (.last (v := vcurrent) rfl hblock)
        subst hnil
        cases hleads with
        | last hdst _ => rwa [hdst]
    | false =>
      rw [eventSequenceLoop_event hblock, ih]
      constructor
      · rintro ⟨hself, hstart, htimes, vs, b, hleads, hlen, hnot, hends⟩
        refine ⟨_ :: vs, b, .step rfl hblock hleads, Nat.succ_lt_succ hlen, ?_, endsWell_cons.2 ⟨htimes, hends⟩⟩
        exact List.not_mem_cons_of_ne_of_not_mem (Ne.symm hstart) hnot
      · rintro ⟨vs, b, hleads, hlen, hnot, hends⟩
        cases hleads with
        | last hdst hb =>
          rw [hdst, hb] at hblock
          cases hblock
        | step hdst hevent hrest =>
          subst hdst
          obtain ⟨htimes, hends'⟩ := endsWell_cons.1 hends
          refine ⟨?_, ?_, htimes, _, b, hrest, Nat.lt_of_succ_lt_succ hlen, ?_, hends'⟩
          · intro hself
            have hmem := (Leads.step rfl hevent hrest).not_mem
            rw [← hself] at hmem
            exact hmem List.mem_cons_self
          · exact fun hstart => hnot (hstart ▸ List.mem_cons_self)
          · exact fun hmem => hnot (List.mem_cons_of_mem _ hmem)

/-- What the check relies on: the other checks have seen to it that the node objects are of
the class of their nodes, and that the successor of an event is an event or a block. -/
structure Classes (g : Graph V) : Prop where
  event : ∀ {v}, (g.vertex v).type.isEvent = true → ∃ tOffs, g.IsEvent v tOffs
  block : ∀ {v}, (g.vertex v).type.isBlock = true → ∃ tPeriod, g.IsBlock v tPeriod
  follow : ∀ {v}, (g.vertex v).type.isEvent = true →
    (g.vertex (g.follow v)).type.isEvent = true ∨ (g.vertex (g.follow v)).type.isBlock = true

theorem Classes.eventSequenceLoop (hg : g.Classes) {v vcurrent : V} {force : Bool} {rounds : Nat}
    (hcur : (g.vertex vcurrent).type.isEvent = true) :
    g.eventSequenceLoop v force rounds vcurrent ≠ .error .nullCast := by
  induction rounds generalizing vcurrent with
  | zero => simp [Graph.eventSequenceLoop]
  | succ rounds ih =>
    obtain ⟨tOffs, htOffs⟩ := hg.event hcur
    unfold IsEvent at htOffs
    rw [Graph.eventSequenceLoop]
    simp only [← follow.eq_def, htOffs]
    cases hblock : (g.vertex (g.follow vcurrent)).type.isBlock with
    | true =>
      obtain ⟨tPeriod, htPeriod⟩ := hg.block hblock
      unfold IsBlock at htPeriod
      simp only [htPeriod]
      split_ifs <;> intro h <;> cases h
    | false =>
      have hevent : (g.vertex (g.follow vcurrent)).type.isEvent = true := by
        rcases hg.follow hcur with h | h
        · exact h
        · rw [hblock] at h
          cases h
      obtain ⟨tNext, htNext⟩ := hg.event hevent
      unfold IsEvent at htNext
      have hrest := ih hevent
      simp only [htNext, Bool.false_eq_true, if_false]
      split_ifs <;> first | exact hrest | (intro h; cases h)

/-- **The sequence check is exact**: within the limit of its rounds it accepts the sequences
that end in a block and end well, and no others. It casts no node object to a class that it
does not have. -/
theorem eventSequenceCheck_exact (g : Graph V) (v : V) (force : Bool) :
    (g.eventSequenceCheck v force = .ok () ↔
      ∃ vs b, g.Leads b (v :: vs) ∧ vs.length < maxDepthEvent ∧ g.EndsWell force (v :: vs) b) ∧
    (g.Classes → (g.vertex v).type.isEvent = true →
      g.eventSequenceCheck v force ≠ .error .nullCast) := by
  constructor
  · rw [eventSequenceCheck, eventSequenceLoop_ok_iff]
    constructor
    · rintro ⟨vs, b, hleads, hlen, -, hends⟩
      exact ⟨vs, b, hleads, hlen, hends⟩
    · rintro ⟨vs, b, hleads, hlen, hends⟩
      exact ⟨vs, b, hleads, hlen, hleads.not_mem, hends⟩
  · intro hg hv
    exact hg.eventSequenceLoop hv

def lateEvent : Graph Bool where
  vertex v := if v then ⟨"block", .blockFixed, some (.block 100)⟩ else ⟨"event", .tmsg, some (.event 100)⟩
  outEdges v := if v then [] else [(.defDst, true)]

theorem lateEvent_classes : lateEvent.Classes where
  event {v} h := by
    cases v with
    | false => exact ⟨100, rfl⟩
    | true => cases h
  block {v} h := by
    cases v with
    | false => cases h
    | true => exact ⟨100, rfl⟩
  follow {v} h := by
    cases v with
    | false => exact .inr rfl
    | true => cases h

/-- Without force the late event is turned down, and not for a cast. -/
theorem eventSequenceCheck_exact_lateEvent :
    lateEvent.eventSequenceCheck false false ≠ .error .nullCast ∧
      ¬ ∃ vs b, lateEvent.Leads b (false :: vs) ∧ vs.length < maxDepthEvent ∧
        lateEvent.EndsWell false (false :: vs) b := by
  refine ⟨(eventSequenceCheck_exact lateEvent false false).2 lateEvent_classes rfl, fun h => ?_⟩
  have hok := (eventSequenceCheck_exact lateEvent false false).1.2 h
  revert hok
  decide +kernel

/-- With force the times are not looked at: an event is accepted that is not over when its
block is. -/
theorem eventSequenceCheck_forced :
    ¬ ∀ (force : Bool), lateEvent.eventSequenceCheck false force = .ok () ↔
      ∃ vs b ts tPeriod, lateEvent.Leads b (false :: vs) ∧ vs.length < maxDepthEvent ∧
        lateEvent.InOrder (false :: vs) b ts tPeriod := by
  intro h
  obtain ⟨vs, b, ts, tPeriod, hleads, -, hevents, -, hblock, hbelow⟩ := (h true).1 (by decide +kernel)
  obtain rfl : [] = vs := (Leads.last rfl rfl).unique hleads
  cases hleads with
  | last hdst _ =>
    subst hdst
    rcases hevents with _ | ⟨hevent, hnil⟩
    cases hnil
    cases hevent
    cases hblock
    exact absurd (hbelow _ rfl) (by decide)

end DataMaster.Graph
