import BelProjects.ScheduleCompare.Graph
import BelProjects.DataMaster.Dot.Restore

/-!
# What a successful comparison says about the nodes

The comparison and the parser of carpeDM keep separate lists of node properties: those that
are registered, those that are compared for each type, and those that an upload uses.  A
property missing from one of the first two lists counts as equal.
-/

namespace ScheduleCompare

open DataMaster (NodeType sUndefined)
open DataMaster.Dot (Property MyVertex s2u createNode createData createFlags)

/-! ### Node properties of carpeDM -/

/-- `DotStr::Node::Prop`, the names under which `createParser` registers the properties. -/
def dotName : Property → Option String
  | .cpu => some "cpu" | .thread => some "thread" | .flags => some "flags"
  | .patName => some "pattern" | .patEntry => some "patentry" | .patExit => some "patexit"
  | .bpName => some "beamproc" | .bpEntry => some "bpentry" | .bpExit => some "bpexit"
  | .tPeriod => some "tperiod" | .qIl => some "qil" | .qHi => some "qhi" | .qLo => some "qlo"
  | .tOffs => some "toffs" | .id => some "id" | .fid => some "fid" | .gid => some "gid"
  | .evtno => some "evtno" | .sid => some "sid" | .bpid => some "bpid" | .bin => some "beamin"
  | .bpcstart => some "bpcstart" | .reqnob => some "reqnobeam" | .vacc => some "vacc"
  | .par => some "par" | .tef => some "tef" | .startOffs => some "startoffs"
  | .tValid => some "tvalid" | .vabs => some "vabs" | .prio => some "prio" | .qty => some "qty"
  | .tWait => some "twait" | .perma => some "permanent"
  | .res | .frmIl | .toIl | .frmHi | .toHi | .frmLo | .toLo => none

/-- carpeDM's names, types and values of a node, with its defaults. -/
def DotNode.nodeName (d : DotNode) : String := d.text "node_id" d.id

def DotNode.nodeType (d : DotNode) : String := d.text "type" sUndefined

def DotNode.value (d : DotNode) (p : Property) : String :=
  match dotName p with
  | some key => d.text key p.initial
  | none => p.initial

/-- The chain of comparisons in `prepareUpload`. -/
def typeOf (cmp : String) : Option NodeType :=
  if cmp = "tmsg" then some .tmsg
  else if cmp = "noop" then some .cnoop
  else if cmp = "flow" then some .cflow
  else if cmp = "switch" then some .cswitch
  else if cmp = "origin" then some .origin
  else if cmp = "startthread" then some .startthread
  else if cmp = "flush" then some .cflush
  else if cmp = "wait" then some .cwait
  else if cmp = "block" then some .blockFixed
  else if cmp = "blockalign" then some .blockAlign
  else if cmp = "qinfo" then some .queue
  else if cmp = "listdst" then some .altdst
  else if cmp = "qbuf" then some .qbuf
  else none

/-- The properties that the parser reads for nodes of every type. -/
def baseProperties : List Property :=
  [.cpu, .flags, .patName, .patEntry, .patExit, .bpName, .bpEntry, .bpExit]

def reads : Option NodeType → List Property
  | some .tmsg => baseProperties ++ [.tOffs, .id, .fid, .gid, .evtno, .sid, .bpid, .bin, .bpcstart,
      .reqnob, .vacc, .par, .tef]
  | some .cnoop => baseProperties ++ [.tOffs, .tValid, .prio, .qty, .vabs]
  | some .cflow => baseProperties ++ [.tOffs, .tValid, .prio, .qty, .vabs, .perma]
  | some .cswitch => baseProperties ++ [.tOffs]
  | some .origin => baseProperties ++ [.tOffs, .thread]
  | some .startthread => baseProperties ++ [.tOffs, .startOffs, .thread]
  | some .cflush => baseProperties ++ [.tOffs, .tValid, .prio, .qIl, .qHi, .qLo, .vabs, .perma]
  | some .cwait => baseProperties ++ [.tOffs, .tValid, .prio, .tWait, .vabs]
  | some .blockFixed | some .blockAlign => baseProperties ++ [.tPeriod, .qIl, .qHi, .qLo]
  | _ => baseProperties

inductive PropertyKind
  | text | flag | number
  deriving DecidableEq

def kind : Property → PropertyKind
  | .patName | .bpName => .text
  | .patEntry | .patExit | .bpEntry | .bpExit | .qIl | .qHi | .qLo | .vabs | .perma => .flag
  | _ => .number

/-- A spelling of a truth value, for the comparison or for carpeDM. -/
def SpellsFlag (b : Bool) (s : String) : Prop :=
  (if b then isTrue s else isFalse s) = true ∨ ∃ n, s2u s = .ok n ∧ (n != 0) = b

/-- Equal values, up to their spelling. -/
def Same (p : Property) (s t : String) : Prop :=
  s = t ∨
    match kind p with
    | .text => False
    | .flag => ∃ b, SpellsFlag b s ∧ SpellsFlag b t
    | .number => ∃ n, s2u s = .ok n ∧ s2u t = .ok n

/-- Two nodes are the same for carpeDM. -/
structure Agree (a b : DotNode) : Prop where
  name : a.nodeName = b.nodeName
  type : a.nodeType = b.nodeType
  values : ∀ p ∈ reads (typeOf a.nodeType), Same p (a.value p) (b.value p)

/-! ### What an upload uses -/

section Upload

variable {v w : MyVertex} {p : Property}

end Upload

/-! ### carpeDM's values -/

theorem value_of_dotName {d : DotNode} {p : Property} {key : String} (hp : dotName p = some key) :
    d.value p = d.text key p.initial := by
  rw [DotNode.value, hp]

/-! ### What a comparison decides -/

def looksAt (config : Configuration) (type : String) (p : Property) : Option ValueType := do
  let key ← dotName p
  let m ← (vertexProperties config).lookup key
  let fields ← membersOf type
  fields.lookup m

def HexNumeral (s : String) : Prop :=
  isHex s = true ∧ Numerals.leading 16 0 (s.toList.drop 2) < 2 ^ 64

/-- The comparison does not decide about a property of two nodes: it does not look at it, or
only one of the nodes gives it, or its texts are different and not both hexadecimal. -/
def Overlooked (config : Configuration) (a b : DotNode) (p : Property) : Prop :=
  match looksAt config (a.text "type" "") p with
  | none => True
  | some .BOOLEAN => False
  | some .STRING => ∃ key, dotName p = some key ∧ a.given key ≠ b.given key
  | some .HEX => ∃ key, dotName p = some key ∧ (a.given key ≠ b.given key ∨
      a.text key "" ≠ b.text key "" ∧
        ¬ (HexNumeral (a.text key "") ∧ HexNumeral (b.text key "")))

/-- Two nodes agree in what the comparison does not decide. -/
structure OverlookedAgree (config : Configuration) (a b : DotNode) : Prop where
  /-- An attribute replaces one of the names. -/
  name : (∃ key ∈ ["name", "node_id"], a.given key = true ∨ b.given key = true) →
    a.nodeName = b.nodeName
  /-- The node of the first graph is of no type. -/
  type : a.text "type" "" = "" → a.nodeType = b.nodeType
  values : ∀ p ∈ reads (typeOf a.nodeType), Overlooked config a b p → Same p (a.value p) (b.value p)

def SameNodes (unset : Nat) (config : Configuration) (a b : DotNode) : Prop :=
  a.text "name" a.id = b.text "name" b.id ∧
    SameMembers unset (readVertex config a) (readVertex config b)

def SameEdges (config : Configuration) (x y : List (String × String)) : Prop :=
  (readEdge config x).member .type = (readEdge config y).member .type

section Decided

variable {unset : Nat} {config : Configuration} {a b : DotNode} {p : Property} {t : ValueType}

theorem looksAt_eq_some {type : String} (h : looksAt config type p = some t) :
    ∃ key m fields, dotName p = some key ∧ (vertexProperties config).lookup key = some m ∧
      membersOf type = some fields ∧ (m, t) ∈ fields := by
  simp only [looksAt, Option.bind_eq_bind, Option.bind_eq_some_iff] at h
  obtain ⟨key, hkey, m, hm, fields, hfields, ht⟩ := h
  obtain ⟨before, after, rfl, -⟩ := List.lookup_eq_some_iff.mp ht
  exact ⟨key, m, _, hkey, hm, hfields, List.mem_append_right _ List.mem_cons_self⟩

/-- Properties that are compared as truth values are truth values. -/
theorem kind_of_boolean {m : Member} {type : String} {fields : List (Member × ValueType)}
    (hp : dotName p = some m.dotName) (hfields : membersOf type = some fields)
    (hmem : (m, .BOOLEAN) ∈ fields) : kind p = .flag := by
  have hflags : ∀ fs ∈ allMembers, ∀ f ∈ fs, f.2 = .BOOLEAN → f.1 ∈ [Member.patentry, .patexit,
      .bpentry, .bpexit, .qlo, .qhi, .qil, .tabs, .permanent, .vabs, .wabs] := by
    decide
  have hkind : ∀ m ∈ [Member.patentry, .patexit, .bpentry, .bpexit, .qlo, .qhi, .qil, .tabs,
      .permanent, .vabs, .wabs], dotName p = some m.dotName → kind p = .flag := by
    cases p <;> decide
  exact hkind m (hflags fields (membersOf_mem hfields) _ hmem rfl) hp

theorem kind_of_hex {m : Member} {type : String} {fields : List (Member × ValueType)}
    (hp : dotName p = some m.dotName) (hfields : membersOf type = some fields)
    (hmem : (m, .HEX) ∈ fields) : kind p = .number := by
  have hpar : ∀ fs ∈ allMembers, ∀ f ∈ fs, f.2 = .HEX → f.1 = .par := by decide
  obtain rfl : m = .par := hpar fields (membersOf_mem hfields) _ hmem rfl
  cases p <;> first | rfl | (revert hp; decide)

theorem ne_name {m : Member} (hp : dotName p = some m.dotName) : m ≠ .name := by
  rintro rfl
  cases p <;> revert hp <;> decide

theorem initial_flag (h : kind p = .flag) : isFalse p.initial = true := by
  cases p <;> first | rfl | cases h

theorem spells_value {d : DotNode} {key : String} {c : Bool} (hp : dotName p = some key)
    (hkind : kind p = .flag) (h : (if c then isTrue else isFalse) (d.text key "") = true) :
    SpellsFlag c (d.value p) := by
  rw [value_of_dotName hp]
  cases hgiven : d.given key with
  | true =>
    rw [text_given hgiven ""]
    cases c <;> exact Or.inl h
  | false =>
    rw [text_missing hgiven] at h ⊢
    cases c with
    | false => exact Or.inl (initial_flag hkind)
    | true => exact absurd h (by decide)

theorem hexNumeral_value {s : String} (h : HexNumeral s) :
    s2u s = .ok (streamValue unset true s) := by
  obtain ⟨hhex, hlt⟩ := h
  have hstream : streamValue unset true s = Numerals.leading 16 0 (s.toList.drop 2) := by
    rw [streamValue_hex hhex, unsignedLong, if_neg (by omega), if_neg Bool.false_ne_true]
  rw [hstream]
  obtain ⟨cs, hcs | hcs⟩ := hex_shape hhex
  · exact DataMaster.Dot.s2u_of_read String.ofList_toList.symm hcs (by decide)
      (by rw [hcs]; exact (Numerals.read_hex cs).1) hlt
  · exact DataMaster.Dot.s2u_of_read String.ofList_toList.symm hcs (by decide)
      (by rw [hcs]; exact (Numerals.read_hex cs).2) hlt

theorem value_of_hex {d : DotNode} {key : String} (hp : dotName p = some key)
    (h : HexNumeral (d.text key "")) : d.value p = d.text key "" := by
  rw [value_of_dotName hp]
  refine text_given ?_ _
  by_contra hgiven
  rw [text_missing (Bool.eq_false_iff.mpr hgiven)] at h
  exact absurd h.1 (by decide)

theorem same_of_decided
    (hmembers : ∀ fields, membersOf (a.text "type" "") = some fields → ∀ f ∈ fields,
      SameValue unset ((readVertex config a).member f.1) ((readVertex config b).member f.1) f.2)
    (hnot : ¬ Overlooked config a b p) : Same p (a.value p) (b.value p) := by
  unfold Overlooked at hnot
  cases ht : looksAt config (a.text "type" "") p with
  | none =>
    rw [ht] at hnot
    exact absurd trivial hnot
  | some t =>
    rw [ht] at hnot
    obtain ⟨key, m, fields, hp, hm, hfields, hmem⟩ := looksAt_eq_some ht
    obtain rfl := dotName_of_lookup hm
    have hvalue := hmembers fields hfields _ hmem
    rw [member_readVertex hm (ne_name hp), member_readVertex hm (ne_name hp)] at hvalue
    cases t with
    | STRING =>
      left
      rw [value_of_dotName hp, value_of_dotName hp]
      exact text_congr (by_contra fun hne => hnot ⟨_, hp, hne⟩) hvalue _
    | BOOLEAN =>
      right
      have hkind := kind_of_boolean hp hfields hmem
      rw [hkind]
      rcases hvalue with ⟨h₁, h₂⟩ | ⟨h₁, h₂⟩
      · exact ⟨true, spells_value hp hkind h₁, spells_value hp hkind h₂⟩
      · exact ⟨false, spells_value hp hkind h₁, spells_value hp hkind h₂⟩
    | HEX =>
      have hgiven : a.given m.dotName = b.given m.dotName :=
        by_contra fun hne => hnot ⟨_, hp, Or.inl hne⟩
      by_cases htext : a.text m.dotName "" = b.text m.dotName ""
      · left
        rw [value_of_dotName hp, value_of_dotName hp]
        exact text_congr hgiven htext _
      · right
        rw [kind_of_hex hp hfields hmem]
        have hboth : HexNumeral (a.text m.dotName "") ∧ HexNumeral (b.text m.dotName "") :=
          by_contra fun hne => hnot ⟨_, hp, Or.inr ⟨htext, hne⟩⟩
        obtain ⟨ha, hb⟩ := hboth
        have hstream : streamValue unset true (a.text m.dotName "") =
            streamValue unset true (b.text m.dotName "") := by
          simpa only [SameValue, SameHex, ha.1, hb.1, true_or, if_true] using hvalue
        refine ⟨streamValue unset true (a.text m.dotName ""), ?_, ?_⟩
        · rw [value_of_hex hp ha]
          exact hexNumeral_value ha
        · rw [value_of_hex hp hb, hstream]
          exact hexNumeral_value hb

theorem agree_of_sameNodes (h : SameNodes unset config a b) (hover : OverlookedAgree config a b) :
    Agree a b := by
  obtain ⟨hname, hmembers⟩ := h
  have htypes (d : DotNode) : (readVertex config d).member .type = d.text "type" "" :=
    member_readVertex lookup_type (by decide)
  refine ⟨?_, ?_, fun p hp => ?_⟩
  · by_cases hgiven : ∃ key ∈ ["name", "node_id"], a.given key = true ∨ b.given key = true
    · exact hover.name hgiven
    · have hnone (d : DotNode) (hd : d = a ∨ d = b) (key : String)
          (hkey : key ∈ ["name", "node_id"]) : d.given key = false := by
        by_contra htrue
        rw [Bool.not_eq_false] at htrue
        rcases hd with rfl | rfl
        · exact hgiven ⟨key, hkey, Or.inl htrue⟩
        · exact hgiven ⟨key, hkey, Or.inr htrue⟩
      rw [text_missing (hnone a (Or.inl rfl) _ (by decide)),
        text_missing (hnone b (Or.inr rfl) _ (by decide))] at hname
      rw [DotNode.nodeName, DotNode.nodeName, text_missing (hnone a (Or.inl rfl) _ (by decide)),
        text_missing (hnone b (Or.inr rfl) _ (by decide)), hname]
  · by_cases hempty : a.text "type" "" = ""
    · exact hover.type hempty
    · rw [SameMembers, htypes, htypes] at hmembers
      obtain ⟨heq, -⟩ := hmembers.resolve_left hempty
      have hgiven (d : DotNode) (hd : d.text "type" "" ≠ "") : d.given "type" = true := by
        by_contra hnot
        exact hd (text_missing (Bool.eq_false_iff.mpr hnot))
      rw [DotNode.nodeType, DotNode.nodeType, text_given (hgiven a hempty) "",
        text_given (hgiven b (heq ▸ hempty)) "", heq]
  · by_cases hp' : Overlooked config a b p
    · exact hover.values p hp hp'
    · have hvalues : ∀ fields, membersOf (a.text "type" "") = some fields → ∀ f ∈ fields,
          SameValue unset ((readVertex config a).member f.1) ((readVertex config b).member f.1)
            f.2 := by
        intro fields hfields
        rw [SameMembers, htypes, htypes] at hmembers
        rcases hmembers with hempty | ⟨-, fields', hfields', hall⟩
        · have hnone : membersOf "" = none := rfl
          rw [hempty, hnone] at hfields
          cases hfields
        · rw [hfields'] at hfields
          cases hfields
          exact hall
      exact same_of_decided hvalues hp'

theorem Agree.overlooked (h : Agree a b) : OverlookedAgree config a b where
  name _ := h.name
  type _ := h.type
  values p hp _ := h.values p hp

/-- An isomorphism relates equal nodes, and edges of equal types. -/
theorem corresponding_iff {g₁ g₂ : DotGraph} {f : Fin g₁.graph.order → Fin g₂.graph.order}
    (hnames : config.compareNames = true) :
    Corresponding unset config g₁ g₂ f ↔
      Multigraph.InducedMatch (SameNodes unset config) (SameEdges config) g₁.graph g₂.graph f := by
  have hnodes (x y : DotNode) : SameNodes unset config x y ↔ vertexEquivalent unset
      { readVertex config x with compareNames := config.compareNames }
      { readVertex config y with compareNames := config.compareNames } = true := by
    unfold vertexEquivalent SameNodes
    rw [decide_eq_true_eq, compare_eq_zero hnames]
    simp only [name_readVertex]
    rfl
  have hedges (x y : List (String × String)) : SameEdges config x y ↔
      edgeEquivalent (readEdge config x) (readEdge config y) = true := by
    unfold edgeEquivalent compareEdges SameEdges
    rw [name_readEdge, name_readEdge, if_pos rfl, decide_eq_true_eq, compareText_eq_zero]
  have hmap : Corresponding unset config g₁ g₂ f ↔ Multigraph.InducedMatch
      (fun x y => vertexEquivalent unset
        { readVertex config x with compareNames := config.compareNames }
        { readVertex config y with compareNames := config.compareNames } = true)
      (fun x y => edgeEquivalent (readEdge config x) (readEdge config y) = true)
      g₁.graph g₂.graph f := by
    unfold Corresponding comparedGraph switchCompareNames readGraphviz
    exact (Multigraph.inducedMatch_map _ _ _ _).trans (Multigraph.inducedMatch_map _ _ _ _)
  rw [hmap]
  constructor
  · intro h
    exact h.imp (fun x y => (hnodes x y).mpr) fun x y => (hedges x y).mpr
  · intro h
    exact h.imp (fun x y => (hnodes x y).mp) fun x y => (hedges x y).mp

end Decided

/-! ### Soundness -/

/-- A reported isomorphism relates only nodes that are the same for carpeDM. -/
def Sound (unset : Nat) (vf2 : Vf2) (config : Configuration) (file₁ file₂ : DotFile) : Prop :=
  scheduleIsomorphic unset vf2 config file₁ file₂ = EXIT_SUCCESS →
    ∀ g₁ g₂, file₁ = .parsed g₁ → file₂ = .parsed g₂ →
      ∀ f, Corresponding unset config g₁ g₂ f → ∀ v, Agree (g₁.graph.vertex v) (g₂.graph.vertex (f v))

/-- Whatever isomorphism there is, it relates only nodes that agree in what a comparison does
not decide. -/
def Covered (unset : Nat) (config : Configuration) (g₁ g₂ : DotGraph) : Prop :=
  ∀ f, Multigraph.InducedMatch (SameNodes unset config) (SameEdges config) g₁.graph g₂.graph f →
    ∀ v, OverlookedAgree config (g₁.graph.vertex v) (g₂.graph.vertex (f v))

/-- Comparisons are sound exactly for schedules that agree in what is not compared. -/
theorem sound_iff (unset : Nat) {vf2 : Vf2} (hvf2 : vf2.Correct) {config : Configuration}
    (hnames : config.compareNames = true) (file₁ file₂ : DotFile) :
    Sound unset vf2 config file₁ file₂ ↔
      ∀ g₁ g₂, file₁ = .parsed g₁ → file₂ = .parsed g₂ → Comparable config g₁ g₂ →
        Covered unset config g₁ g₂ := by
  constructor
  · intro h g₁ g₂ h₁ h₂ hcomp f hf v
    have hcorr := (corresponding_iff hnames).mpr hf
    have hsuccess : scheduleIsomorphic unset vf2 config file₁ file₂ = EXIT_SUCCESS :=
      (scheduleIsomorphic_eq_success_iff hvf2).mpr ⟨g₁, g₂, h₁, h₂, hcomp, f, hcorr⟩
    exact (h hsuccess g₁ g₂ h₁ h₂ f hcorr v).overlooked
  · intro h hsuccess g₁ g₂ h₁ h₂ f hf v
    obtain ⟨g₁', g₂', h₁', h₂', hcomp, -⟩ := (scheduleIsomorphic_eq_success_iff hvf2).mp hsuccess
    obtain rfl : g₁ = g₁' := DotFile.parsed.inj (h₁.symm.trans h₁')
    obtain rfl : g₂ = g₂' := DotFile.parsed.inj (h₂.symm.trans h₂')
    have hmatch := (corresponding_iff hnames).mp hf
    exact agree_of_sameNodes (hmatch.vertices v) (h g₁ g₂ h₁ h₂ hcomp f hmatch v)

/-! ### Schedules of one flow command -/

/-- An exhaustive search in the place of the library function. -/
def searchVf2 : Vf2 := fun vc ec g g' =>
  Multigraph.hasMatch (fun x y => vc x y = true) (fun x y => ec x y = true) g g'

theorem searchVf2_correct : searchVf2.Correct := by
  intro vc ec g g'
  exact decide_eq_true_iff

def flowNode (permanent : String) : DotNode where
  id := "Flow"
  attrs := [("type", "flow"), ("qty", "1"), ("permanent", permanent)]

def flowSchedule (permanent : String) : DotGraph where
  attrs := []
  graph := { order := 1, vertex := fun _ => flowNode permanent, edges := [] }

theorem flowNodes_evaluated :
    (typeOf (flowNode "true").nodeType = some .cflow ∧ .perma ∈ reads (some .cflow) ∧
      (flowNode "true").nodeName = (flowNode "1").nodeName ∧
      (flowNode "true").nodeType = (flowNode "1").nodeType ∧
      ∀ p ∈ reads (some .cflow), p ≠ .perma → (flowNode "true").value p = (flowNode "1").value p) ∧
    (isTrue ((flowNode "true").value .perma) = true ∧ isTrue ((flowNode "1").value .perma) = true ∧
      (flowNode "true").value .perma = "true" ∧ (flowNode "false").value .perma = "false") ∧
    vertexEquivalent 0 (readVertex {} (flowNode "true")) (readVertex {} (flowNode "false")) = true := by
  decide +kernel

theorem sound_iff_spelling :
    Sound 0 searchVf2 {} (.parsed (flowSchedule "true")) (.parsed (flowSchedule "1")) := by
  refine (sound_iff 0 searchVf2_correct rfl _ _).mpr ?_
  rintro g₁ g₂ ⟨rfl⟩ ⟨rfl⟩ - f - v
  change OverlookedAgree {} (flowNode "true") (flowNode "1")
  obtain ⟨⟨htype, -, hname, hsame, hothers⟩, ⟨htrue, hone, -⟩, -⟩ := flowNodes_evaluated
  refine ⟨fun _ => hname, fun _ => hsame, fun p hp _ => ?_⟩
  rw [htype] at hp
  by_cases hperma : p = .perma
  · subst hperma
    exact Or.inr ⟨true, Or.inl htrue, Or.inl hone⟩
  · exact Or.inl (hothers p hp hperma)

/-- Whether a flow is permanent is compared, but never read from the file. -/
theorem permanent_overlooked :
    ¬ ∀ (unset : Nat) (vf2 : Vf2), vf2.Correct → ∀ config : Configuration,
      config.compareNames = true → ∀ file₁ file₂, Sound unset vf2 config file₁ file₂ := by
  intro h
  obtain ⟨⟨htype, hread, -⟩, ⟨-, -, htrue, hfalse⟩, hequivalent⟩ := flowNodes_evaluated
  have hsound := h 0 searchVf2 searchVf2_correct {} rfl (.parsed (flowSchedule "true"))
    (.parsed (flowSchedule "false"))
  have hcorr : Corresponding 0 {} (flowSchedule "true") (flowSchedule "false") fun v => v := by
    refine ⟨fun _ _ h => h, fun v => ?_, fun u v => ⟨[], List.mem_cons_self, List.Forall₂.nil⟩⟩
    change vertexEquivalent 0 (readVertex {} (flowNode "true"))
      (readVertex {} (flowNode "false")) = true
    exact hequivalent
  have hcomp : Comparable {} (flowSchedule "true") (flowSchedule "false") := ⟨rfl, rfl, rfl, rfl⟩
  have hsuccess : scheduleIsomorphic 0 searchVf2 {} (.parsed (flowSchedule "true"))
      (.parsed (flowSchedule "false")) = EXIT_SUCCESS :=
    (scheduleIsomorphic_eq_success_iff searchVf2_correct).mpr
      ⟨_, _, rfl, rfl, hcomp, _, hcorr⟩
  have hagree : Agree (flowNode "true") (flowNode "false") :=
    hsound hsuccess _ _ rfl rfl _ hcorr ⟨0, Nat.one_pos⟩
  have hvalue := hagree.values .perma (htype ▸ hread)
  rw [htrue, hfalse] at hvalue
  rcases hvalue with heq | ⟨b, hb, hb'⟩
  · exact absurd heq (by decide)
  · cases b with
    | true =>
      rcases hb' with h | ⟨n, hn, hb'⟩
      · exact absurd h (by decide)
      · cases hn
        cases hb'
    | false =>
      rcases hb with h | ⟨n, hn, hb⟩
      · exact absurd h (by decide)
      · cases hn
        cases hb

end ScheduleCompare
