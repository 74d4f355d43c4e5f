import BelProjects.ScheduleCompare.Vertex
import BelProjects.Library.Multigraph

/-!
# Comparison of two schedules

A dot file is parsed into a graph whose vertices and edges have a member for each attribute
that is registered; attributes that are not registered are ignored or, when the syntax is
checked, an error.  Two schedules are compared by a search for an isomorphism between their
graphs, or between one of them and a subgraph of the other.  The search is a parameter.
-/

namespace ScheduleCompare

structure Configuration where
  check : Bool := false
  compareNames : Bool := true
  extraProperties : Bool := false

def EXIT_SUCCESS : Int := 0
def NOT_ISOMORPHIC : Int := 1
def SUBGRAPH_ISOMORPHIC : Int := 2
def FILE_NOT_FOUND : Int := 13
def PARSE_ERROR : Int := 15
def PARSE_ERROR_GRAPHVIZ : Int := 16

/-- The members of `ScheduleEdge` that a dot file can set. -/
inductive EdgeMember
  | type | color | draw | hdraw | pos
  deriving DecidableEq, Repr

structure ScheduleEdge where
  name : String := ""
  member : EdgeMember → String := fun _ => ""

def compareEdges (e1 e2 : ScheduleEdge) : Int :=
  if e1.name = e2.name then compareText (e1.member .type) (e2.member .type)
  else compareText e1.name e2.name

abbrev ScheduleGraph := Multigraph ScheduleVertex ScheduleEdge

/-! ### The files -/

/-- A node as the dot parser passes it on. An attribute that is given again replaces the value
given before. -/
structure DotNode where
  id : String
  attrs : List (String × String)

structure DotGraph where
  attrs : List (String × String)
  graph : Multigraph DotNode (List (String × String))

inductive DotFile
  | missing
  /-- Not in the syntax of the dot language. -/
  | malformed
  | parsed (g : DotGraph)

/-! ### Parsing -/

/-- `setDynamicProperties`, for the graph. -/
def graphProperties (config : Configuration) : List String :=
  ["name"] ++ if config.extraProperties then ["bb", "_draw_", "xdotversion"] else []

def checkProperties : List (String × Member) :=
  [("cpu", .cpu), ("qty", .qty), ("vabs", .vabs), ("flags", .flags)]

def extraVertexProperties : List (String × Member) :=
  [("pos", .pos), ("_draw_", .draw), ("_ldraw_", .ldraw), ("_hdraw_", .hdraw), ("height", .height),
    ("width", .width)]

def namingProperties : List (String × Member) :=
  [("type", .type), ("name", .name), ("label", .label)]

def nodeProperties : List (String × Member) :=
  [("shape", .shape), ("penwidth", .penwidth), ("fillcolor", .fillcolor), ("color", .color),
    ("style", .style), ("tperiod", .tperiod), ("qlo", .qlo), ("qhi", .qhi), ("qil", .qil),
    ("tef", .tef), ("toffs", .toffs), ("par", .par), ("id", .id), ("fid", .fid), ("gid", .gid),
    ("evtno", .evtno), ("sid", .sid), ("bpid", .bpid), ("beamin", .beamin), ("bpcstart", .bpcstart),
    ("reqnobeam", .reqnobeam), ("vacc", .vacc), ("res", .res), ("tvalid", .tvalid), ("tabs", .tabs),
    ("target", .target), ("dst", .dst), ("reps", .reps), ("prio", .prio), ("twait", .twait),
    ("wabs", .wabs), ("clear", .clear), ("ovr", .ovr), ("beamproc", .beamproc),
    ("pattern", .pattern), ("patentry", .patentry), ("patexit", .patexit), ("bpentry", .bpentry),
    ("bpexit", .bpexit)]

/-- `setDynamicProperties`, for the vertices. -/
def vertexProperties (config : Configuration) : List (String × Member) :=
  (if config.check then checkProperties else []) ++ namingProperties ++
    (if config.extraProperties then extraVertexProperties else []) ++ nodeProperties

/-- `setDynamicProperties`, for the edges. -/
def edgeProperties (config : Configuration) : List (String × EdgeMember) :=
  [("type", .type), ("color", .color)] ++
  if config.extraProperties then [("_draw_", .draw), ("_hdraw_", .hdraw), ("pos", .pos)] else []

def ScheduleVertex.put (config : Configuration) (v : ScheduleVertex) (a : String × String) :
    ScheduleVertex :=
  match (vertexProperties config).lookup a.1 with
  | some m => { v with member := Function.update v.member m a.2 }
  | none => v

def ScheduleEdge.put (config : Configuration) (e : ScheduleEdge) (a : String × String) :
    ScheduleEdge :=
  match (edgeProperties config).lookup a.1 with
  | some m => { e with member := Function.update e.member m a.2 }
  | none => e

/-- The identifier of a node is put first, so that an attribute can replace it. -/
def readVertex (config : Configuration) (d : DotNode) : ScheduleVertex :=
  d.attrs.foldl (ScheduleVertex.put config) { member := Function.update (fun _ => "") .name d.id }

def readEdge (config : Configuration) (attrs : List (String × String)) : ScheduleEdge :=
  attrs.foldl (ScheduleEdge.put config) {}

def readGraphviz (config : Configuration) (g : DotGraph) : ScheduleGraph :=
  g.graph.map (readVertex config) (readEdge config)

/-- Whether the parser throws `property_not_found`. -/
def propertyNotFound (config : Configuration) (g : DotGraph) : Bool :=
  config.check &&
    (g.attrs.any (fun a => !(graphProperties config).contains a.1) ||
      (List.finRange g.graph.order).any (fun v =>
        (g.graph.vertex v).attrs.any fun a => ((vertexProperties config).lookup a.1).isNone) ||
      g.graph.edges.any fun e =>
        e.2.2.any fun a => ((edgeProperties config).lookup a.1).isNone)

/-- `parseSchedule` with the handlers of its exceptions: the new `result`, and the graph when
there is one. -/
def parseSchedule (config : Configuration) (result : Int) : DotFile → Int × Option ScheduleGraph
  | .missing => (result, none)
  | .malformed => (PARSE_ERROR_GRAPHVIZ, none)
  | .parsed g =>
    if propertyNotFound config g then (PARSE_ERROR, none) else (result, some (readGraphviz config g))

def switchCompareNames (flag : Bool) (graph : ScheduleGraph) : ScheduleGraph :=
  graph.map (fun v => { v with compareNames := flag }) fun e => e

/-! ### The search for an isomorphism -/

/-- `vf2_subgraph_iso`, with the predicates for vertices and edges. -/
abbrev Vf2 := (ScheduleVertex → ScheduleVertex → Bool) → (ScheduleEdge → ScheduleEdge → Bool) →
  ScheduleGraph → ScheduleGraph → Bool

/-- It finds out whether the first graph is isomorphic to an induced subgraph of the second. -/
def Vf2.Correct (vf2 : Vf2) : Prop :=
  ∀ vc ec g g', vf2 vc ec g g' = true ↔
    ∃ f, Multigraph.InducedMatch (fun x y => vc x y = true) (fun x y => ec x y = true) g g' f

def vertexEquivalent (unset : Nat) (v1 v2 : ScheduleVertex) : Bool := compare unset v1 v2 = 0

def edgeEquivalent (e1 e2 : ScheduleEdge) : Bool := compareEdges e1 e2 = 0

/-- The smaller graph is searched for in the other one. -/
def ordered (graph1 graph2 : ScheduleGraph) : ScheduleGraph × ScheduleGraph :=
  if graph1.order > graph2.order ∨ graph1.order = graph2.order ∧ graph1.size > graph2.size then
    (graph2, graph1)
  else (graph1, graph2)

def scheduleIsomorphic (unset : Nat) (vf2 : Vf2) (config : Configuration)
    (dotFile1 dotFile2 : DotFile) : Int :=
  let (result, parse1) := parseSchedule config (-1) dotFile1
  let (result, parse2) := parseSchedule config result dotFile2
  match parse1, parse2 with
  | some graph1, some graph2 =>
    let graph1 := switchCompareNames config.compareNames graph1
    let graph2 := switchCompareNames config.compareNames graph2
    let (ref1, ref2) := ordered graph1 graph2
    let isomorphic := vf2 (vertexEquivalent unset) edgeEquivalent ref1 ref2
    if ref1.order = ref2.order ∧ ref1.size = ref2.size then
      if isomorphic then EXIT_SUCCESS else NOT_ISOMORPHIC
    else if isomorphic then SUBGRAPH_ISOMORPHIC else NOT_ISOMORPHIC
  | _, _ => if result = -1 then FILE_NOT_FOUND else result

/-! ### Attributes of a node -/

/-- The last value a node gives to an attribute. -/
def DotNode.text (d : DotNode) (key missing : String) : String :=
  d.attrs.foldl (fun s a => if a.1 = key then a.2 else s) missing

def DotNode.given (d : DotNode) (key : String) : Bool := d.attrs.any fun a => a.1 = key

section Attributes

variable {d a b : DotNode} {key missing : String}

theorem text_missing (h : d.given key = false) : d.text key missing = missing := by
  have hne : ∀ a ∈ d.attrs, ¬ a.1 = key := by simpa [DotNode.given] using h
  refine List.foldlRecOn (motive := fun s => s = missing) d.attrs _ rfl fun s hs a ha => ?_
  rw [if_neg (hne a ha), hs]

theorem text_given (h : d.given key = true) (other : String) :
    d.text key missing = d.text key other := by
  obtain ⟨a, ha, hkey⟩ : ∃ a ∈ d.attrs, a.1 = key := by simpa [DotNode.given] using h
  obtain ⟨before, after, hsplit⟩ := List.append_of_mem ha
  unfold DotNode.text
  rw [hsplit, List.foldl_append, List.foldl_append, List.foldl_cons, List.foldl_cons, if_pos hkey,
    if_pos hkey]

/-- Texts that agree with one default agree with every other, unless only one node gives them. -/
theorem text_congr (hgiven : a.given key = b.given key)
    (h : a.text key missing = b.text key missing) (other : String) :
    a.text key other = b.text key other := by
  cases hb : b.given key with
  | true => rw [text_given (hgiven.trans hb) missing, text_given hb missing, h]
  | false => rw [text_missing (hgiven.trans hb), text_missing hb]

end Attributes

/-! ### Registered members -/

def Member.dotName : Member → String
  | .name => "name" | .label => "label" | .pos => "pos" | .draw => "_draw_" | .ldraw => "_ldraw_"
  | .hdraw => "_hdraw_" | .height => "height" | .width => "width" | .type => "type"
  | .tperiod => "tperiod" | .qlo => "qlo" | .qhi => "qhi" | .qil => "qil" | .toffs => "toffs"
  | .tef => "tef" | .par => "par" | .id => "id" | .fid => "fid" | .gid => "gid"
  | .evtno => "evtno" | .sid => "sid" | .bpid => "bpid" | .beamin => "beamin"
  | .bpcstart => "bpcstart" | .reqnobeam => "reqnobeam" | .vacc => "vacc" | .res => "res"
  | .tvalid => "tvalid" | .tabs => "tabs" | .target => "target" | .dst => "dst"
  | .reps => "reps" | .prio => "prio" | .twait => "twait" | .wabs => "wabs" | .clear => "clear"
  | .ovr => "ovr" | .beamproc => "beamproc" | .pattern => "pattern" | .patentry => "patentry"
  | .patexit => "patexit" | .bpentry => "bpentry" | .bpexit => "bpexit"
  | .permanent => "permanent" | .thread => "thread" | .startoffs => "startoffs" | .cpu => "cpu"
  | .qty => "qty" | .vabs => "vabs" | .flags => "flags" | .shape => "shape"
  | .penwidth => "penwidth" | .fillcolor => "fillcolor" | .color => "color" | .style => "style"

theorem dotName_of_lookup {config : Configuration} {key : String} {m : Member}
    (h : (vertexProperties config).lookup key = some m) : key = m.dotName := by
  obtain ⟨before, after, hsplit, -⟩ := List.lookup_eq_some_iff.mp h
  have hmem : (key, m) ∈ vertexProperties config := by
    rw [hsplit]
    exact List.mem_append_right _ List.mem_cons_self
  have hcheck : ∀ e ∈ checkProperties, e.1 = e.2.dotName := by decide
  have hextra : ∀ e ∈ extraVertexProperties, e.1 = e.2.dotName := by decide
  have hnaming : ∀ e ∈ namingProperties, e.1 = e.2.dotName := by decide
  have hnode : ∀ e ∈ nodeProperties, e.1 = e.2.dotName := by decide +kernel
  unfold vertexProperties at hmem
  simp only [List.mem_append, List.mem_ite_nil_right] at hmem
  rcases hmem with ((⟨-, h⟩ | h) | ⟨-, h⟩) | h
  · exact hcheck _ h
  · exact hnaming _ h
  · exact hextra _ h
  · exact hnode _ h

section Members

variable {config : Configuration} {d : DotNode} {key : String} {m : Member}

theorem member_foldl_put (h : (vertexProperties config).lookup key = some m)
    (attrs : List (String × String)) (v : ScheduleVertex) :
    (attrs.foldl (ScheduleVertex.put config) v).member m =
      attrs.foldl (fun s a => if a.1 = key then a.2 else s) (v.member m) := by
  induction attrs generalizing v with
  | nil => rfl
  | cons a attrs ih =>
    rw [List.foldl_cons, List.foldl_cons, ih]
    congr 1
    unfold ScheduleVertex.put
    by_cases ha : a.1 = key
    · rw [ha, h, if_pos rfl]
      exact Function.update_self _ _ _
    · rw [if_neg ha]
      cases ha' : (vertexProperties config).lookup a.1 with
      | none => rfl
      | some m' =>
        refine Function.update_of_ne (fun hm => ha ?_) _ _
        rw [dotName_of_lookup ha', dotName_of_lookup h, hm]

theorem member_readVertex (h : (vertexProperties config).lookup key = some m) (hm : m ≠ .name) :
    (readVertex config d).member m = d.text key "" := by
  rw [readVertex, member_foldl_put h, DotNode.text]
  exact congrArg (fun s => d.attrs.foldl _ s) (Function.update_of_ne hm d.id fun _ => "")

theorem lookup_name : (vertexProperties config).lookup "name" = some .name := by
  obtain ⟨check, names, extra⟩ := config
  revert check names extra
  decide +kernel

theorem lookup_type : (vertexProperties config).lookup "type" = some .type := by
  obtain ⟨check, names, extra⟩ := config
  revert check names extra
  decide +kernel

theorem name_readVertex : (readVertex config d).member .name = d.text "name" d.id := by
  rw [readVertex, member_foldl_put lookup_name, DotNode.text]
  exact congrArg (fun s => d.attrs.foldl _ s) (Function.update_self Member.name d.id fun _ => "")

theorem name_readEdge (attrs : List (String × String)) : (readEdge config attrs).name = "" := by
  refine List.foldlRecOn (motive := fun (e : ScheduleEdge) => e.name = "") attrs _ rfl
    fun e he a _ => ?_
  unfold ScheduleEdge.put
  split
  · exact he
  · exact he

end Members

/-! ### When a comparison succeeds -/

def comparedGraph (config : Configuration) (g : DotGraph) : ScheduleGraph :=
  switchCompareNames config.compareNames (readGraphviz config g)

/-- An isomorphism between the graphs of two schedules, as the comparison understands it. -/
def Corresponding (unset : Nat) (config : Configuration) (g₁ g₂ : DotGraph)
    (f : Fin g₁.graph.order → Fin g₂.graph.order) : Prop :=
  Multigraph.InducedMatch (fun x y => vertexEquivalent unset x y = true)
    (fun x y => edgeEquivalent x y = true) (comparedGraph config g₁) (comparedGraph config g₂) f

/-- Both schedules are parsed, and their graphs have as many vertices and as many edges. -/
structure Comparable (config : Configuration) (g₁ g₂ : DotGraph) : Prop where
  known₁ : propertyNotFound config g₁ = false
  known₂ : propertyNotFound config g₂ = false
  order : g₁.graph.order = g₂.graph.order
  size : g₁.graph.size = g₂.graph.size

section Success

variable {unset : Nat} {vf2 : Vf2} {config : Configuration} {file₁ file₂ : DotFile}

theorem ordered_same {graph1 graph2 : ScheduleGraph} (horder : graph1.order = graph2.order)
    (hsize : graph1.size = graph2.size) : ordered graph1 graph2 = (graph1, graph2) := by
  unfold ordered
  rw [if_neg (by omega)]

theorem same_of_ordered {graph1 graph2 : ScheduleGraph}
    (h : (ordered graph1 graph2).1.order = (ordered graph1 graph2).2.order ∧
      (ordered graph1 graph2).1.size = (ordered graph1 graph2).2.size) :
    graph1.order = graph2.order ∧ graph1.size = graph2.size := by
  unfold ordered at h
  split at h
  · exact ⟨h.1.symm, h.2.symm⟩
  · exact h

theorem size_comparedGraph (g : DotGraph) : (comparedGraph config g).size = g.graph.size :=
  (Multigraph.size_map _ _ _).trans (Multigraph.size_map _ _ _)

theorem parseSchedule_cases (config : Configuration) (result : Int) (file : DotFile) :
    (∃ g, file = .parsed g ∧ propertyNotFound config g = false ∧
      parseSchedule config result file = (result, some (readGraphviz config g))) ∨
    ∃ code ∈ [result, PARSE_ERROR, PARSE_ERROR_GRAPHVIZ],
      parseSchedule config result file = (code, none) := by
  cases file with
  | missing => exact Or.inr ⟨result, List.mem_cons_self, rfl⟩
  | malformed => exact Or.inr ⟨PARSE_ERROR_GRAPHVIZ, by simp, rfl⟩
  | parsed g =>
    cases h : propertyNotFound config g with
    | true => exact Or.inr ⟨PARSE_ERROR, by simp, by simp [parseSchedule, h]⟩
    | false => exact Or.inl ⟨g, rfl, h, by simp [parseSchedule, h]⟩

theorem scheduleIsomorphic_parsed {g₁ g₂ : DotGraph} (h₁ : propertyNotFound config g₁ = false)
    (h₂ : propertyNotFound config g₂ = false) :
    scheduleIsomorphic unset vf2 config (.parsed g₁) (.parsed g₂) =
      let refs := ordered (comparedGraph config g₁) (comparedGraph config g₂)
      let isomorphic := vf2 (vertexEquivalent unset) edgeEquivalent refs.1 refs.2
      if refs.1.order = refs.2.order ∧ refs.1.size = refs.2.size then
        if isomorphic then EXIT_SUCCESS else NOT_ISOMORPHIC
      else if isomorphic then SUBGRAPH_ISOMORPHIC else NOT_ISOMORPHIC := by
  simp only [scheduleIsomorphic, parseSchedule, h₁, h₂, Bool.false_eq_true, if_false]
  rfl

/-- Without two graphs the result is one of the codes for files that cannot be read. -/
theorem scheduleIsomorphic_failed {code₁ code₂ : Int} {graph₁ graph₂ : Option ScheduleGraph}
    (h₁ : parseSchedule config (-1) file₁ = (code₁, graph₁))
    (h₂ : parseSchedule config code₁ file₂ = (code₂, graph₂)) (h : graph₁ = none ∨ graph₂ = none)
    (hcode : code₂ ∈ [-1, PARSE_ERROR, PARSE_ERROR_GRAPHVIZ]) :
    scheduleIsomorphic unset vf2 config file₁ file₂ ≠ EXIT_SUCCESS := by
  have hresult : scheduleIsomorphic unset vf2 config file₁ file₂ =
      if code₂ = -1 then FILE_NOT_FOUND else code₂ := by
    simp only [scheduleIsomorphic, h₁, h₂]
    rcases h with rfl | rfl
    · rfl
    · cases graph₁ <;> rfl
  rw [hresult]
  simp only [List.mem_cons, List.not_mem_nil, or_false] at hcode
  rcases hcode with rfl | rfl | rfl <;> decide

theorem scheduleIsomorphic_eq_success_iff (hvf2 : vf2.Correct) :
    scheduleIsomorphic unset vf2 config file₁ file₂ = EXIT_SUCCESS ↔
      ∃ g₁ g₂, file₁ = .parsed g₁ ∧ file₂ = .parsed g₂ ∧ Comparable config g₁ g₂ ∧
        ∃ f, Corresponding unset config g₁ g₂ f := by
  constructor
  · intro h
    rcases parseSchedule_cases config (-1) file₁ with ⟨g₁, rfl, hk₁, h₁⟩ | ⟨code₁, hcode₁, h₁⟩
    · rcases parseSchedule_cases config (-1) file₂ with ⟨g₂, rfl, hk₂, -⟩ | ⟨code₂, hcode₂, h₂⟩
      · rw [scheduleIsomorphic_parsed hk₁ hk₂] at h
        refine ⟨g₁, g₂, rfl, rfl, ?_⟩
        dsimp only at h
        split at h
        · rename_i hrefs
          obtain ⟨horder, hsize⟩ := same_of_ordered hrefs
          rw [ordered_same horder hsize] at h
          have hfound : vf2 (vertexEquivalent unset) edgeEquivalent (comparedGraph config g₁)
              (comparedGraph config g₂) = true := by
            by_contra hnot
            rw [if_neg hnot] at h
            exact absurd h (by decide)
          rw [size_comparedGraph, size_comparedGraph] at hsize
          exact ⟨⟨hk₁, hk₂, horder, hsize⟩, (hvf2 _ _ _ _).mp hfound⟩
        · split at h
          · exact absurd h (by decide)
          · exact absurd h (by decide)
      · exact absurd h (scheduleIsomorphic_failed h₁ h₂ (Or.inr rfl) hcode₂)
    · rcases parseSchedule_cases config code₁ file₂ with ⟨g₂, -, -, h₂⟩ | ⟨code₂, hcode₂, h₂⟩
      · exact absurd h (scheduleIsomorphic_failed h₁ h₂ (Or.inl rfl) hcode₁)
      · refine absurd h (scheduleIsomorphic_failed h₁ h₂ (Or.inl rfl) ?_)
        rcases List.mem_cons.mp hcode₂ with rfl | hcode₂
        · exact hcode₁
        · exact List.mem_cons_of_mem _ hcode₂
  · rintro ⟨g₁, g₂, rfl, rfl, hc, f, hf⟩
    have hsize : (comparedGraph config g₁).size = (comparedGraph config g₂).size := by
      rw [size_comparedGraph, size_comparedGraph, hc.size]
    have hfound := (hvf2 (vertexEquivalent unset) edgeEquivalent (comparedGraph config g₁)
      (comparedGraph config g₂)).mpr ⟨f, hf⟩
    rw [scheduleIsomorphic_parsed hc.known₁ hc.known₂, ordered_same hc.order hsize]
    exact (if_pos ⟨hc.order, hsize⟩).trans (if_pos hfound)

end Success

end ScheduleCompare
