import BelProjects.ScheduleCompare.Graph
import BelProjects.Library.AdjacencyList
import Mathlib.Data.List.Sort

/-!
# Replacement of chains

The vertices of a chain have at most one edge in and at most one edge out.  In each round the
start of a chain is searched backwards, the chain is collected forwards, and a new vertex takes
its place.  Vertices are numbers, and `none` stands for `ULONG_MAX`.  A recursion that goes on
for more steps than there are vertices has no result.
-/

namespace ScheduleCompare

abbrev ChainGraph := AdjacencyList ScheduleVertex ScheduleEdge

/-- The members of `configuration` that the replacement of chains reads. -/
structure ChainConfig where
  blocksSeparated : Bool := false
  chainCount : Nat := 2147483647

/-- `(*g)[v]` -/
def vertexAt (g : ChainGraph) (v : Nat) : ScheduleVertex := g.vertices.getD v {}

section Search

variable (config : ChainConfig) (g : ChainGraph)

def predecessor (v : Nat) (inChain : Bool) : Option Nat :=
  match g.inEdges v with
  | [(candidate, _, _)] =>
    if config.blocksSeparated && inChain then
      if (vertexAt g v).member .type = (vertexAt g candidate).member .type then some candidate
      else none
    else some candidate
  | _ => none

def anyPredecessor (v : Nat) : Option Nat := predecessor config g v false

def predecessorInChain (v : Nat) : Option Nat := predecessor config g v true

def successor (v : Nat) (inChain : Bool) : Option Nat :=
  match g.outEdges v with
  | [(_, candidate, _)] =>
    if config.blocksSeparated && inChain then
      if (vertexAt g v).member .type = (vertexAt g candidate).member .type then some candidate
      else none
    else some candidate
  | _ => none

def anySuccessor (v : Nat) : Option Nat := successor config g v false

def successorInChain (v : Nat) : Option Nat := successor config g v true

/-! ### The start of a chain -/

/-- The value of `startOfChain` when the result is true. -/
def getStartOfChain (first : Nat) : Nat → Nat → Option (Option Nat)
  | 0, _ => none
  | fuel + 1, v =>
    if (g.inDegree v = 0 ∧ g.outDegree v = 0) ∨ (g.inDegree v > 1 ∧ g.outDegree v > 1) then some none
    else if g.inDegree v = 1 ∧ g.outDegree v = 0 then
      match predecessorInChain config g v with
      | some p =>
        if g.inDegree p ≤ 1 ∧ g.outDegree p ≤ 1 then getStartOfChain first fuel p else some none
      | none => some none
    else if g.inDegree v = 0 ∧ g.outDegree v = 1 then some (some v)
    else if g.inDegree v = 1 ∧ g.outDegree v = 1 then
      match predecessorInChain config g v with
      | some p =>
        -- a cycle of two vertices
        if predecessorInChain config g p = some v then some none
        else if g.inDegree p ≤ 1 ∧ g.outDegree p = 1 then
          if p = first then some (some first) else getStartOfChain first fuel p
        else some (some v)
      | none => some (some v)
    else some none

/-- Whether the loop of `findStartOfChain` ends at a start: the next vertex is in a chain. -/
def breaksAt (start : Nat) : Bool :=
  match successorInChain config g start with
  | some s => g.inDegree s ≤ 1 ∧ g.outDegree s ≤ 1
  | none => false

/-- The loop over the vertices; without a break the last of them decides. -/
def findStartLoop : List Nat → Option Nat → Option (Option Nat)
  | [], result => some result
  | v :: vs, _ => do
    let result ← getStartOfChain config g v (g.order + 1) v
    match result with
    | some start => if breaksAt config g start then some result else findStartLoop vs result
    | none => findStartLoop vs result

def findStartOfChain : Option (Option Nat) := findStartLoop config g (List.range g.order) none

/-! ### The chain -/

/-- The members that `checkToReplace` fills, and its result. -/
structure Collected where
  chain : List Nat := []
  newName : String := ""
  newLabel : String := ""
  result : Bool := true

def checkToReplace (startOfChain : Nat) : Nat → Nat → Collected → Option Collected
  | 0, _, _ => none
  | fuel + 1, v, c =>
    if c.chain = [] then
      match successorInChain config g v with
      | some s =>
        if g.inDegree s = 1 ∧ g.outDegree s ≤ 1 then
          checkToReplace startOfChain fuel s
            { c with
              chain := [v]
              newName := (vertexAt g v).member .name
              newLabel := (vertexAt g v).member .label }
        else some { c with result := false }
      | none => some { c with result := false }
    else if v ∉ c.chain ∧ g.inDegree v = 1 ∧ g.outDegree v ≤ 1 then
      let s := successorInChain config g v
      if s = some startOfChain then some { c with result := false }
      else
        let c := { c with
          chain := c.chain ++ [v]
          newName := c.newName ++ "\n" ++ (vertexAt g v).member .name
          newLabel := if (vertexAt g v).member .label ≠ "" then
            c.newLabel ++ "\n" ++ (vertexAt g v).member .label else c.newLabel }
        match s with
        | some s => checkToReplace startOfChain fuel s c
        | none => some { c with result := true }
    else some { c with result := false }

end Search

/-! ### The new vertex -/

/-- The members that `createVertexProperties` copies. -/
def copiedMembers : List Member :=
  [.name, .label, .pos, .height, .width, .draw, .hdraw, .ldraw, .style, .penwidth, .shape,
    .fillcolor, .color, .pattern]

def ScheduleVertex.setMember (x : ScheduleVertex) (m : Member) (s : String) : ScheduleVertex :=
  { x with member := Function.update x.member m s }

def createVertexProperties (old : ScheduleVertex) : ScheduleVertex :=
  let new : ScheduleVertex := { member := fun m => if m ∈ copiedMembers then old.member m else "" }
  if new.member .label = "" then new.setMember .label (new.member .name) else new

/-- Position, drawing, type and color are copied, which is all but the name. -/
def copiedEdge (old : ScheduleEdge) : ScheduleEdge := { member := old.member }

/-- With `flag` the edge from `v1` into `v2` is copied to the new vertex `v3`, else the edge from
`v2` to `v3` for the new vertex `v1`. -/
def createEdgeProperties (g : ChainGraph) (v1 v2 v3 : Nat) (flag : Bool) : ChainGraph :=
  match (if flag then g.inEdges v2 else g.outEdges v2) with
  | (_, _, edge) :: _ => g.addEdge v1 v3 (copiedEdge edge)
  | [] => g

/-- The graph and `newVertexNum`. -/
structure Insertion where
  graph : ChainGraph
  newVertexNum : Nat

section Insert

variable (config : ChainConfig) (chain : List Nat) (startOfChain : Nat)

def ScheduleVertex.closeChain (new last : ScheduleVertex) : ScheduleVertex :=
  let dots := "\n...(" ++ toString (chain.length - 2) ++ ")\n"
  let named := new.setMember .name (new.member .name ++ dots ++ last.member .name)
  named.setMember .label (named.member .label ++ dots ++
    if last.member .label ≠ "" then last.member .label else last.member .name)

def createVertexAndEdges (v : Nat) (x : Insertion) : Insertion :=
  let x :=
    if v = startOfChain then
      let newVertexNum := x.graph.order
      let g := x.graph.addVertex (createVertexProperties (vertexAt x.graph v))
      match anyPredecessor config g v with
      | some p => ⟨createEdgeProperties g p v newVertexNum true, newVertexNum⟩
      | none => ⟨g, newVertexNum⟩
    else x
  let close (g : ChainGraph) : Insertion :=
    { x with graph := g.modifyVertex x.newVertexNum fun new => new.closeChain chain (vertexAt g v) }
  match anySuccessor config x.graph v with
  | some s => if s ∉ chain then close (createEdgeProperties x.graph x.newVertexNum v s false) else x
  | none => close x.graph

def insertLoop : Nat → Option Nat → Insertion → Option Insertion
  | 0, _, _ => none
  | fuel + 1, v, x =>
    match v with
    | some v =>
      if v ∈ chain then
        let x := createVertexAndEdges config chain startOfChain v x
        insertLoop fuel (anySuccessor config x.graph v) x
      else some x
    | none => some x

end Insert

/-- The vertices of a set, from the last to the first. -/
def descending (chain : List Nat) : List Nat := chain.insertionSort (· ≥ ·)

def insertEdges (config : ChainConfig) (g : ChainGraph) (startOfChain : Nat) (c : Collected) :
    Option ChainGraph := do
  let x ← insertLoop config c.chain startOfChain (g.order + 1) (some startOfChain) ⟨g, g.order⟩
  let g := if c.chain.length < 4 then
      x.graph.modifyVertex x.newVertexNum fun new =>
        (new.setMember .name c.newName).setMember .label c.newLabel
    else x.graph
  some (g.removeAll (descending c.chain))

/-! ### The rounds -/

def replaceSingleChain (config : ChainConfig) (g : ChainGraph) : Option (ChainGraph × Bool) := do
  match ← findStartOfChain config g with
  | some start =>
    let c ← checkToReplace config g start (g.order + 1) start {}
    if c.chain = [] then some (g, false) else some (← insertEdges config g start c, true)
  | none => some (g, false)

def replaceRounds (config : ChainConfig) : Nat → ChainGraph → Option (ChainGraph × Bool)
  | 0, g => some (g, true)
  | n + 1, g => do
    let (g, result) ← replaceSingleChain config g
    if result then replaceRounds config n g else some (g, false)

def replaceChainLoop (config : ChainConfig) (g : ChainGraph) : Option (ChainGraph × Bool) :=
  replaceRounds config config.chainCount g

end ScheduleCompare
