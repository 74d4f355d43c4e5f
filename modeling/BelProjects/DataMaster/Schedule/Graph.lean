import BelProjects.DataMaster.Layout
import BelProjects.DataMaster.Memory

/-!
# Schedules as the host sees them

A schedule is a directed graph with typed nodes and typed edges.  Validation checks the
neighbourhood of every node and, from every event, the sequence of events along the
default destinations up to the block that ends it.
-/

namespace DataMaster

/-- Edge types of `DotStr::Edge::TypeVal`, without those the host only uses in
analyses. -/
inductive EdgeType where
  | qPrio (prio : Nat) | dstList | defDst | altDst | badDefDst | target | switchDst | originDst
  | flowDst | flushOvr | dynId | dynPar0 | dynPar1 | dynTef | dynRes | metaChild
  deriving DecidableEq, Repr

/-- The class of a node object, with the times that the checks read. -/
inductive NodeObj where
  | event (tOffs : Time)
  | block (tPeriod : Time)
  | metaNode
  deriving DecidableEq, Repr

structure Vertex where
  name : String
  type : NodeType
  /-- `np`, the node object, unless it is a null pointer. -/
  np : Option NodeObj
  deriving Repr

/-- A graph on the vertices `V`: what the vertices are, and their outgoing edges in
order. -/
structure Graph (V : Type*) where
  vertex : V → Vertex
  outEdges : V → List (EdgeType × V)

def NodeType.isBlock : NodeType → Bool
  | .blockFixed | .blockAlign => true
  | _ => false

def NodeType.isEvent : NodeType → Bool
  | .tmsg | .cnoop | .cflow | .cflush | .cwait | .cswitch | .origin | .startthread => true
  | _ => false

namespace Graph

variable {V : Type*} (g : Graph V)

/-- The child connected to a node's default destination. -/
def defDst (v : V) : Option V := ((g.outEdges v).find? fun e => e.1 == .defDst).map Prod.snd

def IsEvent (v : V) (tOffs : Time) : Prop := (g.vertex v).np = some (.event tOffs)

def IsBlock (v : V) (tPeriod : Time) : Prop := (g.vertex v).np = some (.block tPeriod)

/-! ### The event sequence check -/

def maxDepthEvent : Nat := 1000

/-- What `eventSequenceCheck` throws, with the name of the node. The last one is no
exception: C++ leaves it undefined. -/
inductive SequenceError where
  | notAllocated (name : String)
  | offsetBeyondPeriod (name : String)
  | loopsOnItself (name : String)
  | loopWithoutBlock (name : String)
  | offsetBeyondSuccessor (name : String)
  | infiniteLoop (name : String)
  | nullCast
  deriving DecidableEq, Repr

variable [DecidableEq V]

def eventSequenceLoop (v : V) (force : Bool) : Nat → V → Except SequenceError Unit
  | 0, _ => .error (.infiniteLoop (g.vertex v).name)
  | rounds + 1, vcurrent =>
      let vnext := (g.defDst vcurrent).getD vcurrent
      let name := (g.vertex vcurrent).name
      if (g.vertex vnext).type.isBlock then
        if (g.vertex vcurrent).np.isNone then .error (.notAllocated name)
        else if (g.vertex vnext).np.isNone then .error (.notAllocated (g.vertex vnext).name)
        else if force then .ok ()
        else match (g.vertex vcurrent).np, (g.vertex vnext).np with
          | some (.event tOffs), some (.block tPeriod) =>
              if tPeriod ≤ tOffs then .error (.offsetBeyondPeriod name) else .ok ()
          | _, _ => .error .nullCast
      else if vcurrent = vnext then .error (.loopsOnItself name)
      else if vnext = v then .error (.loopWithoutBlock name)
      else if force then eventSequenceLoop v force rounds vnext
      else match (g.vertex vcurrent).np, (g.vertex vnext).np with
        | some (.event tOffs), some (.event tNext) =>
            if tNext < tOffs then .error (.offsetBeyondSuccessor name)
            else eventSequenceLoop v force rounds vnext
        | _, _ => .error .nullCast

def eventSequenceCheck (v : V) (force : Bool) : Except SequenceError Unit :=
  g.eventSequenceLoop v force maxDepthEvent v

/-! ### What the check establishes -/

end Graph

end DataMaster
