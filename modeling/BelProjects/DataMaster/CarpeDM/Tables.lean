import BelProjects.DataMaster.Alloc.Addresses
import BelProjects.DataMaster.Dot.Text

/-!
# The tables of the host

Next to the graph and the allocation table of a schedule the host keeps a hash map, from
the hashes of node names to the names and back, a group table with the pattern and the
beam process of every node, and a covenant table with the commands that must not be
overtaken.
-/

namespace DataMaster

/-! ### Hash map -/

structure HashEntry where
  left : Word
  right : String
  deriving DecidableEq, Repr

/-- Both sides of the two-way map are keys. -/
def HashEntry.Collide (x y : HashEntry) : Prop := x.left = y.left ∨ x.right = y.right

instance : DecidableRel HashEntry.Collide := fun _ _ => inferInstanceAs (Decidable (_ ∨ _))

abbrev HashMap := UniqueSet HashEntry HashEntry.Collide

namespace HashMap

variable (hm : HashMap)

def contains (name : String) : Bool := hm.entries.any fun x => x.right == name

/-- A name that is not in the map and collides with another one is not inserted, and the
access to its entry behind the insertion throws. -/
def add (name : String) : Except String HashMap :=
  let hm := (hm.insert { left := Dot.fnvHash name, right := name }).1
  if contains hm name then .ok hm else .error "bimap<>: invalid key"

def remove (name : String) : HashMap := hm.eraseIf fun x => x.right == name

def lookup (name exMsg : String) : Except String Word :=
  match hm.entries.find? fun x => x.right == name with
  | some x => .ok x.left
  | none => .error (exMsg ++ " HashTable: Name " ++ name ++ " not found")

def nameOf (hash : Word) : Option String :=
  (hm.entries.find? fun x => x.left == hash).map HashEntry.right

end HashMap

/-! ### Group table -/

structure GroupMeta where
  node : String
  pattern : String := sUndefined
  patternEntry : Bool := false
  patternExit : Bool := false
  beamproc : String := sUndefined
  beamprocEntry : Bool := false
  beamprocExit : Bool := false
  deriving DecidableEq, Repr

/-- The unique key of `GroupMeta_set`. -/
def GroupMeta.Collide (x y : GroupMeta) : Prop := x.node = y.node

instance : DecidableRel GroupMeta.Collide := fun x y =>
  inferInstanceAs (Decidable (x.node = y.node))

abbrev GroupTable := UniqueSet GroupMeta GroupMeta.Collide

namespace GroupTable

variable (gt : GroupTable)

def lookup (sNode : String) : Option GroupMeta := gt.entries.find? fun x => x.node == sNode

/-- `lookupOrCreateNode`, and a change of the entry. -/
def modify (sNode : String) (f : GroupMeta → GroupMeta) : GroupTable :=
  match lookup gt sNode with
  | some x => ((gt.eraseIf fun y => y.node == sNode).insert (f x)).1
  | none => (gt.insert (f { node := sNode })).1

def setPattern (sNode sNew : String) (entry exit : Bool) : GroupTable :=
  modify gt sNode fun p => { p with pattern := sNew, patternEntry := entry, patternExit := exit }

def setBeamproc (sNode sNew : String) (entry exit : Bool) : GroupTable :=
  modify gt sNode fun p => { p with beamproc := sNew, beamprocEntry := entry, beamprocExit := exit }

/-- `remove` by the name of a node. -/
def remove (sNode : String) : GroupTable := gt.eraseIf fun x => x.node == sNode

end GroupTable

/-! ### Covenant table -/

structure CovenantMeta where
  name : String
  prio : BitVec 8
  slot : BitVec 8
  chkSum : Word
  deriving DecidableEq, Repr

/-- The unique key of `CovenantMeta_set`. -/
def CovenantMeta.Collide (x y : CovenantMeta) : Prop := x.name = y.name

instance : DecidableRel CovenantMeta.Collide := fun x y =>
  inferInstanceAs (Decidable (x.name = y.name))

abbrev CovenantTable := UniqueSet CovenantMeta CovenantMeta.Collide

namespace CovenantTable

variable (ct : CovenantTable)

def lookup (s : String) : Option CovenantMeta := ct.entries.find? fun x => x.name == s

def remove (s : String) : CovenantTable := ct.eraseIf fun x => x.name == s

def addAll (additions : CovenantTable) : CovenantTable :=
  additions.entries.foldl (fun ct e => (ct.insert e).1) ct

end CovenantTable

/-! ### Changes of entries of the allocation table -/

namespace AllocTable

variable (t : AllocTable)

def lookupVertex (v : Nat) : Except String AllocMeta :=
  match t.a.entries.find? fun e => e.v == v with
  | some e => .ok e
  | none => .error ("unknown vertex descriptor " ++ toString v)

/-- `modify` of the container: an entry that collides after the change is erased. -/
def modify (hash : Word) (f : AllocMeta → AllocMeta) : AllocTable :=
  match t.lookupHash hash with
  | some e => { t with a := ((t.a.eraseIf fun x => x.hash == hash).insert (f e)).1 }
  | none => t

def setStaged (hash : Word) : AllocTable := t.modify hash fun e => { e with staged := true }

def modV (hash : Word) (vNew : Nat) : AllocTable := t.modify hash fun e => { e with v := vNew }

def setBuffer (hash : Word) (b : Block) : AllocTable := t.modify hash fun e => { e with b := b }

end AllocTable

end DataMaster

/-!
## Schedule graphs of the host

The vertices of a graph are numbered from zero on.  A new vertex gets the next number, and
removing one moves all later vertices down by one.
-/

namespace DataMaster.CarpeDM

/-- `myVertex`: the strings, the hash of the name and the node object, if there is one. -/
structure HostVertex where
  v : Dot.MyVertex
  hash : Word
  np : Option Dot.Node

def HostVertex.name (x : HostVertex) : String := x.v.name

structure HostEdge where
  source : Nat
  target : Nat
  type : EdgeType
  deriving DecidableEq, Repr

structure HostGraph where
  /-- The `graph_name` property. -/
  name : String := ""
  vertices : List HostVertex := []
  edges : List HostEdge := []

namespace HostGraph

variable (g : HostGraph)

/-- `clear`, which keeps the graph's name. -/
def clear : HostGraph := { name := g.name }

/-- `add_vertex`. The number of the new vertex is the number of vertices before. -/
def addVertex (x : HostVertex) : HostGraph := { g with vertices := g.vertices ++ [x] }

def addEdge (e : HostEdge) : HostGraph := { g with edges := g.edges ++ [e] }

def outEdges (v : Nat) : List HostEdge := g.edges.filter fun e => e.source == v

def inEdges (v : Nat) : List HostEdge := g.edges.filter fun e => e.target == v

def clearVertex (v : Nat) : HostGraph :=
  { g with edges := g.edges.filter fun e => e.source != v && e.target != v }

/-- `remove_vertex`, of a vertex without edges. -/
def removeVertex (v : Nat) : HostGraph :=
  let down (w : Nat) : Nat := if v < w then w - 1 else w
  { g with
    vertices := g.vertices.eraseIdx v
    edges := g.edges.map fun e => { e with source := down e.source, target := down e.target } }

/-- `mycopy_graph`: the copy of vertex `v` is vertex `cpy.vertices.length + v`. -/
def copyTo (cpy : HostGraph) : HostGraph :=
  let vmap (v : Nat) : Nat := cpy.vertices.length + v
  let edges := (List.range g.vertices.length).flatMap fun v =>
    (g.outEdges v).map fun e => { e with source := vmap v, target := vmap e.target }
  { cpy with vertices := cpy.vertices ++ g.vertices, edges := cpy.edges ++ edges }

def keys : List (String × Word) := g.vertices.map fun x => (x.name, x.hash)

/-- Whether the graph holds commands instead of a schedule. -/
def isCommands : Bool := decide ("!CMD!".toList <:+: g.name.toList)

end HostGraph

end DataMaster.CarpeDM
