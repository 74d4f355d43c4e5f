import BelProjects.DataMaster.Dot.RoundTrip
import BelProjects.Library.ByteFields

/-!
# Restaging

A node that stays in a schedule is written again for the next upload: the edges that the
download has made from its pointers are crawled, and its object is serialised into a
cleared buffer.  Whatever the object does not hold is lost on the way.
-/

namespace DataMaster.Dot

open BigEndian

/-! ### From pointers to edges and back -/

/-- What a node's buffer does not say about its neighbours. -/
structure Around where
  /-- The hash of the node at an external address. -/
  hashOf : Word → Word
  /-- The order in which a set of vertices is gone through, by their addresses. -/
  order : List Word → List Word
  mem_order : ∀ ws w, w ∈ order ws ↔ w ∈ ws
  order_nodup : ∀ ws, (order ws).Nodup
  /-- The destination list of a block. -/
  dsts : List Word
  /-- The default destination of the block of a destination list. -/
  defAdr : Word

/-- An edge to a dynamic source, with address and hash of the source. -/
structure Source where
  type : EdgeType
  adr : Word
  hash : Word

/-- The edge for a pointer of a timing message, if the flag says that it is one. -/
def downSource (A : Around) (b : List Octet) (flags : Word) (type : EdgeType) (pos off : Nat) :
    List Source :=
  if flags.getLsbD pos ∧ read32 b off ≠ lm32NullPtr then
    [⟨type, read32 b off, A.hashOf (read32 b off)⟩]
  else []

/-- The edges `visit` of the download crawler adds for a timing message, behind its default
destination. -/
def downSources (A : Around) (b : List Octet) (flags : Word) : List Source :=
  downSource A b flags .dynId nflgTmsgDynIdPos 12 ++
    downSource A b flags .dynPar0 nflgTmsgDynPar0Pos 20 ++
      downSource A b flags .dynPar1 nflgTmsgDynPar1Pos 16

/-- The variables of `getDynSrc`, with the flags it sets. -/
structure DynSrc where
  aId : Word := lm32NullPtr
  aPar0 : Word := lm32NullPtr
  aPar1 : Word := lm32NullPtr
  aTef : Word := lm32NullPtr
  hashXor : Word := 0
  flags : Word := 0

/-- The loop of `getDynSrc`. It is left at a second source for one field. -/
def getDynSrcLoop (s : DynSrc) : List Source → DynSrc
  | [] => s
  | e :: es =>
    match e.type with
    | .dynId =>
      if s.aId ≠ lm32NullPtr then s
      else getDynSrcLoop { s with
        aId := e.adr
        hashXor := s.hashXor ^^^ e.hash
        flags := s.flags ||| (1#32 <<< nflgTmsgDynIdPos) } es
    | .dynPar1 =>
      if s.aPar1 ≠ lm32NullPtr then s
      else getDynSrcLoop { s with
        aPar1 := e.adr
        hashXor := s.hashXor ^^^ e.hash
        flags := s.flags ||| (1#32 <<< nflgTmsgDynPar1Pos) } es
    | .dynPar0 =>
      if s.aPar0 ≠ lm32NullPtr then s
      else getDynSrcLoop { s with
        aPar0 := e.adr
        hashXor := s.hashXor ^^^ e.hash
        flags := s.flags ||| (1#32 <<< nflgTmsgDynPar0Pos) } es
    | .dynTef =>
      if s.aTef ≠ lm32NullPtr then s
      else getDynSrcLoop { s with
        aTef := e.adr
        hashXor := s.hashXor ^^^ e.hash
        flags := s.flags ||| (1#32 <<< nflgTmsgDynTefPos) } es
    | _ => getDynSrcLoop s es

/-- `getDynSrc`: the words, and the flags it sets. The word for `tef` is always the checksum of
the sources. -/
def getDynSrc (es : List Source) : List Word × Word :=
  let s := getDynSrcLoop {} es
  ([s.aId, s.aPar1, s.aPar0, s.hashXor, lm32NullPtr], s.flags)

/-- The edges the download crawler adds for the queues of a block. -/
def downQueues (b : List Octet) : List EdgeType :=
  [(prioIl, 20), (prioHi, 16), (prioLo, 12)].filterMap fun q =>
    if read32 b q.2 ≠ lm32NullPtr then some (.qPrio q.1) else none

def pointers (b : List Octet) : List Word :=
  ((List.range 10).map fun i => read32 b (4 * i)).filter (· ≠ lm32NullPtr)

/-- The word for a default destination that is an edge as long as the destination list has it. -/
def defWord (dsts : List Word) (adr : Word) : Word := if adr ∈ dsts then adr else lm32NullPtr

def getListDst (A : Around) (b : List Octet) : List Word :=
  defWord (pointers b) A.defAdr ::
    (A.order ((pointers b).filter (· ≠ A.defAdr))).take 9

def getQBuf (A : Around) (b : List Octet) : List Word :=
  let bufs := A.order (pointers b)
  [bufs.getD 0 lm32NullPtr, bufs.getD 1 lm32NullPtr]

/-- The link words the upload crawler collects for a downloaded node whose edges are those the
download has made, and the flags it sets. A node whose target is missing, or an origin without
destination, makes it read what is not there. -/
def crawl (A : Around) (b : List Octet) (n : Node) : Option (List Word × Word) :=
  match n.data with
  | .timingMsg .. =>
    let src := getDynSrc (downSources A b n.flags)
    some (read32 b 48 :: src.1, src.2)
  | .noop .. | .wait .. => some ([read32 b 48, read32 b 8], 0)
  | .flow .. | .switch .. | .flush .. =>
    if read32 b 8 = lm32NullPtr then none else some ([read32 b 48, read32 b 8, read32 b 24], 0)
  | .origin .. =>
    if read32 b 8 = lm32NullPtr then none else some ([read32 b 48, read32 b 8, read32 b 16], 0)
  | .startThread .. => some ([read32 b 48], 0)
  | .blockFixed .. | .blockAlign .. =>
    let dst := if read32 b 8 = lm32NullPtr then read32 b 48 else defWord A.dsts (read32 b 48)
    some ([dst, read32 b 8, read32 b 12, read32 b 16, read32 b 20], queueFlags (downQueues b))
  | .cmdQMeta => some (lm32NullPtr :: getQBuf A b, 0)
  | .cmdQBuffer => some ([lm32NullPtr], 0)
  | .destList => some (getListDst A b, 0)

def headerFields : List (Nat × Nat) := [(44, 4), (40, 4)]

def eventFields : List (Nat × Nat) := (0, 8) :: headerFields ++ [(48, 4)]

def commandFields : List (Nat × Nat) := (20, 4) :: (12, 8) :: (8, 4) :: eventFields

/-- The bytes of a buffer that come back when its object is serialised, the indices of a block
without their highest bytes. A queue and a buffer of commands have no default destination. -/
def NodeData.fields : NodeData → List (Nat × Nat)
  | .timingMsg .. => (28, 4) :: (24, 4) :: (16, 8) :: (8, 8) :: eventFields
  | .noop .. => commandFields
  | .flow .. => (24, 4) :: commandFields
  | .switch .. => (24, 4) :: (8, 4) :: eventFields
  | .origin .. => (20, 4) :: (16, 4) :: (8, 4) :: eventFields
  | .startThread .. => (20, 4) :: (8, 8) :: eventFields
  | .flush .. =>
    (36, 1) :: (35, 1) :: (34, 1) :: (33, 1) :: (29, 1) :: (28, 1) :: (24, 4) :: commandFields
  | .wait .. => (24, 8) :: commandFields
  | .blockFixed .. | .blockAlign .. =>
    (29, 3) :: (25, 3) :: (12, 4) :: (16, 4) :: (20, 4) :: (8, 4) :: eventFields
  | .cmdQMeta => (4, 4) :: (0, 4) :: headerFields
  | .cmdQBuffer => headerFields
  | .destList => (0, 40) :: headerFields ++ [(48, 4)]

section Sources

variable {A : Around} {b : List Octet} {flags : Word}

end Sources

/-! ### Serialising what was read -/

section Fields

variable {b : List Octet} {va : List Word} {n : Node}

end Fields

/-! ### When restaging keeps the buffer -/

section Restage

variable {A : Around} {b : List Octet} {n : Node}

end Restage

/-! ### A locked block -/

def alone : Around where
  hashOf _ := 0
  order := List.dedup
  mem_order _ _ := List.mem_dedup
  order_nodup := List.nodup_dedup
  dsts := []
  defAdr := lm32NullPtr

end DataMaster.Dot
