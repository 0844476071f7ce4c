import StructuredProxy.Transcode.Pattern

/-!
# The index of router paths

`Index` of the source: a trie over path segments, kept as a vector of nodes that refer to each other
by position. `visit` searches it for a request, backtracking past branches that do not match, and
hands the tables it finds to a callback that may stop it. The callback's `ControlFlow` is an arbitrary
monad here: `?` is its bind.
-/

namespace StructuredProxy

structure Node where
  literals : List (Text × Nat) := []
  variableChild : Option Nat := none
  rest : Option Nat := none
  table : Option Nat := none
deriving DecidableEq

structure Index where
  nodes : List Node := [{}]
  /-- Whether the router lets a variable take an empty last segment. -/
  emptyLast : Bool
deriving DecidableEq

inductive Edge where
  | lit (text : Text)
  | var
deriving DecidableEq

def edgeOf (segment : Text) : Edge :=
  if segment.head? = some openBrace then .var else .lit segment

def isCatchAll (segment : Text) : Bool := (str "\x7b*").isPrefixOf segment

namespace Node

def child (node : Node) : Edge → Option Nat
  | .lit text => node.literals.lookup text
  | .var => node.variableChild

/-- `get_or_insert` and `entry(..).or_insert` of the child at `edge`. -/
def getOrInsert (node : Node) (edge : Edge) (next : Nat) : Node :=
  match edge, node.child edge with
  | _, some _ => node
  | .lit text, none => { node with literals := (text, next) :: node.literals }
  | .var, none => { node with variableChild := some next }

end Node

/-- Where a path's entry is held: what `slot` refers to. -/
inductive Slot where
  | rest (node : Nat)
  | table (node : Nat)
deriving DecidableEq

/-- The node at a position; positions out of range are never followed. -/
def nodeAt (nodes : List Node) (node : Nat) : Node := nodes.getD node {}

/-- The loop of `slot` from `node` on, making the nodes on the way. -/
def slotFrom (nodes : List Node) (node : Nat) : List Text → List Node × Slot
  | [] => (nodes, .table node)
  | segment :: segments =>
      if isCatchAll segment then (nodes, .rest node)
      else
        let next := nodes.length
        let edge := edgeOf segment
        let child := ((nodeAt nodes node).child edge).getD next
        let nodes := nodes.modify node (·.getOrInsert edge next)
        let nodes := if child = next then nodes ++ [{}] else nodes
        slotFrom nodes child segments

def routerSegments (path : Text) : List Text :=
  ((stripPrefix slash path).getD path).splitOn slash

namespace Slot

def read (nodes : List Node) : Slot → Option Nat
  | rest node => (nodeAt nodes node).rest
  | table node => (nodeAt nodes node).table

def write (nodes : List Node) (value : Option Nat) : Slot → List Node
  | rest node => nodes.modify node fun n => { n with rest := value }
  | table node => nodes.modify node fun n => { n with table := value }

end Slot

namespace Index

def holdsSegments : List Text → Bool
  | [] => true
  | segment :: segments =>
      match braced segment with
      | some name =>
          if name.head? = some star && !segments.isEmpty then false
          else if hasBrace name then false
          else holdsSegments segments
      | none => if hasBrace segment then false else holdsSegments segments

/-- Whether `path` is one an index holds: whole-segment literals and variables, and a catch-all only
last. -/
def holds (path : Text) : Bool :=
  match stripPrefix slash path with
  | none => false
  | some rest => holdsSegments (rest.splitOn slash)

def slot (index : Index) (path : Text) : Index × Slot :=
  let (nodes, slot) := slotFrom index.nodes 0 (routerSegments path)
  ({ index with nodes }, slot)

def insert (index : Index) (path : Text) (table : Nat) : Index :=
  let (index, slot) := index.slot path
  { index with nodes := slot.write index.nodes (some table) }

section Visit

variable {m : Type → Type*} [Monad m]

def nextSegment (rest : Text) : Text × Option Text :=
  match Lib.splitOnce slash rest with
  | some (segment, tail) => (segment, some tail)
  | none => (rest, none)

def left : Option Text → Nat
  | none => 0
  | some rest => rest.length + 1

theorem left_nextSegment (rest : Text) : left (nextSegment rest).2 < left (some rest) := by
  unfold nextSegment
  split
  · rename_i segment tail hsplit
    simpa [left] using Lib.length_lt_of_splitOnce hsplit
  · simp [left]

/-- Hand the tables below `node` that `rest` matches to `found`. -/
def visit (index : Index) (found : Nat → m Unit) (node : Nat) (rest : Option Text) : m Unit :=
  match rest with
  | none =>
      match (nodeAt index.nodes node).table with
      | some table => found table
      | none => pure ()
  | some rest => do
      let segment := (nextSegment rest).1
      let tail := (nextSegment rest).2
      (match (nodeAt index.nodes node).literals.lookup segment with
        | some next => visit index found next tail
        | none => pure ())
      (match (nodeAt index.nodes node).variableChild.filter fun _ =>
          !segment.isEmpty || tail.isSome || index.emptyLast with
        | some next => visit index found next tail
        | none => pure ())
      (match (nodeAt index.nodes node).rest.filter fun _ => !rest.isEmpty with
        | some table => found table
        | none => pure ())
termination_by left rest
decreasing_by all_goals exact left_nextSegment rest

/-- Hand `found` the tables `path` matches, best-ranked first. -/
def each (index : Index) (path : Text) (found : Nat → m Unit) : m Unit :=
  match stripPrefix slash path with
  | some rest => index.visit found 0 (some rest)
  | none => pure ()

end Visit

/-- The best-ranked table `path` matches: the callback breaks with the first one. -/
def first (index : Index) (path : Text) : Option Nat :=
  match (index.each path (m := Except Nat) fun table => throw table) with
  | .error table => some table
  | .ok () => none

def listing (index : Index) (path : Text) : List Nat :=
  (Id.run ((index.each path (m := StateM (List Nat)) fun table => modify (· ++ [table])).run [])).2

def ofPaths (emptyLast : Bool) (paths : List (Text × Nat)) : Index :=
  paths.foldl (fun index path => index.insert path.1 path.2) { emptyLast }

end Index

end StructuredProxy
