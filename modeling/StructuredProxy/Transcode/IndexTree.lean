import StructuredProxy.Transcode.Index
import Mathlib.Data.List.Induction
import Mathlib.Data.List.Nodup
import Mathlib.Order.Nat

/-!
# An index as a map

The nodes of an index stand for a map from patterns to tables, `entryFrom`. Writing a path's slot
changes that map at the path's pattern and nowhere else, because the nodes form a tree: each is the
child of at most one other.
-/

namespace StructuredProxy

open Index

namespace Pattern

/-- The pattern of a router path's segments. As in `slot`, what follows a catch-all is not read. -/
def ofSegments : List Text → Pattern
  | [] => done
  | segment :: segments =>
      if isCatchAll segment then catchAll
      else match edgeOf segment with
        | .lit text => lit text (ofSegments segments)
        | .var => var (ofSegments segments)

def ofPath (path : Text) : Pattern := ofSegments (routerSegments path)

def edges : Pattern → List Edge
  | done => []
  | catchAll => []
  | lit text tail => .lit text :: tail.edges
  | var tail => .var :: tail.edges

def endsInCatchAll : Pattern → Bool
  | done => false
  | catchAll => true
  | lit _ tail => tail.endsInCatchAll
  | var tail => tail.endsInCatchAll

theorem eq_of_edges_eq {p q : Pattern} (hedges : p.edges = q.edges)
    (hend : p.endsInCatchAll = q.endsInCatchAll) : p = q := by
  induction p generalizing q with
  | done => cases q <;> simp_all [edges, endsInCatchAll]
  | catchAll => cases q <;> simp_all [edges, endsInCatchAll]
  | lit text tail ih =>
      cases q with
      | lit text' tail' =>
          simp only [edges, List.cons.injEq, Edge.lit.injEq] at hedges
          rw [hedges.1, ih hedges.2 hend]
      | _ => simp [edges] at hedges
  | var tail ih =>
      cases q with
      | var tail' =>
          simp only [edges, List.cons.injEq, true_and] at hedges
          rw [ih hedges hend]
      | _ => simp [edges] at hedges

end Pattern

def childAt (nodes : List Node) (node : Nat) (edge : Edge) : Option Nat :=
  (nodeAt nodes node).child edge

def reach (nodes : List Node) (node : Nat) : List Edge → Option Nat
  | [] => some node
  | edge :: edges => (childAt nodes node edge).bind (reach nodes · edges)

theorem reach_append (nodes : List Node) (node : Nat) (edges edges' : List Edge) :
    reach nodes node (edges ++ edges') = (reach nodes node edges).bind (reach nodes · edges') := by
  induction edges generalizing node with
  | nil => rfl
  | cons edge edges ih =>
      simp only [List.cons_append, reach]
      cases childAt nodes node edge with
      | none => rfl
      | some child => simp [ih]

def slotValue (nodes : List Node) (endsInCatchAll : Bool) (node : Nat) : Option Nat :=
  if endsInCatchAll then (nodeAt nodes node).rest else (nodeAt nodes node).table

def entryFrom (nodes : List Node) (node : Nat) (pattern : Pattern) : Option Nat :=
  (reach nodes node pattern.edges).bind (slotValue nodes pattern.endsInCatchAll)

/-- Every node but the root is the child of exactly one edge, and children exist. -/
structure IsTree (nodes : List Node) : Prop where
  root : 0 < nodes.length
  child_lt : ∀ {node edge child}, childAt nodes node edge = some child → child < nodes.length
  child_ne_root : ∀ {node edge child}, childAt nodes node edge = some child → child ≠ 0
  parent_unique : ∀ {node node' edge edge' child}, childAt nodes node edge = some child →
    childAt nodes node' edge' = some child → node = node' ∧ edge = edge'

theorem isTree_root : IsTree [{}] := by
  have hnone : ∀ node edge, childAt [{}] node edge = none := by
    intro node edge
    cases node <;> cases edge <;> rfl
  refine ⟨by simp, ?_, ?_, ?_⟩ <;> simp [hnone]

namespace IsTree

variable {nodes : List Node} (htree : IsTree nodes)

include htree

theorem reach_lt {edges : List Edge} : ∀ {node target : Nat}, node < nodes.length →
    reach nodes node edges = some target → target < nodes.length := by
  induction edges with
  | nil =>
      intro node target hnode hreach
      cases hreach
      exact hnode
  | cons edge edges ih =>
      intro node target _ hreach
      obtain ⟨child, hchild, hrest⟩ := Option.bind_eq_some_iff.mp hreach
      exact ih (htree.child_lt hchild) hrest

/-- A node is reached from the root one way only. The induction takes the last edge off, since it is
the parent of a node that is unique. -/
theorem reach_injective {edges edges' : List Edge} {target : Nat}
    (h : reach nodes 0 edges = some target) (h' : reach nodes 0 edges' = some target) :
    edges = edges' := by
  induction edges using List.reverseRecOn generalizing edges' target with
  | nil =>
      cases h
      cases edges' using List.reverseRecOn with
      | nil => rfl
      | append_singleton edges' edge =>
          rw [reach_append] at h'
          obtain ⟨node, -, hlast⟩ := Option.bind_eq_some_iff.mp h'
          obtain ⟨child, hchild, hroot⟩ := Option.bind_eq_some_iff.mp hlast
          cases hroot
          exact absurd rfl (htree.child_ne_root hchild)
  | append_singleton edges edge ih =>
      rw [reach_append] at h
      obtain ⟨node, hnode, hlast⟩ := Option.bind_eq_some_iff.mp h
      obtain ⟨child, hchild, hend⟩ := Option.bind_eq_some_iff.mp hlast
      cases hend
      cases edges' using List.reverseRecOn with
      | nil =>
          cases h'
          exact absurd rfl (htree.child_ne_root hchild)
      | append_singleton edges' edge' =>
          rw [reach_append] at h'
          obtain ⟨node', hnode', hlast'⟩ := Option.bind_eq_some_iff.mp h'
          obtain ⟨child', hchild', hend'⟩ := Option.bind_eq_some_iff.mp hlast'
          cases hend'
          obtain ⟨rfl, rfl⟩ := htree.parent_unique hchild hchild'
          rw [ih hnode hnode']

end IsTree

/-! ### Making a child -/

namespace Node

theorem child_getOrInsert (node : Node) (edge edge' : Edge) (next : Nat) :
    (node.getOrInsert edge next).child edge' =
      if edge' = edge then some ((node.child edge).getD next) else node.child edge' := by
  cases hchild : node.child edge with
  | some child =>
      have hsame : node.getOrInsert edge next = node := by
        cases edge <;> simp [getOrInsert, hchild]
      rw [hsame]
      split
      · rename_i heq
        rw [heq, hchild]
        rfl
      · rfl
  | none =>
      cases edge with
      | lit text =>
          simp only [getOrInsert, hchild]
          cases edge' with
          | lit text' =>
              by_cases htext : text' = text
              · simp [child, htext]
              · have hbeq : (text' == text) = false := by simpa using htext
                simp [child, List.lookup_cons, htext, hbeq]
          | var => simp [child]
      | var =>
          simp only [getOrInsert, hchild]
          cases edge' <;> simp [child]

@[simp]
theorem rest_getOrInsert (node : Node) (edge : Edge) (next : Nat) :
    (node.getOrInsert edge next).rest = node.rest := by
  cases hchild : node.child edge <;> cases edge <;> simp [getOrInsert, hchild]

@[simp]
theorem table_getOrInsert (node : Node) (edge : Edge) (next : Nat) :
    (node.getOrInsert edge next).table = node.table := by
  cases hchild : node.child edge <;> cases edge <;> simp [getOrInsert, hchild]

end Node

theorem nodeAt_of_le {nodes : List Node} {other : Nat} (hother : nodes.length ≤ other) :
    nodeAt nodes other = {} := by
  simp [nodeAt, List.getElem?_eq_none hother]

theorem nodeAt_modify {nodes : List Node} {node : Nat} (hnode : node < nodes.length)
    (f : Node → Node) (other : Nat) :
    nodeAt (nodes.modify node f) other =
      if other = node then f (nodeAt nodes node) else nodeAt nodes other := by
  simp only [nodeAt, List.getD_eq_getElem?_getD, List.getElem?_modify]
  by_cases hother : other = node
  · subst hother
    simp [List.getElem?_eq_getElem hnode]
  · simp [hother, Ne.symm hother]

theorem nodeAt_append_empty (nodes : List Node) (other : Nat) :
    nodeAt (nodes ++ [({} : Node)]) other = nodeAt nodes other := by
  simp only [nodeAt, List.getD_eq_getElem?_getD]
  rcases lt_trichotomy other nodes.length with hlt | heq | hgt
  · rw [List.getElem?_append_left hlt]
  · subst heq
    simp
  · rw [List.getElem?_eq_none (by simp; omega), List.getElem?_eq_none (by omega)]

def grow (nodes : List Node) (node : Nat) (edge : Edge) : List Node :=
  let nodes' := nodes.modify node (·.getOrInsert edge nodes.length)
  if (childAt nodes node edge).getD nodes.length = nodes.length then nodes' ++ [({} : Node)]
  else nodes'

section Grow

variable {nodes : List Node} {node : Nat} (hnode : node < nodes.length) (edge : Edge)

include hnode

theorem nodeAt_grow (other : Nat) :
    nodeAt (grow nodes node edge) other =
      if other = node then (nodeAt nodes node).getOrInsert edge nodes.length
      else nodeAt nodes other := by
  unfold grow
  split
  · rw [nodeAt_append_empty, nodeAt_modify hnode]
  · rw [nodeAt_modify hnode]

theorem childAt_grow (other : Nat) (edge' : Edge) :
    childAt (grow nodes node edge) other edge' =
      if other = node ∧ edge' = edge then some ((childAt nodes node edge).getD nodes.length)
      else childAt nodes other edge' := by
  unfold childAt
  rw [nodeAt_grow hnode]
  by_cases hother : other = node
  · subst hother
    simp [Node.child_getOrInsert]
  · simp [hother]

theorem slotValue_grow (endsInCatchAll : Bool) (other : Nat) :
    slotValue (grow nodes node edge) endsInCatchAll other = slotValue nodes endsInCatchAll other := by
  unfold slotValue
  rw [nodeAt_grow hnode]
  by_cases hother : other = node <;> simp [hother]

omit hnode in
theorem le_length_grow : nodes.length ≤ (grow nodes node edge).length := by
  unfold grow
  split <;> simp

omit hnode in
theorem length_grow_of_none (hnone : childAt nodes node edge = none) :
    (grow nodes node edge).length = nodes.length + 1 := by
  simp [grow, hnone]

/-- An existing child leaves the tree as it was; a new one is a fresh node below `node` alone. -/
theorem isTree_grow (htree : IsTree nodes) : IsTree (grow nodes node edge) := by
  have hle : nodes.length ≤ (grow nodes node edge).length := le_length_grow edge
  cases hchild : childAt nodes node edge with
  | some child =>
      have hsame : ∀ other edge', childAt (grow nodes node edge) other edge' =
          childAt nodes other edge' := by
        intro other edge'
        rw [childAt_grow hnode, hchild]
        split
        · rename_i heq
          rw [heq.1, heq.2, hchild]
          rfl
        · rfl
      refine ⟨by have := htree.root; omega, ?_, ?_, ?_⟩
      · intro other edge' target h
        rw [hsame] at h
        exact Nat.lt_of_lt_of_le (htree.child_lt h) hle
      · intro other edge' target h
        rw [hsame] at h
        exact htree.child_ne_root h
      · intro other other' edge₁ edge₂ target h h'
        rw [hsame] at h h'
        exact htree.parent_unique h h'
  | none =>
      have hlength := length_grow_of_none edge hchild
      have hcases : ∀ {other edge' target},
          childAt (grow nodes node edge) other edge' = some target →
          (other = node ∧ edge' = edge ∧ target = nodes.length) ∨
            childAt nodes other edge' = some target := by
        intro other edge' target h
        rw [childAt_grow hnode, hchild] at h
        split at h
        · rename_i heq
          cases h
          exact Or.inl ⟨heq.1, heq.2, rfl⟩
        · exact Or.inr h
      refine ⟨by omega, ?_, ?_, ?_⟩
      · intro other edge' target h
        rcases hcases h with ⟨-, -, rfl⟩ | h
        · omega
        · have := htree.child_lt h
          omega
      · intro other edge' target h
        rcases hcases h with ⟨-, -, rfl⟩ | h
        · have := htree.root
          omega
        · exact htree.child_ne_root h
      · intro other other' edge₁ edge₂ target h h'
        rcases hcases h with ⟨rfl, rfl, htarget⟩ | hold <;>
          rcases hcases h' with ⟨rfl, rfl, htarget'⟩ | hold'
        · exact ⟨rfl, rfl⟩
        · have := htree.child_lt hold'
          omega
        · have := htree.child_lt hold
          omega
        · exact htree.parent_unique hold hold'

theorem reach_grow_of_le {start : Nat} (hstart : nodes.length ≤ start) (edges : List Edge) :
    reach (grow nodes node edge) start edges = if edges = [] then some start else none := by
  cases edges with
  | nil => rfl
  | cons edge' edges =>
      have hne : start ≠ node := by omega
      have hnone : childAt nodes start edge' = none := by
        unfold childAt
        rw [nodeAt_of_le hstart]
        cases edge' <;> rfl
      simp [reach, childAt_grow hnode, hne, hnone]

theorem reach_grow (edges : List Edge) (start : Nat) :
    reach (grow nodes node edge) start edges = reach nodes start edges ∨
      (reach nodes start edges = none ∧
        ∀ target, reach (grow nodes node edge) start edges = some target → nodes.length ≤ target) := by
  induction edges generalizing start with
  | nil => exact Or.inl rfl
  | cons edge' edges ih =>
      simp only [reach, childAt_grow hnode]
      by_cases heq : start = node ∧ edge' = edge
      · rw [if_pos heq, heq.1, heq.2]
        cases hchild : childAt nodes node edge with
        | some child => exact ih child
        | none =>
            refine Or.inr ⟨rfl, ?_⟩
            intro target htarget
            rw [Option.getD_none, Option.bind_some, reach_grow_of_le hnode edge (Nat.le_refl _)] at htarget
            split at htarget
            · cases htarget
              exact Nat.le_refl _
            · cases htarget
      · rw [if_neg heq]
        cases childAt nodes start edge' with
        | none => exact Or.inl rfl
        | some child => exact ih child

/-- A new node holds nothing, so no pattern leads anywhere it did not before. -/
theorem entryFrom_grow (pattern : Pattern) (start : Nat) :
    entryFrom (grow nodes node edge) start pattern = entryFrom nodes start pattern := by
  unfold entryFrom
  have hslot : slotValue (grow nodes node edge) pattern.endsInCatchAll =
      slotValue nodes pattern.endsInCatchAll :=
    funext (slotValue_grow hnode edge _)
  rw [hslot]
  rcases reach_grow hnode edge pattern.edges start with heq | ⟨hnone, hnew⟩
  · rw [heq]
  · rw [hnone]
    cases htarget : reach (grow nodes node edge) start pattern.edges with
    | none => rfl
    | some target =>
        simp only [Option.bind_some, Option.bind_none, slotValue, nodeAt_of_le (hnew target htarget)]
        cases pattern.endsInCatchAll <;> rfl

end Grow

def Slot.node : Slot → Nat
  | .rest node => node
  | .table node => node

def Slot.isRest : Slot → Bool
  | .rest _ => true
  | .table _ => false

theorem Slot.read_eq (nodes : List Node) (slot : Slot) :
    slot.read nodes = slotValue nodes slot.isRest slot.node := by
  cases slot <;> rfl

/-- `slotFrom` leaves the map from patterns to tables as it was, and ends at the slot of the path. -/
theorem slotFrom_spec (segments : List Text) : ∀ {nodes : List Node} {node : Nat},
    IsTree nodes → node < nodes.length →
    IsTree (slotFrom nodes node segments).1 ∧
      (∀ pattern start, entryFrom (slotFrom nodes node segments).1 start pattern =
        entryFrom nodes start pattern) ∧
      (∀ start edges target, reach nodes start edges = some target →
        reach (slotFrom nodes node segments).1 start edges = some target) ∧
      reach (slotFrom nodes node segments).1 node (Pattern.ofSegments segments).edges =
        some (slotFrom nodes node segments).2.node ∧
      (slotFrom nodes node segments).2.isRest = (Pattern.ofSegments segments).endsInCatchAll := by
  induction segments with
  | nil =>
      intro nodes node htree hnode
      exact ⟨htree, fun _ _ => rfl, fun _ _ _ h => h, rfl, rfl⟩
  | cons segment segments ih =>
      intro nodes node htree hnode
      by_cases hcatch : isCatchAll segment = true
      · rw [slotFrom, Pattern.ofSegments, if_pos hcatch, if_pos hcatch]
        exact ⟨htree, fun _ _ => rfl, fun _ _ _ h => h, rfl, rfl⟩
      · obtain ⟨child, hchild⟩ : ∃ child, (childAt nodes node (edgeOf segment)).getD nodes.length =
            child := ⟨_, rfl⟩
        have hslot : slotFrom nodes node (segment :: segments) =
            slotFrom (grow nodes node (edgeOf segment)) child segments := by
          rw [slotFrom, if_neg hcatch, ← hchild]
          rfl
        have hgrown : childAt (grow nodes node (edgeOf segment)) node (edgeOf segment) =
            some child := by
          rw [childAt_grow hnode, if_pos ⟨rfl, rfl⟩, hchild]
        have htree' := isTree_grow hnode (edgeOf segment) htree
        obtain ⟨hih, hentry, hmono, hreach, hrest⟩ := ih htree' (htree'.child_lt hgrown)
        rw [hslot]
        refine ⟨hih, ?_, ?_, ?_, ?_⟩
        · intro pattern start
          rw [hentry, entryFrom_grow hnode]
        · intro start edges target h
          refine hmono start edges target ?_
          rcases reach_grow hnode (edgeOf segment) edges start with heq | ⟨hnone, -⟩
          · rw [heq, h]
          · rw [hnone] at h
            cases h
        · have hstep := hmono node [edgeOf segment] child (by simp [reach, hgrown])
          have hedges : (Pattern.ofSegments (segment :: segments)).edges =
              edgeOf segment :: (Pattern.ofSegments segments).edges := by
            rw [Pattern.ofSegments, if_neg hcatch]
            cases edgeOf segment <;> rfl
          rw [hedges, ← List.singleton_append, reach_append, hstep]
          exact hreach
        · rw [hrest, Pattern.ofSegments, if_neg hcatch]
          cases edgeOf segment <;> rfl

/-! ### Writing a slot -/

section Write

variable {nodes : List Node} {slot : Slot} (hslot : slot.node < nodes.length) (value : Option Nat)

include hslot

theorem nodeAt_write (other : Nat) :
    nodeAt (slot.write nodes value) other =
      if other = slot.node then
        (if slot.isRest then { nodeAt nodes other with rest := value }
          else { nodeAt nodes other with table := value })
      else nodeAt nodes other := by
  cases slot with
  | rest node =>
      change node < nodes.length at hslot
      rw [Slot.write, nodeAt_modify hslot]
      by_cases hother : other = node <;> simp [hother, Slot.node, Slot.isRest]
  | table node =>
      change node < nodes.length at hslot
      rw [Slot.write, nodeAt_modify hslot]
      by_cases hother : other = node <;> simp [hother, Slot.node, Slot.isRest]

theorem childAt_write (other : Nat) (edge : Edge) :
    childAt (slot.write nodes value) other edge = childAt nodes other edge := by
  unfold childAt
  rw [nodeAt_write hslot]
  split
  · split <;> cases edge <;> rfl
  · rfl

theorem reach_write (start : Nat) (edges : List Edge) :
    reach (slot.write nodes value) start edges = reach nodes start edges := by
  induction edges generalizing start with
  | nil => rfl
  | cons edge edges ih =>
      simp only [reach, childAt_write hslot]
      cases childAt nodes start edge with
      | none => rfl
      | some child => exact ih child

theorem slotValue_write (endsInCatchAll : Bool) (other : Nat) :
    slotValue (slot.write nodes value) endsInCatchAll other =
      if other = slot.node ∧ endsInCatchAll = slot.isRest then value
      else slotValue nodes endsInCatchAll other := by
  unfold slotValue
  rw [nodeAt_write hslot]
  by_cases hother : other = slot.node
  · cases hrest : slot.isRest <;> cases endsInCatchAll <;> simp [hother]
  · simp [hother]

omit hslot in
theorem length_write : (slot.write nodes value).length = nodes.length := by
  cases slot <;> simp [Slot.write]

theorem isTree_write (htree : IsTree nodes) : IsTree (slot.write nodes value) := by
  refine ⟨?_, ?_, ?_, ?_⟩
  · rw [length_write]
    exact htree.root
  · intro node edge child h
    rw [childAt_write hslot] at h
    rw [length_write]
    exact htree.child_lt h
  · intro node edge child h
    rw [childAt_write hslot] at h
    exact htree.child_ne_root h
  · intro node node' edge edge' child h h'
    rw [childAt_write hslot] at h h'
    exact htree.parent_unique h h'

end Write

namespace Index

def entry (index : Index) (pattern : Pattern) : Option Nat := entryFrom index.nodes 0 pattern

theorem slot_spec {index : Index} (htree : IsTree index.nodes) (path : Text) :
    IsTree (index.slot path).1.nodes ∧
      (index.slot path).1.entry = index.entry ∧
      (index.slot path).2.read (index.slot path).1.nodes = index.entry (Pattern.ofPath path) ∧
      ∀ value : Option Nat,
        IsTree ((index.slot path).2.write (index.slot path).1.nodes value) ∧
        ∀ pattern, entryFrom ((index.slot path).2.write (index.slot path).1.nodes value) 0 pattern =
          if pattern = Pattern.ofPath path then value else index.entry pattern := by
  obtain ⟨htree', hentry, -, hreach, hrest⟩ :=
    slotFrom_spec (routerSegments path) htree htree.root
  change reach (index.slot path).1.nodes 0 (Pattern.ofPath path).edges =
    some (index.slot path).2.node at hreach
  change IsTree (index.slot path).1.nodes at htree'
  change (index.slot path).2.isRest = (Pattern.ofPath path).endsInCatchAll at hrest
  change ∀ pattern start, entryFrom (index.slot path).1.nodes start pattern = _ at hentry
  have hlt := htree'.reach_lt htree'.root hreach
  refine ⟨htree', funext fun pattern => hentry pattern 0, ?_, ?_⟩
  · rw [Slot.read_eq, entry, ← hentry, entryFrom, hreach, hrest]
    rfl
  · intro value
    refine ⟨isTree_write hlt value htree', ?_⟩
    intro pattern
    unfold entryFrom
    rw [reach_write hlt]
    by_cases hpattern : pattern = Pattern.ofPath path
    · rw [if_pos hpattern, hpattern, hreach, Option.bind_some, slotValue_write hlt,
        if_pos ⟨rfl, hrest.symm⟩]
    · rw [if_neg hpattern, entry, ← hentry, entryFrom]
      cases htarget : reach (index.slot path).1.nodes 0 pattern.edges with
      | none => rfl
      | some target =>
          rw [Option.bind_some, Option.bind_some, slotValue_write hlt, if_neg]
          rintro ⟨rfl, hend⟩
          exact hpattern (Pattern.eq_of_edges_eq (htree'.reach_injective htarget hreach)
            (hend.trans hrest))

theorem entry_insert {index : Index} (htree : IsTree index.nodes) (path : Text) (table : Nat)
    (pattern : Pattern) :
    (index.insert path table).entry pattern =
      if pattern = Pattern.ofPath path then some table else index.entry pattern :=
  ((slot_spec htree path).2.2.2 (some table)).2 pattern

theorem isTree_insert {index : Index} (htree : IsTree index.nodes) (path : Text) (table : Nat) :
    IsTree (index.insert path table).nodes :=
  ((slot_spec htree path).2.2.2 (some table)).1

end Index

end StructuredProxy
