/-
# Strongly connected components

The components of a graph: the largest sets of nodes that all reach each other.  The graph is searched
in depth from one node after another, without recursion: the nodes on the way to the one that is
searched are kept as work, each with the references that remain to be followed.  Nodes are numbered
as they are met and stay on a stack until their component is complete, which is when the lowest
number on the stack that is known to be reachable from a node is its own.
-/
import SchemaCodecs.Count
import SchemaCodecs.Order.Graph

namespace SchemaCodecs

/-! ## The types -/

/-- What is known while a graph is searched. -/
structure Search where
  /-- How many nodes have been met. -/
  count : Nat := 0
  /-- The numbers of the nodes that have been met. -/
  indices : NodeMap Nat := []
  /-- For each of them the lowest number known to be reachable from it. -/
  lowlinks : NodeMap Nat := []
  /-- The nodes that belong to no component yet, the last one met first. -/
  stack : List Nat := []
  /-- The components found so far, the last one first. -/
  components : List (List Nat) := []
  deriving Inhabited

/-- A node that is searched, with the references that remain to be followed. -/
structure Frame where
  /-- The node. -/
  node : Nat
  /-- The references in order. -/
  rest : List Nat
  deriving Inhabited

namespace Search

/-! ## Steps -/

/-- Meets a node for the first time. -/
def enter (s : Search) (node : Nat) : Search :=
  { s with
    count := s.count + 1
    indices := (node, s.count) :: s.indices
    lowlinks := (node, s.count) :: s.lowlinks
    stack := node :: s.stack }

/-- Notes that a number is reachable from a node. -/
def lower (s : Search) (node index : Nat) : Option Search :=
  (s.lowlinks.lookup node).map fun low =>
    { s with lowlinks := (node, min low index) :: s.lowlinks }

/-- The nodes on a stack down to the given one, and the others.  An empty stack has none to give. -/
def popUntil (node : Nat) : List Nat → Option (List Nat × List Nat)
  | [] => none
  | member :: rest =>
    if member = node then some ([member], rest)
    else (popUntil node rest).map fun (component, others) => (member :: component, others)

/-- Takes the component of a node from the stack. -/
def close (s : Search) (node : Nat) : Option Search :=
  (popUntil node s.stack).map fun (component, others) =>
    { s with stack := others, components := component :: s.components }

/-- Takes the component of a node from the stack if it is complete. -/
def settle (s : Search) (node : Nat) : Option Search := do
  let low ← s.lowlinks.lookup node
  let index ← s.indices.lookup node
  if low = index then s.close node else some s

/-- Notes that a number is reachable from the node of the first frame, if there is one. -/
def lowerFirst (s : Search) (work : List Frame) (index : Nat) : Option Search :=
  match work with
  | [] => some s
  | frame :: _ => s.lower frame.node index

/-- Leaves a node of which all references have been followed: what is reachable from it is reachable
from the node before it, and its component may be complete. -/
def leave (s : Search) (node : Nat) (work : List Frame) : Option Search := do
  let low ← s.lowlinks.lookup node
  let lowered ← s.lowerFirst work low
  lowered.settle node

/-! ## The nodes that have not been met -/

/-- How many nodes of a graph have not been met. -/
def unmet (graph : Graph) (s : Search) : Nat :=
  (List.range graph.length).countP fun node => (s.indices.lookup node).isNone

/-- Meeting a node for the first time leaves one node fewer. -/
theorem unmet_enter_lt {graph : Graph} {s : Search} {node : Nat} {refs : List Nat}
    (new : s.indices.lookup node = none) (h : graph[node]? = some refs) :
    unmet graph (s.enter node) < unmet graph s := by
  have hmem : node ∈ List.range graph.length :=
    List.mem_range.2 (List.getElem?_eq_some_iff.1 h).1
  refine countP_lt_countP ?_ hmem (by simp [new]) (by simp [enter])
  intro other hother
  simp only [enter, List.lookup_cons] at hother
  split at hother
  · simp at hother
  · exact hother

theorem indices_of_lower {s next : Search} {node index : Nat} (h : s.lower node index = some next) :
    next.indices = s.indices := by
  obtain ⟨low, -, rfl⟩ := Option.map_eq_some_iff.1 h
  rfl

theorem indices_of_close {s next : Search} {node : Nat} (h : s.close node = some next) :
    next.indices = s.indices := by
  obtain ⟨popped, -, rfl⟩ := Option.map_eq_some_iff.1 h
  rfl

/-- Leaving a node leaves the numbers of the nodes. -/
theorem indices_of_leave {s next : Search} {node : Nat} {work : List Frame}
    (h : s.leave node work = some next) : next.indices = s.indices := by
  obtain ⟨low, -, h⟩ := Option.bind_eq_some_iff.1 h
  obtain ⟨lowered, hlowered, h⟩ := Option.bind_eq_some_iff.1 h
  obtain ⟨_, -, h⟩ := Option.bind_eq_some_iff.1 h
  obtain ⟨_, -, h⟩ := Option.bind_eq_some_iff.1 h
  have hsame : lowered.indices = s.indices := by
    cases work with
    | nil =>
      cases hlowered
      rfl
    | cons frame _ => exact indices_of_lower hlowered
  split at h
  · rw [indices_of_close h, hsame]
  · cases h
    exact hsame

end Search

/-! ## Searching -/

/-- How many references remain to be followed, and nodes to be left. -/
def workLength (work : List Frame) : Nat :=
  work.foldr (fun frame total => frame.rest.length + 1 + total) 0

/-- Searches on until no work remains. -/
def visit (graph : Graph) (s : Search) : List Frame → Option Search
  | [] => some s
  | ⟨node, succ :: rest⟩ :: work =>
    match new : s.indices.lookup succ with
    | none =>
      match found : graph[succ]? with
      | none => none
      | some refs =>
        have := Search.unmet_enter_lt new found
        visit graph (s.enter succ) (⟨succ, refs⟩ :: ⟨node, rest⟩ :: work)
    | some index =>
      if s.stack.contains succ then
        match lowered : s.lower node index with
        | none => none
        | some next =>
          have := Search.indices_of_lower lowered
          visit graph next (⟨node, rest⟩ :: work)
      else visit graph s (⟨node, rest⟩ :: work)
  | ⟨node, []⟩ :: work =>
    match left : s.leave node work with
    | none => none
    | some next =>
      have := Search.indices_of_leave left
      visit graph next work
termination_by work => (s.unmet graph, workLength work)
decreasing_by
  all_goals simp_all [Prod.lex_def, Search.unmet, workLength]

/-- Searches from a node unless it has been met. -/
def searchFrom (graph : Graph) (s : Search) (root : Nat) : Option Search :=
  if (s.indices.lookup root).isSome then some s
  else visit graph (s.enter root) [⟨root, graph.next root⟩]

/-- The components of a graph, the last one found first. -/
def components (graph : Graph) : Option (List (List Nat)) :=
  ((List.range graph.length).foldlM (searchFrom graph) {}).map (·.components)

end SchemaCodecs
