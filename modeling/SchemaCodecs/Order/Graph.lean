/-
# Reference graphs

Declarations are told apart by their places in the document.  A graph gives, for each place, the
places of the declarations that are referred to there.
-/

namespace SchemaCodecs

/-- For each node the nodes it refers to, in order. -/
abbrev Graph := List (List Nat)

/-- Values by node; of several values for one node the first counts. -/
abbrev NodeMap (α : Type) := List (Nat × α)

namespace Graph

/-- The nodes that a node refers to. -/
def next (graph : Graph) (node : Nat) : List Nat :=
  graph[node]?.getD []

/-- The nodes other than itself that a node refers to. -/
def dependencies (graph : Graph) (node : Nat) : List Nat :=
  (graph.next node).filter (· != node)

/-- The nodes that depend on a node, in order. -/
def dependents (graph : Graph) (node : Nat) : List Nat :=
  (List.range graph.length).filter fun other => (graph.dependencies other).contains node

end Graph

end SchemaCodecs
