/-
# Merged mappings

A merge key stands for the entries of other mappings: of the mapping that is its value, or of all
mappings in the sequence that is its value, the last mapping first.  They come before the entries
of the mapping that has the key.  Mappings are changed in the table, so that a mapping has the
entries it takes over wherever it stands.
-/
import SchemaCodecs.Yaml.Fault
import SchemaCodecs.Yaml.Node

namespace SchemaCodecs.Yaml

/-! ## Access to nodes -/

namespace NodeTable

/-- The node with a number. -/
def node (table : NodeTable) (number : Nat) : Node :=
  table.getD number .empty

/-- The table with another node in the place of a number. -/
def put (table : NodeTable) (number : Nat) (node : Node) : NodeTable :=
  table.setIfInBounds number node

/-- The table in which a key that stands for the value of its mapping is an ordinary text. -/
def plainKey (table : NodeTable) (key : Nat) : NodeTable :=
  let node := table.node key
  if node.tag == .value then table.put key (node.withTag .text) else table

/-- The value of the first merge key in a list of entries, and the other entries. -/
def takeMerge? (table : NodeTable) : List (Nat × Nat) → Option (Nat × List (Nat × Nat))
  | [] => none
  | (key, value) :: rest =>
    if (table.node key).tag == .merge then some (value, rest)
    else (table.takeMerge? rest).map fun found => (found.1, (key, value) :: found.2)

/-- A bound for the steps in which all merge keys of a table can be replaced: two for every
entry. -/
def mergeBound (table : NodeTable) : Nat :=
  table.foldl (fun bound node => bound + 2 * node.entries.length) 2

end NodeTable

/-! ## Merging -/

/-- A step that changes the table. -/
abbrev Merging (α : Type) := StateT NodeTable Reading α

mutual

/-- Replaces the merge keys of a mapping by the entries they stand for; `taken` are those of the
merge keys that are gone already. -/
def mergeKeys : Nat → Nat → List (Nat × Nat) → Merging Unit
  | 0, _, _ => throw .malformed
  | fuel + 1, number, taken => do
    let table ← get
    match table.node number with
    | .mapping tag entries =>
      match table.takeMerge? entries with
      | some (value, rest) =>
        set (table.put number (.mapping tag rest))
        mergeKeys fuel number (taken ++ (← mergedEntries fuel value))
      | none =>
        let plain := entries.foldl (fun table entry => table.plainKey entry.1) table
        set (plain.put number (.mapping (plain.node number).tag (taken ++ entries)))
    | _ => throw .malformed

/-- The entries that a merge key with the given value stands for. -/
def mergedEntries : Nat → Nat → Merging (List (Nat × Nat))
  | 0, _ => throw .malformed
  | fuel + 1, value => do
    let entriesOf (mapping : Nat) : Merging (List (Nat × Nat)) := do
      mergeKeys fuel mapping []
      return ((← get).node mapping).entries
    match (← get).node value with
    | .sequence _ items =>
      items.foldlM (fun taken item => do return (← entriesOf item) ++ taken) []
    | _ => entriesOf value

end

end SchemaCodecs.Yaml
