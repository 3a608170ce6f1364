/-
# Values of nodes

What the nodes of a table stand for.  Nodes are met from the outermost one on: a scalar has its
value when it is met, a collection waits until those met before it are complete, and then meets its
own parts from left to right.  So a text with several faults has the one that is met first when the
tree is gone through level by level.  A node is met once, however many places it stands at.

A node may stand inside itself.  Its value is a tree with marks, and whoever goes through it has to
see to it that this comes to an end.
-/
import SchemaCodecs.Value.SetOrder
import SchemaCodecs.Yaml.Merge
import SchemaCodecs.Yaml.ScalarValue

namespace SchemaCodecs.Yaml

/-! ## Contents -/

/-- What a node stands for, with its parts by number. -/
inductive Content where
  /-- A scalar. -/
  | scalar (s : Scalar)
  /-- A sequence. -/
  | items (items : List Nat)
  /-- A mapping. -/
  | entries (entries : List (Scalar × Nat))
  /-- A set. -/
  | members (members : List Scalar)
  /-- A sequence of pairs. -/
  | pairs (pairs : List (Nat × Nat))
  /-- A collection of which the parts have not been met. -/
  | waiting
  deriving Inhabited

/-- What is known while nodes are met. -/
structure BuildState where
  /-- The nodes. -/
  nodes : NodeTable
  /-- The contents of the nodes met so far, by number. -/
  contents : Array (Option Content)
  /-- The collections that wait, the last one met first. -/
  waiting : List Nat := []

/-- A step of building. -/
abbrev Building (α : Type) := StateT BuildState Reading α

namespace Building

/-- The text has no value. -/
def refuse {α : Type} : Building α :=
  throw .malformed

/-- The node with a number. -/
def node (number : Nat) : Building Node :=
  return (← get).nodes.node number

/-- Keeps what a node stands for. -/
def keep (number : Nat) (content : Content) : Building Unit :=
  modify fun state =>
    { state with contents := state.contents.setIfInBounds number (some content) }

/-- Replaces the merge keys of a mapping by the entries they stand for. -/
def mergeAt (bound number : Nat) : Building Unit := fun ⟨nodes, contents, waiting⟩ => do
  let (_, nodes) ← (mergeKeys bound number []).run nodes
  return ((), ⟨nodes, contents, waiting⟩)

/-! ## Scalars -/

/-- The text of a scalar; of a mapping, the text of the value that stands for it.  The first number
bounds the depth: a greater one means that a mapping stands for itself. -/
def standingText (table : NodeTable) : Nat → Nat → Reading Text
  | 0, _ => throw (.content .endless)
  | depth + 1, number =>
    match table.node number with
    | .scalar _ text => return text
    | .sequence _ _ => throw .malformed
    | .mapping _ entries =>
      match entries.find? fun entry => (table.node entry.1).tag == .value with
      | some (_, value) => standingText table depth value
      | none => throw .malformed

/-- The scalar that a node stands for in a type of scalars.  A time is read from the text of the
node itself, which a mapping does not have. -/
def scalarAt (file : Text) (number : Nat) : Building Scalar := do
  let table := (← get).nodes
  let text ← standingText table (table.size + 1) number
  match table.node number with
  | .mapping .timestamp _ => throw (.content (.illTyped .notText))
  | node => scalarValue (.node file number) node.tag text

/-! ## Meeting nodes -/

/-- Whether a type is one of collections. -/
def isCollection (tag : Tag) : Bool :=
  tag == .sequence || tag == .mapping || tag == .set || tag == .pairs

/-- What a node stands for when it is met; a collection that is met for the first time waits. -/
def meet (file : Text) (number : Nat) : Building Content := do
  match ((← get).contents[number]?).join with
  | some content => return content
  | none =>
    if isCollection (← node number).tag then
      keep number .waiting
      modify fun state => { state with waiting := number :: state.waiting }
      return .waiting
    else
      let content := Content.scalar (← scalarAt file number)
      keep number content
      return content

/-- The key that a node stands for; only scalars are keys. -/
def meetKey (file : Text) (number : Nat) : Building Scalar := do
  match ← meet file number with
  | .scalar s => return s
  | _ => refuse

/-- The keys of entries, each met before its value. -/
def meetEntries (file : Text) (entries : List (Nat × Nat)) : Building (List (Scalar × Nat)) :=
  entries.mapM fun entry => do
    let key ← meetKey file entry.1
    discard <| meet file entry.2
    return (key, entry.2)

/-- The two nodes of an item of a sequence of pairs, which is a mapping with one entry. -/
def meetPair (file : Text) (item : Nat) : Building (Nat × Nat) := do
  match ← node item with
  | .mapping _ [(first, second)] =>
    discard <| meet file first
    discard <| meet file second
    return (first, second)
  | _ => refuse

/-- The content of a collection, all parts of which are met. -/
def collection (file : Text) (bound number : Nat) : Building Content := do
  match ← node number with
  | .sequence .sequence items =>
    items.forM fun item => discard (meet file item)
    return .items items
  | .sequence .pairs items => return .pairs (← items.mapM (meetPair file))
  | .mapping tag _ =>
    if tag == .mapping || tag == .set then
      mergeAt bound number
      let entries ← meetEntries file (← node number).entries
      if tag == .set then return .members (Scalar.setOf (entries.map (·.1)))
      else return .entries (Entries.ofPairs entries)
    else refuse
  | _ => refuse

/-- Completes the given collections, in order, and those met meanwhile; the first number bounds how
often there are such. -/
def complete (file : Text) (bound : Nat) : Nat → List Nat → Building Unit
  | _, [] => return
  | 0, _ => refuse
  | rounds + 1, numbers => do
    numbers.forM fun number => do keep number (← collection file bound number)
    let met := (← get).waiting.reverse
    modify fun state => { state with waiting := [] }
    complete file bound rounds met

/-- Meets the outermost node and all nodes that belong to it. -/
def meetAll (file : Text) (root : Nat) : Building Unit := do
  discard <| meet file root
  let state ← get
  set { state with waiting := [] }
  complete file state.nodes.mergeBound (state.nodes.size + 1) state.waiting

end Building

/-! ## Values -/

/-- Whether a node stands for a mapping. -/
def isMappingAt (contents : Array (Option Content)) (number : Nat) : Bool :=
  match contents[number]?.join with
  | some (.entries _) => true
  | _ => false

/-- The value of a node by the contents of all.  The first number bounds the depth, and `around` are
the nodes around this one, the innermost first; where one of them is met again the value has a mark.
A mapping has the number of its node as its label. -/
def assemble (file : Text) (contents : Array (Option Content)) :
    Nat → List Nat → Nat → Option Value
  | 0, _, _ => none
  | depth + 1, around, number =>
    match around.idxOf? number with
    | some levels =>
      some (.scalar (.again ⟨levels, isMappingAt contents number, file, number⟩))
    | none =>
      let part := assemble file contents depth (number :: around)
      match contents[number]?.join with
      | some (.scalar s) => some (.scalar s)
      | some (.items items) => return .sequence (← items.mapM part)
      | some (.entries entries) => do
        let parts ← entries.mapM fun entry => (part entry.2).map (entry.1, ·)
        return .mapping (some number) parts
      | some (.members members) => some (.set members)
      | some (.pairs pairs) => do
        let parts ← pairs.mapM fun pair => do return .pair (← part pair.1) (← part pair.2)
        return .sequence parts
      | _ => none

/-- The value that the nodes of a document stand for, in which every mapping has a label. -/
def NodeTree.value (file : Text) (tree : NodeTree) : Reading Value := do
  let start : BuildState :=
    { nodes := tree.nodes, contents := Array.replicate tree.nodes.size none }
  let (_, state) ← (Building.meetAll file tree.root).run start
  required (assemble file state.contents (tree.nodes.size + 1) [] tree.root)

end SchemaCodecs.Yaml
