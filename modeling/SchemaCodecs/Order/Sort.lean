/-
# Ordering declarations

A codec can only use names that are defined before it, so every declaration has to come after the
ones it refers to.  Declarations are released one at a time.  One of which all dependencies have been
released is taken first, the earliest in the document before others; counters tell when that is so.
When no declaration is ready, a cycle is broken at the lowest name that only waits for names of its
own cycle.

The names in a type are found however deep they are nested.  That a run bounds the depth of its calls,
and ends where a type is nested deeper, is left out.
-/
import SchemaCodecs.Declaration.TypeExpr
import SchemaCodecs.Order.Components

namespace SchemaCodecs

namespace Order

/-! ## Releasing -/

/-- What is known while declarations are released. -/
structure Progress where
  /-- For each declaration how many of its dependencies have not been released. -/
  pending : NodeMap Int
  /-- The declarations found to be ready, in ascending order. -/
  ready : List Nat
  /-- The declarations that have been released, the last one first. -/
  released : List Nat := []
  /-- Those of them at which a cycle was broken. -/
  broken : List Nat := []
  deriving Inhabited

/-- An ascending list with one more node. -/
def insertReady (node : Nat) : List Nat → List Nat
  | [] => [node]
  | other :: rest => if node ≤ other then node :: other :: rest else other :: insertReady node rest

/-- Counts a dependency of a declaration as released; with the last one the declaration is ready. -/
def Progress.discharge (p : Progress) (node : Nat) : Option Progress :=
  (p.pending.lookup node).map fun count =>
    let counted := { p with pending := (node, count - 1) :: p.pending }
    if count - 1 = 0 ∧ node ∉ p.released then { counted with ready := insertReady node p.ready }
    else counted

/-- Releases a declaration and tells those that depend on it. -/
def Progress.release (graph : Graph) (p : Progress) (node : Nat) : Option Progress :=
  (graph.dependents node).foldlM Progress.discharge { p with released := node :: p.released }

/-- Counting dependencies releases nothing. -/
theorem released_of_discharge {p next : Progress} {node : Nat} (h : p.discharge node = some next) :
    next.released = p.released := by
  obtain ⟨count, -, rfl⟩ := Option.map_eq_some_iff.1 h
  simp only
  split <;> rfl

/-- Releasing a declaration releases just this one. -/
theorem released_of_release {graph : Graph} {p next : Progress} {node : Nat}
    (h : p.release graph node = some next) : next.released = node :: p.released := by
  have hfold : ∀ (nodes : List Nat) (q : Progress),
      nodes.foldlM Progress.discharge q = some next → next.released = q.released := by
    intro nodes
    induction nodes with
    | nil =>
      intro q hq
      cases hq
      rfl
    | cons first rest ih =>
      intro q hq
      rw [List.foldlM_cons] at hq
      obtain ⟨r, hr, hrest⟩ := Option.bind_eq_some_iff.1 hq
      rw [ih r hrest, released_of_discharge hr]
  exact hfold _ _ h

/-! ## Breaking cycles -/

/-- The number of the component of each node. -/
def componentOf (components : List (List Nat)) : NodeMap Nat :=
  components.zipIdx.flatMap fun numbered => numbered.1.map fun node => (node, numbered.2)

/-- Whether a declaration that has not been released waits only for those of its own component. -/
def canStart (graph : Graph) (component : NodeMap Nat) (released : List Nat) (node : Nat) : Bool :=
  !released.contains node && (graph.dependencies node).all fun other =>
    released.contains other || component.lookup other == component.lookup node

/-- The node of the lowest name. -/
def lowest? : List (Text × Nat) → Option (Text × Nat)
  | [] => none
  | named :: rest =>
    match lowest? rest with
    | none => some named
    | some other => some (if other.1 < named.1 then other else named)

/-- The declaration of the lowest name among those that can start a cycle. -/
def breakingNode? (graph : Graph) (component : NodeMap Nat) (name? : Nat → Option Text)
    (released : List Nat) : Option Nat :=
  let candidates := (List.range graph.length).filter (canStart graph component released)
  (lowest? (candidates.filterMap fun node => (name? node).map (·, node))).map (·.2)

/-! ## All releases -/

/-- Releases declarations until none is left. -/
def releaseAll (graph : Graph) (component : NodeMap Nat) (name? : Nat → Option Text)
    (p : Progress) : Except Fault Progress :=
  if p.released.length < graph.length then
    match ready : p.ready with
    | node :: rest =>
      have : rest.length < p.ready.length := ready ▸ Nat.lt_succ_self _
      if p.released.contains node then
        releaseAll graph component name? { p with ready := rest }
      else
        match found : { p with ready := rest }.release graph node with
        | none => .error (.illTyped .lacksPart)
        | some next =>
          have := released_of_release found
          releaseAll graph component name? next
    | [] =>
      match breakingNode? graph component name? p.released with
      | none => .error (.invalid .noCandidate)
      | some node =>
        match found : { p with broken := node :: p.broken }.release graph node with
        | none => .error (.illTyped .lacksPart)
        | some next =>
          have := released_of_release found
          releaseAll graph component name? next
  else .ok p
termination_by (graph.length - p.released.length, p.ready.length)
decreasing_by
  · exact Prod.Lex.right _ this
  · refine Prod.Lex.left _ _ ?_
    rw [this, List.length_cons]
    show graph.length - (p.released.length + 1) < graph.length - p.released.length
    omega
  · refine Prod.Lex.left _ _ ?_
    rw [this, List.length_cons]
    show graph.length - (p.released.length + 1) < graph.length - p.released.length
    omega

/-! ## Sorting -/

/-- Ordered declarations. -/
structure Sorted where
  /-- The declarations in order. -/
  declarations : List Declaration
  /-- The cycles among them, each in ascending order. -/
  cycles : List (List Text)
  /-- The names at which cycles were broken, in order. -/
  broken : List Text
  deriving Inhabited

/-- The place of the declaration of a name. -/
def placeOf? (declarations : List Declaration) (name : Text) : Option Nat :=
  declarations.findIdx? fun d => d.name.text? == some name

/-- The name of the declaration at a place. -/
def nameAt? (declarations : List Declaration) (place : Nat) : Option Text :=
  (declarations[place]?).bind fun d => d.name.text?

/-- The references of declarations to each other. -/
def graphOf (declarations : List Declaration) (references : List (List Text)) : Graph :=
  references.map fun names => names.filterMap (placeOf? declarations)

/-- Whether the nodes of a component refer to each other or to themselves. -/
def isCycle (graph : Graph) : List Nat → Bool
  | [] => false
  | [node] => (graph.next node).contains node
  | _ => true

/-- The names of the components that are cycles.  Each lists its names in ascending order, and they
are ordered by their first names. -/
def cyclesOf (graph : Graph) (components : List (List Nat)) (name? : Nat → Option Text) :
    List (List Text) :=
  let named := (components.filter (isCycle graph)).map fun component =>
    (component.filterMap name?).mergeSort fun a b => decide (a ≤ b)
  named.mergeSort fun a b => decide (a.headD "" ≤ b.headD "")

/-- The state before the first release. -/
def Progress.start (graph : Graph) : Progress :=
  let nodes := List.range graph.length
  { pending := nodes.map fun node => (node, ((graph.dependencies node).length : Int))
    ready := nodes.filter fun node => (graph.dependencies node).isEmpty }

/-- What an operation gives that fails if something is missing. -/
def present {α : Type} : Option α → Except Fault α
  | some a => .ok a
  | none => .error (.illTyped .lacksPart)

/-- Declarations with their references, in an order in which references point backwards wherever
cycles allow it. -/
def arrange (declarations : List Declaration) (references : List (List Text)) :
    Except Fault Sorted := do
  let graph := graphOf declarations references
  let name? := nameAt? declarations
  let components ← present (components graph)
  let last ← releaseAll graph (componentOf components) name? (Progress.start graph)
  let ordered ← present (last.released.reverse.mapM (declarations[·]?))
  return {
    declarations := ordered
    cycles := cyclesOf graph components name?
    broken := last.broken.reverse.filterMap name? }

/-- Declarations in order of their references.  Their names have to be distinct: of several
declarations of one name only one would be released, and then none would be left to choose. -/
def sort (declarations : List Declaration) : Except Fault Sorted := do
  let references ← declarations.mapM Declaration.references?
  if allDistinctBy Scalar.same (declarations.map (·.name)) then arrange declarations references
  else .error (.invalid .noCandidate)

end Order

end SchemaCodecs
