/-
# Breaking cycles

A declaration can be released when it waits only for those of its own component.  As long as
declarations remain there is such a one: the remaining declarations that are reached from as few
others as possible reach nothing that remains but each other.

* `exists_lowest`, `exists_waitsWithin` : declarations that wait only for those of their own component;
* `canStart_iff` : the test for such declarations, once the components are known;
* `exists_breakingNode` : a cycle can be broken as long as declarations remain.
-/
import SchemaCodecs.Order.Sort
import SchemaCodecs.Proofs.Order.Components
import Mathlib.Data.Fintype.EquivFin
import Mathlib.Order.WellFounded

namespace SchemaCodecs

variable {graph : Graph}

/-! ## Nodes that wait only for their own component -/

/-- What a node refers to has been released or is together with it. -/
def Graph.WaitsWithin (graph : Graph) (released : List Nat) (node : Nat) : Prop :=
  ∀ other ∈ graph.next node, other ∈ released ∨ graph.Together node other

/-- One node of the graph leads to another, but not the other way round. -/
def Graph.Below (graph : Graph) (a b : Fin graph.length) : Prop :=
  graph.Reach b a ∧ ¬ graph.Reach a b

/-- Going down without a way back comes to an end. -/
theorem Graph.wellFounded_below (graph : Graph) : WellFounded graph.Below := by
  have : IsTrans (Fin graph.length) graph.Below :=
    ⟨fun a b c hab hbc => ⟨hbc.1.trans hab.1, fun hac => hab.2 (hac.trans hbc.1)⟩⟩
  have : Std.Irrefl graph.Below := ⟨fun a h => h.2 h.1⟩
  exact Finite.wellFounded_of_trans_of_irrefl _

/-- A remaining node leads to a remaining one from which all ways to remaining nodes lead back. -/
theorem exists_lowest (closed : graph.Closed) {released : List Nat} {first : Nat}
    (hfirst : first < graph.length) (hremains : first ∉ released) :
    ∃ node < graph.length, graph.Reach first node ∧ node ∉ released ∧
      ∀ other, graph.Reach node other → other ∉ released → graph.Together node other := by
  obtain ⟨node, ⟨hreach, hnode⟩, hlowest⟩ :=
    graph.wellFounded_below.has_min {a | graph.Reach first a.val ∧ a.val ∉ released}
      ⟨⟨first, hfirst⟩, Graph.Reach.refl graph first, hremains⟩
  refine ⟨node.val, node.isLt, hreach, hnode, fun other hother hleft => ⟨hother, ?_⟩⟩
  -- Otherwise the other node would be a lower one that remains.
  by_contra hno
  have hlt : other < graph.length :=
    hother.mem_of_closed (P := (· < graph.length)) (fun a _ => closed a) node.isLt
  exact hlowest ⟨other, hlt⟩ ⟨hreach.trans hother, hleft⟩ ⟨hother, hno⟩

/-- As long as nodes remain, one of them waits only for its own component. -/
theorem exists_waitsWithin (closed : graph.Closed) {released : List Nat}
    (left : ∃ node < graph.length, node ∉ released) :
    ∃ node < graph.length, node ∉ released ∧ graph.WaitsWithin released node := by
  obtain ⟨first, hfirst, hremains⟩ := left
  obtain ⟨node, hlt, -, hnode, hlowest⟩ := exists_lowest closed hfirst hremains
  refine ⟨node, hlt, hnode, fun other hother => ?_⟩
  by_cases hreleased : other ∈ released
  · exact Or.inl hreleased
  · exact Or.inr (hlowest other (Graph.Reach.of_mem hother) hreleased)

/-! ## Components by number -/

/-- The value of a key that occurs once is found. -/
theorem lookup_of_mem {α : Type} {map : NodeMap α} (nodup : (map.map (·.1)).Nodup) {node : Nat}
    {a : α} (h : (node, a) ∈ map) : map.lookup node = some a := by
  induction map with
  | nil => cases h
  | cons entry rest ih =>
    rw [List.map_cons, List.nodup_cons] at nodup
    rcases List.mem_cons.1 h with rfl | h
    · exact List.lookup_cons_self
    · have hne : node ≠ entry.1 := by
        rintro rfl
        exact nodup.1 (List.mem_map_of_mem (f := (·.1)) h)
      rw [show entry = (entry.1, entry.2) from rfl, lookup_cons_of_ne hne]
      exact ih nodup.2 h

namespace Order

/-- The nodes that have a component are those of the components. -/
theorem map_componentOf (components : List (List Nat)) :
    (componentOf components).map (·.1) = components.flatten := by
  have hzip : ∀ k, ((components.zipIdx k).flatMap fun numbered =>
      numbered.1.map fun node => (node, numbered.2)).map (·.1) = components.flatten := by
    induction components with
    | nil => exact fun _ => rfl
    | cons component rest ih =>
      intro k
      rw [List.zipIdx_cons, List.flatMap_cons, List.map_append, ih, List.flatten_cons, List.map_map]
      simp [Function.comp_def]
  exact hzip 0

theorem lookup_componentOf {components : List (List Nat)} (nodup : components.flatten.Nodup)
    {i : Nat} {component : List Nat} (h : components[i]? = some component) {node : Nat}
    (hnode : node ∈ component) : (componentOf components).lookup node = some i := by
  refine lookup_of_mem (by rw [map_componentOf]; exact nodup) ?_
  rw [componentOf, List.mem_flatMap]
  exact ⟨(component, i), List.mem_zipIdx_iff_getElem?.2 h, List.mem_map_of_mem hnode⟩

/-- Nodes are together if they have the same component. -/
theorem lookup_componentOf_eq_iff {components : List (List Nat)}
    (h : AreComponents graph components) {a b : Nat} (ha : a < graph.length)
    (hb : b < graph.length) :
    (componentOf components).lookup a = (componentOf components).lookup b
      ↔ graph.Together b a := by
  obtain ⟨own, hown, hamem⟩ := List.mem_flatten.1 ((h.covers a).2 ha)
  obtain ⟨other, hother, hbmem⟩ := List.mem_flatten.1 ((h.covers b).2 hb)
  obtain ⟨i, hi⟩ := List.mem_iff_getElem?.1 hown
  obtain ⟨j, hj⟩ := List.mem_iff_getElem?.1 hother
  rw [lookup_componentOf h.nodup hi hamem, lookup_componentOf h.nodup hj hbmem, Option.some_inj]
  constructor
  · rintro rfl
    obtain rfl := Option.some.inj (hi.symm.trans hj)
    exact ((h.together own hown).2 b hbmem a).1 hamem
  · intro htogether
    have hmem : a ∈ other := ((h.together other hother).2 b hbmem a).2 htogether
    have hsame := lookup_componentOf h.nodup hj hmem
    rw [lookup_componentOf h.nodup hi hamem] at hsame
    exact Option.some.inj hsame

/-- The declarations that can start a cycle are those that wait only for their own component. -/
theorem canStart_iff {components : List (List Nat)} (closed : graph.Closed)
    (h : AreComponents graph components) {released : List Nat} {node : Nat}
    (hnode : node < graph.length) :
    canStart graph (componentOf components) released node = true
      ↔ node ∉ released ∧ graph.WaitsWithin released node := by
  rw [canStart, Bool.and_eq_true, Bool.not_eq_true', List.contains_eq_mem, decide_eq_false_iff_not,
    List.all_eq_true]
  refine and_congr_right fun _ => forall_congr' fun other => ?_
  rw [Graph.dependencies, List.mem_filter, bne_iff_ne, Bool.or_eq_true, List.contains_iff_mem,
    beq_iff_eq]
  constructor
  · intro hwaits hother
    by_cases heq : other = node
    · rw [heq]
      exact Or.inr (Graph.Together.refl graph node)
    · rw [← lookup_componentOf_eq_iff h (closed node other hother) hnode]
      exact hwaits ⟨hother, heq⟩
  · rintro hwaits ⟨hother, -⟩
    rw [lookup_componentOf_eq_iff h (closed node other hother) hnode]
    exact hwaits hother

/-! ## The lowest name -/

theorem lowest?_eq_none {named : List (Text × Nat)} : lowest? named = none ↔ named = [] := by
  cases named with
  | nil => simp [lowest?]
  | cons first rest =>
    rw [lowest?]
    split <;> simp

/-- The lowest name is one of the names. -/
theorem mem_of_lowest? {named : List (Text × Nat)} {found : Text × Nat}
    (h : lowest? named = some found) : found ∈ named := by
  induction named generalizing found with
  | nil => cases h
  | cons first rest ih =>
    rw [lowest?] at h
    split at h
    · obtain rfl := Option.some.inj h
      exact List.mem_cons_self
    · next other hother =>
      obtain rfl := Option.some.inj h
      split
      · exact List.mem_cons_of_mem _ (ih hother)
      · exact List.mem_cons_self

/-! ## The declaration at which a cycle is broken -/

/-- A cycle is broken at a declaration that waits only for its own component. -/
theorem waitsWithin_of_breakingNode? {components : List (List Nat)} (closed : graph.Closed)
    (h : AreComponents graph components) {name? : Nat → Option Text} {released : List Nat}
    {node : Nat} (hfound : breakingNode? graph (componentOf components) name? released = some node) :
    node < graph.length ∧ node ∉ released ∧ graph.WaitsWithin released node := by
  obtain ⟨found, hlowest, rfl⟩ := Option.map_eq_some_iff.1 hfound
  obtain ⟨candidate, hcandidate, hnamed⟩ := List.mem_filterMap.1 (mem_of_lowest? hlowest)
  obtain ⟨name, -, rfl⟩ := Option.map_eq_some_iff.1 hnamed
  obtain ⟨hrange, hstart⟩ := List.mem_filter.1 hcandidate
  have hlt : candidate < graph.length := List.mem_range.1 hrange
  exact ⟨hlt, (canStart_iff closed h hlt).1 hstart⟩

/-- **There is always a cycle to break.**  As long as declarations remain, there is one at which a
cycle can be broken. -/
theorem exists_breakingNode {components : List (List Nat)} (closed : graph.Closed)
    (h : AreComponents graph components) {name? : Nat → Option Text}
    (named : ∀ node < graph.length, ∃ name, name? node = some name) {released : List Nat}
    (left : ∃ node < graph.length, node ∉ released) :
    ∃ node, breakingNode? graph (componentOf components) name? released = some node := by
  obtain ⟨node, hlt, hremains⟩ := exists_waitsWithin closed left
  obtain ⟨name, hname⟩ := named node hlt
  have hcandidate : (name, node) ∈ ((List.range graph.length).filter
      (canStart graph (componentOf components) released)).filterMap
        fun node => (name? node).map (·, node) := by
    refine List.mem_filterMap.2 ⟨node, ?_, by rw [hname]; rfl⟩
    exact List.mem_filter.2 ⟨List.mem_range.2 hlt, (canStart_iff closed h hlt).2 hremains⟩
  cases hlowest : lowest? (((List.range graph.length).filter
      (canStart graph (componentOf components) released)).filterMap
        fun node => (name? node).map (·, node)) with
  | none =>
    rw [lowest?_eq_none.1 hlowest] at hcandidate
    cases hcandidate
  | some found =>
    refine ⟨found.2, ?_⟩
    rw [breakingNode?]
    exact congrArg (Option.map (·.2)) hlowest

end Order

end SchemaCodecs
