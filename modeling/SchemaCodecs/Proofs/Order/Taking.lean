/-
# The node that is released next

Between two releases the nodes found to be ready ascend, and they are exactly those that remain and
wait for nothing.  So the node that is released next is the first one that waits for nothing; when
there is none, it is the one of the lowest name among those that wait only for their own component.
None of this depends on the order in which the references of a node are listed.

* `Takes`, `Taken` : the rule, and nodes that were released by it;
* `exists_taken` : all nodes are released by the rule;
* `lookup_fillDependents` : a table of dependents that is filled in any order is the same;
* `Taken.congr` : the rule for the same references in another order.
-/
import SchemaCodecs.Proofs.Order.Release
import SchemaCodecs.Proofs.Text.Points

namespace SchemaCodecs.Order

variable {graph graph' : Graph} {name? : Nat → Option Text} {p next : Progress} {node : Nat}
  {released : List Nat}

/-! ## The rule -/

/-- A node of the graph that has not been released. -/
def Remains (graph : Graph) (released : List Nat) (node : Nat) : Prop :=
  node < graph.length ∧ node ∉ released

/-- The node that is released next, after some nodes have been released. -/
inductive Takes (graph : Graph) (name? : Nat → Option Text) (released : List Nat) (node : Nat) :
    Prop where
  /-- It waits for nothing and comes before all others that wait for nothing. -/
  | free (remains : Remains graph released node) (free : waiting graph released node = [])
      (first : ∀ other, Remains graph released other → waiting graph released other = [] →
        node ≤ other)
  /-- Each node waits for something, and this one has the lowest name of those that wait only for
  their own component. -/
  | breaking (remains : Remains graph released node)
      (stuck : ∀ other, Remains graph released other → waiting graph released other ≠ [])
      (within : graph.WaitsWithin released node)
      (lowest : ∀ other, Remains graph released other → graph.WaitsWithin released other →
        ∀ a b, name? node = some a → name? other = some b → a ≤ b)

/-- Nodes that were released by the rule, the last one first. -/
inductive Taken (graph : Graph) (name? : Nat → Option Text) : List Nat → Prop where
  /-- Nothing has been released. -/
  | nil : Taken graph name? []
  /-- One more node has been released. -/
  | cons {released : List Nat} {node : Nat} (takes : Takes graph name? released node)
      (taken : Taken graph name? released) : Taken graph name? (node :: released)

/-! ## The ready nodes ascend -/

/-- An ascending list with one more node ascends. -/
theorem ascending_insertReady {ready : List Nat} (h : ready.Pairwise (· ≤ ·)) (node : Nat) :
    (insertReady node ready).Pairwise (· ≤ ·) := by
  induction ready with
  | nil => exact List.pairwise_singleton _ _
  | cons first rest ih =>
    obtain ⟨hfirst, hrest⟩ := List.pairwise_cons.1 h
    rw [insertReady]
    split
    · next hle =>
      refine List.pairwise_cons.2 ⟨fun other hother => ?_, h⟩
      rcases List.mem_cons.1 hother with rfl | hother
      · exact hle
      · exact hle.trans (hfirst other hother)
    · next hlt =>
      refine List.pairwise_cons.2 ⟨fun other hother => ?_, ih hrest⟩
      rcases mem_insertReady_iff.1 hother with rfl | hother
      · omega
      · exact hfirst other hother

/-- Counting a dependency leaves the ready nodes ascending. -/
theorem ascending_discharge (h : p.ready.Pairwise (· ≤ ·)) (hnext : p.discharge node = some next) :
    next.ready.Pairwise (· ≤ ·) := by
  obtain ⟨count, -, rfl⟩ := Option.map_eq_some_iff.1 hnext
  dsimp only
  split
  · exact ascending_insertReady h node
  · exact h

theorem ascending_release (h : p.ready.Pairwise (· ≤ ·))
    (hnext : p.release graph node = some next) : next.ready.Pairwise (· ≤ ·) :=
  kept_of_release ascending_discharge h hnext

/-! ## The lowest name -/

/-- The lowest name is not above any of the names. -/
theorem le_of_lowest? {named : List (Text × Nat)} {found : Text × Nat}
    (h : lowest? named = some found) : ∀ other ∈ named, found.1 ≤ other.1 := by
  induction named generalizing found with
  | nil => cases h
  | cons first rest ih =>
    intro other hother
    rw [lowest?] at h
    split at h
    · next hnone =>
      obtain rfl := Option.some.inj h
      rw [lowest?_eq_none.1 hnone, List.mem_singleton] at hother
      rw [hother]
    · next lower hlower =>
      obtain rfl := Option.some.inj h
      rcases List.mem_cons.1 hother with rfl | hother
      · split
        · next hlt => exact hlt.le
        · exact le_rfl
      · have hle := ih hlower other hother
        split
        · exact hle
        · next hge => exact (not_lt.1 hge).trans hle

/-- A cycle is broken at the lowest name of those that wait only for their own component. -/
theorem le_of_breakingNode? {components : List (List Nat)} (closed : graph.Closed)
    (h : AreComponents graph components)
    (hfound : breakingNode? graph (componentOf components) name? released = some node) {other : Nat}
    (remains : Remains graph released other) (within : graph.WaitsWithin released other)
    {a b : Text} (ha : name? node = some a) (hb : name? other = some b) : a ≤ b := by
  obtain ⟨found, hlowest, rfl⟩ := Option.map_eq_some_iff.1 hfound
  obtain ⟨candidate, -, hnamed⟩ := List.mem_filterMap.1 (mem_of_lowest? hlowest)
  obtain ⟨name, hname, rfl⟩ := Option.map_eq_some_iff.1 hnamed
  obtain rfl : name = a := Option.some.inj (hname.symm.trans ha)
  refine le_of_lowest? hlowest (b, other) (List.mem_filterMap.2 ⟨other, ?_, by rw [hb]; rfl⟩)
  exact List.mem_filter.2 ⟨List.mem_range.2 remains.1,
    (canStart_iff closed h remains.1).2 ⟨remains.2, within⟩⟩

/-! ## All releases follow the rule -/

/-- A ready node that has not been released is the next by the rule. -/
theorem Releasing.takes_ready (h : Releasing graph p) (ascending : p.ready.Pairwise (· ≤ ·))
    {rest : List Nat} (hready : p.ready = node :: rest) (new : node ∉ p.released) :
    Takes graph name? p.released node := by
  have hmem : node ∈ p.ready := by
    rw [hready]
    exact List.mem_cons_self
  obtain ⟨hlt, hnil⟩ := h.ready node hmem
  refine .free ⟨hlt, new⟩ hnil fun other remains hfree => ?_
  have hother := (h.found other remains.1 hfree).resolve_left remains.2
  rw [hready] at hother ascending
  rcases List.mem_cons.1 hother with rfl | hother
  · exact le_rfl
  · exact (List.pairwise_cons.1 ascending).1 other hother

/-- When no node is ready, the node at which a cycle is broken is the next by the rule. -/
theorem Releasing.takes_breaking {components : List (List Nat)} (closed : graph.Closed)
    (hcomponents : AreComponents graph components) (h : Releasing graph p) (hready : p.ready = [])
    (hfound : breakingNode? graph (componentOf components) name? p.released = some node) :
    Takes graph name? p.released node := by
  obtain ⟨hlt, hnew, hwithin⟩ := waitsWithin_of_breakingNode? closed hcomponents hfound
  refine .breaking ⟨hlt, hnew⟩ (fun other remains hfree => ?_) hwithin
    fun other remains within a b ha hb =>
      le_of_breakingNode? closed hcomponents hfound remains within ha hb
  have hother := (h.found other remains.1 hfree).resolve_left remains.2
  rw [hready] at hother
  cases hother

/-- Each step keeps the ready nodes ascending and releases the next node by the rule. -/
theorem kept_taken {components : List (List Nat)} (closed : graph.Closed)
    (hcomponents : AreComponents graph components) :
    Kept graph (componentOf components) name? fun p =>
      p.ready.Pairwise (· ≤ ·) ∧ Taken graph name? p.released where
  drop := by
    rintro p node rest - ⟨ascending, taken⟩ hready -
    rw [hready] at ascending
    exact ⟨(List.pairwise_cons.1 ascending).2, taken⟩
  ready := by
    rintro p node rest next h ⟨ascending, taken⟩ hready new hnext
    have takes : Takes graph name? p.released node := h.takes_ready ascending hready new
    rw [hready] at ascending
    have hrest : ({ p with ready := rest } : Progress).ready.Pairwise (· ≤ ·) :=
      (List.pairwise_cons.1 ascending).2
    refine ⟨ascending_release hrest hnext, ?_⟩
    rw [released_of_release hnext]
    exact .cons takes taken
  breaking := by
    rintro p node next h ⟨ascending, taken⟩ hready hfound hnext
    have hready' : ({ p with broken := node :: p.broken } : Progress).ready.Pairwise (· ≤ ·) :=
      ascending
    refine ⟨ascending_release hready' hnext, ?_⟩
    rw [released_of_release hnext]
    have takes : Takes graph name? p.released node :=
      h.takes_breaking closed hcomponents hready hfound
    exact .cons takes taken

/-- **All releases follow the rule.** -/
theorem exists_taken {components : List (List Nat)} (closed : graph.Closed)
    (distinct : ∀ v, (graph.next v).Nodup) (hcomponents : AreComponents graph components)
    (named : ∀ node < graph.length, ∃ name, name? node = some name) :
    ∃ last, releaseAll graph (componentOf components) name? (Progress.start graph) = .ok last ∧
      Taken graph name? last.released ∧ last.released.Perm (List.range graph.length) := by
  have ascending : (Progress.start graph).ready.Pairwise (· ≤ ·) :=
    (List.pairwise_le_range).filter _
  obtain ⟨last, hlast, -, ⟨-, htaken⟩, hperm⟩ :=
    releaseAll_kept closed distinct hcomponents named (kept_taken closed hcomponents) _
      (releasing_start graph) ⟨ascending, .nil⟩
  exact ⟨last, hlast, htaken, hperm⟩

/-! ## The same references in another order -/

/-- Two graphs with the same references, which may be listed in different orders. -/
def SameReferences (graph graph' : Graph) : Prop := List.Forall₂ List.Perm graph graph'

namespace SameReferences

variable (h : SameReferences graph graph')

include h

theorem length_eq : List.length graph = List.length graph' :=
  List.Forall₂.length_eq h

/-- The references of each node are the same in some order. -/
theorem next_perm (v : Nat) : (graph.next v).Perm (graph'.next v) := by
  have hrows := List.forall₂_iff_get.1 h
  rw [Graph.next, Graph.next]
  by_cases hv : v < List.length graph
  · have hv' : v < List.length graph' := hrows.1 ▸ hv
    rw [List.getElem?_eq_getElem hv, List.getElem?_eq_getElem hv']
    exact hrows.2 v hv hv'
  · rw [List.getElem?_eq_none (by omega), List.getElem?_eq_none (by have := hrows.1; omega)]

/-- Nodes are together along the same references. -/
theorem together_eq : graph.Together = graph'.Together := by
  have hstep : graph.Step = graph'.Step := by
    funext a b
    exact propext (h.next_perm a).mem_iff
  funext a b
  rw [Graph.Together, Graph.Together, Graph.Reach, Graph.Reach, hstep]

theorem remains_iff {v : Nat} : Remains graph released v ↔ Remains graph' released v := by
  rw [Remains, Remains, h.length_eq]

theorem waiting_eq_nil_iff {v : Nat} :
    waiting graph released v = [] ↔ waiting graph' released v = [] := by
  simp only [List.eq_nil_iff_forall_not_mem, mem_waiting_iff, (h.next_perm v).mem_iff]

theorem waitsWithin_iff {v : Nat} :
    graph.WaitsWithin released v ↔ graph'.WaitsWithin released v := by
  simp only [Graph.WaitsWithin, (h.next_perm v).mem_iff, h.together_eq]

/-- The same node is the next by the rule. -/
theorem takes (next : Takes graph name? released node) : Takes graph' name? released node := by
  cases next with
  | free remains free first =>
    simp only [h.remains_iff, h.waiting_eq_nil_iff] at remains free first
    exact .free remains free first
  | breaking remains stuck within lowest =>
    simp only [h.remains_iff, ne_eq, h.waiting_eq_nil_iff, h.waitsWithin_iff]
      at remains stuck within lowest
    exact .breaking remains stuck within lowest

/-- The components are the same. -/
theorem areComponents {components : List (List Nat)} (hcomponents : AreComponents graph components) :
    AreComponents graph' components where
  covers v := by rw [hcomponents.covers v, h.length_eq]
  nodup := hcomponents.nodup
  together := by
    rw [← h.together_eq]
    exact hcomponents.together

theorem closed (hclosed : graph.Closed) : graph'.Closed := by
  intro a b hb
  rw [← h.length_eq]
  exact hclosed a b ((h.next_perm a).mem_iff.2 hb)

theorem distinct (hdistinct : ∀ v, (graph.next v).Nodup) (v : Nat) : (graph'.next v).Nodup :=
  (h.next_perm v).nodup_iff.1 (hdistinct v)

end SameReferences

/-- Nodes are released by the rule for the same references in another order. -/
theorem Taken.congr (h : SameReferences graph graph') (taken : Taken graph name? released) :
    Taken graph' name? released := by
  induction taken with
  | nil => exact .nil
  | cons takes _ ih => exact .cons (h.takes takes) ih

theorem SameReferences.refl (graph : Graph) : SameReferences graph graph :=
  List.forall₂_same.2 fun row _ => List.Perm.refl row

theorem SameReferences.symm (h : SameReferences graph graph') : SameReferences graph' graph :=
  List.Forall₂.flip (List.Forall₂.imp (fun _ _ hperm => List.Perm.symm hperm) h)

/-! ## The table of dependents -/

/-- Notes a node as a dependent of others. -/
def noteDependent (node : Nat) (table : NodeMap (List Nat)) (others : List Nat) :
    NodeMap (List Nat) :=
  others.foldl (fun table other => (other, (table.lookup other).getD [] ++ [node]) :: table) table

/-- The table of dependents, filled from the dependencies of one node after another. -/
def fillDependents (graph : Graph) : NodeMap (List Nat) :=
  (List.range graph.length).foldl
    (fun table node => noteDependent node table (graph.dependencies node)) []

/-- A node is noted once as a dependent of each of the others. -/
theorem lookup_noteDependent {others : List Nat} (nodup : others.Nodup) (node : Nat)
    (table : NodeMap (List Nat)) (v : Nat) :
    ((noteDependent node table others).lookup v).getD []
      = (table.lookup v).getD [] ++ if v ∈ others then [node] else [] := by
  induction others generalizing table with
  | nil => simp [noteDependent]
  | cons first rest ih =>
    obtain ⟨hfirst, hrest⟩ := List.nodup_cons.1 nodup
    rw [noteDependent, List.foldl_cons]
    refine (ih hrest _).trans ?_
    by_cases hv : v = first
    · subst hv
      rw [List.lookup_cons_self, if_neg hfirst, if_pos List.mem_cons_self]
      simp
    · rw [lookup_cons_of_ne hv]
      simp [hv]

/-- **The table of dependents** gives for each node those that depend on it, whatever the order in
which the dependencies are listed. -/
theorem lookup_fillDependents (distinct : ∀ v, (graph.next v).Nodup) (v : Nat) :
    ((fillDependents graph).lookup v).getD [] = graph.dependents v := by
  have hfold : ∀ (nodes : List Nat) (table : NodeMap (List Nat)),
      ((nodes.foldl (fun table node => noteDependent node table (graph.dependencies node))
        table).lookup v).getD []
        = (table.lookup v).getD [] ++
          nodes.filter fun other => (graph.dependencies other).contains v := by
    intro nodes
    induction nodes with
    | nil => simp
    | cons first rest ih =>
      intro table
      have hnodup : (graph.dependencies first).Nodup := (distinct first).filter _
      rw [List.foldl_cons, ih, lookup_noteDependent hnodup, List.filter_cons, List.append_assoc]
      simp only [List.contains_iff_mem]
      split <;> rfl
  exact hfold _ _

end SchemaCodecs.Order
